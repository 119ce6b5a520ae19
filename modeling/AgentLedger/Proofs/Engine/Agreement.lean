import AgentLedger.Proofs.Engine.Effects
import AgentLedger.Proofs.Machine.Opcodes
import AgentLedger.Proofs.Wire.Block
import AgentLedger.Transaction.Draft

namespace AgentLedger

/-!
# Transactions and opcodes

What a transaction of its own kind does can also be done by calling code that consists of one
opcode. The call charges its base and then takes the same action, so the two succeed or fail
together, leave the same ledger, and differ by the base in the gas that they use.
-/

/-- A transaction does by itself what an operation does with an operand. -/
inductive Transaction.Does (tx : Transaction) (operand : Bytes) : Operation → Prop where
  | agentRegister (kind : tx.kind = .agentRegister) (payload : tx.payload = operand) :
      Does tx operand .agentRegister
  | agentSend (kind : tx.kind = .agentMessage) (payload : tx.payload = operand) :
      Does tx operand .agentSend
  | inferProve (kind : tx.kind = .inferenceReceipt) (payload : tx.payload = operand) :
      Does tx operand .inferProve
  | tokenTransfer {target : Address} (kind : tx.kind = .transfer)
      (recipient : tx.recipient = some target)
      (read : Wire.decodeOperand operand = .ok (TokenTransfer.mk target tx.value)) :
      Does tx operand .tokenTransfer

theorem Transaction.Does.kind_ne {tx : Transaction} {operand : Bytes} {op : Operation}
    (does : tx.Does operand op) : tx.kind ≠ .callContract := by
  intro kind'
  cases does with
  | agentRegister kind | agentSend kind | inferProve kind | tokenTransfer kind =>
      rw [kind] at kind'
      cases kind'

/-- A call has the sender and the nonce of a transaction, and the code that it calls is the opcode
for what the transaction does. Its gas limit allows for the call on top. -/
structure Transaction.Mirrors (call direct : Transaction) (c : Contents) : Prop where
  kind_eq : call.kind = .callContract
  sender_eq : call.sender = direct.sender
  nonce_eq : call.nonce = direct.nonce
  gasLimit_eq : call.gasLimit.toNat = direct.gasLimit.toNat + Gas.callBase.toNat
  calls : ∃ op operand contract, direct.Does operand op ∧ call.recipient = some contract ∧
    c.code? contract = some [(Opcode.operation op).byte] ∧
    Wire.decodeOperand call.payload = .ok (ContractCall.mk [operand])

namespace Engine

variable {e : Engine} {direct call : Transaction} {operand : Bytes} {op : Operation}

/-- A transaction of its own kind and the opcode for what it does come to the same action. -/
theorem exists_act (does : direct.Does operand op) (e : Engine) :
    ∃ act : Exec Unit, (∀ base, act.Shifts base) ∧ e.dispatch direct = Exec.paid op.gasCost act ∧
      ∀ f, f.caller = direct.sender →
        (e.machine.execute [(Opcode.operation op).byte] [operand]).runOn f =
          (Exec.paid op.gasCost act).runOn f := by
  rw [Machine.execute_operation]
  cases does with
  | agentRegister kind payload =>
      refine ⟨Exec.registerAgent operand, fun _ => (Exec.unmetered_registerAgent _).shifts, ?_,
        fun f _ => congrArg (·.runOn f) (Exec.paid_leaving _ _ fun _ => none)⟩
      simp only [dispatch, kind, payload]
      rfl
  | agentSend kind payload =>
      refine ⟨Exec.sendMessage operand, fun _ => (Exec.unmetered_sendMessage _).shifts, ?_,
        fun f _ => congrArg (·.runOn f) (Exec.paid_leaving _ _ fun _ => none)⟩
      simp only [dispatch, kind, payload]
      rfl
  | inferProve kind payload =>
      refine ⟨Exec.proveInference e.machine.verifyReceipt operand,
        fun _ => (Exec.unmetered_proveInference _ _).shifts, ?_,
        fun f _ => congrArg (·.runOn f) (Exec.paid_leaving _ _ fun _ => some [1])⟩
      -- The transaction asks the engine's own verifier, and the opcode that of the machine.
      simp only [dispatch, kind, payload, e.machine.inStep]
      rfl
  | @tokenTransfer target kind recipient read =>
      refine ⟨Exec.transfer direct.sender target direct.value,
        fun _ => (Exec.unmetered_transfer _ _ _).shifts, ?_, fun f same => ?_⟩
      · simp only [dispatch, kind, transfer, requireRecipient, recipient, bind_assoc,
          Exec.lift_ok_bind]
        rfl
      · -- The opcode moves from the caller, whom a charge does not change.
        simp only [Exec.paid, Exec.runOn_bind, Exec.runOn_charge]
        cases charged : f.charge Operation.tokenTransfer.gasCost with
        | error _ => rfl
        | ok g =>
            rw [← same, ← CallFrame.caller_of_charge charged]
            simp only [Machine.perform, Machine.required, Exec.lift_ok_bind, read,
              Exec.runOn_bind, Exec.runOn_get]
            cases (Exec.transfer g.caller target direct.value).runOn g with
            | mk r _ => cases r <;> rfl

/-- A call that has paid its base runs the code at its recipient. -/
theorem runOn_dispatch_call {f g : CallFrame} {contract : Address} {code : Bytes}
    {operands : List Bytes} (kind : call.kind = .callContract)
    (recipient : call.recipient = some contract)
    (found : f.ledger.contents.code? contract = some code)
    (read : Wire.decodeOperand call.payload = .ok (ContractCall.mk operands))
    (paid : f.charge Gas.callBase = .ok g) :
    (e.dispatch call).runOn f = (e.machine.execute code operands).runOn g := by
  rw [← CallFrame.ledger_of_charge paid] at found
  simp only [dispatch, kind, Engine.call, requireRecipient, recipient, Exec.runOn_bind,
    Exec.runOn_charge, paid, Exec.lift_ok_bind, Exec.runOn_contents, found, read]

/-- The outcomes of a transaction and of one that uses `base` more gas to the same end. -/
inductive SameButFor (base : UInt64) :
    Except ChainError Outcome → Except ChainError Outcome → Prop where
  | ok {used used' : UInt64} {output : Option Bytes}
      (more : used'.toNat = used.toNat + base.toNat) :
      SameButFor base (.ok ⟨used, output⟩) (.ok ⟨used', output⟩)
  | error {err err' : ChainError} (same : err.SameCause err') :
      SameButFor base (.error err) (.error err')

variable {l : Ledger}

theorem dispatch_of_mirrors (mirrors : call.Mirrors direct l.contents) (e : Engine)
    (height : UInt64) :
    let f := (e.dispatch direct).runOn (.enter l direct.sender direct.gasLimit height)
    let g := (e.dispatch call).runOn (.enter l call.sender call.gasLimit height)
    f.2.Ahead Gas.callBase g.2 ∧ SameEnd f.1 g.1 := by
  obtain ⟨kind, sender, _, limit, op, operand, contract, does, recipient, found, read⟩ := mirrors
  obtain ⟨act, shifts, own, opcode⟩ := exists_act does e
  let f : CallFrame := .enter l direct.sender direct.gasLimit height
  let g : CallFrame := .enter l call.sender call.gasLimit height
  have paid : g.charge Gas.callBase = .ok { g with gasUsed := 0 + Gas.callBase } := by
    refine if_pos ?_
    change 0 + Gas.callBase.toNat ≤ call.gasLimit.toNat
    omega
  have ahead : f.Ahead Gas.callBase { g with gasUsed := 0 + Gas.callBase } :=
    ⟨by simp only [f, g, CallFrame.enter, sender], rfl, limit⟩
  have called : (e.dispatch call).runOn g =
      (Exec.paid op.gasCost act).runOn { g with gasUsed := 0 + Gas.callBase } :=
    (runOn_dispatch_call kind recipient found read paid).trans (opcode _ sender)
  change ((e.dispatch direct).runOn f).2.Ahead _ ((e.dispatch call).runOn g).2 ∧
    SameEnd ((e.dispatch direct).runOn f).1 ((e.dispatch call).runOn g).1
  rw [own, called]
  exact Exec.shifts_paid (shifts _) f _ ahead

theorem attempt_of_mirrors (mirrors : call.Mirrors direct l.contents) (e : Engine)
    (height : UInt64) :
    SameButFor Gas.callBase (e.attempt direct height l).1 (e.attempt call height l).1 ∧
      (e.attempt call height l).2 = (e.attempt direct height l).2 := by
  obtain ⟨ahead, same⟩ := dispatch_of_mirrors mirrors e height
  unfold attempt
  cases ran : (e.dispatch direct).runOn (.enter l direct.sender direct.gasLimit height) with
  | mk r f =>
      cases ran' : (e.dispatch call).runOn (.enter l call.sender call.gasLimit height) with
      | mk s g =>
          rw [ran, ran'] at ahead same
          cases same with
          | error cause => exact ⟨.error cause, ahead.ledger_eq⟩
          | ok output =>
              refine ⟨.ok ahead.used, ?_⟩
              change e.noncePolicy.advance g.ledger call = e.noncePolicy.advance f.ledger direct
              unfold NoncePolicy.advance
              rw [ahead.ledger_eq, mirrors.sender_eq, mirrors.nonce_eq]

theorem apply_of_mirrors (mirrors : call.Mirrors direct l.contents) (e : Engine)
    (height : UInt64) :
    SameButFor Gas.callBase (e.apply l direct height).1 (e.apply l call height).1 ∧
      (e.apply l call height).2 = (e.apply l direct height).2 := by
  have stale : e.noncePolicy.check l call = e.noncePolicy.check l direct := by
    unfold NoncePolicy.check
    rw [mirrors.sender_eq, mirrors.nonce_eq]
  unfold apply
  rw [stale]
  cases e.noncePolicy.check l direct with
  | error err => exact ⟨.error (.refl err), rfl⟩
  | ok _ =>
      have opened : call.Mirrors direct l.checkpoint.2.contents := mirrors
      obtain ⟨same, ledger⟩ := attempt_of_mirrors opened e height
      simp only [Ledger.atomically_eq]
      cases ran : e.attempt direct height l.checkpoint.2 with
      | mk r f =>
          cases ran' : e.attempt call height l.checkpoint.2 with
          | mk s g =>
              rw [ran, ran'] at same ledger
              cases ledger
              cases same with
              | ok more => exact ⟨.ok more, rfl⟩
              | error cause => exact ⟨.error cause, rfl⟩

/-- It makes no difference whether something is done by a transaction of its own kind or by a call
of the opcode for it, but for the base that the call costs on top. A failure of either leaves the
ledger as it was. And of the two opcodes for receipts, the one that verifies says whether the one
that proves would succeed wherever the contents are the same and there is enough gas. -/
theorem transactions_agree_with_opcodes (e : Engine) (l : Ledger) (height : UInt64) :
    (∀ direct call : Transaction, call.Mirrors direct l.contents →
      SameButFor Gas.callBase (e.apply l direct height).1 (e.apply l call height).1 ∧
      (e.apply l call height).2 = (e.apply l direct height).2 ∧
      ∀ err, (e.apply l direct height).1 = .error err →
        (e.apply l direct height).2.contents = l.contents ∧
          (l.Tidy → (e.apply l direct height).2 = l)) ∧
    (∀ (payload : Bytes) (receipt : InferenceReceipt) (rest : List Bytes) (f : CallFrame),
      Wire.decodeOperand payload = .ok receipt → rest.length < Policy.stackDepth →
      f.gasUsed.toNat + Gas.inferVerify.toNat ≤ f.gasLimit.toNat →
      ∃ verdict after,
        (e.machine.step (Opcode.operation .inferVerify).byte (payload :: rest)).runOn f =
          (.ok (.running ([if verdict then 1 else 0] :: rest)), after) ∧
        ∀ g : CallFrame, g.ledger.contents = f.ledger.contents →
          g.gasUsed.toNat + Gas.inferenceReceipt.toNat ≤ g.gasLimit.toNat →
          (verdict = true ↔ ∃ s,
            ((e.machine.step (Opcode.operation .inferProve).byte (payload :: rest)).runOn g).1 =
              .ok s)) ∧
    ∀ (stack : List Bytes) (f : CallFrame),
      ((e.machine.step (Opcode.operation .inferVerify).byte stack).runOn f).2.ledger =
        f.ledger := by
  refine ⟨fun direct call mirrors => ?_, fun payload receipt rest f read room enough => ?_,
    e.machine.ledger_step_inferVerify⟩
  · obtain ⟨same, ledger⟩ := apply_of_mirrors mirrors e height
    obtain ⟨_, _, _, does, _⟩ := mirrors.calls
    have own : direct.kind = .callContract → e.Disciplined := fun kind => absurd kind does.kind_ne
    exact ⟨same, ledger, fun err failed =>
      ⟨contents_apply_of_error own failed, fun tidy => apply_of_error own tidy failed⟩⟩
  · refine ⟨_, _, Machine.runOn_step_inferVerify read room (if_pos enough), ?_⟩
    intro g same enough'
    rw [Machine.runOn_step_inferProve read room (if_pos enough'), same]
    cases Exec.checkReceipt e.machine.verifyReceipt receipt f.ledger.contents with
    | ok _ => simp [Except.isOk, Except.toBool, Except.map]
    | error _ => simp [Except.isOk, Except.toBool, Except.map]

/-! Code that is one opcode, called for what a transfer does, and a receipt of the right shape. -/

def payOpcode : Ledger :=
  .ofContents ((Contents.empty.setBalance .zero Policy.token).setCode (.ofPublicKey [])
    [Opcode.byte (.operation .tokenTransfer)])

def payByCall : Transaction :=
  .callContract .zero (.ofPublicKey []) [Wire.encode (TokenTransfer.mk (.ofPublicKey [1]) 1)]
    (Gas.transfer + Gas.callBase) 0 0

def shapedReceipt : InferenceReceipt :=
  let digest := List.replicate 32 0
  ⟨"did:agc:a", digest, digest, digest, 1, [0]⟩

/-- The call costs 700 units of gas more than the transfer. The receipt would be accepted, and that
is all that verifying it says. -/
theorem payByCall_agrees :
    (Engine.new.apply payOpcode (.transfer .zero (.ofPublicKey [1]) 1 0 0) 1).1 =
      .ok ⟨21000, none⟩ ∧
    (Engine.new.apply payOpcode payByCall 1).1 = .ok ⟨21700, none⟩ ∧
    (Engine.new.apply payOpcode payByCall 1).2 =
      (Engine.new.apply payOpcode (.transfer .zero (.ofPublicKey [1]) 1 0 0) 1).2 ∧
    ∃ after, (Engine.new.machine.step (Opcode.operation .inferVerify).byte
        [Wire.encode shapedReceipt]).runOn (.enter payOpcode .zero 3000 1) =
      (.ok (.running [[1]]), after) ∧ after.ledger = payOpcode := by
  let direct : Transaction := .transfer .zero (.ofPublicKey [1]) 1 0 0
  obtain ⟨agrees, judges, keeps⟩ := transactions_agree_with_opcodes .new payOpcode 1
  have does : direct.Does (Wire.encode (TokenTransfer.mk (.ofPublicKey [1]) 1)) .tokenTransfer :=
    .tokenTransfer rfl rfl (Wire.decodeOperand_encode _)
  have mirrors : payByCall.Mirrors direct payOpcode.contents :=
    ⟨rfl, rfl, rfl, rfl, _, _, _, does, rfl, by decide +kernel, Wire.decodeOperand_encode _⟩
  obtain ⟨same, ledger, _⟩ := agrees direct payByCall mirrors
  have paid : (Engine.new.apply payOpcode direct 1).1 = .ok ⟨21000, none⟩ := by decide +kernel
  have proves : ((Engine.new.machine.step (Opcode.operation .inferProve).byte
      [Wire.encode shapedReceipt]).runOn (.enter payOpcode .zero 100000 1)).1 =
        .ok (.running [[1]]) := by decide +kernel
  refine ⟨paid, ?_, ledger, ?_⟩
  · rw [paid] at same
    cases called : (Engine.new.apply payOpcode payByCall 1).1 with
    | error _ =>
        rw [called] at same
        cases same
    | ok outcome =>
        rw [called] at same
        cases same with
        | ok more => rw [UInt64.toNat_inj.1 (more.trans (rfl : _ = (21700 : UInt64).toNat))]
  · obtain ⟨verdict, after, verified, exactly⟩ := judges _ shapedReceipt []
      (.enter payOpcode .zero 3000 1) (Wire.decodeOperand_encode _) (by decide) (by decide)
    have accepted : verdict = true :=
      (exactly (.enter payOpcode .zero 100000 1) rfl (by decide)).2 ⟨_, proves⟩
    have untouched := keeps [Wire.encode shapedReceipt] (.enter payOpcode .zero 3000 1)
    rw [accepted] at verified
    rw [verified] at untouched
    exact ⟨after, verified, untouched⟩

end Engine

end AgentLedger
