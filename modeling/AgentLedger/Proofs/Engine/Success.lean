import AgentLedger.Proofs.Engine.Atomicity
import AgentLedger.Proofs.Machine.Success

namespace AgentLedger.Engine

/-!
# Transactions that succeed

A transaction that succeeds was of a kind that is supported, its gas limit covered what it had to
pay first, and it has done what its kind says. If it has called a contract, the code at the
recipient has run to its end on the operands in the payload. The nonce is advanced last.
-/

variable {e : Engine} {tx : Transaction} {height : UInt64} {c d : Contents} {l : Ledger}
  {outcome : Outcome} {f g : CallFrame} {output : Option Bytes}

theorem requireRecipient_eq_ok {a : Address} (h : requireRecipient tx = .ok a) :
    tx.recipient = some a := by
  unfold requireRecipient at h
  split at h
  · next same =>
      cases h
      exact same
  · cases h

/-- What a transaction has done before its nonce is advanced. -/
inductive Dispatched (e : Engine) (tx : Transaction) (f : CallFrame) :
    Option Bytes → CallFrame → Prop where
  | transfer {target : Address} {charged after : CallFrame} (kind : tx.kind = .transfer)
      (paid : f.charge Gas.transfer = .ok charged) (recipient : tx.recipient = some target)
      (moved : f.ledger.contents.transfer tx.sender target tx.value = .ok after.ledger.contents)
      (alters : charged.Alters after) : Dispatched e tx f none after
  | agentRegister {identity : AgentIdentity} {charged after : CallFrame}
      (kind : tx.kind = .agentRegister) (paid : f.charge Gas.agentRegister = .ok charged)
      (read : Wire.decodeOperand tx.payload = .ok identity) (valid : identity.validate = .ok ())
      (registered :
        f.ledger.contents.registerAgent identity f.height = .ok after.ledger.contents)
      (alters : charged.Alters after) : Dispatched e tx f none after
  | agentMessage {message : AgentMessage} {charged after : CallFrame}
      (kind : tx.kind = .agentMessage) (paid : f.charge Gas.agentMessage = .ok charged)
      (read : Wire.decodeOperand tx.payload = .ok message)
      (recorded : after.ledger.contents = f.ledger.contents.recordMessage message)
      (alters : charged.Alters after) : Dispatched e tx f none after
  | inferenceReceipt {receipt : InferenceReceipt} {charged after : CallFrame}
      (kind : tx.kind = .inferenceReceipt) (paid : f.charge Gas.inferenceReceipt = .ok charged)
      (read : Wire.decodeOperand tx.payload = .ok receipt)
      (accepted :
        Exec.checkReceipt e.machine.ownVerifier receipt f.ledger.contents = .ok ())
      (recorded : after.ledger.contents = f.ledger.contents.recordReceipt receipt)
      (alters : charged.Alters after) : Dispatched e tx f none after
  | deployContract {deployment : ContractDeployment} {charged after : CallFrame}
      (kind : tx.kind = .deployContract) (read : Wire.decodeOperand tx.payload = .ok deployment)
      (paid : f.charge (Gas.deployment deployment.code.length) = .ok charged)
      (nonempty : deployment.code ≠ [])
      (free : f.ledger.contents.code? (contractAddress tx.sender tx.nonce) = none)
      (stored : after.ledger.contents =
        f.ledger.contents.setCode (contractAddress tx.sender tx.nonce) deployment.code)
      (alters : charged.Alters after) :
      Dispatched e tx f (some (contractAddress tx.sender tx.nonce).bytes) after
  | callContract {contract : Address} {code : Bytes} {call : ContractCall}
      {charged after : CallFrame} {output : Option Bytes} (kind : tx.kind = .callContract)
      (paid : f.charge Gas.callBase = .ok charged) (recipient : tx.recipient = some contract)
      (found : f.ledger.contents.code? contract = some code)
      (read : Wire.decodeOperand tx.payload = .ok call)
      (ran : (e.machine.execute code call.operands).runOn charged = (.ok output, after)) :
      Dispatched e tx f output after

theorem transfer_eq_ok (kind : tx.kind = .transfer)
    (ran : (transfer tx).runOn f = (.ok (), g)) : Dispatched e tx f none g := by
  obtain ⟨charged, paid, ran⟩ := Exec.runOn_charge_bind_eq_ok ran
  obtain ⟨target, recipient, ran⟩ := Exec.runOn_lift_bind_eq_ok ran
  obtain ⟨moved, alters⟩ := Exec.transfer_eq_ok ran
  rw [CallFrame.ledger_of_charge paid] at moved
  exact .transfer kind paid (requireRecipient_eq_ok recipient) moved alters

theorem deploy_eq_ok {place : Bytes} (kind : tx.kind = .deployContract)
    (ran : (deploy tx).runOn f = (.ok place, g)) : Dispatched e tx f (some place) g := by
  obtain ⟨deployment, read, ran⟩ := Exec.runOn_lift_bind_eq_ok ran
  obtain ⟨charged, paid, ran⟩ := Exec.runOn_charge_bind_eq_ok ran
  dsimp only at ran
  split at ran
  · cases ran
  · next nonempty =>
      obtain ⟨_, _, seen, ran⟩ := Exec.runOn_bind_eq_ok ran
      cases seen
      split at ran
      · cases ran
      · next free =>
          obtain ⟨_, _, put, ran⟩ := Exec.runOn_bind_eq_ok ran
          cases ran
          obtain ⟨stored, alters⟩ := Exec.runOn_changeLedger_eq_ok
            (x := .setCode (contractAddress tx.sender tx.nonce) deployment.code) put
          rw [CallFrame.ledger_of_charge paid] at free stored
          exact .deployContract kind read paid nonempty (by simpa using free)
            (Except.ok.inj stored).symm alters

theorem call_eq_ok (kind : tx.kind = .callContract) (ran : (e.call tx).runOn f = (.ok output, g)) :
    Dispatched e tx f output g := by
  obtain ⟨charged, paid, ran⟩ := Exec.runOn_charge_bind_eq_ok ran
  obtain ⟨contract, recipient, ran⟩ := Exec.runOn_lift_bind_eq_ok ran
  obtain ⟨_, _, seen, ran⟩ := Exec.runOn_bind_eq_ok ran
  cases seen
  split at ran
  · cases ran
  · next code found =>
      obtain ⟨call, read, ran⟩ := Exec.runOn_lift_bind_eq_ok ran
      rw [CallFrame.ledger_of_charge paid] at found
      exact .callContract kind paid (requireRecipient_eq_ok recipient) found read ran

/-- A transaction that is charged for and then does one thing has done that. -/
theorem charged_eq_ok {amount : UInt64} {act : Exec Unit}
    (ran : (do Exec.charge amount; act; return (none : Option Bytes)).runOn f = (.ok output, g)) :
    ∃ charged, f.charge amount = .ok charged ∧ act.runOn charged = (.ok (), g) ∧
      output = none := by
  obtain ⟨charged, paid, ran⟩ := Exec.runOn_charge_bind_eq_ok ran
  obtain ⟨_, _, acted, ran⟩ := Exec.runOn_bind_eq_ok ran
  cases ran
  exact ⟨charged, paid, acted, rfl⟩

theorem dispatch_eq_ok (ran : (e.dispatch tx).runOn f = (.ok output, g)) :
    Dispatched e tx f output g := by
  unfold dispatch at ran
  cases kind : tx.kind with
  | transfer =>
      simp only [kind] at ran
      obtain ⟨_, _, moved, ran⟩ := Exec.runOn_bind_eq_ok ran
      cases ran
      exact transfer_eq_ok kind moved
  | agentRegister =>
      simp only [kind] at ran
      obtain ⟨charged, paid, acted, rfl⟩ := charged_eq_ok ran
      obtain ⟨identity, read, valid, registered, alters⟩ := Exec.registerAgent_eq_ok acted
      rw [CallFrame.ledger_of_charge paid, CallFrame.height_of_charge paid] at registered
      exact .agentRegister kind paid read valid registered alters
  | agentMessage =>
      simp only [kind] at ran
      obtain ⟨charged, paid, acted, rfl⟩ := charged_eq_ok ran
      obtain ⟨message, read, recorded, alters⟩ := Exec.sendMessage_eq_ok acted
      rw [CallFrame.ledger_of_charge paid] at recorded
      exact .agentMessage kind paid read recorded alters
  | inferenceReceipt =>
      simp only [kind] at ran
      obtain ⟨charged, paid, acted, rfl⟩ := charged_eq_ok ran
      obtain ⟨receipt, read, accepted, recorded, alters⟩ := Exec.proveInference_eq_ok acted
      rw [CallFrame.ledger_of_charge paid] at accepted recorded
      exact .inferenceReceipt kind paid read accepted recorded alters
  | deployContract =>
      simp only [kind] at ran
      obtain ⟨_, _, deployed, ran⟩ := Exec.runOn_bind_eq_ok ran
      cases ran
      exact deploy_eq_ok kind deployed
  | callContract =>
      simp only [kind] at ran
      exact call_eq_ok kind ran
  | agentDelegate =>
      simp only [kind] at ran
      cases ran
  | validatorStake =>
      simp only [kind] at ran
      cases ran
  | validatorUnstake =>
      simp only [kind] at ran
      cases ran

theorem apply_eq_ok (ok : (e.apply l tx height).1 = .ok outcome) :
    e.noncePolicy.check l tx = .ok () ∧
      ∃ output g, Dispatched e tx (.enter l.checkpoint.2 tx.sender tx.gasLimit height) output g ∧
        outcome = ⟨g.gasUsed, output⟩ ∧
        (e.noncePolicy.change tx).onContents g.ledger.contents =
          .ok (e.apply l tx height).2.contents := by
  unfold apply at ok ⊢
  cases checked : e.noncePolicy.check l tx with
  | error err =>
      rw [checked] at ok
      cases ok
  | ok _ =>
      rw [checked] at ok
      refine ⟨rfl, ?_⟩
      simp only [Ledger.atomically_eq, attempt] at ok ⊢
      cases ran : (e.dispatch tx).runOn (.enter l.checkpoint.2 tx.sender tx.gasLimit height) with
      | mk r g =>
          rw [ran] at ok
          cases r with
          | error err => cases ok
          | ok output =>
              refine ⟨output, g, dispatch_eq_ok ran, (Except.ok.inj ok).symm, ?_⟩
              rw [Ledger.contents_close, e.noncePolicy.advance_eq]
              exact e.noncePolicy.onContents_change g.ledger tx

end AgentLedger.Engine
