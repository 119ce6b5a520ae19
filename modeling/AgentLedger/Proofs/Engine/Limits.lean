import AgentLedger.Proofs.Engine.Effects
import AgentLedger.Proofs.Engine.Success
import AgentLedger.Proofs.Machine.Limits
import AgentLedger.Transaction.Draft

namespace AgentLedger

/-!
# What a transaction costs

What a transaction uses if it succeeds can be read off the transaction and the code that it calls.
Its gas limit decides whether that is covered and nothing else: a limit that covers it makes no
difference to the outcome or to the ledger, and under a lower limit the transaction runs out of gas
and leaves the ledger as it was.
-/

/-- The code at the recipient; there is none if nothing has been deployed there. -/
def Transaction.calledCode (tx : Transaction) (c : Contents) : Bytes :=
  (tx.recipient.bind c.code?).getD []

/-- The exact cost of a transaction that succeeds. -/
def Transaction.cost (tx : Transaction) (c : Contents) : Nat :=
  match tx.kind with
  | .transfer => Gas.transfer.toNat
  | .agentRegister => Gas.agentRegister.toNat
  | .agentMessage => Gas.agentMessage.toNat
  | .inferenceReceipt => Gas.inferenceReceipt.toNat
  | .deployContract =>
      match (Wire.decodeOperand tx.payload : Except ChainError ContractDeployment) with
      | .ok deployment =>
          min (Gas.deployBase.toNat + Gas.deployPerByte.toNat * deployment.code.length)
            (UInt64.size - 1)
      | .error _ => 0
  | .callContract => Gas.callBase.toNat + Opcode.costOf (tx.calledCode c)
  | .agentDelegate | .validatorStake | .validatorUnstake => 0

namespace Engine

open Exec

variable {e : Engine} {tx : Transaction} {height : UInt64} {l m : Ledger} {outcome : Outcome}
  {f g : CallFrame} {output : Option Bytes}

/-! ## Runs of transactions -/

theorem metered_transfer (tx : Transaction) : Metered (transfer tx) := by
  refine metered_bind (metered_charge _) fun _ => Unmetered.metered ?_
  exact unmetered_bind (unmetered_lift _) fun target => unmetered_transfer _ target _

theorem metered_deploy (tx : Transaction) : Metered (deploy tx) := by
  refine metered_bind (unmetered_lift _).metered fun deployment => ?_
  refine metered_bind (metered_charge _) fun _ => Unmetered.metered ?_
  have store (contract : Address) : Unmetered (do
      Exec.changeLedger fun l => .ok (l.setCode contract deployment.code)
      return contract.bytes) :=
    unmetered_bind (unmetered_changeLedger _) fun _ => unmetered_pure _
  have settle : Unmetered (do
      let contract := contractAddress tx.sender tx.nonce
      if ((← Exec.contents).code? contract).isSome then
        throw (.invalidOperation (.contractExists contract))
      Exec.changeLedger fun l => .ok (l.setCode contract deployment.code)
      return contract.bytes) := by
    refine unmetered_bind unmetered_contents fun c => ?_
    dsimp only
    split
    · exact unmetered_bind (unmetered_throw _) fun _ => store _
    · exact store _
  dsimp only
  split
  · exact unmetered_bind (unmetered_throw _) fun _ => settle
  · exact settle

theorem metered_call (bare : e.Bare) (tx : Transaction) : Metered (e.call tx) := by
  refine metered_bind (metered_charge _) fun _ => ?_
  refine metered_bind (unmetered_lift _).metered fun contract => ?_
  refine metered_bind unmetered_contents.metered fun c => ?_
  split
  · exact (unmetered_throw _).metered
  · next code _ =>
      refine metered_bind (unmetered_lift _).metered fun call => ?_
      exact Machine.metered_execute bare code call.operands

theorem metered_dispatch (bare : e.Bare) (tx : Transaction) : Metered (e.dispatch tx) := by
  have paid {amount : UInt64} {act : Exec Unit} (free : Unmetered act) :
      Metered (do Exec.charge amount; act; return (none : Option Bytes)) :=
    metered_bind (metered_charge _) fun _ =>
      metered_bind free.metered fun _ => (unmetered_pure _).metered
  unfold dispatch
  split
  · exact metered_bind (metered_transfer tx) fun _ => (unmetered_pure _).metered
  · exact paid (unmetered_registerAgent _)
  · exact paid (unmetered_sendMessage _)
  · exact paid (unmetered_proveInference _ _)
  · exact metered_bind (metered_deploy tx) fun _ => (unmetered_pure _).metered
  · exact metered_call bare tx
  · exact (unmetered_throw _).metered
  · exact (unmetered_throw _).metered
  · exact (unmetered_throw _).metered

theorem Dispatched.gasUsed_eq (bare : e.Bare) (h : Dispatched e tx f output g) :
    g.gasUsed.toNat = f.gasUsed.toNat + tx.cost f.ledger.contents := by
  cases h with
  | transfer kind paid _ _ alters | agentRegister kind paid _ _ _ alters
  | agentMessage kind paid _ _ alters | inferenceReceipt kind paid _ _ _ alters =>
      rw [alters.gasUsed_eq, CallFrame.gasUsed_of_charge paid]
      simp only [Transaction.cost, kind]
  | deployContract kind read paid _ _ _ alters =>
      rw [alters.gasUsed_eq, CallFrame.gasUsed_of_charge paid, Gas.toNat_deployment]
      simp only [Transaction.cost, kind, read]
      rfl
  | callContract kind paid recipient found _ ran =>
      rw [Machine.gasUsed_execute bare ran, CallFrame.gasUsed_of_charge paid]
      simp only [Transaction.cost, Transaction.calledCode, kind, recipient, Option.bind_some, found,
        Option.getD_some, Nat.add_assoc]

/-! ## Applying a transaction -/

theorem gasUsed_apply (bare : e.Bare) (ok : (e.apply l tx height).1 = .ok outcome) :
    outcome.gasUsed.toNat = tx.cost l.contents := by
  obtain ⟨_, output, g, dispatched, rfl, _⟩ := apply_eq_ok ok
  exact (dispatched.gasUsed_eq bare).trans (Nat.zero_add _)

/-- Another gas limit is noticed nowhere but in the frame. -/
theorem attempt_withGasLimit_eq (e : Engine) (tx : Transaction) (limit height : UInt64)
    (l : Ledger) :
    e.attempt (tx.withGasLimit limit) height l =
      match (e.dispatch tx).runOn ((CallFrame.enter l tx.sender tx.gasLimit height).withLimit limit)
        with
      | (.ok output, frame) => (.ok ⟨frame.gasUsed, output⟩, e.noncePolicy.advance frame.ledger tx)
      | (.error err, frame) => (.error err, frame.ledger) := rfl

theorem attempt_withGasLimit (bare : e.Bare) (ok : e.attempt tx height l = (.ok outcome, m))
    (limit : UInt64) :
    (outcome.gasUsed ≤ limit →
      e.attempt (tx.withGasLimit limit) height l = (.ok outcome, m)) ∧
    (limit < outcome.gasUsed → ∃ used amount,
      (e.attempt (tx.withGasLimit limit) height l).1 = .error (.outOfGas used amount limit)) := by
  unfold attempt at ok
  cases ran : (e.dispatch tx).runOn (.enter l tx.sender tx.gasLimit height) with
  | mk r frame =>
      rw [ran] at ok
      cases r with
      | error err => cases ok
      | ok output =>
          cases ok
          have threshold := metered_dispatch bare tx _ _ _ ran
          refine ⟨fun covered => ?_, fun below => ?_⟩
          · rw [attempt_withGasLimit_eq, threshold.enough limit covered]
            rfl
          · have least : (0 : UInt64) ≤ limit := UInt64.le_iff_toNat_le.2 (Nat.zero_le _)
            obtain ⟨used, amount, stopped, out⟩ := threshold.short limit least below
            rw [attempt_withGasLimit_eq, out]
            exact ⟨used, amount, rfl⟩

theorem apply_withGasLimit (bare : e.Bare) (ok : e.apply l tx height = (.ok outcome, m))
    (limit : UInt64) :
    (outcome.gasUsed ≤ limit →
      e.apply l (tx.withGasLimit limit) height = (.ok outcome, m)) ∧
    (limit < outcome.gasUsed → ∃ used amount,
      (e.apply l (tx.withGasLimit limit) height).1 = .error (.outOfGas used amount limit)) := by
  have stale : e.noncePolicy.check l (tx.withGasLimit limit) = e.noncePolicy.check l tx := rfl
  unfold apply at ok ⊢
  rw [stale]
  cases checked : e.noncePolicy.check l tx with
  | error err =>
      rw [checked] at ok
      cases ok
  | ok _ =>
      rw [checked] at ok
      simp only [Ledger.atomically_eq] at ok
      cases ran : e.attempt tx height l.checkpoint.2 with
      | mk r changed =>
          rw [ran] at ok
          cases r with
          | error err => cases ok
          | ok _ =>
              cases ok
              obtain ⟨enough, short⟩ := attempt_withGasLimit bare ran limit
              refine ⟨fun covered => ?_, fun below => ?_⟩
              · simp only [Ledger.atomically_eq, enough covered]
              · simp only [Ledger.result_atomically]
                exact short below

theorem gasUsed_le_gasLimit (bare : e.Bare) (ok : e.apply l tx height = (.ok outcome, m)) :
    outcome.gasUsed ≤ tx.gasLimit := by
  by_contra beyond
  obtain ⟨_, short⟩ := apply_withGasLimit bare ok tx.gasLimit
  obtain ⟨used, amount, out⟩ := short (UInt64.not_le.1 beyond)
  have same : tx.withGasLimit tx.gasLimit = tx := rfl
  rw [same, ok] at out
  cases out

/-- A transaction that succeeds uses exactly what it costs, which is no more than its limit. Under
every limit that covers the cost it has the same outcome and leaves the same ledger, and under every
lower one it runs out of gas and changes nothing. What a call costs depends on nothing but the code
that it calls. Whatever is charged to a frame, no more is ever used than is allowed, and a charge is
either added in full or refused without a trace, also where the sum would be too great for a gas
meter. -/
theorem limit_is_a_threshold (bare : e.Bare) :
    (∀ l tx height outcome m, e.apply l tx height = (.ok outcome, m) →
      outcome.gasUsed ≤ tx.gasLimit ∧ outcome.gasUsed.toNat = tx.cost l.contents ∧
      ∀ limit : UInt64,
        (tx.cost l.contents ≤ limit.toNat →
          e.apply l (tx.withGasLimit limit) height = (.ok outcome, m)) ∧
        (limit.toNat < tx.cost l.contents →
          (∃ used amount, (e.apply l (tx.withGasLimit limit) height).1 =
            .error (.outOfGas used amount limit)) ∧
          (e.apply l (tx.withGasLimit limit) height).2.contents = l.contents ∧
          (l.Tidy → (e.apply l (tx.withGasLimit limit) height).2 = l))) ∧
    (∀ l l' tx tx' height height' outcome outcome',
      tx.kind = .callContract → tx'.kind = .callContract →
      tx'.calledCode l'.contents = tx.calledCode l.contents →
      (e.apply l tx height).1 = .ok outcome → (e.apply l' tx' height').1 = .ok outcome' →
      outcome'.gasUsed = outcome.gasUsed) ∧
    ∀ f : CallFrame, f.gasUsed ≤ f.gasLimit → ∀ amounts,
      let g := f.chargeAll amounts
      g = { f with gasUsed := g.gasUsed } ∧ g.gasUsed ≤ g.gasLimit ∧
      g.gasLeft.toNat + g.gasUsed.toNat = g.gasLimit.toNat ∧
      ∀ next,
        (∃ h, (Exec.charge next).runOn g = (.ok (), h) ∧
          h.gasUsed.toNat = g.gasUsed.toNat + next.toNat) ∨
        (Exec.charge next).runOn g = (.error (.outOfGas g.gasUsed next g.gasLimit), g) ∧
          g.gasLimit.toNat < g.gasUsed.toNat + next.toNat := by
  refine ⟨fun l tx height outcome m ok => ?_, ?_, fun f start amounts => ?_⟩
  · have cost : outcome.gasUsed.toNat = tx.cost l.contents :=
      gasUsed_apply bare (congrArg Prod.fst ok)
    refine ⟨gasUsed_le_gasLimit bare ok, cost, fun limit => ?_⟩
    obtain ⟨enough, short⟩ := apply_withGasLimit bare ok limit
    rw [UInt64.le_iff_toNat_le, cost] at enough
    rw [UInt64.lt_iff_toNat_lt, cost] at short
    refine ⟨enough, fun below => ?_⟩
    obtain ⟨used, amount, out⟩ := short below
    exact ⟨⟨used, amount, out⟩, contents_apply_of_error (fun _ => bare.disciplined) out,
      fun tidy => apply_of_error (fun _ => bare.disciplined) tidy out⟩
  · intro l l' tx tx' height height' outcome outcome' kind kind' same ok ok'
    rw [← UInt64.toNat_inj, gasUsed_apply bare ok, gasUsed_apply bare ok']
    simp only [Transaction.cost, kind, kind', same]
  · have fresh : f.Charged f := ⟨rfl, start⟩
    have charged := fresh.chargeAll amounts
    refine ⟨charged.same, charged.within, ?_, fun next => ?_⟩
    · rw [CallFrame.toNat_gasLeft]
      exact Nat.sub_add_cancel (UInt64.le_iff_toNat_le.1 charged.within)
    · rcases (f.chargeAll amounts).charge_cases next with ⟨h, ran, _, used, _⟩ | refused
      · exact .inl ⟨h, ran, used⟩
      · exact .inr refused

/-! Code that makes one transfer and stops before another. -/

def paysAndStops : Ledger :=
  .ofContents ((Contents.empty.setBalance .zero Policy.token).setCode (.ofPublicKey [])
    [Opcode.byte (.operation .tokenTransfer), Opcode.byte .stop,
      Opcode.byte (.operation .tokenTransfer)])

def payWithin (limit : UInt64) : Transaction :=
  .callContract .zero (.ofPublicKey []) [Wire.encode (TokenTransfer.mk (.ofPublicKey [1]) 1)] limit
    0 0

/-- The transfer after the stop costs nothing. One unit of gas makes the difference. -/
theorem payWithin_exact :
    (payWithin 30000).cost paysAndStops.contents = 21700 ∧
    Engine.new.apply paysAndStops (payWithin 21700) 1 =
      Engine.new.apply paysAndStops (payWithin 30000) 1 ∧
    (Engine.new.apply paysAndStops (payWithin 21700) 1).1 = .ok ⟨21700, none⟩ ∧
    (∃ used amount, (Engine.new.apply paysAndStops (payWithin 21699) 1).1 =
      .error (.outOfGas used amount 21699)) ∧
    (Engine.new.apply paysAndStops (payWithin 21699) 1).2 = paysAndStops := by
  obtain ⟨exactly, _, _⟩ := limit_is_a_threshold (e := .new) (Machine.bare_ofVerifier _)
  have succeeds : (Engine.new.apply paysAndStops (payWithin 30000) 1).1 = .ok ⟨21700, none⟩ := by
    decide +kernel
  cases ran : Engine.new.apply paysAndStops (payWithin 30000) 1 with
  | mk r m =>
      rw [ran] at succeeds
      cases succeeds
      obtain ⟨_, cost, limits⟩ := exactly _ _ _ _ _ ran
      have costs : (payWithin 30000).cost paysAndStops.contents = 21700 := cost.symm
      obtain ⟨enough, _⟩ := limits 21700
      obtain ⟨_, short⟩ := limits 21699
      have same : Engine.new.apply paysAndStops (payWithin 21700) 1 = (.ok ⟨21700, none⟩, m) :=
        enough (Nat.le_of_eq costs)
      obtain ⟨out, _, unchanged⟩ := short (by rw [costs]; decide)
      exact ⟨costs, same, congrArg Prod.fst same, out, unchanged (Ledger.tidy_ofContents _)⟩

end Engine

end AgentLedger
