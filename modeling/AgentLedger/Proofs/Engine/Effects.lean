import AgentLedger.Proofs.Engine.Atomicity
import AgentLedger.Proofs.Machine.Effects

namespace AgentLedger

/-!
# Effects of transactions

A transaction of an engine without extensions acts by effects for its sender. If it is applied, the
nonce of the sender is advanced after them; if it fails, the contents are what they were.
-/

namespace NoncePolicy

/-- A nonce policy writes a nonce into the account of the sender and nothing else. -/
theorem change_eq_ok (p : NoncePolicy) {tx : Transaction} {c d : Contents}
    (advanced : (p.change tx).onContents c = .ok d) :
    ∃ next : Account → UInt64,
      d = c.modifyAccount tx.sender fun x => { x with nonce := next x } := by
  cases p with
  | unchecked => exact ⟨_, (Except.ok.inj advanced).symm⟩
  | rejectStale => exact ⟨_, (Except.ok.inj advanced).symm⟩

theorem check_ne_overflow (p : NoncePolicy) (l : Ledger) (tx : Transaction) :
    NoOverflow (p.check l tx) := by
  cases p with
  | unchecked => exact noOverflow_ok ()
  | rejectStale =>
      simp only [check]
      split
      · exact noOverflow_throw fun _ => by simp
      · exact noOverflow_ok ()

end NoncePolicy

namespace Engine

/-- An engine whose machine has no extensions. -/
def Bare (e : Engine) : Prop := e.machine.Bare

variable {e : Engine} {tx : Transaction} {height : UInt64} {l m : Ledger}
  {known : Contents → Prop} {outcome : Outcome}

theorem Bare.disciplined (bare : e.Bare) : e.Disciplined := Machine.Bare.disciplined bare

theorem noOverflow_requireRecipient (tx : Transaction) : NoOverflow (requireRecipient tx) := by
  unfold requireRecipient
  split
  · exact noOverflow_ok _
  · exact noOverflow_throw fun _ => by simp

/-! ## Running a transaction -/

section Dispatch

variable {verify : ReceiptVerifier}

theorem acts_transfer (tx : Transaction) :
    Exec.Acts verify tx.sender height known (transfer tx) := by
  refine Exec.acts_charge_bind ?_
  refine Exec.acts_check_bind (noOverflow_requireRecipient tx) fun target _ => ?_
  exact Exec.acts_transfer target tx.value

/-- Code is put where there is none. -/
theorem acts_deploy (tx : Transaction) : Exec.Acts verify tx.sender height known (deploy tx) := by
  refine Exec.acts_check_bind (noOverflow_decodeOperand _) fun deployment _ => ?_
  refine Exec.acts_charge_bind ?_
  dsimp only
  split
  · exact Exec.acts_throw_bind _ fun _ => by simp
  · next nonempty =>
      refine Exec.acts_contents_bind fun c => ?_
      split
      · exact Exec.acts_throw_bind _ fun _ => by simp
      · next free =>
          let contract := contractAddress tx.sender tx.nonce
          have stored : Exec.Acts verify tx.sender height (· = c)
              (Exec.changeLedger (Change.setCode contract deployment.code).onLedger) := by
            refine Exec.acts_changeLedger _ ?_ fun _ _ => nofun
            rintro _ d rfl changed
            cases changed
            exact .deploy (by simpa using free) nonempty
          exact Exec.acts_bind stored fun _ => Exec.acts_pure _

end Dispatch

theorem acts_call (bare : e.Bare) (tx : Transaction) :
    Exec.Acts e.machine.verifyReceipt tx.sender height known (e.call tx) := by
  refine Exec.acts_charge_bind ?_
  refine Exec.acts_check_bind (noOverflow_requireRecipient tx) fun contract _ => ?_
  refine Exec.acts_contents_bind fun c => ?_
  split
  · exact Exec.acts_throw fun _ => by simp
  · next code _ =>
      refine Exec.acts_check_bind (noOverflow_decodeOperand _) fun call _ => ?_
      exact Machine.acts_execute bare code call.operands

theorem acts_dispatch (bare : e.Bare) (tx : Transaction) (height : UInt64) :
    Exec.Acts e.machine.verifyReceipt tx.sender height (fun _ => True) (e.dispatch tx) := by
  unfold dispatch
  split
  · exact Exec.acts_bind (acts_transfer tx) fun _ => Exec.acts_pure _
  · refine Exec.acts_charge_bind ?_
    exact Exec.acts_bind (Exec.acts_registerAgent _) fun _ => Exec.acts_pure _
  · refine Exec.acts_charge_bind ?_
    exact Exec.acts_bind (Exec.acts_sendMessage _) fun _ => Exec.acts_pure _
  · refine Exec.acts_charge_bind ?_
    rw [e.machine.inStep]
    exact Exec.acts_bind (Exec.acts_proveInference _) fun _ => Exec.acts_pure _
  · exact Exec.acts_bind (acts_deploy tx) fun _ => Exec.acts_pure _
  · exact acts_call bare tx
  · exact Exec.acts_throw fun _ => by simp
  · exact Exec.acts_throw fun _ => by simp
  · exact Exec.acts_throw fun _ => by simp

/-! ## Applying a transaction -/

/-- The contents where the run of a transaction stops, whatever is undone afterwards. -/
def reached (e : Engine) (l : Ledger) (tx : Transaction) (height : UInt64) : Contents :=
  ((e.dispatch tx).runOn (.enter l.checkpoint.2 tx.sender tx.gasLimit height)).2.ledger.contents

/-- Everything that applying a transaction can come to. A transaction that is not stale acts by
effects, after which either the nonce is advanced or the transaction has failed. -/
theorem apply_cases (bare : e.Bare) (l : Ledger) (tx : Transaction) (height : UInt64) :
    (∃ err, e.noncePolicy.check l tx = .error err ∧ (e.apply l tx height).1 = .error err) ∨
    e.noncePolicy.check l tx = .ok () ∧
      Effects e.machine.verifyReceipt tx.sender height l.contents (e.reached l tx height) ∧
        ((∃ outcome, (e.apply l tx height).1 = .ok outcome ∧
            (e.noncePolicy.change tx).onContents (e.reached l tx height) =
              .ok (e.apply l tx height).2.contents) ∨
          ∃ err, (e.apply l tx height).1 = .error err ∧
            ∀ owner, err = .invalidOperation (.balanceOverflow owner) →
              Overflows e.machine.verifyReceipt tx.sender (e.reached l tx height) owner) := by
  unfold apply reached
  cases checked : e.noncePolicy.check l tx with
  | error err => exact .inl ⟨err, rfl, rfl⟩
  | ok _ =>
      refine .inr ⟨rfl, ?_⟩
      have acted := acts_dispatch bare tx height
        (.enter l.checkpoint.2 tx.sender tx.gasLimit height) ⟨rfl, rfl⟩ trivial
      simp only [Ledger.atomically_eq, attempt]
      cases ran : (e.dispatch tx).runOn
          (.enter l.checkpoint.2 tx.sender tx.gasLimit height) with
      | mk r frame =>
          rw [ran] at acted
          refine ⟨acted.effects, ?_⟩
          cases r with
          | error err =>
              refine .inr ⟨err, rfl, fun owner same => acted.overflow owner ?_⟩
              rw [same]
          | ok output =>
              refine .inl ⟨⟨frame.gasUsed, output⟩, rfl, ?_⟩
              rw [Ledger.contents_close, e.noncePolicy.advance_eq]
              exact e.noncePolicy.onContents_change frame.ledger tx

theorem apply_ok_effects (bare : e.Bare) (h : e.apply l tx height = (.ok outcome, m)) :
    e.noncePolicy.check l tx = .ok () ∧
      ∃ c, Effects e.machine.verifyReceipt tx.sender height l.contents c ∧
        (e.noncePolicy.change tx).onContents c = .ok m.contents := by
  have cases := apply_cases bare l tx height
  rw [h] at cases
  rcases cases with ⟨err, _, failed⟩ | ⟨checked, effects, ⟨_, _, advanced⟩ | ⟨err, failed, _⟩⟩
  · cases failed
  · exact ⟨checked, _, effects, advanced⟩
  · cases failed

theorem contents_apply_of_error (he : tx.kind = .callContract → e.Disciplined) {err : ChainError}
    (failed : (e.apply l tx height).1 = .error err) :
    (e.apply l tx height).2.contents = l.contents := by
  unfold apply at failed ⊢
  cases checked : e.noncePolicy.check l tx with
  | error _ => rfl
  | ok _ =>
      rw [checked] at failed
      obtain ⟨result, contents⟩ := Ledger.atomically_onCopy (regular_attempt tx he height) l
      have failed' : (l.atomically (e.attempt tx height)).1 = .error err := failed
      rw [← result, failed'] at contents
      exact contents

/-- What every effect for the sender preserves, and the advance of the nonce, is preserved by a
transaction, whether or not it is applied. -/
theorem apply_preserves (bare : e.Bare) {P : Contents → Prop}
    (effect : ∀ c d, Effect e.machine.verifyReceipt tx.sender height c d → P c → P d)
    (advance : ∀ c d, (e.noncePolicy.change tx).onContents c = .ok d → P c → P d)
    (start : P l.contents) : P (e.apply l tx height).2.contents := by
  cases ran : e.apply l tx height with
  | mk r m =>
      cases r with
      | error err =>
          have failed := contents_apply_of_error (fun _ => bare.disciplined) (congrArg Prod.fst ran)
          rw [ran] at failed
          exact failed ▸ start
      | ok outcome =>
          obtain ⟨_, c, effects, advanced⟩ := apply_ok_effects bare ran
          exact advance _ _ advanced (effects.preserves effect start)

/-- An overflow is reported where the effects of the transaction have led. -/
theorem apply_overflow (bare : e.Bare) {owner : Address}
    (overflowed : (e.apply l tx height).1 = .error (.invalidOperation (.balanceOverflow owner))) :
    Effects e.machine.verifyReceipt tx.sender height l.contents (e.reached l tx height) ∧
      Overflows e.machine.verifyReceipt tx.sender (e.reached l tx height) owner := by
  have cases := apply_cases bare l tx height
  rw [overflowed] at cases
  rcases cases with ⟨err, stale, same⟩ | ⟨_, effects, ⟨_, applied, _⟩ | ⟨err, same, reports⟩⟩
  · rw [← Except.error.inj same] at stale
    exact absurd stale (e.noncePolicy.check_ne_overflow l tx owner)
  · cases applied
  · exact ⟨effects, reports owner (Except.error.inj same).symm⟩

end Engine

end AgentLedger
