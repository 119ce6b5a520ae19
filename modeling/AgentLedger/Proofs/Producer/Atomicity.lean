import AgentLedger.Proofs.Producer.Adoption

namespace AgentLedger

/-!
# Atomicity of blocks

A block is proposed or adopted inside one checkpoint, and every transaction in it inside a further
one. Whatever the extensions of the engine do, a call that fails changes neither the tip nor what is
announced. If they reach the ledger by sessions only, it also leaves the ledger as it was, with its
notes and its checkpoints, however far it has got. An extension that writes the ledger itself can
keep it from being restored.
-/

namespace Producer

variable {p : Producer} {b : Block} {clock : Int64} {proposer : Address}
  {batch : List Transaction} {err : ChainError}

theorem ledger_propose (p : Producer) (clock : Int64) (proposer : Address)
    (batch : List Transaction) : (p.propose clock proposer batch).2.ledger =
      (p.ledger.atomically (p.buildBody proposer batch)).2 := by
  unfold propose
  cases p.ledger.atomically (p.buildBody proposer batch) with
  | mk r ledger =>
      cases r with
      | ok _ => rfl
      | error _ => rfl

theorem adopt_of_error (hp : p.engine.Disciplined) (tidy : p.ledger.Tidy)
    (failed : (p.adopt b).1 = .error err) : (p.adopt b).2 = p := by
  cases valid : p.validate b with
  | error e => rw [adopt_of_invalid valid]
  | ok _ =>
      rw [adopt_error_still failed, (adopt_of_valid valid).2]
      rw [(adopt_of_valid valid).1] at failed
      rw [Ledger.atomically_of_error (regular_replay hp b) tidy failed]

theorem propose_of_error (hp : p.engine.Disciplined) (tidy : p.ledger.Tidy)
    (failed : (p.propose clock proposer batch).1 = .error err) :
    (p.propose clock proposer batch).2 = { p with phase := .idle } := by
  obtain ⟨e, undone⟩ : ∃ e, (p.ledger.atomically (p.buildBody proposer batch)).1 = .error e := by
    unfold propose at failed
    cases ran : p.ledger.atomically (p.buildBody proposer batch) with
    | mk r _ =>
        rw [ran] at failed
        cases r with
        | ok _ => cases failed
        | error e => exact ⟨e, rfl⟩
  rw [propose_error_still failed, ledger_propose,
    Ledger.atomically_of_error (regular_buildBody hp proposer batch) tidy undone]

/-! ## What stays fit for the next call -/

theorem tidy_adopt (tidy : p.ledger.Tidy) (b : Block) : (p.adopt b).2.ledger.Tidy := by
  cases valid : p.validate b with
  | error e =>
      rw [adopt_of_invalid valid]
      exact tidy
  | ok _ =>
      rw [(adopt_of_valid valid).2]
      exact p.ledger.tidy_atomically _

theorem tidy_propose (p : Producer) (clock : Int64) (proposer : Address)
    (batch : List Transaction) : (p.propose clock proposer batch).2.ledger.Tidy := by
  rw [ledger_propose]
  exact p.ledger.tidy_atomically _

/-- A call that fails changes the ledger at most, but for the phase, which a proposal leaves idle;
what is not valid is refused before the ledger is touched. If the extensions of the engine reach the
ledger by sessions only, a failed call does not change the ledger either. Either call leaves a
ledger for which this holds again. -/
theorem failed_calls_leave_no_trace (tidy : p.ledger.Tidy) :
    (∀ b err, (p.adopt b).1 = .error err →
      (p.adopt b).2 = { p with ledger := (p.adopt b).2.ledger } ∧
      (p.validate b = .error err ∨ p.engine.Disciplined → (p.adopt b).2 = p)) ∧
    (∀ clock proposer batch err, (p.propose clock proposer batch).1 = .error err →
      (p.propose clock proposer batch).2 =
        { p with ledger := (p.propose clock proposer batch).2.ledger, phase := .idle } ∧
      (p.engine.Disciplined →
        (p.propose clock proposer batch).2 = { p with phase := .idle })) ∧
    (∀ b, (p.adopt b).2.ledger.Tidy) ∧
    ∀ clock proposer batch, (p.propose clock proposer batch).2.ledger.Tidy := by
  refine ⟨fun b err failed => ⟨adopt_error_still failed, ?_⟩,
    fun clock proposer batch err failed => ⟨propose_error_still failed, fun disciplined => ?_⟩,
    tidy_adopt tidy, p.tidy_propose⟩
  · rintro (invalid | disciplined)
    · rw [adopt_of_invalid invalid]
    · exact adopt_of_error disciplined tidy failed
  · exact propose_of_error disciplined tidy failed

/-- The producer with a committer that never gets to its roots. -/
def rootless (p : Producer) : Producer :=
  let fails (_ : Contents) : Except ChainError Hash256 := .error .executionReverted
  { p with committer := ⟨fails, fails⟩ }

/-- Both calls fail after the transaction has been run and the reward has been credited. -/
theorem rootless_leaves_no_trace :
    ∃ b, (lone.propose 0 .zero [transferOfNothing]).1 = .ok b ∧
      (lone.rootless.replay b lone.rootless.ledger.checkpoint.2).2.contents.balance .zero =
        Policy.blockReward ∧
      (lone.rootless.adopt b).1 = .error .executionReverted ∧
      (lone.rootless.adopt b).2 = lone.rootless ∧
      (lone.rootless.propose 0 .zero [transferOfNothing]).1 = .error .executionReverted ∧
      (lone.rootless.propose 0 .zero [transferOfNothing]).2 = lone.rootless := by
  let b := (lone.propose 0 .zero [transferOfNothing]).2.tip
  have tidy : lone.rootless.ledger.Tidy := Ledger.tidy_ofContents _
  have valid : lone.rootless.validate b = .ok () :=
    (lone.rootless.validate_eq_ok_iff b).2 ⟨⟨_, rfl, rfl⟩, rfl, rfl, rfl⟩
  have refused : (lone.rootless.adopt b).1 = .error .executionReverted := by
    rw [(adopt_of_valid valid).1]
    decide +kernel
  have failed : (lone.rootless.propose 0 .zero [transferOfNothing]).1 =
    .error .executionReverted := rfl
  obtain ⟨adopts, proposes, _⟩ := failed_calls_leave_no_trace tidy
  obtain ⟨_, restores⟩ := adopts b _ refused
  obtain ⟨_, restores'⟩ := proposes 0 .zero [transferOfNothing] _ failed
  exact ⟨b, rfl, by decide +kernel, refused, restores (.inr Engine.withCounter_disciplined),
    failed, restores' Engine.withCounter_disciplined⟩

/-- A refused block can leave an emptied ledger behind, or a checkpoint that nobody closes. So can a
failed proposal, though it leaves out the call that has emptied the ledger. -/
theorem undisciplined_calls_leave_traces :
    (∃ hash, ((holding emptying).adopt (holding emptying).calling).1 =
      .error (.invalidBlock (.transaction hash .executionReverted))) ∧
    ((holding emptying).adopt (holding emptying).calling).2.ledger = .empty ∧
    (holding emptying).ledger ≠ .empty ∧
    (∃ hash, ((holding leaking).adopt (holding leaking).calling).1 =
      .error (.invalidBlock (.transaction hash .executionReverted))) ∧
    ((holding leaking).adopt (holding leaking).calling).2.ledger.depth = 1 ∧
    (holding leaking).ledger.depth = 0 ∧
    ((holding emptying).rootless.propose 0 .zero [Engine.counterCall 100000]).1 =
      .error .executionReverted ∧
    ((holding emptying).rootless.propose 0 .zero [Engine.counterCall 100000]).2.ledger.contents ≠
      (holding emptying).rootless.ledger.contents := by
  have empties := adopt_of_valid (validate_calling (p := holding emptying) rfl rfl)
  have leaks := adopt_of_valid (validate_calling (p := holding leaking) rfl rfl)
  refine ⟨⟨_, empties.1.trans rfl⟩, ?_, by decide +kernel, ⟨_, leaks.1.trans rfl⟩, ?_, rfl, rfl, ?_⟩
  · rw [empties.2]
    decide +kernel
  · rw [leaks.2]
    decide +kernel
  · rw [ledger_propose]
    decide +kernel

end Producer

end AgentLedger
