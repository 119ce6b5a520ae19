import AgentLedger.Producer
import AgentLedger.Proofs.Engine.Atomicity

namespace AgentLedger

/-!
# Batches and bodies

A transaction that a batch leaves out leaves no trace, so the others run as a body to the same
ledger. Conversely, nothing is left out of a batch that runs as a body to its end. Building a block
and replaying one therefore differ only in what they do with transactions that fail.
-/

namespace Engine

variable {e : Engine} {height : UInt64} {l m : Ledger}

theorem regular_applyBatch (he : e.Disciplined) (height : UInt64) (batch : List Transaction) :
    Ledger.Regular (e.applyBatch height batch) := by
  induction batch with
  | nil => exact .reading fun _ => []
  | cons tx rest ih =>
      refine (regular_apply he tx height).branch (fun _ => ih.map (tx :: ·)) (fun _ => ih) ?_ ?_
      · intro l _ m ran
        simp only [applyBatch, ran]
      · intro l _ m ran
        simp only [applyBatch, ran]

theorem regular_applyBody (he : e.Disciplined) (height : UInt64) (txs : List Transaction) :
    Ledger.Regular (e.applyBody height txs) := by
  induction txs with
  | nil => exact .reading fun _ => Except.ok ()
  | cons tx rest ih =>
      let failed (cause : ChainError) (_ : Contents) : Except ChainError Unit :=
        .error (.invalidBlock (.transaction tx.hash cause))
      refine (regular_apply he tx height).branch (fun _ => ih)
        (fun cause => .reading (failed cause)) ?_ ?_
      · intro l _ m ran
        simp only [applyBody, ran]
      · intro l _ m ran
        simp only [applyBody, ran, failed]

/-- The included transactions see the ledgers that they saw in the batch. -/
theorem applyBody_applyBatch (he : e.Disciplined) (tidy : l.Tidy) (height : UInt64)
    (batch : List Transaction) :
    e.applyBody height (e.applyBatch height batch l).1 l =
      (.ok (), (e.applyBatch height batch l).2) := by
  induction batch generalizing l with
  | nil => rfl
  | cons tx rest ih =>
      have after := e.tidy_apply tidy tx height
      have dropped (err : ChainError) (failed : (e.apply l tx height).1 = .error err) :
          (e.apply l tx height).2 = l := apply_of_error (fun _ => he) tidy failed
      unfold applyBatch
      cases ran : e.apply l tx height with
      | mk r next =>
          rw [ran] at after dropped
          cases r with
          | ok outcome =>
              simp only [applyBody, ran]
              exact ih after
          | error err =>
              have same : next = l := dropped err rfl
              rw [same]
              exact ih tidy

/-- What every transaction preserves, a batch preserves. -/
theorem applyBatch_preserves {P : Contents → Prop}
    (one : ∀ l tx, P l.contents → P (e.apply l tx height).2.contents) (batch : List Transaction)
    (start : P l.contents) : P (e.applyBatch height batch l).2.contents := by
  induction batch generalizing l with
  | nil => exact start
  | cons tx rest ih =>
      have first := one l tx start
      unfold applyBatch
      cases ran : e.apply l tx height with
      | mk r next =>
          rw [ran] at first
          cases r with
          | ok _ => exact ih first
          | error _ => exact ih first

theorem applyBatch_of_applyBody {txs : List Transaction}
    (h : e.applyBody height txs l = (.ok (), m)) : e.applyBatch height txs l = (txs, m) := by
  induction txs generalizing l with
  | nil =>
      cases h
      rfl
  | cons tx rest ih =>
      unfold applyBody at h
      unfold applyBatch
      cases ran : e.apply l tx height with
      | mk r next =>
          rw [ran] at h
          cases r with
          | ok outcome =>
              simp only [ih h]
          | error err => cases h

end Engine

theorem Committer.regular_settle (k : Committer) (proposer : Address) :
    Ledger.Regular (k.settle proposer) := by
  let reward : Change := .credit proposer Policy.blockReward
  let failed (err : ChainError) (_ : Contents) : Except ChainError (Hash256 × Hash256) := .error err
  refine (Ledger.Regular.change reward).branch (fun _ => .reading k.roots)
    (fun err => .reading (failed err)) ?_ ?_
  · intro l _ m ran
    unfold settle
    cases credited : l.credit proposer Policy.blockReward with
    | ok _ =>
        simp only [reward, Change.onLedger, credited] at ran
        cases ran
        rfl
    | error _ => simp [reward, Change.onLedger, credited] at ran
  · intro l _ m ran
    unfold settle
    cases credited : l.credit proposer Policy.blockReward with
    | ok _ => simp [reward, Change.onLedger, credited] at ran
    | error _ =>
        simp only [reward, Change.onLedger, credited] at ran
        cases ran
        rfl

namespace Producer

variable {p : Producer} {l m : Ledger} {b : Block}

theorem buildBody_eq (p : Producer) (proposer : Address) (batch : List Transaction) (l : Ledger) :
    p.buildBody proposer batch l =
      let built := p.engine.applyBatch p.nextHeight batch l
      let settled := p.committer.settle proposer built.2
      (settled.1.map fun roots => ⟨built.1, roots.1, roots.2⟩, settled.2) := by
  unfold buildBody
  cases p.engine.applyBatch p.nextHeight batch l with
  | mk included applied =>
      simp only
      cases p.committer.settle proposer applied with
      | mk roots settled => cases roots <;> rfl

theorem regular_buildBody (hp : p.engine.Disciplined) (proposer : Address)
    (batch : List Transaction) : Ledger.Regular (p.buildBody proposer batch) := by
  let body (included : List Transaction) (roots : Hash256 × Hash256) : Body :=
    ⟨included, roots.1, roots.2⟩
  have settle (included : List Transaction) : Ledger.Regular fun applied =>
      ((p.committer.settle proposer applied).1.map (body included),
        (p.committer.settle proposer applied).2) :=
    (p.committer.regular_settle proposer).map _
  have unfolded := funext (p.buildBody_eq proposer batch)
  rw [unfolded]
  exact (Engine.regular_applyBatch hp p.nextHeight batch).bind settle

theorem regular_replay (hp : p.engine.Disciplined) (b : Block) :
    Ledger.Regular (p.replay b) := by
  let failed (err : ChainError) (_ : Contents) : Except ChainError Unit := .error err
  let compared (roots : Except ChainError (Hash256 × Hash256)) : Except ChainError Unit :=
    roots.bind fun (stateRoot, agentRoot) => matchRoots b.header stateRoot agentRoot
  refine (Engine.regular_applyBody hp b.header.height b.transactions).branch
    (fun _ => (p.committer.regular_settle b.header.proposer).map compared)
    (fun err => .reading (failed err)) ?_ ?_
  · intro l _ applied ran
    unfold replay
    rw [ran]
    simp only
    cases p.committer.settle b.header.proposer applied with
    | mk roots settled => cases roots <;> rfl
  · intro l _ applied ran
    unfold replay
    rw [ran]

theorem matchRoots_eq_ok_iff (header : BlockHeader) (stateRoot agentRoot : Hash256) :
    matchRoots header stateRoot agentRoot = .ok () ↔
      stateRoot = header.stateRoot ∧ agentRoot = header.agentRoot := by
  unfold matchRoots
  split
  · next other => simp [other]
  · next same =>
      split
      · next other => simp [other]
      · next same' => simp [Decidable.not_not.1 same, Decidable.not_not.1 same']

/-- A block replays if its transactions all succeed and the committer then comes to its roots. -/
theorem replay_eq_ok_iff_settles : p.replay b l = (.ok (), m) ↔
    ∃ applied, p.engine.applyBody b.header.height b.transactions l = (.ok (), applied) ∧
      p.committer.settle b.header.proposer applied =
        (.ok (b.header.stateRoot, b.header.agentRoot), m) := by
  unfold replay
  constructor
  · intro replayed
    cases ran : p.engine.applyBody b.header.height b.transactions l with
    | mk r applied =>
        rw [ran] at replayed
        cases r with
        | error err => cases replayed
        | ok _ =>
            refine ⟨applied, rfl, ?_⟩
            simp only at replayed
            cases settled : p.committer.settle b.header.proposer applied with
            | mk roots last =>
                rw [settled] at replayed
                cases roots with
                | error err => cases replayed
                | ok roots =>
                    obtain ⟨matching, rfl⟩ := Prod.mk.inj replayed
                    obtain ⟨state, agent⟩ := (matchRoots_eq_ok_iff _ _ _).1 matching
                    rw [← state, ← agent]
  · rintro ⟨applied, ran, settled⟩
    simp only [ran, settled, (matchRoots_eq_ok_iff _ _ _).2 ⟨rfl, rfl⟩]

/-- A block replays exactly if some batch builds its body, and to the same ledger. -/
theorem replay_eq_ok_iff (hp : p.engine.Disciplined) (tidy : l.Tidy)
    (next : b.header.height = p.nextHeight) :
    p.replay b l = (.ok (), m) ↔
      ∃ batch, p.buildBody b.header.proposer batch l =
        (.ok ⟨b.transactions, b.header.stateRoot, b.header.agentRoot⟩, m) := by
  rw [replay_eq_ok_iff_settles, next]
  unfold buildBody
  constructor
  · rintro ⟨applied, ran, settled⟩
    refine ⟨b.transactions, ?_⟩
    rw [Engine.applyBatch_of_applyBody ran]
    simp only [settled]
  · rintro ⟨batch, built⟩
    have body := Engine.applyBody_applyBatch hp tidy p.nextHeight batch
    cases ran : p.engine.applyBatch p.nextHeight batch l with
    | mk included applied =>
        rw [ran] at built body
        simp only at built body
        cases settled : p.committer.settle b.header.proposer applied with
        | mk roots last =>
            rw [settled] at built
            cases roots with
            | error err => cases built
            | ok roots =>
                obtain ⟨same, rfl⟩ := Prod.mk.inj built
                obtain ⟨rfl, state, agent⟩ := Body.mk.inj (Except.ok.inj same)
                refine ⟨applied, body, ?_⟩
                rw [settled, ← state, ← agent]

end Producer

end AgentLedger
