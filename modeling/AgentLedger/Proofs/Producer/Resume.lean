import AgentLedger.Proofs.Producer.Replicas
import AgentLedger.Proofs.Wire.Ledger

namespace AgentLedger

/-!
# Resuming from a snapshot

A snapshot keeps the contents of a ledger and forgets its notes. No sequence of calls can tell the
restored ledger from the one that the snapshot was taken of: if no checkpoint was open they are the
same ledger, and calls that give up all checkpoints that they take see nothing but the contents.
-/

/-- Makes a change, or leaves the ledger as it is if the change fails. -/
def Change.run (x : Change) (l : Ledger) : Except ChainError Unit × Ledger :=
  match x.onLedger l with
  | .ok m => (.ok (), m)
  | .error err => (.error err, l)

/-- What can be asked of a ledger directly, through an engine, or through its producer. -/
inductive Call where
  | change (x : Change)
  | checkpoint
  | commit (c : Checkpoint)
  | revertTo (c : Checkpoint)
  | apply (e : Engine) (tx : Transaction) (height : UInt64)
  | propose (x : Proposal)
  | adopt (b : Block)

namespace Call

inductive Answer where
  | done
  | taken (c : Checkpoint)
  | applied (outcome : Outcome)
  | proposed (b : Block)

/-- The call gives up all checkpoints that it takes, and takes all that it gives up. -/
def Enclosed : Call → Prop
  | checkpoint | commit _ | revertTo _ => False
  | apply e _ _ => e.Disciplined
  | change _ | propose _ | adopt _ => True

end Call

namespace Producer

variable {p q : Producer}

def withLedger (p : Producer) (l : Ledger) : Producer := { p with ledger := l }

def perform (p : Producer) : Call → Except ChainError Call.Answer × Producer
  | .change x => ((x.run p.ledger).1.map fun _ => .done, p.withLedger (x.run p.ledger).2)
  | .checkpoint => (.ok (.taken p.ledger.checkpoint.1), p.withLedger p.ledger.checkpoint.2)
  | .commit c => (.ok .done, p.withLedger (p.ledger.commit c))
  | .revertTo c => (.ok .done, p.withLedger (p.ledger.revertTo c))
  | .apply e tx height =>
      ((e.apply p.ledger tx height).1.map .applied, p.withLedger (e.apply p.ledger tx height).2)
  | .propose x =>
      ((p.propose x.clock x.proposer x.batch).1.map .proposed,
        (p.propose x.clock x.proposer x.batch).2)
  | .adopt b => ((p.adopt b).1.map fun _ => .done, (p.adopt b).2)

def answers (p : Producer) : List Call → List (Except ChainError Call.Answer)
  | [] => []
  | c :: rest => (p.perform c).1 :: (p.perform c).2.answers rest

def performAll (p : Producer) (calls : List Call) : Producer :=
  calls.foldl (fun p c => (p.perform c).2) p

/-! ## Forgetting the notes -/

/-- Equal but for what the ledgers have noted and how many checkpoints are open. -/
structure SameView (p q : Producer) : Prop where
  contents_eq : p.ledger.contents = q.ledger.contents
  rest_eq : q = p.withLedger q.ledger

namespace SameView

theorem of_contents_eq (p : Producer) {l : Ledger} (h : p.ledger.contents = l.contents) :
    p.SameView (p.withLedger l) := ⟨h, rfl⟩

theorem withLedger (same : p.SameView q) {l m : Ledger} (h : l.contents = m.contents) :
    (p.withLedger l).SameView (q.withLedger m) :=
  ⟨h, congrArg (fun r => r.withLedger m) same.rest_eq⟩

/-- An atomic run comes to the same result on both ledgers. -/
theorem atomically (same : p.SameView q) {α : Type}
    {change : Ledger → Except ChainError α × Ledger} (regular : Ledger.Regular change) :
    ∃ r l m, p.ledger.atomically change = (r, l) ∧ q.ledger.atomically change = (r, m) ∧
      l.contents = m.contents := by
  obtain ⟨result, contents⟩ := regular.atomically.congr same.contents_eq
  exact ⟨_, (p.ledger.atomically change).2, (q.ledger.atomically change).2, rfl,
    Prod.ext result.symm rfl, contents⟩

theorem propose (same : p.SameView q) (hp : p.engine.Disciplined) (clock : Int64)
    (proposer : Address) (batch : List Transaction) :
    (p.propose clock proposer batch).1 = (q.propose clock proposer batch).1 ∧
      (p.propose clock proposer batch).2.SameView (q.propose clock proposer batch).2 := by
  obtain ⟨r, l, m, ran, ran', contents⟩ :=
    same.atomically (regular_buildBody hp proposer batch)
  have build : q.buildBody proposer batch = p.buildBody proposer batch := by
    rw [same.rest_eq]
    rfl
  unfold Producer.propose
  rw [build, ran, ran', same.rest_eq]
  cases r with
  | ok _ => exact ⟨rfl, contents, rfl⟩
  | error _ => exact ⟨rfl, contents, rfl⟩

theorem adopt (same : p.SameView q) (hp : p.engine.Disciplined) (b : Block) :
    (p.adopt b).1 = (q.adopt b).1 ∧ (p.adopt b).2.SameView (q.adopt b).2 := by
  obtain ⟨r, l, m, ran, ran', contents⟩ := same.atomically (regular_replay hp b)
  have validate : q.validate b = p.validate b := by
    rw [same.rest_eq]
    rfl
  have replay : q.replay b = p.replay b := by
    rw [same.rest_eq]
    rfl
  unfold Producer.adopt
  rw [validate, replay, ran, ran']
  cases p.validate b with
  | error _ => exact ⟨rfl, same⟩
  | ok _ =>
      rw [same.rest_eq]
      cases r with
      | ok _ => exact ⟨rfl, contents, rfl⟩
      | error _ => exact ⟨rfl, contents, rfl⟩

theorem perform (same : p.SameView q) (hp : p.engine.Disciplined) {c : Call} (hc : c.Enclosed) :
    (p.perform c).1 = (q.perform c).1 ∧ (p.perform c).2.SameView (q.perform c).2 := by
  cases c with
  | change x =>
      obtain ⟨result, contents⟩ := (Ledger.Regular.change x).congr same.contents_eq
      exact ⟨congrArg (Except.map _) result, same.withLedger contents⟩
  | apply e tx height =>
      obtain ⟨result, contents⟩ := (e.regular_apply hc tx height).congr same.contents_eq
      exact ⟨congrArg (Except.map _) result, same.withLedger contents⟩
  | propose x =>
      obtain ⟨result, view⟩ := same.propose hp x.clock x.proposer x.batch
      exact ⟨congrArg (Except.map _) result, view⟩
  | adopt b =>
      obtain ⟨result, view⟩ := same.adopt hp b
      exact ⟨congrArg (Except.map _) result, view⟩
  | checkpoint => cases hc
  | commit c => cases hc
  | revertTo c => cases hc

end SameView

theorem engine_perform (p : Producer) (c : Call) : (p.perform c).2.engine = p.engine := by
  cases c with
  | propose x =>
      change (p.propose x.clock x.proposer x.batch).2.engine = p.engine
      unfold propose
      cases p.ledger.atomically (p.buildBody x.proposer x.batch) with
      | mk r l => cases r <;> rfl
  | adopt b =>
      change (p.adopt b).2.engine = p.engine
      unfold adopt
      cases p.validate b with
      | error _ => rfl
      | ok _ =>
          cases p.ledger.atomically (p.replay b) with
          | mk r l => cases r <;> rfl
  | _ => rfl

theorem SameView.performAll (same : p.SameView q) (hp : p.engine.Disciplined) {calls : List Call}
    (enclosed : ∀ c ∈ calls, c.Enclosed) :
    p.answers calls = q.answers calls ∧ (p.performAll calls).SameView (q.performAll calls) := by
  induction calls generalizing p q with
  | nil => exact ⟨rfl, same⟩
  | cons c rest ih =>
      rw [List.forall_mem_cons] at enclosed
      obtain ⟨answer, after⟩ := same.perform hp enclosed.1
      obtain ⟨later, last⟩ := ih after (p.engine_perform c ▸ hp) enclosed.2
      exact ⟨List.cons_eq_cons.2 ⟨answer, later⟩, last⟩

/-- The ledger of a snapshot has the contents that the snapshot was taken of and no notes. If no
checkpoint was open, or if the calls see no notes, they are answered as they would have been. -/
theorem restored_ledger_resumes (p : Producer) :
    ∃ l, Ledger.restore (Wire.encode p.ledger.snapshot) = .ok l ∧
      l.contents = p.ledger.contents ∧ l.notes = [] ∧ l.depth = 0 ∧
      ∀ calls : List Call,
        (p.ledger.depth = 0 ∧ p.ledger.Tidy ∨
          p.engine.Disciplined ∧ ∀ c ∈ calls, c.Enclosed) →
        (p.withLedger l).answers calls = p.answers calls ∧
        Wire.encode ((p.withLedger l).performAll calls).ledger.snapshot =
          Wire.encode (p.performAll calls).ledger.snapshot ∧
        ((p.withLedger l).performAll calls).ledger.contents.stateRoot =
          (p.performAll calls).ledger.contents.stateRoot ∧
        ((p.withLedger l).performAll calls).ledger.contents.agentRoot =
          (p.performAll calls).ledger.contents.agentRoot := by
  refine ⟨.ofContents p.ledger.contents, p.ledger.restore_snapshot, rfl, rfl, rfl, ?_⟩
  rintro calls (⟨shut, tidy⟩ | ⟨disciplined, enclosed⟩)
  · have same : .ofContents p.ledger.contents = p.ledger :=
      (Ledger.eq_ofContents shut tidy rfl).symm
    rw [same]
    exact ⟨rfl, rfl, rfl, rfl⟩
  · have view : p.SameView (p.withLedger (.ofContents p.ledger.contents)) :=
      .of_contents_eq p rfl
    obtain ⟨answers, after⟩ := view.performAll disciplined enclosed
    have contents := after.contents_eq
    unfold Ledger.snapshot
    rw [answers, contents]
    exact ⟨rfl, rfl, rfl, rfl⟩

/-- A producer whose ledger has a checkpoint open and a note. -/
def interrupted : Producer :=
  lone.withLedger ((Ledger.checkpoint .empty).2.setBalance .zero 1)

/-- The note is lost and nobody misses it. -/
theorem interrupted_resumes :
    ∃ l calls outcome b, Ledger.restore (Wire.encode interrupted.ledger.snapshot) = .ok l ∧
      l ≠ interrupted.ledger ∧
      interrupted.answers calls = [.ok .done, .ok (.applied outcome), .ok (.proposed b)] ∧
      (interrupted.withLedger l).answers calls = interrupted.answers calls := by
  obtain ⟨l, restored, _, _, shut, resumes⟩ := restored_ledger_resumes interrupted
  have enclosed : ∀ c ∈ [.change (.incrementNonce .zero),
      .apply Engine.withCounter transferOfNothing 1, .propose ⟨0, .zero, [transferOfNothing]⟩],
      Call.Enclosed c := by
    simp [Call.Enclosed, Engine.withCounter_disciplined]
  obtain ⟨answers, _⟩ := resumes _ (.inr ⟨Engine.withCounter_disciplined, enclosed⟩)
  refine ⟨l, _, _, _, restored, ?_, rfl, answers⟩
  rintro rfl
  cases shut

end Producer

end AgentLedger
