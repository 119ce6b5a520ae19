import AgentLedger.Proofs.Pool.Indexes

namespace AgentLedger

/-!
# Serving requests

A pool answers requests one after another. Whatever it admits is pending until an answer hands it
out, there is never more pending than the pool has room for, and a request that is refused changes
nothing.
-/

namespace Pool

inductive Request where
  | add (tx : Transaction)
  | popBatch (count : Nat)
  | remove (hash : Hash256)
  | contains (hash : Hash256)
  | size

inductive Answer where
  | added (result : Except ChainError Hash256)
  | batch (txs : List Transaction)
  | removed (tx? : Option Transaction)
  | contained (found : Bool)
  | counted (size : Nat)
deriving DecidableEq

/-- The transactions that a request hands in. -/
def Request.offered : Request → List Transaction
  | .add tx => [tx]
  | _ => []

/-- The transactions that an answer hands out. -/
def Answer.released : Answer → List Transaction
  | .batch txs => txs
  | .removed (some tx) => [tx]
  | _ => []

def Answer.IsRefusal : Answer → Prop
  | .added (.error _) | .removed none => True
  | _ => False

def serve (p : Pool) : Request → Answer × Pool
  | .add tx =>
      match p.add tx with
      | .ok (hash, q) => (.added (.ok hash), q)
      | .error err => (.added (.error err), p)
  | .popBatch count => (.batch (p.popBatch count).1, (p.popBatch count).2)
  | .remove hash =>
      match p.remove hash with
      | some (tx, q) => (.removed (some tx), q)
      | none => (.removed none, p)
  | .contains hash => (.contained (p.contains hash), p)
  | .size => (.counted p.size, p)

def answers (p : Pool) : List Request → List Answer
  | [] => []
  | r :: rest => (p.serve r).1 :: (p.serve r).2.answers rest

def run (p : Pool) (requests : List Request) : Pool := requests.foldl (fun p r => (p.serve r).2) p

def admission (p : Pool) : Request → List Transaction
  | .add tx =>
      match p.add tx with
      | .ok _ => [tx]
      | .error _ => []
  | _ => []

def admissions (p : Pool) : List Request → List Transaction
  | [] => []
  | r :: rest => p.admission r ++ (p.serve r).2.admissions rest


variable {p : Pool} {r : Request}

/-! ## One request -/

theorem mem_offered_of_mem_admission {tx : Transaction} (mem : tx ∈ p.admission r) :
    tx ∈ r.offered := by
  cases r with
  | add s =>
      cases added : p.add s with
      | error _ => simp [admission, added] at mem
      | ok _ => simpa [admission, added, Request.offered] using mem
  | _ => cases mem

theorem perm_serve (p : Pool) (r : Request) : (p.pending.values ++ p.admission r).Perm
    ((p.serve r).2.pending.values ++ (p.serve r).1.released) := by
  cases r with
  | add tx =>
      cases added : p.add tx with
      | error _ => simp [serve, admission, added, Answer.released]
      | ok answer =>
          obtain ⟨hash, q⟩ := answer
          have last : (p.pending.values ++ [tx]).Perm (tx :: p.pending.values) :=
            List.perm_append_comm
          simp only [serve, admission, added, Answer.released, List.append_nil]
          exact last.trans (perm_add added).symm
  | popBatch count =>
      simp only [serve, admission, Answer.released, List.append_nil]
      rw [← p.popBatch_append count]
      exact List.perm_append_comm
  | remove hash =>
      cases removed : p.remove hash with
      | none => simp [serve, admission, removed, Answer.released]
      | some found =>
          obtain ⟨tx, q⟩ := found
          have last : (q.pending.values ++ [tx]).Perm (tx :: q.pending.values) :=
            List.perm_append_comm
          simp only [serve, admission, removed, Answer.released, List.append_nil]
          exact (perm_remove removed).trans last.symm
  | contains hash => exact .refl _
  | size => exact .refl _

theorem serve_of_refusal (p : Pool) (r : Request) (refused : (p.serve r).1.IsRefusal) :
    (p.serve r).2 = p := by
  cases r with
  | add tx =>
      cases added : p.add tx with
      | error _ => simp only [serve, added]
      | ok answer => simp [serve, added, Answer.IsRefusal] at refused
  | popBatch count => cases refused
  | remove hash =>
      cases removed : p.remove hash with
      | none => simp only [serve, removed]
      | some found => simp [serve, removed, Answer.IsRefusal] at refused
  | contains hash => cases refused
  | size => cases refused

theorem serve_settings (p : Pool) (r : Request) :
    (p.serve r).2.capacity = p.capacity ∧ (p.serve r).2.tieBreak = p.tieBreak := by
  cases r with
  | add tx =>
      cases added : p.add tx with
      | error _ => simp [serve, added]
      | ok answer =>
          obtain ⟨hash, q⟩ := answer
          obtain ⟨_, rfl, _⟩ := add_eq_ok added
          simp only [serve, added]
          exact ⟨rfl, rfl⟩
  | popBatch count =>
      obtain ⟨_, _, alike⟩ := p.popBatch_spec count
      exact ⟨alike.capacity_eq, alike.tieBreak_eq⟩
  | remove hash =>
      rcases p.remove_cases hash with ⟨_, none⟩ | ⟨_, _, _, _, removed, _, alike⟩
      · simp [serve, none]
      · simp only [serve, removed]
        exact ⟨alike.capacity_eq, alike.tieBreak_eq⟩
  | contains hash => exact ⟨rfl, rfl⟩
  | size => exact ⟨rfl, rfl⟩

theorem size_serve_le (p : Pool) (r : Request) :
    (p.serve r).2.size ≤ p.size ∨ (p.serve r).2.size ≤ p.capacity.toNat := by
  have balance := (p.perm_serve r).length_eq
  rw [List.length_append, List.length_append, length_values_pending,
    length_values_pending] at balance
  cases r with
  | add tx =>
      cases added : p.add tx with
      | error _ =>
          left
          simp only [serve, added, Nat.le_refl]
      | ok answer =>
          obtain ⟨hash, q⟩ := answer
          obtain ⟨_, _, _, room⟩ := add_eq_ok added
          right
          simp only [serve, admission, added, Answer.released, List.length_singleton,
            List.length_nil] at balance ⊢
          omega
  | _ =>
      left
      simp only [admission, List.length_nil] at balance
      omega

/-! ## Series of requests -/

theorem perm_run (p : Pool) (requests : List Request) :
    (p.pending.values ++ p.admissions requests).Perm
      ((p.run requests).pending.values ++ (p.answers requests).flatMap Answer.released) := by
  induction requests generalizing p with
  | nil => exact .refl _
  | cons r rest ih =>
      let next := (p.serve r).2
      let out := (p.serve r).1.released
      let later := (next.answers rest).flatMap Answer.released
      change (p.pending.values ++ (p.admission r ++ next.admissions rest)).Perm
        ((next.run rest).pending.values ++ (out ++ later))
      -- What the first answer hands out is moved past what is admitted later.
      calc (p.pending.values ++ (p.admission r ++ next.admissions rest)).Perm
            (next.pending.values ++ out ++ next.admissions rest) := by
            rw [← List.append_assoc]
            exact (p.perm_serve r).append_right _
        List.Perm _ (out ++ next.pending.values ++ next.admissions rest) :=
            List.perm_append_comm.append_right _
        List.Perm _ (out ++ ((next.run rest).pending.values ++ later)) := by
            rw [List.append_assoc]
            exact (ih next).append_left out
        List.Perm _ ((next.run rest).pending.values ++ (out ++ later)) :=
            List.perm_append_comm_assoc _ _ _

theorem mem_offered_of_mem_admissions {tx : Transaction} {requests : List Request}
    (mem : tx ∈ p.admissions requests) : tx ∈ requests.flatMap Request.offered := by
  induction requests generalizing p with
  | nil => cases mem
  | cons r rest ih =>
      rw [List.flatMap_cons, List.mem_append]
      exact (List.mem_append.1 mem).imp mem_offered_of_mem_admission ih

/-- What is pending in a pool that was empty has been handed in. -/
theorem mem_offered_of_mem_pending {capacity : UInt64} {t : TieBreak} {requests : List Request}
    {tx : Transaction} (mem : tx ∈ ((withCapacity capacity t).run requests).pending.values) :
    tx ∈ requests.flatMap Request.offered := by
  have balance := (withCapacity capacity t).perm_run requests
  have admitted := balance.symm.subset (List.mem_append_left _ mem)
  exact mem_offered_of_mem_admissions admitted

theorem run_settings (p : Pool) (requests : List Request) :
    (p.run requests).capacity = p.capacity ∧ (p.run requests).tieBreak = p.tieBreak := by
  induction requests generalizing p with
  | nil => exact ⟨rfl, rfl⟩
  | cons r rest ih =>
      obtain ⟨capacity, tieBreak⟩ := p.serve_settings r
      obtain ⟨same, again⟩ := ih (p.serve r).2
      exact ⟨same.trans capacity, again.trans tieBreak⟩

theorem size_run_le (requests : List Request) (room : p.size ≤ p.capacity.toNat) :
    (p.run requests).size ≤ p.capacity.toNat := by
  induction requests generalizing p with
  | nil => exact room
  | cons r rest ih =>
      have capacity := (p.serve_settings r).1
      have within : (p.serve r).2.size ≤ (p.serve r).2.capacity.toNat := by
        rw [capacity]
        rcases p.size_serve_le r with less | within
        · exact Nat.le_trans less room
        · exact within
      rw [← capacity]
      exact ih within

theorem popBatch_add (p : Pool) (m n : Nat) : p.popBatch (m + n) =
    ((p.popBatch m).1 ++ ((p.popBatch m).2.popBatch n).1, ((p.popBatch m).2.popBatch n).2) := by
  induction m generalizing p with
  | zero => simp [popBatch]
  | succ m ih =>
      rw [Nat.succ_add]
      cases popped : p.popFirst with
      | none =>
          have nothing : p.popBatch n = ([], p) := by
            cases n with
            | zero => rfl
            | succ n => simp [popBatch, popped]
          simp [popBatch, popped, nothing]
      | some first => simp [popBatch, popped, ih first.2]

end Pool

end AgentLedger
