import AgentLedger.Proofs.Digest.Preimage
import AgentLedger.Proofs.Pool.Requests
import AgentLedger.Transaction.Draft
import Mathlib.Data.List.Sort

namespace AgentLedger

/-!
# The pool serves like one sorted list

A backlog is the simplest thing that could be a pool: one list, into which a transaction is inserted
behind all that it does not outrank, and whose front is the next batch. Two transactions that differ
in their signatures only are the same to it. Where no two transactions have one hash, and sequence
numbers do not run out, no series of requests can tell a pool from a backlog.
-/

/-! ## The list -/

namespace TieBreak

/-- A transaction that comes in goes before one that is pending. -/
def Outranks (t : TieBreak) (tx pending : Transaction) : Prop :=
  pending.gasPrice < tx.gasPrice ∨
    pending.gasPrice = tx.gasPrice ∧ t = .hash ∧ compare tx.hash pending.hash = .lt

instance (t : TieBreak) : DecidableRel t.Outranks := fun (tx s : Transaction) =>
  inferInstanceAs (Decidable (s.gasPrice < tx.gasPrice ∨
    s.gasPrice = tx.gasPrice ∧ t = .hash ∧ compare tx.hash s.hash = .lt))

/-- The order in which blocks take transactions of which the admissions are known. -/
def Precedes (t : TieBreak) (admissions : List Transaction) (a b : Transaction) : Prop :=
  b.gasPrice < a.gasPrice ∨ a.gasPrice = b.gasPrice ∧
    match t with
    | .hash => compare a.hash b.hash = .lt
    | .arrival => ∃ i j : Nat, i < j ∧ admissions[i]? = some a ∧ admissions[j]? = some b

end TieBreak

structure Backlog where
  capacity : UInt64
  tieBreak : TieBreak
  pending : List Transaction

namespace Backlog

def withCapacity (capacity : UInt64) (tieBreak : TieBreak) : Backlog := ⟨capacity, tieBreak, []⟩

def add (b : Backlog) (tx : Transaction) : Except ChainError (Hash256 × Backlog) :=
  if ∃ s ∈ b.pending, s.unsigned = tx.unsigned then .error (.duplicateTransaction tx.hash)
  else if b.capacity.toNat ≤ b.pending.length then .error .poolFull
  else .ok (tx.hash, { b with pending := b.pending.orderedInsert b.tieBreak.Outranks tx })

def serve (b : Backlog) : Pool.Request → Pool.Answer × Backlog
  | .add tx =>
      match b.add tx with
      | .ok (hash, c) => (.added (.ok hash), c)
      | .error err => (.added (.error err), b)
  | .popBatch count => (.batch (b.pending.take count), { b with pending := b.pending.drop count })
  | .remove hash => (.removed (b.pending.find? fun tx => tx.hash = hash),
      { b with pending := b.pending.filter fun tx => tx.hash ≠ hash })
  | .contains hash => (.contained (b.pending.any fun tx => tx.hash = hash), b)
  | .size => (.counted b.pending.length, b)

def answers (b : Backlog) : List Pool.Request → List Pool.Answer
  | [] => []
  | r :: rest => (b.serve r).1 :: (b.serve r).2.answers rest

def run (b : Backlog) (requests : List Pool.Request) : Backlog :=
  requests.foldl (fun b r => (b.serve r).2) b

end Backlog

/-! ## Places -/

/-- A newcomer's place is before that of an older transaction if it outranks it. -/
theorem TieBreak.compare_rank_eq_lt_iff {t : TieBreak} {m n : UInt64} {s tx : Transaction}
    (older : t = .arrival → m < n) :
    compare (t.rank n tx.gasPrice tx.hash) (t.rank m s.gasPrice s.hash) = .lt ↔
      t.Outranks tx s := by
  rw [Rank.compare_eq_lt_iff]
  unfold Outranks
  cases t with
  | hash => simp [rank, eq_comm]
  | arrival =>
      have behind : ¬ n < m ∧ n ≠ m := by
        have := older rfl
        grind
      simp [rank, behind]

theorem SortedMap.map_insertEntry {κ α : Type} [Ord κ] {k : κ} {a : α} {r : α → α → Prop}
    [DecidableRel r] {l : List (κ × α)} (same : ∀ e ∈ l, compare k e.1 = .lt ↔ r a e.2)
    (fresh : ∀ e ∈ l, compare k e.1 ≠ .eq) :
    (insertEntry k a l).map (·.2) = (l.map (·.2)).orderedInsert r a := by
  induction l with
  | nil => rfl
  | cons e rest ih =>
      obtain ⟨j, b⟩ := e
      rw [List.forall_mem_cons] at same fresh
      rw [List.map_cons, List.orderedInsert_cons, ← ih same.2 fresh.2]
      simp only [insertEntry, ← same.1]
      split
      · next lt => simp [lt]
      · next eq => exact absurd eq fresh.1
      · next gt => simp [gt]

namespace Pool

variable {p : Pool} {b : Backlog} {past txs : List Transaction} {r : Request}

/-- A pool is a backlog with places. The transactions it has admitted so far are `past`, and each
that is pending stands in it under its number, where numbers are kept. -/
structure Shows (p : Pool) (b : Backlog) (past : List Transaction) : Prop where
  capacity_eq : p.capacity = b.capacity
  tieBreak_eq : p.tieBreak = b.tieBreak
  pending_eq : p.pending.values = b.pending
  nextSequence_eq : p.nextSequence.toNat = past.length
  admitted : ∀ tx ∈ b.pending, tx ∈ past
  numbered : p.tieBreak = .arrival →
    ∀ e ∈ p.pending.entries, past[e.1.sequence.toNat]? = some e.2

theorem Shows.contains_iff (h : p.Shows b past)
    (clean : Hash256.NoCollision (txs.map Transaction.preimage))
    (known : ∀ s ∈ past, s ∈ txs) {tx : Transaction} (mem : tx ∈ txs) :
    p.contains tx.hash ↔ ∃ s ∈ b.pending, s.unsigned = tx.unsigned := by
  rw [Pool.contains_iff, h.pending_eq]
  refine exists_congr fun s => and_congr_right fun pending => ?_
  exact Transaction.hash_eq_iff clean (known s (h.admitted s pending)) mem

theorem Shows.size_eq (h : p.Shows b past) : p.size = b.pending.length := by
  rw [← length_values_pending, h.pending_eq]

theorem Shows.sequence_lt (h : p.Shows b past) (t : p.tieBreak = .arrival)
    {e : Rank × Transaction} (mem : e ∈ p.pending.entries) : e.1.sequence < p.nextSequence := by
  rw [UInt64.lt_iff_toNat_lt, h.nextSequence_eq]
  exact (List.getElem?_eq_some_iff.1 (h.numbered t e mem)).1

theorem Shows.insert (h : p.Shows b past) {tx : Transaction}
    (fresh : p.transactions.get? tx.hash = none) (few : past.length + 1 < UInt64.size) :
    (p.insert tx fresh).Shows
      { b with pending := b.pending.orderedInsert b.tieBreak.Outranks tx } (past ++ [tx]) where
  capacity_eq := h.capacity_eq
  tieBreak_eq := h.tieBreak_eq
  pending_eq := by
    have same : ∀ e ∈ p.pending.entries,
        compare (p.tieBreak.rank p.nextSequence tx.gasPrice tx.hash) e.1 = .lt ↔
          b.tieBreak.Outranks tx e.2 := by
      intro e mem
      have before (t : p.tieBreak = .arrival) := h.sequence_lt t mem
      obtain ⟨_, m, place⟩ := rank_of_mem_pending mem
      rw [place] at before ⊢
      rw [← h.tieBreak_eq]
      refine TieBreak.compare_rank_eq_lt_iff fun t => ?_
      specialize before t
      rw [t] at before
      exact before
    have other : ∀ e ∈ p.pending.entries,
        compare (p.tieBreak.rank p.nextSequence tx.gasPrice tx.hash) e.1 ≠ .eq := by
      intro e mem eq
      have stored := mem_pending.1 mem
      rw [← Std.LawfulEqCmp.eq_of_compare eq, TieBreak.hash_rank, fresh] at stored
      cases stored
    rw [pending_insert fresh, ← h.pending_eq]
    exact SortedMap.map_insertEntry same other
  nextSequence_eq := by
    change (p.nextSequence + 1).toNat = _
    rw [UInt64.toNat_add, h.nextSequence_eq, List.length_append]
    exact Nat.mod_eq_of_lt few
  admitted s mem := by
    rw [List.mem_orderedInsert] at mem
    rw [List.mem_append, List.mem_singleton]
    exact mem.symm.imp_left (h.admitted s)
  numbered t e mem := by
    rw [pending_insert fresh] at mem
    rcases SortedMap.mem_insertEntry mem with rfl | mem
    · have number : (p.tieBreak.rank p.nextSequence tx.gasPrice tx.hash).sequence.toNat =
          past.length := by
        change p.tieBreak = .arrival at t
        rw [t, ← h.nextSequence_eq]
        rfl
      rw [number]
      exact List.getElem?_concat_length
    · have stands := h.numbered t e mem
      rw [List.getElem?_append_left (List.getElem?_eq_some_iff.1 stands).1]
      exact stands

/-- Fewer transactions are pending than before. -/
theorem Shows.shrink (h : p.Shows b past) {q : Pool} (alike : q.Alike p)
    (fewer : ∀ e ∈ q.pending.entries, e ∈ p.pending.entries) :
    q.Shows { b with pending := q.pending.values } past where
  capacity_eq := alike.capacity_eq.trans h.capacity_eq
  tieBreak_eq := alike.tieBreak_eq.trans h.tieBreak_eq
  pending_eq := rfl
  nextSequence_eq := by rw [alike.nextSequence_eq, h.nextSequence_eq]
  admitted s mem := by
    obtain ⟨e, listed, rfl⟩ := List.mem_map.1 mem
    apply h.admitted
    rw [← h.pending_eq]
    exact List.mem_map_of_mem (fewer e listed)
  numbered t e mem := h.numbered (alike.tieBreak_eq.symm.trans t) e (fewer e mem)

/-! ## One request -/

theorem Shows.serve_add (h : p.Shows b past) {tx : Transaction}
    (twice : p.contains tx.hash ↔ ∃ s ∈ b.pending, s.unsigned = tx.unsigned)
    (few : (past ++ p.admission (.add tx)).length < UInt64.size) :
    (p.serve (.add tx)).1 = (b.serve (.add tx)).1 ∧
      (p.serve (.add tx)).2.Shows (b.serve (.add tx)).2 (past ++ p.admission (.add tx)) := by
  by_cases pending : p.contains tx.hash
  · have refused := add_of_contains pending
    have likewise : b.add tx = .error (.duplicateTransaction tx.hash) := if_pos (twice.1 pending)
    simp only [Pool.serve, Backlog.serve, admission, refused, likewise, List.append_nil, true_and]
    exact h
  have new : ¬ ∃ s ∈ b.pending, s.unsigned = tx.unsigned := fun same => pending (twice.2 same)
  by_cases full : p.capacity.toNat ≤ p.size
  · have refused := add_of_full pending full
    have likewise : b.add tx = .error .poolFull := by
      rw [h.capacity_eq, h.size_eq] at full
      rw [Backlog.add, if_neg new, if_pos full]
    simp only [Pool.serve, Backlog.serve, admission, refused, likewise, List.append_nil, true_and]
    exact h
  · obtain ⟨fresh, granted⟩ := add_of_room pending (Nat.lt_of_not_le full)
    have likewise : b.add tx = .ok (tx.hash,
        { b with pending := b.pending.orderedInsert b.tieBreak.Outranks tx }) := by
      rw [h.capacity_eq, h.size_eq] at full
      rw [Backlog.add, if_neg new, if_neg full]
    simp only [admission, granted, List.length_append, List.length_singleton] at few
    simp only [Pool.serve, Backlog.serve, admission, granted, likewise, true_and]
    exact h.insert fresh few

theorem Shows.serve_popBatch (h : p.Shows b past) (count : Nat) :
    (p.serve (.popBatch count)).1 = (b.serve (.popBatch count)).1 ∧
      (p.serve (.popBatch count)).2.Shows (b.serve (.popBatch count)).2 past := by
  obtain ⟨batch, left, alike⟩ := p.popBatch_spec count
  have later := p.values_popBatch count
  rw [h.pending_eq] at batch later
  refine ⟨congrArg Answer.batch batch, ?_⟩
  simp only [Pool.serve, Backlog.serve, ← later]
  refine h.shrink alike fun e mem => ?_
  rw [left] at mem
  exact List.mem_of_mem_drop mem

theorem Shows.serve_remove (h : p.Shows b past) (hash : Hash256) :
    (p.serve (.remove hash)).1 = (b.serve (.remove hash)).1 ∧
      (p.serve (.remove hash)).2.Shows (b.serve (.remove hash)).2 past := by
  rcases p.remove_cases hash with ⟨absent, none⟩ | ⟨rank, tx, q, found, some, left, alike⟩
  · rw [Pool.contains_iff, h.pending_eq] at absent
    have distinct : ∀ s ∈ b.pending, s.hash ≠ hash := fun s mem same => absent ⟨s, mem, same⟩
    have nothing : b.pending.find? (fun s => s.hash = hash) = Option.none := by
      rw [List.find?_eq_none]
      intro s mem
      exact fun same => distinct s mem (of_decide_eq_true same)
    have all : b.pending.filter (fun s => s.hash ≠ hash) = b.pending := by
      rw [List.filter_eq_self]
      intro s mem
      exact decide_eq_true (distinct s mem)
    simp only [Pool.serve, Backlog.serve, none, nothing, all, true_and]
    exact h
  · have first := find?_pending found
    have others := values_erase_pending found
    rw [h.pending_eq] at first others
    rw [← left] at others
    simp only [Pool.serve, Backlog.serve, some, first, ← others, true_and]
    refine h.shrink alike fun e mem => ?_
    rw [left] at mem
    exact List.mem_of_mem_filter mem

theorem Shows.serve (h : p.Shows b past)
    (clean : Hash256.NoCollision (txs.map Transaction.preimage))
    (known : ∀ s ∈ past, s ∈ txs) (offered : ∀ s ∈ r.offered, s ∈ txs)
    (few : (past ++ p.admission r).length < UInt64.size) :
    (p.serve r).1 = (b.serve r).1 ∧
      (p.serve r).2.Shows (b.serve r).2 (past ++ p.admission r) := by
  cases r with
  | add tx => exact h.serve_add (h.contains_iff clean known (offered tx List.mem_cons_self)) few
  | popBatch count =>
      simp only [admission, List.append_nil]
      exact h.serve_popBatch count
  | remove hash =>
      simp only [admission, List.append_nil]
      exact h.serve_remove hash
  | contains hash =>
      simp only [admission, List.append_nil]
      refine ⟨congrArg Answer.contained ?_, h⟩
      rw [Bool.eq_iff_iff, Pool.contains_iff, h.pending_eq]
      simp
  | size =>
      simp only [admission, List.append_nil]
      exact ⟨congrArg Answer.counted h.size_eq, h⟩

/-! ## Any number of requests -/

theorem Shows.run {requests : List Request} (h : p.Shows b past)
    (clean : Hash256.NoCollision (txs.map Transaction.preimage)) (known : ∀ s ∈ past, s ∈ txs)
    (offered : ∀ s ∈ requests.flatMap Request.offered, s ∈ txs)
    (few : (past ++ p.admissions requests).length < UInt64.size) :
    p.answers requests = b.answers requests ∧
      (p.run requests).Shows (b.run requests) (past ++ p.admissions requests) := by
  induction requests generalizing p b past with
  | nil =>
      rw [admissions, List.append_nil]
      exact ⟨rfl, h⟩
  | cons r rest ih =>
      rw [admissions, ← List.append_assoc] at few ⊢
      rw [List.flatMap_cons, List.forall_mem_append] at offered
      have soon : (past ++ p.admission r).length < UInt64.size := by
        rw [List.length_append] at few
        omega
      obtain ⟨answer, next⟩ := h.serve clean known offered.1 soon
      have known : ∀ s ∈ past ++ p.admission r, s ∈ txs := by
        rw [List.forall_mem_append]
        exact ⟨known, fun s mem => offered.1 s (mem_offered_of_mem_admission mem)⟩
      obtain ⟨answers, last⟩ := ih next known offered.2 few
      refine ⟨?_, last⟩
      rw [Pool.answers, Backlog.answers, answer, answers]

theorem Shows.pairwise (h : p.Shows b past) :
    b.pending.Pairwise (b.tieBreak.Precedes past) := by
  rw [← h.pending_eq, ← h.tieBreak_eq]
  cases t : p.tieBreak with
  | hash => exact pairwise_pending t
  | arrival =>
      rw [SortedMap.values, List.pairwise_map]
      refine p.pending.sorted.imp_of_mem ?_
      intro d e memD memE lt
      have numberD := h.numbered t d memD
      have numberE := h.numbered t e memE
      obtain ⟨_, m, placeD⟩ := rank_of_mem_pending memD
      obtain ⟨_, n, placeE⟩ := rank_of_mem_pending memE
      rw [placeD, t] at numberD
      rw [placeE, t] at numberE
      rw [placeD, placeE, Rank.compare_eq_lt_iff, t] at lt
      rcases lt with price | ⟨same, earlier | ⟨number, hash⟩⟩
      · exact .inl price
      · exact .inr ⟨same, m.toNat, n.toNat, earlier, numberD, numberE⟩
      · -- One number is given to one transaction only.
        change m = n at number
        subst number
        rw [Option.some.inj (numberD.symm.trans numberE)] at hash
        simp [TieBreak.rank] at hash

theorem shows_withCapacity (capacity : UInt64) (t : TieBreak) :
    (withCapacity capacity t).Shows (.withCapacity capacity t) [] where
  capacity_eq := rfl
  tieBreak_eq := rfl
  pending_eq := rfl
  nextSequence_eq := rfl
  admitted := nofun
  numbered := nofun

/-- The pool answers any requests as the sorted list does, and what is pending is that list at any
time. It never grows beyond the capacity, two batches are one, a refused request changes nothing,
and each admission is pending or has been handed out once. -/
theorem serves_sorted_list (capacity : UInt64) (t : TieBreak) (requests : List Request)
    (clean : Hash256.NoCollision ((requests.flatMap Request.offered).map Transaction.preimage))
    (few : ((withCapacity capacity t).admissions requests).length < UInt64.size) :
    let admitted := (withCapacity capacity t).admissions requests
    let answers := (withCapacity capacity t).answers requests
    let p := (withCapacity capacity t).run requests
    let b := (Backlog.withCapacity capacity t).run requests
    answers = (Backlog.withCapacity capacity t).answers requests ∧
    p.pending.values = b.pending ∧ b.pending.Pairwise (t.Precedes admitted) ∧
    p.size ≤ capacity.toNat ∧
    (∀ m n, p.popBatch (m + n) =
      ((p.popBatch m).1 ++ ((p.popBatch m).2.popBatch n).1, ((p.popBatch m).2.popBatch n).2)) ∧
    (∀ r, (p.serve r).1.IsRefusal → (p.serve r).2 = p) ∧
    admitted.Perm (p.pending.values ++ answers.flatMap Answer.released) := by
  intro admitted answers p b
  have start := shows_withCapacity capacity t
  obtain ⟨same, shows⟩ := start.run clean nofun (fun _ mem => mem) few
  rw [List.nil_append] at shows
  refine ⟨same, shows.pending_eq, ?_, ?_, p.popBatch_add, p.serve_of_refusal, ?_⟩
  · have tieBreak := ((withCapacity capacity t).run_settings requests).2
    have sorted := shows.pairwise
    rw [← shows.tieBreak_eq, tieBreak] at sorted
    exact sorted
  · exact size_run_le requests (Nat.zero_le _)
  · exact (withCapacity capacity t).perm_run requests

/-- Two signatures are one transaction, and of two transactions the one with the higher price comes
first, when there is room for no third. -/
theorem pool_of_two_serves :
    let cheap := Transaction.transfer .zero .zero 0 0 0
    let dear := Transaction.transfer .zero .zero 0 0 1
    let other := Transaction.transfer .zero .zero 1 0 1
    (withCapacity 2 .arrival).answers [.add cheap, .add { cheap with signature := [1] }, .add dear,
        .add other, .popBatch 1, .remove cheap.hash] =
      [.added (.ok cheap.hash), .added (.error (.duplicateTransaction cheap.hash)),
        .added (.ok dear.hash), .added (.error .poolFull), .batch [dear],
        .removed (some cheap)] := by
  intro cheap dear other
  let requests : List Request := [.add cheap, .add { cheap with signature := [1] }, .add dear,
    .add other, .popBatch 1, .remove cheap.hash]
  have clean : Hash256.NoCollision
      ((requests.flatMap Request.offered).map Transaction.preimage) := by
    unfold Hash256.NoCollision
    decide +kernel
  have few : ((withCapacity 2 .arrival).admissions requests).length < UInt64.size := by
    decide +kernel
  refine (serves_sorted_list 2 .arrival requests clean few).1.trans ?_
  decide +kernel

end Pool

end AgentLedger
