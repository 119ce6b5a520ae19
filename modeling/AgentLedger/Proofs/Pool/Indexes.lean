import AgentLedger.Pool
import Mathlib.Data.List.Nodup
import Mathlib.Data.List.Perm.Basic

namespace AgentLedger

/-!
# What is pending

The two indexes of a pool make up one sorted map from places to transactions, and each operation on
the indexes is an operation on that map: an admission puts an entry in place, a batch drops the
first entries, and a removal erases one.
-/

theorem SortedMap.perm_insertEntry {κ α : Type} [Ord κ] [Std.LawfulEqOrd κ] {k : κ}
    {l : List (κ × α)} (fresh : ∀ e ∈ l, e.1 ≠ k) (a : α) :
    (insertEntry k a l).Perm ((k, a) :: l) := by
  induction l with
  | nil => exact .refl _
  | cons e rest ih =>
      obtain ⟨j, b⟩ := e
      have other : j ≠ k := fresh (j, b) List.mem_cons_self
      have later : ∀ e ∈ rest, e.1 ≠ k := fun e mem => fresh e (List.mem_cons_of_mem _ mem)
      unfold insertEntry
      split
      · exact .refl _
      · next same => exact absurd (Std.LawfulEqCmp.eq_of_compare same).symm other
      · exact ((ih later).cons (j, b)).trans (.swap (k, a) (j, b) rest)

theorem SortedMap.perm_erase {κ α : Type} [Ord κ] [Std.LawfulEqOrd κ] [DecidableEq κ]
    {m : SortedMap κ α} {k : κ} {a : α} (found : m.get? k = some a) :
    m.entries.Perm ((k, a) :: (m.erase k).entries) := by
  have absent : (k, a) ∉ (m.erase k).entries := by
    rw [mem_entries_iff, get?_erase, if_pos rfl]
    nofun
  have nodup := List.nodup_cons.2 ⟨absent, (m.erase k).nodup_entries⟩
  refine (List.perm_ext_iff_of_nodup m.nodup_entries nodup).2 ?_
  rintro ⟨j, b⟩
  rw [List.mem_cons, mem_entries_iff, mem_entries_iff, get?_erase]
  by_cases same : j = k
  · subst same
    simp [found, eq_comm]
  · simp [same]

theorem Rank.compare_eq_lt_iff {a b : Rank} : compare a b = .lt ↔
    b.gasPrice < a.gasPrice ∨ a.gasPrice = b.gasPrice ∧
      (a.sequence < b.sequence ∨ a.sequence = b.sequence ∧ compare a.hash b.hash = .lt) := by
  have price : compare b.gasPrice a.gasPrice = .lt ↔ b.gasPrice < a.gasPrice := Nat.compare_eq_lt
  change order a b = .lt ↔ _
  simp only [order, compareLex, compareOn, Ordering.then_eq_lt, Std.compare_eq_iff_eq,
    Std.compare_eq_lt, price, eq_comm (a := b.gasPrice)]

namespace Pool

variable {p q : Pool} {tx : Transaction} {rank : Rank} {hash : Hash256}

theorem stored_of_mem_order (p : Pool) {e : Rank × Hash256} (mem : e ∈ p.order.entries) :
    ∃ tx, p.transactions.get? e.2 = some (e.1, tx) := by
  rw [← p.matched.placed, ← SortedMap.mem_entries_iff]
  exact mem

/-- The pending transactions at their places. -/
def pending (p : Pool) : SortedMap Rank Transaction where
  entries := p.order.entries.filterMap fun e => p.transactions.get? e.2
  sorted := by
    rw [List.pairwise_filterMap]
    refine p.order.sorted.imp_of_mem ?_
    intro d e memD memE lt a foundA b foundB
    obtain ⟨s, storedS⟩ := p.stored_of_mem_order memD
    obtain ⟨t, storedT⟩ := p.stored_of_mem_order memE
    cases storedS.symm.trans foundA
    cases storedT.symm.trans foundB
    exact lt

theorem entries_pending (p : Pool) : p.pending.entries =
    p.order.entries.filterMap fun e => p.transactions.get? e.2 := rfl

theorem mem_pending : (rank, tx) ∈ p.pending.entries ↔
    p.transactions.get? rank.hash = some (rank, tx) := by
  unfold pending
  rw [List.mem_filterMap]
  constructor
  · rintro ⟨e, -, found⟩
    rw [p.matched.hash_eq found]
    exact found
  · intro found
    have listed := (p.matched.placed rank rank.hash).2 ⟨tx, found⟩
    exact ⟨(rank, rank.hash), (SortedMap.mem_entries_iff _ _ _).2 listed, found⟩

theorem get?_pending : p.pending.get? rank = some tx ↔
    p.transactions.get? rank.hash = some (rank, tx) := by
  rw [← SortedMap.mem_entries_iff, mem_pending]

theorem rank_of_mem_pending {e : Rank × Transaction} (mem : e ∈ p.pending.entries) :
    e.1.hash = e.2.hash ∧ ∃ sequence, e.1 = p.tieBreak.rank sequence e.2.gasPrice e.2.hash := by
  obtain ⟨rank, tx⟩ := e
  obtain ⟨same, ranked⟩ := p.matched.ranked rank.hash rank tx (mem_pending.1 mem)
  rw [← same] at ranked
  exact ⟨same.symm, ranked⟩

theorem contains_iff : p.contains hash ↔ ∃ tx ∈ p.pending.values, tx.hash = hash := by
  unfold contains SortedMap.contains SortedMap.values
  rw [Option.isSome_iff_exists]
  constructor
  · rintro ⟨⟨rank, tx⟩, found⟩
    have same := p.matched.hash_eq found
    subst same
    exact ⟨tx, List.mem_map.2 ⟨_, mem_pending.2 found, rfl⟩, (p.matched.ranked _ _ _ found).1⟩
  · rintro ⟨tx, mem, rfl⟩
    obtain ⟨⟨rank, tx⟩, listed, rfl⟩ := List.mem_map.1 mem
    have same : rank.hash = tx.hash := (rank_of_mem_pending listed).1
    exact ⟨(rank, tx), by rw [← same, mem_pending.1 listed]⟩

theorem perm_values_pending (p : Pool) : p.transactions.values.Perm p.pending.entries := by
  have distinct : p.transactions.values.Nodup := by
    refine List.Nodup.map_on ?_ p.transactions.nodup_entries
    rintro ⟨_, rank, tx⟩ memS ⟨_, _, _⟩ memT same
    cases same
    rw [SortedMap.mem_entries_iff] at memS memT
    rw [← p.matched.hash_eq memS, ← p.matched.hash_eq memT]
  refine (List.perm_ext_iff_of_nodup distinct p.pending.nodup_entries).2 ?_
  rintro ⟨rank, tx⟩
  rw [mem_pending]
  unfold SortedMap.values
  rw [List.mem_map]
  constructor
  · rintro ⟨⟨hash, _⟩, mem, rfl⟩
    rw [SortedMap.mem_entries_iff] at mem
    rw [p.matched.hash_eq mem, mem]
  · intro found
    exact ⟨(rank.hash, rank, tx), (SortedMap.mem_entries_iff _ _ _).2 found, rfl⟩

theorem size_pending (p : Pool) : p.pending.size = p.size := by
  have same := p.perm_values_pending.length_eq
  unfold SortedMap.values at same
  rw [List.length_map] at same
  exact same.symm

/-- Where ties are broken by hash, nothing else than the transactions tells their order. -/
theorem pairwise_pending (t : p.tieBreak = .hash) : p.pending.values.Pairwise fun a b =>
    b.gasPrice < a.gasPrice ∨ a.gasPrice = b.gasPrice ∧ compare a.hash b.hash = .lt := by
  rw [SortedMap.values, List.pairwise_map]
  refine p.pending.sorted.imp_of_mem ?_
  intro d e memD memE lt
  obtain ⟨_, _, placeD⟩ := rank_of_mem_pending memD
  obtain ⟨_, _, placeE⟩ := rank_of_mem_pending memE
  rw [placeD, placeE, Rank.compare_eq_lt_iff, t] at lt
  rcases lt with price | ⟨same, less | ⟨_, hash⟩⟩
  · exact .inl price
  · exact absurd less (UInt64.lt_irrefl 0)
  · exact .inr ⟨same, hash⟩

/-! ## Operations -/

theorem pending_insert (fresh : p.transactions.get? tx.hash = none) : (p.insert tx fresh).pending =
    p.pending.insert (p.tieBreak.rank p.nextSequence tx.gasPrice tx.hash) tx := by
  refine SortedMap.ext_get? fun rank => Option.ext fun other => ?_
  rw [get?_pending, SortedMap.get?_insert]
  change (p.transactions.insert tx.hash _).get? rank.hash = _ ↔ _
  rw [SortedMap.get?_insert]
  split
  · next here =>
      rw [Option.some.injEq, Prod.mk.injEq]
      split
      · next place => simp [place]
      · next elsewhere =>
          have absent : p.pending.get? rank ≠ some other := by
            rw [Ne, get?_pending, here, fresh]
            simp
          simp [absent, Ne.symm elsewhere]
  · next distinct =>
      have elsewhere : rank ≠ p.tieBreak.rank p.nextSequence tx.gasPrice tx.hash := by
        rintro rfl
        rw [TieBreak.hash_rank] at distinct
        exact distinct rfl
      rw [if_neg elsewhere, get?_pending]

theorem pending_erase (found : p.transactions.get? hash = some (rank, tx))
    (left : q.transactions = p.transactions.erase hash) : q.pending = p.pending.erase rank := by
  refine SortedMap.ext_get? fun place => Option.ext fun other => ?_
  rw [get?_pending, SortedMap.get?_erase, left, SortedMap.get?_erase]
  split
  · next same =>
      split
      · simp
      · next elsewhere =>
          have absent : p.pending.get? place ≠ some other := by
            rw [Ne, get?_pending, same, found]
            simp [Ne.symm elsewhere]
          simp [absent]
  · next distinct =>
      have elsewhere : place ≠ rank := by
        rintro rfl
        exact distinct (p.matched.hash_eq found)
      rw [if_neg elsewhere, get?_pending]

theorem eq_of_mem_pending (found : p.transactions.get? hash = some (rank, tx))
    {e : Rank × Transaction} (mem : e ∈ p.pending.entries) (same : e.2.hash = hash) :
    e = (rank, tx) := by
  have stored := mem_pending.1 mem
  rw [(rank_of_mem_pending mem).1, same, found] at stored
  exact (Option.some.inj stored).symm

theorem find?_pending (found : p.transactions.get? hash = some (rank, tx)) :
    p.pending.values.find? (fun s => s.hash = hash) = some tx := by
  have pending : (p.pending.values.find? fun s => s.hash = hash).isSome := by
    rw [List.find?_isSome]
    simp only [decide_eq_true_eq]
    obtain ⟨s, mem, same⟩ := contains_iff.1 (Option.isSome_of_eq_some found)
    exact ⟨s, mem, same⟩
  obtain ⟨s, first⟩ := Option.isSome_iff_exists.1 pending
  have same : s.hash = hash := of_decide_eq_true (List.find?_some first :)
  obtain ⟨e, mem, rfl⟩ := List.mem_map.1 (List.mem_of_find?_eq_some first)
  rw [first, eq_of_mem_pending found mem same]

theorem values_erase_pending (found : p.transactions.get? hash = some (rank, tx)) :
    (p.pending.erase rank).values = p.pending.values.filter fun s => s.hash ≠ hash := by
  have same : ∀ e ∈ p.pending.entries, e.1 = rank ↔ e.2.hash = hash := by
    intro e mem
    constructor
    · intro place
      rw [← (rank_of_mem_pending mem).1, place, p.matched.hash_eq found]
    · intro same
      rw [eq_of_mem_pending found mem same]
  unfold SortedMap.values SortedMap.erase
  rw [List.filter_map]
  congr 1
  refine List.filter_congr fun e mem => decide_eq_decide.2 (not_congr ?_)
  rw [Std.compare_eq_iff_eq, ← same e mem, eq_comm]

/-- The pools differ in what is pending at most. -/
structure Alike (p q : Pool) : Prop where
  capacity_eq : p.capacity = q.capacity
  tieBreak_eq : p.tieBreak = q.tieBreak
  nextSequence_eq : p.nextSequence = q.nextSequence

theorem Alike.refl (p : Pool) : p.Alike p := ⟨rfl, rfl, rfl⟩

theorem Alike.trans {r : Pool} (h : p.Alike q) (g : q.Alike r) : p.Alike r where
  capacity_eq := h.capacity_eq.trans g.capacity_eq
  tieBreak_eq := h.tieBreak_eq.trans g.tieBreak_eq
  nextSequence_eq := h.nextSequence_eq.trans g.nextSequence_eq

theorem popFirst_cases (p : Pool) : (p.pending.entries = [] ∧ p.popFirst = none) ∨
    ∃ e rest q, p.pending.entries = e :: rest ∧ p.popFirst = some (e.2, q) ∧
      q.pending.entries = rest ∧ q.Alike p := by
  unfold popFirst
  split
  · next first =>
      refine .inl ⟨?_, rfl⟩
      rw [entries_pending, first]
      rfl
  · next rank hash rest first =>
      obtain ⟨tx, stored⟩ := p.matched.first_stored first
      split
      · next found =>
          rw [stored] at found
          cases found
      · next found =>
          cases stored.symm.trans found
          have head : p.pending.entries = (rank, tx) :: p.pending.entries.tail := by
            rw [entries_pending, first, List.filterMap_cons, stored]
            rfl
          refine .inr ⟨(rank, tx), p.pending.entries.tail, _, head, rfl, ?_, ⟨rfl, rfl, rfl⟩⟩
          rw [pending_erase stored rfl, ← SortedMap.drop_one_eq_erase head]
          exact List.drop_one

/-- A batch is what stands first. -/
theorem popBatch_spec (p : Pool) (count : Nat) :
    (p.popBatch count).1 = p.pending.values.take count ∧
    (p.popBatch count).2.pending = p.pending.drop count ∧ (p.popBatch count).2.Alike p := by
  unfold SortedMap.values
  induction count generalizing p with
  | zero => exact ⟨rfl, rfl, .refl p⟩
  | succ count ih =>
      unfold popBatch
      rcases p.popFirst_cases with ⟨none, popped⟩ | ⟨e, rest, q, head, popped, left, alike⟩
      · rw [popped]
        refine ⟨by simp [none], SortedMap.eq_of_entries_eq ?_, .refl p⟩
        simp [SortedMap.drop, none]
      · rw [popped]
        obtain ⟨batch, later, kept⟩ := ih q
        rw [left] at batch
        refine ⟨?_, ?_, kept.trans alike⟩
        · simp [batch, head]
        · refine later.trans (SortedMap.eq_of_entries_eq ?_)
          simp [SortedMap.drop, left, head]

theorem values_popBatch (p : Pool) (count : Nat) :
    (p.popBatch count).2.pending.values = p.pending.values.drop count := by
  rw [(p.popBatch_spec count).2.1]
  exact List.map_drop

theorem popBatch_append (p : Pool) (count : Nat) :
    (p.popBatch count).1 ++ (p.popBatch count).2.pending.values = p.pending.values := by
  rw [(p.popBatch_spec count).1, p.values_popBatch]
  exact List.take_append_drop _ _

theorem add_of_contains (known : p.contains tx.hash) :
    p.add tx = .error (.duplicateTransaction tx.hash) := dif_pos known

theorem add_of_full (unknown : ¬ p.contains tx.hash) (full : p.capacity.toNat ≤ p.size) :
    p.add tx = .error .poolFull := by
  unfold add
  rw [dif_neg unknown, if_pos full]

theorem add_of_room (unknown : ¬ p.contains tx.hash) (room : p.size < p.capacity.toNat) :
    ∃ fresh, p.add tx = .ok (tx.hash, p.insert tx fresh) := by
  unfold add
  rw [dif_neg unknown, if_neg (by omega)]
  exact ⟨_, rfl⟩

theorem remove_cases (p : Pool) (hash : Hash256) :
    (¬ p.contains hash ∧ p.remove hash = none) ∨
    ∃ rank tx q, p.transactions.get? hash = some (rank, tx) ∧ p.remove hash = some (tx, q) ∧
      q.pending = p.pending.erase rank ∧ q.Alike p := by
  unfold remove
  split
  · next absent =>
      refine .inl ⟨?_, rfl⟩
      simp [contains, SortedMap.contains, absent]
  · next rank tx found =>
      exact .inr ⟨rank, tx, _, found, rfl, pending_erase found rfl, ⟨rfl, rfl, rfl⟩⟩

theorem add_eq_ok (h : p.add tx = .ok (hash, q)) :
    ∃ fresh : p.transactions.get? tx.hash = none, q = p.insert tx fresh ∧ hash = tx.hash ∧
      p.size < p.capacity.toNat := by
  unfold add at h
  split at h
  · cases h
  · next known =>
      split at h
      · cases h
      · next room =>
          cases h
          exact ⟨_, rfl, rfl, by omega⟩

/-- No place in the pool has the hash of a transaction that is admitted, so none is replaced. -/
theorem perm_add (h : p.add tx = .ok (hash, q)) :
    q.pending.values.Perm (tx :: p.pending.values) := by
  obtain ⟨unknown, rfl, _, _⟩ := add_eq_ok h
  have fresh : ∀ e ∈ p.pending.entries,
      e.1 ≠ p.tieBreak.rank p.nextSequence tx.gasPrice tx.hash := by
    rintro ⟨rank, other⟩ mem rfl
    rw [mem_pending, TieBreak.hash_rank, unknown] at mem
    cases mem
  rw [pending_insert unknown]
  exact (SortedMap.perm_insertEntry fresh tx).map (·.2)

theorem perm_remove (h : p.remove hash = some (tx, q)) :
    p.pending.values.Perm (tx :: q.pending.values) := by
  rcases p.remove_cases hash with ⟨_, none⟩ | ⟨rank, other, left, found, removed, pending, _⟩
  · rw [none] at h
    cases h
  · cases removed.symm.trans h
    have stored : p.pending.get? rank = some tx := by
      rw [get?_pending, p.matched.hash_eq found, found]
    rw [pending]
    exact (SortedMap.perm_erase stored).map (·.2)

theorem length_values_pending (p : Pool) : p.pending.values.length = p.size := by
  rw [← size_pending]
  exact List.length_map _

end Pool

end AgentLedger
