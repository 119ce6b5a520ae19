namespace AgentLedger

/-!
# Sorted maps

A map is the list of its entries in strictly ascending order of the keys, so that two maps with the
same entries are equal and the entries come out in the order in which they are written.
-/

structure SortedMap (κ α : Type) [Ord κ] where
  entries : List (κ × α)
  sorted : entries.Pairwise fun a b => compare a.1 b.1 = .lt

namespace SortedMap

variable {κ α : Type}

section Order

variable [Ord κ]

def insertEntry (k : κ) (a : α) : List (κ × α) → List (κ × α)
  | [] => [(k, a)]
  | (j, b) :: rest =>
      match compare k j with
      | .lt => (k, a) :: (j, b) :: rest
      | .eq => (k, a) :: rest
      | .gt => (j, b) :: insertEntry k a rest

def findEntry (k : κ) : List (κ × α) → Option α
  | [] => none
  | (j, b) :: rest => if compare k j = .eq then some b else findEntry k rest

theorem mem_insertEntry {k : κ} {a : α} {e : κ × α} {l : List (κ × α)}
    (h : e ∈ insertEntry k a l) : e = (k, a) ∨ e ∈ l := by
  induction l with
  | nil => simpa [insertEntry] using h
  | cons d rest ih =>
      obtain ⟨j, b⟩ := d
      simp only [insertEntry] at h
      split at h <;> grind

theorem insertEntry_of_lt [Std.OrientedOrd κ] {k : κ} (a : α) {l : List (κ × α)}
    (h : ∀ e ∈ l, compare e.1 k = .lt) : insertEntry k a l = l ++ [(k, a)] := by
  induction l with
  | nil => rfl
  | cons e rest ih =>
      rw [List.forall_mem_cons] at h
      have gt := Std.OrientedCmp.gt_of_lt h.1
      simp [insertEntry, gt, ih h.2]

theorem findEntry_eq_none {k : κ} {l : List (κ × α)} (below : ∀ e ∈ l, compare k e.1 = .lt) :
    findEntry k l = none := by
  induction l with
  | nil => rfl
  | cons e rest ih =>
      have first : compare k e.1 = .lt := below e List.mem_cons_self
      have later : ∀ d ∈ rest, compare k d.1 = .lt := fun d mem =>
        below d (List.mem_cons_of_mem e mem)
      simp [findEntry, first, ih later]

theorem length_insertEntry_le (k : κ) (a : α) (l : List (κ × α)) :
    (insertEntry k a l).length ≤ l.length + 1 := by
  induction l with
  | nil => exact Nat.le_refl 1
  | cons e rest ih =>
      cases order : compare k e.1 with
      | lt => simp [insertEntry, order]
      | eq => simp [insertEntry, order]
      | gt => simpa [insertEntry, order] using ih

def empty : SortedMap κ α := ⟨[], .nil⟩

def get? (m : SortedMap κ α) (k : κ) : Option α := findEntry k m.entries

def contains (m : SortedMap κ α) (k : κ) : Bool := (m.get? k).isSome

def erase (m : SortedMap κ α) (k : κ) : SortedMap κ α :=
  ⟨m.entries.filter fun e => compare k e.1 ≠ .eq, m.sorted.filter _⟩

/-- Leaves out the first `n` entries. -/
def drop (m : SortedMap κ α) (n : Nat) : SortedMap κ α := ⟨m.entries.drop n, m.sorted.drop⟩

def size (m : SortedMap κ α) : Nat := m.entries.length

def values (m : SortedMap κ α) : List α := m.entries.map (·.2)

instance : Inhabited (SortedMap κ α) := ⟨empty⟩

theorem eq_of_entries_eq {m n : SortedMap κ α} (h : m.entries = n.entries) : m = n := by
  cases m
  cases n
  cases h
  rfl

instance [DecidableEq κ] [DecidableEq α] : DecidableEq (SortedMap κ α) := fun m n =>
  decidable_of_iff (m.entries = n.entries) ⟨eq_of_entries_eq, congrArg entries⟩

@[simp] theorem entries_empty : (empty : SortedMap κ α).entries = [] := rfl

@[simp] theorem get?_empty (k : κ) : (empty : SortedMap κ α).get? k = none := rfl

def Every (p : κ → α → Prop) (m : SortedMap κ α) : Prop := ∀ k a, m.get? k = some a → p k a

theorem every_empty {p : κ → α → Prop} : (empty : SortedMap κ α).Every p := fun _ _ => nofun

theorem Every.mono {p q : κ → α → Prop} {m : SortedMap κ α} (h : m.Every p)
    (imp : ∀ k a, p k a → q k a) : m.Every q := fun k a found => imp k a (h k a found)

end Order

section Lookup

variable [Ord κ] [Std.LawfulEqOrd κ]

theorem drop_one_eq_erase {m : SortedMap κ α} {k : κ} {a : α} {rest : List (κ × α)}
    (first : m.entries = (k, a) :: rest) : m.drop 1 = m.erase k := by
  apply eq_of_entries_eq
  have sorted := m.sorted
  rw [first, List.pairwise_cons] at sorted
  have kept : rest.filter (fun e => compare k e.1 ≠ .eq) = rest := by
    rw [List.filter_eq_self]
    intro e mem
    simp [sorted.1 e mem]
  simp only [drop, erase, first, List.drop_one, List.tail_cons, List.filter_cons,
    Std.compare_self, ne_eq, not_true_eq_false, decide_false, Bool.false_eq_true, if_false]
  exact kept.symm

theorem nodup_entries (m : SortedMap κ α) : m.entries.Nodup := by
  refine m.sorted.imp fun {a b} lt same => ?_
  subst same
  simp at lt

variable [DecidableEq κ]

theorem findEntry_insertEntry (k j : κ) (a : α) (l : List (κ × α)) :
    findEntry j (insertEntry k a l) = if j = k then some a else findEntry j l := by
  induction l with
  | nil => simp [insertEntry, findEntry]
  | cons d rest ih =>
      obtain ⟨i, b⟩ := d
      simp only [insertEntry]
      split
      all_goals simp_all [findEntry]
      all_goals grind

theorem get?_erase (m : SortedMap κ α) (k j : κ) :
    (m.erase k).get? j = if j = k then none else m.get? j := by
  have lists : ∀ l : List (κ × α), findEntry j (l.filter fun e => compare k e.1 ≠ .eq) =
      if j = k then none else findEntry j l := by
    intro l
    induction l with
    | nil => simp [findEntry]
    | cons d rest ih =>
        obtain ⟨i, b⟩ := d
        by_cases hi : k = i <;> by_cases hj : j = i <;> simp_all [findEntry]
        grind
  exact lists m.entries

theorem Every.erase {p : κ → α → Prop} {m : SortedMap κ α} (h : m.Every p) (k : κ) :
    (m.erase k).Every p := by
  intro j a found
  rw [get?_erase] at found
  split at found
  · cases found
  · exact h j a found

theorem mem_entries_iff (m : SortedMap κ α) (k : κ) (a : α) :
    (k, a) ∈ m.entries ↔ m.get? k = some a := by
  have lists : ∀ l : List (κ × α), l.Pairwise (fun a b => compare a.1 b.1 = .lt) →
      ((k, a) ∈ l ↔ findEntry k l = some a) := by
    intro l h
    induction l with
    | nil => simp [findEntry]
    | cons d rest ih =>
        obtain ⟨i, b⟩ := d
        rw [List.pairwise_cons] at h
        by_cases hi : k = i
        · subst hi
          have fresh : (k, a) ∉ rest := fun hm => by
            have := h.1 _ hm
            simp at this
          simp [findEntry, fresh, eq_comm]
        · simp [findEntry, hi, ih h.2]
  exact lists m.entries m.sorted

end Lookup

section Insertion

variable [Ord κ] [Std.TransOrd κ] [Std.LawfulEqOrd κ]

theorem sorted_insertEntry (k : κ) (a : α) {l : List (κ × α)}
    (h : l.Pairwise fun a b => compare a.1 b.1 = .lt) :
    (insertEntry k a l).Pairwise fun a b => compare a.1 b.1 = .lt := by
  induction l with
  | nil => simp [insertEntry]
  | cons d rest ih =>
      obtain ⟨j, b⟩ := d
      rw [List.pairwise_cons] at h
      simp only [insertEntry]
      split
      · next lt =>
          refine List.pairwise_cons.2 ⟨?_, List.pairwise_cons.2 h⟩
          intro e he
          rcases List.mem_cons.1 he with rfl | he
          · exact lt
          · exact Std.TransCmp.lt_trans lt (h.1 e he)
      · next eq =>
          obtain rfl := Std.LawfulEqCmp.eq_of_compare eq
          exact List.pairwise_cons.2 h
      · next gt =>
          refine List.pairwise_cons.2 ⟨?_, ih h.2⟩
          intro e he
          rcases mem_insertEntry he with rfl | he
          · exact Std.OrientedCmp.lt_of_gt gt
          · exact h.1 e he

omit [Std.LawfulEqOrd κ] in
theorem length_insertEntry_of_found {k : κ} {b : α} (a : α) {l : List (κ × α)}
    (sorted : l.Pairwise fun d e => compare d.1 e.1 = .lt) (found : findEntry k l = some b) :
    (insertEntry k a l).length = l.length := by
  induction l with
  | nil => cases found
  | cons e rest ih =>
      obtain ⟨above, sorted⟩ := List.pairwise_cons.1 sorted
      cases order : compare k e.1 with
      | lt =>
          -- The key comes before all others, so it is not there.
          have below : ∀ d ∈ e :: rest, compare k d.1 = .lt :=
            List.forall_mem_cons.2 ⟨order, fun d mem => Std.TransCmp.lt_trans order (above d mem)⟩
          rw [findEntry_eq_none below] at found
          cases found
      | eq => simp [insertEntry, order]
      | gt =>
          have later : findEntry k rest = some b := by simpa [findEntry, order] using found
          simpa [insertEntry, order] using ih sorted later

def insert (m : SortedMap κ α) (k : κ) (a : α) : SortedMap κ α :=
  ⟨insertEntry k a m.entries, sorted_insertEntry k a m.sorted⟩

theorem size_insert_le (m : SortedMap κ α) (k : κ) (a : α) : (m.insert k a).size ≤ m.size + 1 :=
  length_insertEntry_le k a m.entries

theorem size_insert_of_found {m : SortedMap κ α} {k : κ} {b : α} (found : m.get? k = some b)
    (a : α) : (m.insert k a).size = m.size := length_insertEntry_of_found a m.sorted found

/-- The last entry with a key wins. -/
def ofList (l : List (κ × α)) : SortedMap κ α := l.foldl (fun m e => m.insert e.1 e.2) empty

theorem entries_foldl_insert {m : SortedMap κ α} {l : List (κ × α)}
    (h : (m.entries ++ l).Pairwise fun a b => compare a.1 b.1 = .lt) :
    (l.foldl (fun m e => m.insert e.1 e.2) m).entries = m.entries ++ l := by
  induction l generalizing m with
  | nil => simp
  | cons e rest ih =>
      have last : (m.insert e.1 e.2).entries = m.entries ++ [e] :=
        insertEntry_of_lt e.2 fun d mem => (List.pairwise_append.1 h).2.2 d mem e List.mem_cons_self
      rw [List.foldl_cons, ih (by simpa [last] using h), last]
      simp

/-- Entries in order are put together again as they were. -/
@[simp] theorem ofList_entries (m : SortedMap κ α) : ofList m.entries = m :=
  eq_of_entries_eq (entries_foldl_insert (m := empty) m.sorted)

/-- Puts an entry in place, or removes what is there. -/
def set (m : SortedMap κ α) (k : κ) : Option α → SortedMap κ α
  | some a => m.insert k a
  | none => m.erase k

variable [DecidableEq κ]

theorem get?_insert (m : SortedMap κ α) (k j : κ) (a : α) :
    (m.insert k a).get? j = if j = k then some a else m.get? j :=
  findEntry_insertEntry k j a m.entries

@[simp] theorem get?_insert_self (m : SortedMap κ α) (k : κ) (a : α) :
    (m.insert k a).get? k = some a := by simp [get?_insert]

theorem Every.insert {p : κ → α → Prop} {m : SortedMap κ α} (h : m.Every p) {k : κ} {a : α}
    (new : p k a) : (m.insert k a).Every p := by
  intro j b found
  rw [get?_insert] at found
  split at found
  · next same =>
      cases found
      exact same ▸ new
  · exact h j b found

theorem get?_set (m : SortedMap κ α) (k j : κ) (a? : Option α) :
    (m.set k a?).get? j = if j = k then a? else m.get? j := by
  cases a? with
  | none => exact get?_erase m k j
  | some a => exact get?_insert m k j a

theorem ext_get? {m n : SortedMap κ α} (h : ∀ k, m.get? k = n.get? k) : m = n := by
  have same : ∀ e, e ∈ m.entries ↔ e ∈ n.entries := by
    rintro ⟨k, a⟩
    rw [mem_entries_iff, mem_entries_iff, h]
  have perm : m.entries.Perm n.entries :=
    (List.perm_ext_iff_of_nodup m.nodup_entries n.nodup_entries).2 same
  refine eq_of_entries_eq (perm.eq_of_pairwise ?_ m.sorted n.sorted)
  intro a b _ _ lt gt
  have := Std.TransCmp.lt_trans lt gt
  simp at this

theorem insert_comm (m : SortedMap κ α) {j k : κ} (other : j ≠ k) (a b : α) :
    (m.insert j a).insert k b = (m.insert k b).insert j a := by
  refine ext_get? fun i => ?_
  simp only [get?_insert]
  by_cases same : i = k
  · rw [if_pos same, if_neg fun h => other (h.symm.trans same), if_pos same]
  · rw [if_neg same, if_neg same]

/-- The order of entries does not matter. -/
theorem ofList_of_perm {m : SortedMap κ α} {l : List (κ × α)} (order : l.Perm m.entries) :
    ofList l = m := by
  have commute : ∀ d ∈ l, ∀ e ∈ l, ∀ n : SortedMap κ α,
      (n.insert d.1 d.2).insert e.1 e.2 = (n.insert e.1 e.2).insert d.1 d.2 := by
    intro d memd e meme n
    by_cases same : d.1 = e.1
    · have there := (m.mem_entries_iff d.1 d.2).1 (order.mem_iff.1 memd)
      rw [same, (m.mem_entries_iff e.1 e.2).1 (order.mem_iff.1 meme)] at there
      rw [same, Option.some.inj there]
    · exact n.insert_comm same d.2 e.2
  calc ofList l = ofList m.entries := order.foldl_eq' commute empty
    _ = m := ofList_entries m

/-- An entry that is put in place can be taken back. -/
@[simp] theorem set_insert_get? (m : SortedMap κ α) (k : κ) (a : α) :
    (m.insert k a).set k (m.get? k) = m := by
  refine ext_get? fun j => ?_
  rw [get?_set, get?_insert]
  split
  · next h => rw [h]
  · rfl

end Insertion

end SortedMap

end AgentLedger
