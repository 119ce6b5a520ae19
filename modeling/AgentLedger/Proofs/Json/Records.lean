import AgentLedger.Json.Record
import Mathlib.Data.List.Nodup

namespace AgentLedger.Json

/-!
# Records in any order

The fields of a record are looked up by name. So nothing depends on the order in which its members
stand, or on members with names that are not looked up.
-/

/-- The members are the known ones, in any order and among others with names that are not read. -/
inductive Shuffles (names : List String) (known : List (String × Json)) :
    List (String × Json) → Prop where
  | intro {members : List (String × Json)} (others : List (String × Json))
      (unknown : ∀ f ∈ others, f.1 ∉ names) (order : members.Perm (known ++ others)) :
      Shuffles names known members

/-- Of names that are distinct, one stands in at most one member. -/
theorem length_filter_name_le {known : List (String × Json)} (distinct : (known.map (·.1)).Nodup)
    (name : String) : (known.filter fun f => f.1 = name).length ≤ 1 := by
  induction known with
  | nil => exact Nat.zero_le 1
  | cons f rest ih =>
      rw [List.map_cons, List.nodup_cons] at distinct
      obtain ⟨fresh, distinct⟩ := distinct
      rw [List.filter_cons]
      split
      · next same =>
        have named : f.1 = name := of_decide_eq_true same
        have elsewhere : rest.filter (fun g => g.1 = name) = [] := by
          refine List.filter_eq_nil_iff.2 fun g mem again => fresh ?_
          rw [named, ← of_decide_eq_true again]
          exact List.mem_map_of_mem mem
        rw [elsewhere]
        exact Nat.le_refl 1
      · exact ih distinct

namespace Shuffles

variable {names : List String} {known members : List (String × Json)} {name : String}

theorem refl (names : List String) (known : List (String × Json)) : Shuffles names known known :=
  .intro [] nofun (.of_eq (List.append_nil known).symm)

theorem filter_name (h : Shuffles names known members) (distinct : (known.map (·.1)).Nodup)
    (read : name ∈ names) :
    members.filter (fun f => f.1 = name) = known.filter fun f => f.1 = name := by
  obtain ⟨others, unknown, order⟩ := h
  have elsewhere : others.filter (fun f => f.1 = name) = [] := by
    refine List.filter_eq_nil_iff.2 fun f mem same => unknown f mem ?_
    rwa [of_decide_eq_true same]
  have filtered := order.filter fun f => f.1 = name
  rw [List.filter_append, elsewhere, List.append_nil] at filtered
  have few := length_filter_name_le distinct name
  cases found : known.filter fun f => f.1 = name with
  | nil =>
      rw [found] at filtered
      exact filtered.eq_nil
  | cons f rest =>
      rw [found, List.length_cons] at few
      obtain rfl : rest = [] := List.eq_nil_of_length_eq_zero (by omega)
      rw [found] at filtered
      exact List.perm_singleton.1 filtered

theorem record?_record (h : Shuffles names known members) (distinct : (known.map (·.1)).Nodup) :
    record? names (record members) = some ⟨false, members⟩ := by
  refine Json.record?_record (List.all_eq_true.2 fun name read => ?_)
  rw [occursAtMostOnce, h.filter_name distinct read]
  exact decide_eq_true (length_filter_name_le distinct name)

/-- Whatever is read is found where the known members have it. -/
theorem lookup (h : Shuffles names known members) (distinct : (known.map (·.1)).Nodup)
    (read : name ∈ names) :
    (⟨false, members⟩ : Record).lookup name = (⟨false, known⟩ : Record).lookup name := by
  rw [Record.lookup, Record.lookup, ← List.head?_filter, ← List.head?_filter,
    h.filter_name distinct read]

end Shuffles

end AgentLedger.Json
