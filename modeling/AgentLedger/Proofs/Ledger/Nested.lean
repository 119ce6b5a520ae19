import AgentLedger.Proofs.Ledger.Session
import Mathlib.Data.List.Forall2

namespace AgentLedger

/-!
# Nested sessions

A session may run while others hold checkpoints. It leaves theirs as they are, and if it gives up
every checkpoint that it takes, it does not matter to it what has been noted before it began.
-/

namespace Session

/-! ## Checkpoints that others hold -/

def above (s : Session) (outer : List Held) : Session := ⟨s.ledger, s.held ++ outer⟩

theorem step?_above {s t : Session} {a : Action} (outer : List Held) (h : s.step? a = some t) :
    (s.above outer).step? a = some (t.above outer) := by
  obtain ⟨l, held⟩ := s
  rcases step?_cases h with ⟨x, rfl, rfl⟩ | ⟨rfl, rfl⟩ | ⟨newer, k, older, rfl, rfl, rfl⟩ |
    ⟨newer, k, older, rfl, rfl, rfl⟩
  · rfl
  · rfl
  · simp [above]
  · simp [above]

theorem run?_above {s t : Session} {actions : List Action} (outer : List Held)
    (h : s.run? actions = some t) : (s.above outer).run? actions = some (t.above outer) := by
  induction actions generalizing s with
  | nil =>
      cases h
      rfl
  | cons a rest ih =>
      obtain ⟨u, first, last⟩ := Option.bind_eq_some_iff.1 h
      exact Option.bind_eq_some_iff.2 ⟨u.above outer, step?_above outer first, ih last⟩

/-- A session that starts and ends without checkpoints of its own keeps the way back: seen from
outside, a checkpoint taken before it is still intact after it. -/
theorem run?_goesBackTo {l m : Ledger} {actions : List Action}
    (h : run? ⟨l, []⟩ actions = some ⟨m, []⟩) (opened : 0 < l.depth) :
    m.depth = l.depth ∧ m.GoesBackTo l := by
  let outer : Held := ⟨l.checkpoint.1, l, true⟩
  have before : Sound (l.depth - 1) ⟨l, [outer]⟩ := by
    refine ⟨?_, ?_, ?_, ?_, List.pairwise_singleton _ _⟩
    · change l.depth = l.depth - 1 + 1
      omega
    · exact fun none => absurd none (Nat.ne_of_gt opened)
    · intro k mem
      cases List.mem_singleton.1 mem
      rfl
    · intro k mem _
      cases List.mem_singleton.1 mem
      exact .refl l
  have after : Sound (l.depth - 1) ⟨m, [outer]⟩ := before.run (run?_above [outer] h)
  refine ⟨?_, after.goesBack outer (List.mem_singleton_self outer) rfl⟩
  have depth : m.depth = l.depth - 1 + 1 := after.depth_eq
  omega

/-! ## Sessions on ledgers with equal contents -/

/-- Two checkpoints that are taken the same number of notes above two bases. -/
def SameHeight (base base' : Nat) (h k : Held) : Prop :=
  ∃ n, h.checkpoint.mark = n + base ∧ k.checkpoint.mark = n + base'

/-- Two sessions with the same contents and the same notes above those that were there before the
checkpoints they hold. -/
structure Alike (s t : Session) : Prop where
  contents_eq : s.ledger.contents = t.ledger.contents
  length_le_left : s.held.length ≤ s.ledger.depth
  length_le_right : t.held.length ≤ t.ledger.depth
  notes : ∃ fresh below below', s.ledger.notes = fresh ++ below ∧
    t.ledger.notes = fresh ++ below' ∧
    List.Forall₂ (SameHeight below.length below'.length) s.held t.held

namespace Alike

variable {s t : Session} {l m : Ledger} {hs ks : List Held}

/-- Without checkpoints the notes may differ in any way. -/
theorem of_nil (contents : l.contents = m.contents) : Alike ⟨l, []⟩ ⟨m, []⟩ where
  contents_eq := contents
  length_le_left := Nat.zero_le _
  length_le_right := Nat.zero_le _
  notes := ⟨[], l.notes, m.notes, rfl, rfl, .nil⟩

theorem length_eq (h : Alike s t) : s.held.length = t.held.length := by
  obtain ⟨_, _, _, _, _, marks⟩ := h.notes
  exact marks.length_eq

theorem perform (h : Alike ⟨l, hs⟩ ⟨m, ks⟩) (x : Change) :
    Alike ⟨x.perform l, hs⟩ ⟨x.perform m, ks⟩ := by
  have contents : l.contents = m.contents := h.contents_eq
  have after : (x.perform l).contents = (x.perform m).contents := by
    rw [x.perform_eq, x.perform_eq, contents]
    cases x.onContents m.contents with
    | ok c => rfl
    | error e => exact contents
  cases hs with
  | nil =>
      cases List.eq_nil_of_length_eq_zero h.length_eq.symm
      exact .of_nil after
  | cons k rest =>
      have opened : l.depth ≠ 0 := Nat.ne_of_gt
        (Nat.lt_of_lt_of_le (Nat.succ_pos rest.length) h.length_le_left)
      have opened' : m.depth ≠ 0 := Nat.ne_of_gt
        (Nat.lt_of_lt_of_le (h.length_eq ▸ Nat.succ_pos rest.length) h.length_le_right)
      refine ⟨after, ?_, ?_, ?_⟩
      · exact (x.depth_perform l).symm ▸ h.length_le_left
      · exact (x.depth_perform m).symm ▸ h.length_le_right
      · obtain ⟨fresh, below, below', notes, notes', marks⟩ := h.notes
        rw [x.perform_eq, x.perform_eq, contents]
        cases x.onContents m.contents with
        | error e => exact ⟨fresh, below, below', notes, notes', marks⟩
        | ok c =>
            refine ⟨x.notes m.contents ++ fresh, below, below', ?_, ?_, marks⟩
            · change (if l.depth = 0 then _ else _) = _
              rw [if_neg opened, List.append_assoc]
              exact congrArg _ notes
            · change (if m.depth = 0 then _ else _) = _
              rw [if_neg opened', List.append_assoc]
              exact congrArg _ notes'

theorem checkpoint (h : Alike ⟨l, hs⟩ ⟨m, ks⟩) :
    Alike ⟨l.checkpoint.2, ⟨l.checkpoint.1, l, true⟩ :: hs⟩
      ⟨m.checkpoint.2, ⟨m.checkpoint.1, m, true⟩ :: ks⟩ := by
  obtain ⟨fresh, below, below', notes, notes', marks⟩ := h.notes
  refine ⟨h.contents_eq, Nat.succ_le_succ h.length_le_left, Nat.succ_le_succ h.length_le_right,
    fresh, below, below', notes, notes', .cons ⟨fresh.length, ?_, ?_⟩ marks⟩
  · exact (congrArg List.length notes).trans List.length_append
  · exact (congrArg List.length notes').trans List.length_append

/-- Only while other checkpoints are held is it of any weight which notes are left. -/
theorem close (contents : l.contents = m.contents) (left : hs.length < l.depth)
    (right : ks.length < m.depth)
    (notes : ∃ fresh below below', l.notes = fresh ++ below ∧ m.notes = fresh ++ below' ∧
      List.Forall₂ (SameHeight below.length below'.length) hs ks) :
    Alike ⟨l.close, hs⟩ ⟨m.close, ks⟩ := by
  have closed : l.close.contents = m.close.contents := by
    rw [l.contents_close, m.contents_close, contents]
  obtain ⟨fresh, below, below', hl, hm, marks⟩ := notes
  cases marks with
  | nil => exact .of_nil closed
  | cons first marks =>
      have others : 1 < l.depth := Nat.lt_of_le_of_lt (Nat.succ_pos _) left
      have others' : 1 < m.depth := Nat.lt_of_le_of_lt (Nat.succ_pos _) right
      refine ⟨closed, ?_, ?_, fresh, below, below', ?_, ?_, .cons first marks⟩
      · exact (l.depth_close).symm ▸ Nat.le_sub_one_of_lt left
      · exact (m.depth_close).symm ▸ Nat.le_sub_one_of_lt right
      · rw [Ledger.close_of_one_lt others]
        exact hl
      · rw [Ledger.close_of_one_lt others']
        exact hm

theorem forall₂_split {α β : Type} {r : α → β → Prop} {newer older : List α} {h : α} {ks : List β}
    (all : List.Forall₂ r (newer ++ h :: older) ks) :
    ∃ newer' k older', ks = newer' ++ k :: older' ∧ List.Forall₂ r newer newer' ∧ r h k ∧
      List.Forall₂ r older older' := by
  induction newer generalizing ks with
  | nil =>
      cases all with
      | cons first rest => exact ⟨[], _, _, rfl, .nil, first, rest⟩
  | cons j newer ih =>
      cases all with
      | cons first rest =>
          obtain ⟨newer', k, older', rfl, front, here, back⟩ := ih rest
          exact ⟨_ :: newer', k, older', rfl, .cons first front, here, back⟩

theorem sameHeight_overtaken {base base' : Nat} {hs ks : List Held}
    (marks : List.Forall₂ (SameHeight base base') hs ks) :
    List.Forall₂ (SameHeight base base') (hs.map .overtaken) (ks.map .overtaken) := by
  induction marks with
  | nil => exact .nil
  | cons first _ ih => exact .cons first ih

theorem commit {newer older : List Held} {h : Held}
    (alike : Alike ⟨l, newer ++ h :: older⟩ ⟨m, ks⟩) :
    ∃ newer' k older', ks = newer' ++ k :: older' ∧ newer'.length = newer.length ∧
      Alike ⟨l.commit h.checkpoint, newer ++ older⟩ ⟨m.commit k.checkpoint, newer' ++ older'⟩ := by
  obtain ⟨fresh, below, below', notes, notes', marks⟩ := alike.notes
  obtain ⟨newer', k, older', rfl, front, _, back⟩ := forall₂_split marks
  refine ⟨newer', k, older', rfl, front.length_eq.symm, ?_⟩
  refine close alike.contents_eq ?_ ?_
    ⟨fresh, below, below', notes, notes', List.rel_append front back⟩
  · have enough := alike.length_le_left
    simp only [List.length_append, List.length_cons] at enough ⊢
    omega
  · have enough := alike.length_le_right
    simp only [List.length_append, List.length_cons] at enough ⊢
    omega

theorem revert {newer older : List Held} {h : Held}
    (alike : Alike ⟨l, newer ++ h :: older⟩ ⟨m, ks⟩) :
    ∃ newer' k older', ks = newer' ++ k :: older' ∧ newer'.length = newer.length ∧
      Alike ⟨l.revertTo h.checkpoint, newer.map .overtaken ++ older⟩
        ⟨m.revertTo k.checkpoint, newer'.map .overtaken ++ older'⟩ := by
  obtain ⟨fresh, below, below', notes, notes', marks⟩ := alike.notes
  obtain ⟨newer', k, older', rfl, front, ⟨n, hn, kn⟩, back⟩ := forall₂_split marks
  refine ⟨newer', k, older', rfl, front.length_eq.symm, ?_⟩
  have undone := Ledger.rewind_eq (l := l) notes hn
  have undone' := Ledger.rewind_eq (l := m) notes' kn
  rw [l.revertTo_eq, m.revertTo_eq, undone, undone']
  refine close ?_ ?_ ?_
    ⟨_, below, below', rfl, rfl, List.rel_append (sameHeight_overtaken front) back⟩
  · exact congrArg (List.foldl Contents.undo · (fresh.take (fresh.length - n)))
      alike.contents_eq
  · have enough := alike.length_le_left
    simp only [List.length_append, List.length_cons, List.length_map] at enough ⊢
    omega
  · have enough := alike.length_le_right
    simp only [List.length_append, List.length_cons, List.length_map] at enough ⊢
    omega

theorem step {t u : Session} {a : Action} (alike : Alike s t) (h : s.step? a = some u) :
    ∃ v, t.step? a = some v ∧ Alike u v := by
  obtain ⟨l, hs⟩ := s
  obtain ⟨m, ks⟩ := t
  rcases step?_cases h with ⟨x, rfl, rfl⟩ | ⟨rfl, rfl⟩ | ⟨newer, k, older, rfl, rfl, rfl⟩ |
    ⟨newer, k, older, rfl, rfl, rfl⟩
  · exact ⟨_, rfl, alike.perform x⟩
  · exact ⟨_, rfl, alike.checkpoint⟩
  · obtain ⟨newer', k', older', rfl, length, after⟩ := alike.commit
    exact ⟨_, length ▸ step?_commit m newer' older' k', after⟩
  · obtain ⟨newer', k', older', rfl, length, after⟩ := alike.revert
    exact ⟨_, length ▸ step?_revert m newer' older' k', after⟩

theorem run {t u : Session} {actions : List Action} (alike : Alike s t)
    (h : s.run? actions = some u) : ∃ v, t.run? actions = some v ∧ Alike u v := by
  induction actions generalizing s t with
  | nil =>
      cases h
      exact ⟨t, rfl, alike⟩
  | cons a rest ih =>
      obtain ⟨s', first, last⟩ := Option.bind_eq_some_iff.1 h
      obtain ⟨t', first', alike'⟩ := alike.step first
      obtain ⟨v, last', after⟩ := ih alike' last
      exact ⟨v, Option.bind_eq_some_iff.2 ⟨t', first', last'⟩, after⟩

end Alike

/-- A session without checkpoints of its own at either end does to the contents what it does to
contents that start without notes, and leaves no notes behind there. -/
theorem run?_ofContents {l m : Ledger} {actions : List Action}
    (h : run? ⟨l, []⟩ actions = some ⟨m, []⟩) :
    (start l.contents).run? actions = some (start m.contents) := by
  have copied : Alike ⟨l, []⟩ (start l.contents) := .of_nil rfl
  obtain ⟨⟨m', held⟩, ran, alike⟩ := copied.run h
  cases List.eq_nil_of_length_eq_zero alike.length_eq.symm
  have sound : Sound 0 ⟨m', []⟩ := (sound_start l.contents).run ran
  have copy : m' = .ofContents m.contents :=
    Ledger.eq_ofContents sound.depth_eq sound.tidy alike.contents_eq.symm
  rw [copy] at ran
  exact ran

end Session

end AgentLedger
