import AgentLedger.Ledger.Basic

namespace AgentLedger

/-!
# Undoing changes

Every change of a ledger is known by what it does to the contents and by what it notes. Undoing
what a change notes gives back the contents it started from, so a ledger goes back to an earlier
one whenever its newest notes are those of the changes made in between.
-/

/-- A change that can be asked of a ledger. -/
inductive Change where
  | setBalance (a : Address) (value : Amount)
  | credit (a : Address) (value : Amount)
  | transfer (source target : Address) (value : Amount)
  | incrementNonce (a : Address)
  | advanceNonce (a : Address) (next : UInt64)
  | setCode (a : Address) (code : Bytes)
  | registerAgent (identity : AgentIdentity) (height : UInt64)
  | recordMessage (m : AgentMessage)
  | recordReceipt (r : InferenceReceipt)

namespace Contents

@[simp] theorem undo_modifyAccount (c : Contents) (a : Address) (f : Account → Account) :
    (c.modifyAccount a f).undo (.account a (c.accounts.get? a)) = c := by
  simp [undo, modifyAccount]

/-- The two balances of a transfer are put back in the opposite order. -/
theorem undo_setBalance_setBalance (c : Contents) {source target : Address}
    (h : source ≠ target) (v w : Amount) :
    (((c.setBalance source v).setBalance target w).undo
      (.account target (c.accounts.get? target))).undo
        (.account source (c.accounts.get? source)) = c := by
  have untouched : c.accounts.get? target = (c.setBalance source v).accounts.get? target := by
    simp [setBalance, modifyAccount, SortedMap.get?_insert, h.symm]
  have first : ((c.setBalance source v).setBalance target w).undo
      (.account target (c.accounts.get? target)) = c.setBalance source v := by
    rw [untouched]
    exact undo_modifyAccount _ _ _
  rw [first]
  exact undo_modifyAccount _ _ _

theorem credit_eq_ok {c d : Contents} {a : Address} {value : Amount}
    (h : c.credit a value = .ok d) :
    ∃ total, value.add? (c.balance a) = some total ∧ d = c.setBalance a total := by
  unfold credit increased at h
  cases total : value.add? (c.balance a) with
  | none => simp [total, bind, Except.bind] at h
  | some t =>
      simp only [total, bind, Except.bind, pure, Except.pure, Except.ok.injEq] at h
      exact ⟨t, rfl, h.symm⟩

/-- A transfer to oneself is checked and changes nothing. -/
theorem transfer_eq_ok {c d : Contents} {source target : Address} {value : Amount}
    (h : c.transfer source target value = .ok d) :
    value ≤ c.balance source ∧
      (source = target ∧ d = c ∨
        source ≠ target ∧ ∃ total, value.add? (c.balance target) = some total ∧
          d = (c.setBalance source (c.balance source - value)).setBalance target total) := by
  unfold transfer increased at h
  split at h
  · cases h
  · next covered =>
      refine ⟨Nat.not_lt.1 covered, ?_⟩
      split at h
      · next same => exact .inl ⟨same, (Except.ok.inj h).symm⟩
      · next other =>
          cases total : value.add? (c.balance target) with
          | none => simp [total, bind, Except.bind] at h
          | some t =>
              simp only [total, bind, Except.bind, pure, Except.pure, Except.ok.injEq] at h
              exact .inr ⟨other, t, rfl, h.symm⟩

theorem registerAgent_eq_ok {c d : Contents} {identity : AgentIdentity} {height : UInt64}
    (h : c.registerAgent identity height = .ok d) :
    c.agents.get? identity.identifier = none ∧
      d = { c with agents := c.agents.insert identity.identifier (.new identity height) } := by
  unfold registerAgent SortedMap.contains at h
  split at h
  · cases h
  · next fresh => exact ⟨by simpa using fresh, (Except.ok.inj h).symm⟩

theorem undo_register (c : Contents) (identifier : String) (r : AgentRecord)
    (h : c.agents.get? identifier = none) :
    { c with agents := c.agents.insert identifier r }.undo (.agent identifier none) = c := by
  have gone := SortedMap.set_insert_get? c.agents identifier r
  rw [h] at gone
  simp [undo, gone]

theorem undo_recordMessage (c : Contents) (m : AgentMessage) :
    ((c.agents.get? m.sender).toList.map fun r => Undo.agent m.sender (some r)).foldl undo
      ((c.recordMessage m).undo .message) = c := by
  unfold recordMessage countMessage
  cases found : c.agents.get? m.sender with
  | none => simp [undo]
  | some r =>
      have counted := SortedMap.set_insert_get? c.agents m.sender r.countMessage
      rw [found] at counted
      simp [undo, counted]

end Contents

namespace Change

/-- What the change does to contents that are kept without notes. -/
def onContents : Change → Contents → Except ChainError Contents
  | setBalance a value, c => .ok (c.setBalance a value)
  | credit a value, c => c.credit a value
  | transfer source target value, c => c.transfer source target value
  | incrementNonce a, c => .ok (c.incrementNonce a)
  | advanceNonce a next, c => .ok (c.advanceNonce a next)
  | setCode a code, c => .ok (c.setCode a code)
  | registerAgent identity height, c => c.registerAgent identity height
  | recordMessage m, c => .ok (c.recordMessage m)
  | recordReceipt r, c => .ok (c.recordReceipt r)

def onLedger : Change → Ledger → Except ChainError Ledger
  | setBalance a value, l => .ok (l.setBalance a value)
  | credit a value, l => l.credit a value
  | transfer source target value, l => l.transfer source target value
  | incrementNonce a, l => .ok (l.incrementNonce a)
  | advanceNonce a next, l => .ok (l.advanceNonce a next)
  | setCode a code, l => .ok (l.setCode a code)
  | registerAgent identity height, l => l.registerAgent identity height
  | recordMessage m, l => .ok (l.recordMessage m)
  | recordReceipt r, l => .ok (l.recordReceipt r)

/-- The ledger after the change; one that fails leaves the ledger as it is. -/
def perform (x : Change) (l : Ledger) : Ledger := (x.onLedger l).toOption.getD l

/-- What the change notes, the newest note first. -/
def notes : Change → Contents → List Undo
  | setBalance a _, c | credit a _, c | incrementNonce a, c | advanceNonce a _, c
  | setCode a _, c => [.account a (c.accounts.get? a)]
  | transfer source target _, c =>
      if source = target then []
      else [.account target (c.accounts.get? target), .account source (c.accounts.get? source)]
  | registerAgent identity _, _ => [.agent identity.identifier none]
  | recordMessage m, c =>
      .message :: (c.agents.get? m.sender).toList.map fun r => .agent m.sender (some r)
  | recordReceipt _, _ => [.receipt]

end Change

/-! ## Changes of a ledger -/

namespace Ledger

/-- The ledger with other contents and more notes, which are taken only while a checkpoint is
open. -/
def noting (l : Ledger) (us : List Undo) (c : Contents) : Ledger :=
  ⟨c, if l.depth = 0 then l.notes else us ++ l.notes, l.depth⟩

@[simp] theorem contents_note (l : Ledger) (u : Undo) : (l.note u).contents = l.contents := by
  unfold note
  split
  · rfl
  · rfl

theorem note_with (l : Ledger) (u : Undo) (c : Contents) :
    { l.note u with contents := c } = l.noting [u] c := by
  unfold note noting
  split
  · rfl
  · rfl

theorem noting_note (l : Ledger) (u : Undo) (us : List Undo) (c : Contents) :
    (l.note u).noting us c = l.noting (us ++ [u]) c := by
  unfold note noting
  split
  · rfl
  · simp

end Ledger

namespace Change

/-- A change does to a ledger what it does to the contents, and takes its notes. -/
theorem onLedger_eq (x : Change) (l : Ledger) :
    x.onLedger l = (x.onContents l.contents).map (l.noting (x.notes l.contents)) := by
  cases x with
  | setBalance a value => exact congrArg Except.ok (l.note_with _ _)
  | credit a value =>
      cases h : l.contents.credit a value with
      | error e => simp [onLedger, onContents, Ledger.credit, h, bind, Except.bind, Except.map]
      | ok c =>
          have noted := l.note_with (.account a (l.contents.accounts.get? a)) c
          simpa [onLedger, onContents, notes, Ledger.credit, Ledger.noteAccount, h, bind,
            Except.bind, pure, Except.pure, Except.map] using noted
  | transfer source target value =>
      cases h : l.contents.transfer source target value with
      | error e => simp [onLedger, onContents, Ledger.transfer, h, bind, Except.bind, Except.map]
      | ok c =>
          have second := (l.note (.account source (l.contents.accounts.get? source))).note_with
            (.account target (l.contents.accounts.get? target)) c
          rw [Ledger.noting_note] at second
          rcases Contents.transfer_eq_ok h with ⟨_, ⟨same, rfl⟩ | ⟨other, _⟩⟩
          · subst same
            simp [onLedger, onContents, notes, Ledger.transfer, Ledger.noting, h, bind, Except.bind,
              pure, Except.pure, Except.map]
          · simpa [onLedger, onContents, notes, Ledger.transfer, Ledger.noteAccount, h, other, bind,
              Except.bind, pure, Except.pure, Except.map] using second
  | incrementNonce a => exact congrArg Except.ok (l.note_with _ _)
  | advanceNonce a next => exact congrArg Except.ok (l.note_with _ _)
  | setCode a code => exact congrArg Except.ok (l.note_with _ _)
  | registerAgent identity height =>
      cases h : l.contents.registerAgent identity height with
      | error e =>
          simp [onLedger, onContents, Ledger.registerAgent, h, bind, Except.bind, Except.map]
      | ok c =>
          have noted := l.note_with (.agent identity.identifier none) c
          simpa [onLedger, onContents, notes, Ledger.registerAgent, h, bind, Except.bind, pure,
            Except.pure, Except.map] using noted
  | recordMessage m =>
      have logged := l.note_with .message (l.contents.recordMessage m)
      cases found : l.contents.agents.get? m.sender with
      | none =>
          simpa [onLedger, onContents, notes, Ledger.recordMessage, found, Except.map] using logged
      | some r =>
          have counted := (l.note (.agent m.sender (some r))).note_with .message
            (l.contents.recordMessage m)
          rw [Ledger.noting_note] at counted
          simpa [onLedger, onContents, notes, Ledger.recordMessage, found, Except.map] using counted
  | recordReceipt r => exact congrArg Except.ok (l.note_with _ _)

theorem map_contents_onLedger (x : Change) (l : Ledger) :
    (x.onLedger l).map Ledger.contents = x.onContents l.contents := by
  rw [onLedger_eq]
  cases x.onContents l.contents with
  | ok c => rfl
  | error e => rfl

/-- On a copy of the contents a change ends with a copy of the contents it ends with elsewhere. -/
theorem onLedger_ofContents (x : Change) (l : Ledger) :
    x.onLedger (.ofContents l.contents) = (x.onLedger l).map fun m => .ofContents m.contents := by
  rw [onLedger_eq, onLedger_eq]
  change (x.onContents l.contents).map _ = _
  cases x.onContents l.contents with
  | ok c => rfl
  | error e => rfl

theorem undo_notes {x : Change} {c d : Contents} (h : x.onContents c = .ok d) :
    (x.notes c).foldl Contents.undo d = c := by
  cases x with
  | setBalance a value =>
      cases h
      exact c.undo_modifyAccount a _
  | credit a value =>
      obtain ⟨total, _, rfl⟩ := Contents.credit_eq_ok h
      exact c.undo_modifyAccount a _
  | transfer source target value =>
      obtain ⟨_, ⟨same, rfl⟩ | ⟨other, total, _, rfl⟩⟩ := Contents.transfer_eq_ok h
      · simp [notes, same]
      · rw [notes, if_neg other]
        exact c.undo_setBalance_setBalance other _ _
  | incrementNonce a =>
      cases h
      exact c.undo_modifyAccount a _
  | advanceNonce a next =>
      cases h
      exact c.undo_modifyAccount a _
  | setCode a code =>
      cases h
      exact c.undo_modifyAccount a _
  | registerAgent identity height =>
      obtain ⟨fresh, rfl⟩ := Contents.registerAgent_eq_ok h
      exact c.undo_register identity.identifier _ fresh
  | recordMessage m =>
      cases h
      exact c.undo_recordMessage m
  | recordReceipt r =>
      cases h
      simp [notes, Contents.undo, Contents.recordReceipt]

theorem perform_eq (x : Change) (l : Ledger) :
    x.perform l =
      match x.onContents l.contents with
      | .ok c => l.noting (x.notes l.contents) c
      | .error _ => l := by
  rw [perform, onLedger_eq]
  cases x.onContents l.contents with
  | ok c => rfl
  | error e => rfl

end Change

/-! ## Ways back -/

namespace Ledger

/-- Undoing the newest notes of `later` leads to `earlier`. -/
def GoesBackTo (later earlier : Ledger) : Prop :=
  ∃ fresh, later.notes = fresh ++ earlier.notes ∧
    fresh.foldl Contents.undo later.contents = earlier.contents

/-- No notes are kept while no checkpoint is open. -/
def Tidy (l : Ledger) : Prop := l.depth = 0 → l.notes = []

theorem tidy_ofContents (c : Contents) : (ofContents c).Tidy := fun _ => rfl

theorem eq_ofContents {l : Ledger} {c : Contents} (shut : l.depth = 0) (tidy : l.Tidy)
    (contents : l.contents = c) : l = .ofContents c := by
  have clean : l.notes = [] := tidy shut
  obtain ⟨_, _, _⟩ := l
  cases shut
  cases clean
  cases contents
  rfl

/-- The ledger after its notes down to a mark have been undone. -/
def rewind (l : Ledger) (mark : Nat) : Ledger :=
  let n := l.notes.length - mark
  { l with contents := (l.notes.take n).foldl .undo l.contents, notes := l.notes.drop n }

theorem revertTo_eq (l : Ledger) (c : Checkpoint) : l.revertTo c = (l.rewind c.mark).close := rfl

theorem rewind_eq {l : Ledger} {fresh below : List Undo} {mark n : Nat}
    (notes : l.notes = fresh ++ below) (hm : mark = n + below.length) :
    l.rewind mark =
      ⟨(fresh.take (fresh.length - n)).foldl .undo l.contents,
        fresh.drop (fresh.length - n) ++ below, l.depth⟩ := by
  have undone : l.notes.length - mark = fresh.length - n := by
    rw [notes, List.length_append]
    omega
  simp only [rewind, undone]
  rw [notes, List.take_append_of_le_length (Nat.sub_le _ _),
    List.drop_append_of_le_length (Nat.sub_le _ _)]

theorem close_of_le_one {l : Ledger} (h : l.depth ≤ 1) :
    l.close = { l with notes := [], depth := 0 } := if_pos h

theorem close_of_one_lt {l : Ledger} (h : 1 < l.depth) :
    l.close = { l with depth := l.depth - 1 } := if_neg (Nat.not_le.2 h)

@[simp] theorem contents_close (l : Ledger) : l.close.contents = l.contents := by
  unfold close
  split
  · rfl
  · rfl

theorem tidy_close (l : Ledger) : l.close.Tidy := by
  by_cases h : l.depth ≤ 1
  · rw [close_of_le_one h]
    exact fun _ => rfl
  · rw [close_of_one_lt (Nat.not_le.1 h)]
    intro none
    have : l.depth - 1 = 0 := none
    omega

theorem depth_close (l : Ledger) : l.close.depth = l.depth - 1 := by
  by_cases h : l.depth ≤ 1
  · rw [close_of_le_one h]
    change 0 = l.depth - 1
    omega
  · rw [close_of_one_lt (Nat.not_le.1 h)]

namespace GoesBackTo

variable {latest later earlier : Ledger}

theorem refl (l : Ledger) : l.GoesBackTo l := ⟨[], rfl, rfl⟩

theorem trans (h : latest.GoesBackTo later) (h' : later.GoesBackTo earlier) :
    latest.GoesBackTo earlier := by
  obtain ⟨us, notes, contents⟩ := h
  obtain ⟨vs, notes', contents'⟩ := h'
  refine ⟨us ++ vs, ?_, ?_⟩
  · rw [notes, notes', List.append_assoc]
  · rw [List.foldl_append, contents, contents']

theorem length_le (h : later.GoesBackTo earlier) :
    earlier.notes.length ≤ later.notes.length := by
  obtain ⟨us, notes, _⟩ := h
  rw [notes, List.length_append]
  omega

/-- Only contents and notes matter for the way back. -/
theorem of_eq {l : Ledger} (h : later.GoesBackTo earlier) (contents : l.contents = later.contents)
    (notes : l.notes = later.notes) : l.GoesBackTo earlier := by
  obtain ⟨us, hn, hc⟩ := h
  exact ⟨us, notes.trans hn, contents ▸ hc⟩

theorem rewind (h : later.GoesBackTo earlier) :
    later.rewind earlier.notes.length = { earlier with depth := later.depth } := by
  obtain ⟨us, notes, contents⟩ := h
  have undone : later.notes.length - earlier.notes.length = us.length := by
    rw [notes, List.length_append]
    omega
  simp only [Ledger.rewind, undone]
  rw [notes, List.take_left, List.drop_left, contents]

/-- Undoing some of the notes that lead to `earlier` leaves the others. -/
theorem rewind_of_le (h : later.GoesBackTo earlier) {mark : Nat}
    (hm : earlier.notes.length ≤ mark) : (later.rewind mark).GoesBackTo earlier := by
  obtain ⟨us, notes, contents⟩ := h
  have undone : later.notes.length - mark ≤ us.length := by
    rw [notes, List.length_append]
    omega
  refine ⟨us.drop (later.notes.length - mark), ?_, ?_⟩
  · change later.notes.drop _ = _
    rw [notes, List.drop_append_of_le_length (notes ▸ undone)]
  · change List.foldl Contents.undo ((later.notes.take _).foldl Contents.undo later.contents) _ = _
    rw [notes, List.take_append_of_le_length (notes ▸ undone), ← List.foldl_append,
      List.take_append_drop, contents]

theorem contents_revertTo (h : later.GoesBackTo earlier) {c : Checkpoint}
    (mark : c.mark = earlier.notes.length) : (later.revertTo c).contents = earlier.contents := by
  rw [revertTo_eq, mark, h.rewind, contents_close]

end GoesBackTo

theorem goesBackTo_noting {l : Ledger} (opened : 0 < l.depth) {us : List Undo} {c : Contents}
    (h : us.foldl Contents.undo c = l.contents) : (l.noting us c).GoesBackTo l :=
  ⟨us, if_neg (Nat.ne_of_gt opened), h⟩

end Ledger

namespace Change

@[simp] theorem depth_perform (x : Change) (l : Ledger) : (x.perform l).depth = l.depth := by
  rw [perform_eq]
  cases x.onContents l.contents with
  | ok c => rfl
  | error e => rfl

theorem perform_goesBackTo (x : Change) {l : Ledger} (opened : 0 < l.depth) :
    (x.perform l).GoesBackTo l := by
  rw [perform_eq]
  cases h : x.onContents l.contents with
  | ok c => exact Ledger.goesBackTo_noting opened (undo_notes h)
  | error e => exact .refl l

theorem perform_ofContents (x : Change) (l : Ledger) :
    x.perform (.ofContents l.contents) = .ofContents (x.perform l).contents := by
  unfold perform
  rw [onLedger_ofContents]
  cases x.onLedger l with
  | ok m => rfl
  | error e => rfl

theorem tidy_perform (x : Change) {l : Ledger} (h : l.Tidy) : (x.perform l).Tidy := by
  intro none
  rw [depth_perform] at none
  rw [perform_eq]
  cases x.onContents l.contents with
  | ok c => exact (if_pos none).trans (h none)
  | error e => exact h none

end Change

end AgentLedger
