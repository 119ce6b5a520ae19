import AgentLedger.Block

namespace AgentLedger

/-!
# Announcements of blocks

An announcer keeps the newest blocks up to its capacity. A reader is a place in the sequence of
all announced blocks; one that has fallen behind what is kept first learns how many blocks it has
lost and goes on with the oldest that is kept.
-/

structure Announcer where
  capacity : Nat
  /-- What has been announced, the newest first. -/
  announced : List Block

/-- What a reader finds. -/
inductive Announcement where
  | block (b : Block)
  | lagged (lost : Nat)
  | nothing

namespace Announcer

/-- The capacity is rounded up to a power of two. -/
def withCapacity (capacity : Nat) : Announcer := ⟨capacity.nextPowerOfTwo, []⟩

def announce (a : Announcer) (b : Block) : Announcer := { a with announced := b :: a.announced }

/-- The place after everything announced so far. -/
def current (a : Announcer) : Nat := a.announced.length

/-- Reads at a place, and says where to read next. -/
def read (a : Announcer) (place : Nat) : Announcement × Nat :=
  let unread := a.current - place
  if a.capacity < unread then (.lagged (unread - a.capacity), a.current - a.capacity)
  else
    match (a.announced.take unread).getLast? with
    | some b => (.block b, place + 1)
    | none => (.nothing, place)

/-- Announces blocks one after another. -/
def announceAll (a : Announcer) (bs : List Block) : Announcer := bs.foldl announce a

@[simp] theorem announceAll_nil (a : Announcer) : a.announceAll [] = a := rfl

@[simp] theorem announceAll_cons (a : Announcer) (b : Block) (bs : List Block) :
    a.announceAll (b :: bs) = (a.announce b).announceAll bs := rfl

@[simp] theorem capacity_announceAll (a : Announcer) (bs : List Block) :
    (a.announceAll bs).capacity = a.capacity := by
  induction bs generalizing a with
  | nil => rfl
  | cons b bs ih => exact ih (a.announce b)

@[simp] theorem announced_announceAll (a : Announcer) (bs : List Block) :
    (a.announceAll bs).announced = bs.reverse ++ a.announced := by
  induction bs generalizing a with
  | nil => rfl
  | cons b bs ih =>
      rw [announceAll_cons, ih, List.reverse_cons, List.append_assoc]
      rfl

/-- A reader that has not fallen behind what is kept finds the blocks in the order in which they
were announced. -/
theorem read_announceAll {a : Announcer} {bs : List Block} {i : Nat} {b : Block}
    (h : bs[i]? = some b) (kept : bs.length - i ≤ a.capacity) :
    (a.announceAll bs).read (a.current + i) = (.block b, a.current + i + 1) := by
  obtain ⟨short, rfl⟩ := List.getElem?_eq_some_iff.1 h
  have unread : (a.announceAll bs).current - (a.current + i) = bs.length - i := by
    simp only [current, announced_announceAll, List.length_append, List.length_reverse]
    omega
  have found : ((bs.reverse ++ a.announced).take (bs.length - i)).getLast? = some bs[i] := by
    rw [List.take_append_of_le_length (by simp), List.getLast?_eq_getElem?, List.getElem?_take,
      List.length_take, List.length_reverse, if_pos (by omega),
      List.getElem?_reverse (by omega)]
    have place : bs.length - 1 - (min (bs.length - i) bs.length - 1) = i := by omega
    rw [place]
    exact h
  have near : ¬ (a.announceAll bs).capacity < bs.length - i := by
    rw [capacity_announceAll]
    omega
  simp only [read, unread, if_neg near, announced_announceAll, found]

end Announcer

end AgentLedger
