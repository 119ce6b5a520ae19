import AgentLedger.Transaction

namespace AgentLedger

/-!
# Feeds of batches

A feed is a bounded queue of batches between a sender and a production loop. Neither side waits:
sending tells whether there was room, and an empty feed yields an empty batch.
-/

structure Feed where
  capacity : Nat
  queued : List (List Transaction)
  /-- Whether the receiving side is still there. -/
  receiving : Bool

inductive SendResult where
  | accepted
  | full
  | closed
deriving DecidableEq, Repr

namespace Feed

def withCapacity (capacity : Nat) : Feed := ⟨capacity, [], true⟩

def send (f : Feed) (batch : List Transaction) : SendResult × Feed :=
  if !f.receiving then (.closed, f)
  else if f.capacity ≤ f.queued.length then (.full, f)
  else (.accepted, { f with queued := f.queued ++ [batch] })

def next (f : Feed) : List Transaction × Feed :=
  match f.queued with
  | [] => ([], f)
  | batch :: rest => (batch, { f with queued := rest })

/-- Ends the receiving side; batches that are still queued are lost. -/
def close (f : Feed) : Feed := { f with queued := [], receiving := false }

end Feed

end AgentLedger
