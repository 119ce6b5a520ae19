import AgentLedger.Ledger.Contents

namespace AgentLedger

/-!
# Ledger

While a checkpoint is open, every change notes how to undo it. Reverting to a checkpoint undoes
the changes noted since it was taken, the newest first. The notes are dropped when the last open
checkpoint is closed.
-/

/-- How to undo one change. -/
inductive Undo where
  | account (address : Address) (before : Option Account)
  | agent (identifier : String) (before : Option AgentRecord)
  | message
  | receipt
deriving DecidableEq

def Contents.undo (c : Contents) : Undo → Contents
  | .account a before => { c with accounts := c.accounts.set a before }
  | .agent identifier before => { c with agents := c.agents.set identifier before }
  | .message => { c with messages := c.messages.dropLast }
  | .receipt => { c with receipts := c.receipts.dropLast }

/-- The contents, the notes with the newest first, and the number of open checkpoints. -/
structure Ledger where
  contents : Contents
  notes : List Undo
  depth : Nat
deriving DecidableEq, Inhabited

/-- How many notes there were when the checkpoint was taken. -/
structure Checkpoint where
  mark : Nat
deriving DecidableEq

namespace Ledger

def ofContents (c : Contents) : Ledger := ⟨c, [], 0⟩

def empty : Ledger := .ofContents .empty

/-! ## Checkpoints -/

def checkpoint (l : Ledger) : Checkpoint × Ledger :=
  (⟨l.notes.length⟩, { l with depth := l.depth + 1 })

/-- Closes one checkpoint. -/
def close (l : Ledger) : Ledger :=
  if l.depth ≤ 1 then { l with notes := [], depth := 0 } else { l with depth := l.depth - 1 }

def commit (l : Ledger) (_ : Checkpoint) : Ledger := l.close

def revertTo (l : Ledger) (c : Checkpoint) : Ledger :=
  let n := l.notes.length - c.mark
  { l with contents := (l.notes.take n).foldl .undo l.contents, notes := l.notes.drop n }.close

/-- Keeps what `change` does if it succeeds, and undoes it if not. -/
def atomically {α : Type} (l : Ledger) (change : Ledger → Except ChainError α × Ledger) :
    Except ChainError α × Ledger :=
  let (c, opened) := l.checkpoint
  match change opened with
  | (.ok a, changed) => (.ok a, changed.commit c)
  | (.error e, changed) => (.error e, changed.revertTo c)

def note (l : Ledger) (u : Undo) : Ledger :=
  if l.depth = 0 then l else { l with notes := u :: l.notes }

def noteAccount (l : Ledger) (a : Address) : Ledger :=
  l.note (.account a (l.contents.accounts.get? a))

/-! ## Changes -/

def setBalance (l : Ledger) (a : Address) (value : Amount) : Ledger :=
  { l.noteAccount a with contents := l.contents.setBalance a value }

def credit (l : Ledger) (a : Address) (value : Amount) : Except ChainError Ledger := do
  let c ← l.contents.credit a value
  return { l.noteAccount a with contents := c }

def transfer (l : Ledger) (source target : Address) (value : Amount) :
    Except ChainError Ledger := do
  let c ← l.contents.transfer source target value
  if source = target then return l
  return { (l.noteAccount source).noteAccount target with contents := c }

def incrementNonce (l : Ledger) (a : Address) : Ledger :=
  { l.noteAccount a with contents := l.contents.incrementNonce a }

def advanceNonce (l : Ledger) (a : Address) (next : UInt64) : Ledger :=
  { l.noteAccount a with contents := l.contents.advanceNonce a next }

def setCode (l : Ledger) (a : Address) (code : Bytes) : Ledger :=
  { l.noteAccount a with contents := l.contents.setCode a code }

def registerAgent (l : Ledger) (identity : AgentIdentity) (height : UInt64) :
    Except ChainError Ledger := do
  let c ← l.contents.registerAgent identity height
  return { l.note (.agent identity.identifier none) with contents := c }

def recordMessage (l : Ledger) (m : AgentMessage) : Ledger :=
  let counted :=
    match l.contents.agents.get? m.sender with
    | some r => l.note (.agent m.sender (some r))
    | none => l
  { counted.note .message with contents := l.contents.recordMessage m }

def recordReceipt (l : Ledger) (r : InferenceReceipt) : Ledger :=
  { l.note .receipt with contents := l.contents.recordReceipt r }

end Ledger

end AgentLedger
