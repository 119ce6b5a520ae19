import AgentLedger.Wire.Ledger

namespace AgentLedger

/-!
# Commitments to the ledger

A block header carries two roots. One commits to accounts, messages and receipts, the other to
agents. By default both are digests of wire texts; a committer may compute them otherwise and may
fail.
-/

open Wire (toJson)

namespace Contents

def stateView (c : Contents) : Json :=
  .record [
    ("accounts", toJson c.accounts),
    ("messages", toJson c.messages),
    ("receipts", toJson c.receipts)]

def stateRoot (c : Contents) : Hash256 := .ofData c.stateView.render

def agentRoot (c : Contents) : Hash256 := Wire.hash c.agents

end Contents

structure Committer where
  stateRoot : Contents → Except ChainError Hash256
  agentRoot : Contents → Except ChainError Hash256

namespace Committer

def digests : Committer := ⟨fun c => .ok c.stateRoot, fun c => .ok c.agentRoot⟩

def roots (k : Committer) (c : Contents) : Except ChainError (Hash256 × Hash256) := do
  let stateRoot ← k.stateRoot c
  let agentRoot ← k.agentRoot c
  return (stateRoot, agentRoot)

end Committer

end AgentLedger
