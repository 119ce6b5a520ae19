import AgentLedger.Block
import AgentLedger.Wire.Transaction

namespace AgentLedger

/-!
# Wire texts of blocks
-/

open Wire (toJson ofJson?)

instance : Wire BlockHeader where
  toJson h := .record [
    ("version", toJson h.version),
    ("height", toJson h.height),
    ("timestamp", toJson h.timestamp),
    ("previous_hash", toJson h.previousHash),
    ("state_root", toJson h.stateRoot),
    ("transaction_root", toJson h.transactionRoot),
    ("agent_root", toJson h.agentRoot),
    ("proposer", toJson h.proposer)]
  ofJson? v := do
    let r ← v.record? ["version", "height", "timestamp", "previous_hash", "state_root",
      "transaction_root", "agent_root", "proposer"]
    return {
      version := ← r.required "version" ofJson?
      height := ← r.required "height" ofJson?
      timestamp := ← r.required "timestamp" ofJson?
      previousHash := ← r.required "previous_hash" ofJson?
      stateRoot := ← r.required "state_root" ofJson?
      transactionRoot := ← r.required "transaction_root" ofJson?
      agentRoot := ← r.required "agent_root" ofJson?
      proposer := ← r.required "proposer" ofJson? }

instance : Wire Block where
  toJson b := .record [
    ("header", toJson b.header),
    ("proposer_signature", .ofHex b.proposerSignature),
    ("transactions", toJson b.transactions)]
  ofJson? v := do
    let r ← v.record? ["header", "proposer_signature", "transactions"]
    return {
      header := ← r.required "header" ofJson?
      proposerSignature := ← r.required "proposer_signature" Json.hex?
      transactions := ← r.required "transactions" ofJson? }

end AgentLedger
