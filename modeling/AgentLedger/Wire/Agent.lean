import AgentLedger.Agent
import AgentLedger.Wire.Basic

namespace AgentLedger

/-!
# Wire texts of agents, messages and receipts
-/

open Wire (toJson ofJson?)

instance : Wire Capability where
  toJson c := .record [("name", toJson c.name), ("version", toJson c.version)]
  ofJson? v := do
    let r ← v.record? ["name", "version"]
    return {
      name := ← r.required "name" ofJson?
      version := ← r.required "version" ofJson? }

instance : Wire AgentIdentity where
  toJson a := .record [
    ("identifier", toJson a.identifier),
    ("controller", toJson a.controller),
    ("capabilities", toJson a.capabilities),
    ("public_key", .ofHex a.publicKey),
    ("metadata", toJson a.metadata)]
  ofJson? v := do
    let r ← v.record? ["identifier", "controller", "capabilities", "public_key", "metadata"]
    return {
      identifier := ← r.required "identifier" ofJson?
      controller := ← r.required "controller" ofJson?
      capabilities := ← r.required "capabilities" ofJson?
      publicKey := ← r.required "public_key" Json.hex?
      metadata := ← r.required "metadata" ofJson? }

def MessageKind.name : MessageKind → String
  | task => "TASK"
  | result => "RESULT"
  | delegate => "DELEGATE"
  | revoke => "REVOKE"

def MessageKind.all : List MessageKind := [task, result, delegate, revoke]

instance : Wire MessageKind where
  toJson k := .ofText k.name
  ofJson? := Json.oneOf? (MessageKind.all.map fun k => (k.name, k))

instance : Wire AgentMessage where
  toJson m := .record [
    ("from", toJson m.sender),
    ("to", toJson m.recipient),
    ("type", toJson m.kind),
    ("payload", .ofHex m.payload),
    ("nonce", toJson m.nonce)]
  ofJson? v := do
    let r ← v.record? ["from", "to", "type", "payload", "nonce"]
    return {
      sender := ← r.required "from" ofJson?
      recipient := ← r.required "to" ofJson?
      kind := ← r.required "type" ofJson?
      payload := ← r.required "payload" Json.hex?
      nonce := ← r.required "nonce" ofJson? }

instance : Wire InferenceReceipt where
  toJson r := .record [
    ("agent_id", toJson r.agentId),
    ("model_hash", .ofHex r.modelHash),
    ("input_hash", .ofHex r.inputHash),
    ("output_hash", .ofHex r.outputHash),
    ("timestamp", toJson r.timestamp),
    ("prover_signature", .ofHex r.proverSignature)]
  ofJson? v := do
    let r ← v.record? ["agent_id", "model_hash", "input_hash", "output_hash", "timestamp",
      "prover_signature"]
    return {
      agentId := ← r.required "agent_id" ofJson?
      modelHash := ← r.required "model_hash" Json.hex?
      inputHash := ← r.required "input_hash" Json.hex?
      outputHash := ← r.required "output_hash" Json.hex?
      timestamp := ← r.required "timestamp" ofJson?
      proverSignature := ← r.required "prover_signature" Json.hex? }

end AgentLedger
