import AgentLedger.Ledger.Basic
import AgentLedger.Wire.Agent

namespace AgentLedger

/-!
# Wire texts of the ledger

A snapshot names its version. The code of an account is an array of numbers and is left out if
there is none.
-/

open Wire (toJson ofJson?)

instance : Wire Account where
  toJson a := .record ([
    ("address", toJson a.address),
    ("balance", toJson a.balance),
    ("nonce", toJson a.nonce)] ++
    match a.code with
    | some code => [("code", toJson code)]
    | none => [])
  ofJson? v := do
    let r ← v.record? ["address", "balance", "nonce", "code"]
    return {
      address := ← r.required "address" ofJson?
      balance := ← r.required "balance" ofJson?
      nonce := ← r.required "nonce" ofJson?
      code := ← r.defaulted "code" none ofJson? }

instance : Wire AgentRecord where
  toJson a := .record [
    ("identity", toJson a.identity),
    ("registered_at_height", toJson a.registeredAt),
    ("message_count", toJson a.messageCount),
    ("active", toJson a.active)]
  ofJson? v := do
    let r ← v.record? ["identity", "registered_at_height", "message_count", "active"]
    return {
      identity := ← r.required "identity" ofJson?
      registeredAt := ← r.required "registered_at_height" ofJson?
      messageCount := ← r.required "message_count" ofJson?
      active := ← r.required "active" ofJson? }

structure Snapshot where
  version : UInt32
  contents : Contents
deriving DecidableEq

instance : Wire Snapshot where
  toJson s := .record [
    ("version", toJson s.version),
    ("accounts", toJson s.contents.accounts),
    ("agents", toJson s.contents.agents),
    ("messages", toJson s.contents.messages),
    ("receipts", toJson s.contents.receipts)]
  ofJson? v := do
    let r ← v.record? ["version", "accounts", "agents", "messages", "receipts"]
    return {
      version := ← r.required "version" ofJson?
      contents := {
        accounts := ← r.required "accounts" ofJson?
        agents := ← r.required "agents" ofJson?
        messages := ← r.required "messages" ofJson?
        receipts := ← r.required "receipts" ofJson? } }

namespace Snapshot

def currentVersion : UInt32 := 1

def ofContents (c : Contents) : Snapshot := ⟨currentVersion, c⟩

/-- Reads a snapshot of the current version. -/
def read (bs : Bytes) : Except ChainError Snapshot :=
  match Wire.decode? bs with
  | none => .error (.serialization .malformed)
  | some s =>
      if s.version = currentVersion then .ok s
      else .error (.serialization (.unsupportedVersion s.version))

end Snapshot

namespace Ledger

def snapshot (l : Ledger) : Snapshot := .ofContents l.contents

/-- The ledger of a snapshot, with no checkpoint open. -/
def restore (bs : Bytes) : Except ChainError Ledger := do
  let s ← Snapshot.read bs
  return .ofContents s.contents

end Ledger

end AgentLedger
