import AgentLedger.Proofs.Wire.Lawful
import AgentLedger.Wire.Ledger

namespace AgentLedger

/-!
# Snapshots are read back

Agents, messages, receipts and accounts are read back from their wire texts, and so are the
contents of a ledger from its snapshot.
-/

open Wire (Lawful toJson ofJson?)

/-! ## Agents, messages and receipts -/

instance : Lawful Capability where
  ofJson?_toJson c := Json.bind_record? (by simp) (by simp)
  readable_toJson c := Json.readable_record (by simp)

instance : Lawful AgentIdentity where
  ofJson?_toJson a := Json.bind_record? (by simp) (by simp)
  readable_toJson a := Json.readable_record (by simp)

instance : Lawful MessageKind where
  ofJson?_toJson k := by cases k <;> rfl
  readable_toJson k := Json.readable_text (Utf8.encode k.name)

instance : Lawful AgentMessage where
  ofJson?_toJson m := Json.bind_record? (by simp) (by simp)
  readable_toJson m := Json.readable_record (by simp)

instance : Lawful InferenceReceipt where
  ofJson?_toJson r := Json.bind_record? (by simp) (by simp)
  readable_toJson r := Json.readable_record (by simp)

/-! ## Accounts and snapshots -/

instance : Lawful Account where
  ofJson?_toJson a := by
    obtain ⟨address, balance, nonce, code⟩ := a
    cases code with
    | none => exact Json.bind_record? (by simp) (by simp)
    | some code =>
        have present : (ofJson? (toJson code) : Option (Option Bytes)) = some (some code) :=
          Wire.ofJson?_some nofun
        exact Json.bind_record? (by simp) (by simp [present])
  readable_toJson a := by
    obtain ⟨address, balance, nonce, code⟩ := a
    cases code with
    | none => exact Json.readable_record (by simp)
    | some code => exact Json.readable_record (by simp)

instance : Lawful AgentRecord where
  ofJson?_toJson a := Json.bind_record? (by simp) (by simp)
  readable_toJson a := Json.readable_record (by simp)

instance : Lawful Snapshot where
  ofJson?_toJson s := Json.bind_record? (by simp) (by simp)
  readable_toJson s := Json.readable_record (by simp)

theorem Snapshot.read_encode (c : Contents) :
    read (Wire.encode (ofContents c)) = .ok (ofContents c) := by
  simp [read, ofContents]

theorem Ledger.restore_snapshot (l : Ledger) :
    restore (Wire.encode l.snapshot) = .ok (.ofContents l.contents) := by
  rw [restore, snapshot, Snapshot.read_encode]
  rfl

end AgentLedger
