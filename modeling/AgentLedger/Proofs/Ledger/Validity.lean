import AgentLedger.Proofs.Ledger.Accounts

namespace AgentLedger

/-!
# Valid contents

Contents are valid if every record is stored under its own key and looks as if it had just passed
the check for records of its kind. Each change keeps the contents valid, provided that what it
brings in has passed that check.
-/

/-- An account lies at its own address, and code that it has is not empty. -/
structure Account.Valid (a : Address) (x : Account) : Prop where
  address_eq : x.address = a
  code_ne_nil : ∀ code, x.code = some code → code ≠ []

/-- An agent goes by its own decentralised identifier, and it has been registered in a block that is
not above `top`. -/
structure AgentRecord.Valid (top : UInt64) (identifier : String) (r : AgentRecord) : Prop where
  identifier_eq : r.identity.identifier = identifier
  did : "did:".toList <+: identifier.toList
  active : r.active = true
  registeredAt_pos : 1 ≤ r.registeredAt
  registeredAt_le : r.registeredAt ≤ top

structure Contents.Valid (top : UInt64) (c : Contents) : Prop where
  accounts : c.accounts.Every Account.Valid
  agents : c.agents.Every (AgentRecord.Valid top)
  receipts : ∀ r ∈ c.receipts, r.validateStructure = .ok ()

theorem AgentRecord.Valid.mono {top top' : UInt64} (le : top ≤ top') {identifier : String}
    {r : AgentRecord} (h : r.Valid top identifier) : r.Valid top' identifier :=
  { h with registeredAt_le := UInt64.le_trans h.registeredAt_le le }

theorem AgentIdentity.did_of_validate {a : AgentIdentity} (h : a.validate = .ok ()) :
    "did:".toList <+: a.identifier.toList := by
  unfold validate at h
  split at h
  · cases h
  · split at h
    · next did => exact List.isPrefixOf_iff_prefix.1 did
    · cases h

namespace Contents

variable {top : UInt64} {c d : Contents} {a : Address} {value : Amount}

theorem valid_empty : empty.Valid top := ⟨SortedMap.every_empty, SortedMap.every_empty, nofun⟩

namespace Valid

theorem mono (h : c.Valid top) {top' : UInt64} (le : top ≤ top') : c.Valid top' where
  accounts := h.accounts
  agents := h.agents.mono fun _ _ => .mono le
  receipts := h.receipts

/-! ## Accounts -/

/-- An account that nothing has touched is valid as well. -/
theorem account (h : c.Valid top) (a : Address) : (c.account a).Valid a := by
  unfold Contents.account
  cases found : c.accounts.get? a with
  | none => exact ⟨rfl, nofun⟩
  | some x => exact h.accounts a x found

theorem modifyAccount (h : c.Valid top) {f : Account → Account} (keeps : ∀ x, x.Valid a →
    (f x).Valid a) : (c.modifyAccount a f).Valid top where
  accounts := h.accounts.insert (keeps _ (h.account a))
  agents := h.agents
  receipts := h.receipts

theorem setBalance (h : c.Valid top) (a : Address) (value : Amount) :
    (c.setBalance a value).Valid top :=
  h.modifyAccount fun _ valid => ⟨valid.address_eq, valid.code_ne_nil⟩

theorem setCode (h : c.Valid top) (a : Address) {code : Bytes} (nonempty : code ≠ []) :
    (c.setCode a code).Valid top :=
  h.modifyAccount fun _ valid => ⟨valid.address_eq, fun _ same => Option.some.inj same ▸ nonempty⟩

theorem credit (h : c.Valid top) (credited : c.credit a value = .ok d) : d.Valid top := by
  obtain ⟨total, _, rfl⟩ := credit_eq_ok credited
  exact h.setBalance a total

theorem transfer (h : c.Valid top) {source target : Address}
    (moved : c.transfer source target value = .ok d) : d.Valid top := by
  obtain ⟨_, ⟨_, rfl⟩ | ⟨_, total, _, rfl⟩⟩ := transfer_eq_ok moved
  · exact h
  · exact (h.setBalance source _).setBalance target total

/-! ## Agents and logs -/

theorem registerAgent (h : c.Valid top) {identity : AgentIdentity}
    (checked : identity.validate = .ok ()) (pos : 1 ≤ top)
    (registered : c.registerAgent identity top = .ok d) : d.Valid top := by
  obtain ⟨_, rfl⟩ := registerAgent_eq_ok registered
  have new : (AgentRecord.new identity top).Valid top identity.identifier :=
    ⟨rfl, AgentIdentity.did_of_validate checked, rfl, pos, UInt64.le_refl top⟩
  exact ⟨h.accounts, h.agents.insert new, h.receipts⟩

theorem recordMessage (h : c.Valid top) (m : AgentMessage) : (c.recordMessage m).Valid top := by
  unfold Contents.recordMessage countMessage
  split
  · next r found =>
      obtain ⟨identifier, did, active, pos, le⟩ := h.agents m.sender r found
      exact ⟨h.accounts, h.agents.insert ⟨identifier, did, active, pos, le⟩, h.receipts⟩
  · exact ⟨h.accounts, h.agents, h.receipts⟩

theorem recordReceipt (h : c.Valid top) {r : InferenceReceipt}
    (checked : r.validateStructure = .ok ()) : (c.recordReceipt r).Valid top where
  accounts := h.accounts
  agents := h.agents
  receipts := by
    intro s mem
    rcases List.mem_append.1 mem with old | new
    · exact h.receipts s old
    · exact List.mem_singleton.1 new ▸ checked

end Valid

end Contents

end AgentLedger
