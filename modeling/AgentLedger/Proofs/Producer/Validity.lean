import AgentLedger.Proofs.Ledger.Validity
import AgentLedger.Proofs.Producer.Lasting

namespace AgentLedger

/-!
# Valid chains

Records come in by transactions and by code, and both ways pass the same checks. So the contents
stay valid from block to block, with the height of the tip as the top: a block registers agents at
its own height, and those that are there already have been registered below it.
-/

section Effects

variable {verify : ReceiptVerifier} {caller : Address} {height : UInt64} {c d : Contents}

theorem Exec.validateStructure_of_checkReceipt {r : InferenceReceipt}
    (accepted : checkReceipt verify r c = .ok ()) : r.validateStructure = .ok () := by
  unfold checkReceipt at accepted
  cases shape : r.validateStructure with
  | ok _ => rfl
  | error _ =>
      rw [shape] at accepted
      cases accepted

theorem Effect.valid (h : Effect verify caller height c d) (pos : 1 ≤ height)
    (valid : c.Valid height) : d.Valid height := by
  cases h with
  | transfer moved => exact valid.transfer moved
  | registerAgent checked registered => exact valid.registerAgent checked pos registered
  | recordMessage m => exact valid.recordMessage m
  | recordReceipt accepted =>
      exact valid.recordReceipt (Exec.validateStructure_of_checkReceipt accepted)
  | deploy _ nonempty => exact valid.setCode _ nonempty

theorem NoncePolicy.valid_change (p : NoncePolicy) {tx : Transaction} (valid : c.Valid height)
    (advanced : (p.change tx).onContents c = .ok d) : d.Valid height := by
  obtain ⟨next, rfl⟩ := p.change_eq_ok advanced
  exact valid.modifyAccount fun _ kept => ⟨kept.address_eq, kept.code_ne_nil⟩

end Effects

namespace Engine

variable {e : Engine} {height : UInt64} {l m : Ledger}

theorem valid_apply (bare : e.Bare) (pos : 1 ≤ height) (tx : Transaction)
    (valid : l.contents.Valid height) : (e.apply l tx height).2.contents.Valid height :=
  apply_preserves bare (fun _ _ effect => effect.valid pos)
    (fun _ _ advanced kept => e.noncePolicy.valid_change kept advanced) valid

theorem valid_applyBody (bare : e.Bare) (pos : 1 ≤ height) {txs : List Transaction}
    (ran : e.applyBody height txs l = (.ok (), m)) (valid : l.contents.Valid height) :
    m.contents.Valid height := by
  have batch := applyBatch_preserves (fun _ tx => valid_apply bare pos tx) txs valid
  rw [applyBatch_of_applyBody ran] at batch
  exact batch

end Engine

theorem Ledger.valid_setBalances {top : UInt64} (balances : List (Address × Amount)) {l : Ledger}
    (valid : l.contents.Valid top) :
    (balances.foldl (fun l e => l.setBalance e.1 e.2) l).contents.Valid top := by
  induction balances generalizing l with
  | nil => exact valid
  | cons e rest ih => exact ih (valid.setBalance e.1 e.2)

namespace Producer

variable {p q : Producer} {b : Block}

/-- The ledger holds valid contents whose top is the tip. -/
def Valid (p : Producer) : Prop := p.ledger.contents.Valid p.tip.header.height

theorem Extends.valid (h : p.Extends q b) (bare : p.engine.Bare)
    (room : p.tip.header.height.toNat + 1 < UInt64.size) (valid : p.Valid) : q.Valid := by
  have up := h.height_toNat room
  have pos : 1 ≤ q.tip.header.height := by
    rw [UInt64.le_iff_toNat_le, up]
    exact Nat.succ_le_succ (Nat.zero_le _)
  have above : p.tip.header.height ≤ q.tip.header.height := by
    rw [UInt64.le_iff_toNat_le, up]
    exact Nat.le_succ _
  obtain ⟨applied, ran, credited⟩ := h.applied
  rw [← h.tip_eq] at ran credited
  exact (Engine.valid_applyBody bare pos ran (valid.mono above)).credit credited

theorem Agrees.valid (same : q.Agrees p) (valid : p.Valid) : q.Valid := by
  unfold Valid
  rw [same.contents_eq, same.tip_eq]
  exact valid

theorem Valid.run (valid : p.Valid) (bare : p.engine.Bare) {requests : List Request}
    (few : p.tip.header.height.toNat + (p.adopted requests).length < UInt64.size) :
    (p.run requests).Valid := by
  induction requests generalizing p with
  | nil => exact valid
  | cons r rest ih =>
      have bare' : (p.serve r).2.engine.Bare := engine_serve bare.disciplined r ▸ bare
      rw [adopted, List.length_append] at few
      rw [run_cons]
      rcases serve_cases bare.disciplined r with ⟨b, granted, extended⟩ | ⟨refused, same⟩
      · rw [granted, Option.toList_some, List.length_singleton] at few
        have up := extended.height_toNat (by omega)
        exact ih (extended.valid bare (by omega) valid) bare' (by omega)
      · rw [refused, Option.toList_none, List.length_nil, Nat.zero_add] at few
        refine ih (same.valid valid) bare' ?_
        rw [same.tip_eq]
        exact few

/-- A chain that starts with nothing but balances never comes to hold an invalid record, whichever
blocks are proposed and adopted, whatever the code that they run and whatever fails on the way. -/
theorem valid_of_balances (bare : p.engine.Bare) (genesis : p.tip = .genesis)
    (balances : List (Address × Amount))
    (start : p.ledger = balances.foldl (fun l e => l.setBalance e.1 e.2) .empty)
    (requests : List Request) (few : (p.adopted requests).length < UInt64.size) :
    (p.run requests).ledger.contents.Valid (p.run requests).tip.header.height := by
  have valid : p.Valid := by
    unfold Valid
    rw [start]
    exact Ledger.valid_setBalances balances Contents.valid_empty
  have height : p.tip.header.height.toNat = 0 := by
    rw [genesis]
    rfl
  exact valid.run bare (by omega)

/-- The newcomer is enrolled by the only block after genesis, so it is registered at height one. -/
theorem newcomer_valid :
    let p := { plain with ledger := Ledger.empty.setBalance .zero Policy.token }
    let enrol : Transaction := .agentRegister .zero newcomer 0 0
    let requests : List Request := [.propose ⟨0, .zero, [enrol]⟩, .adopt .genesis]
    (p.run requests).tip.header.height = 1 ∧
      ∃ r, (p.run requests).ledger.contents.agents.get? "did:agc:new" = some r ∧
        r.identity.identifier = "did:agc:new" ∧ r.registeredAt = 1 := by
  intro p enrol requests
  have bare : p.engine.Bare := Machine.bare_ofVerifier _
  have one : (p.adopted requests).length = 1 := by decide +kernel
  have height : (p.run requests).tip.header.height = 1 := by decide +kernel
  have there : (p.run requests).ledger.contents.agents.contains "did:agc:new" = true := by
    decide +kernel
  have valid := valid_of_balances bare rfl [(.zero, Policy.token)] rfl requests (by
    rw [one]
    decide)
  obtain ⟨r, found⟩ := Option.isSome_iff_exists.1 there
  have record := valid.agents _ r found
  rw [height] at record
  exact ⟨height, r, found, record.identifier_eq,
    UInt64.le_antisymm record.registeredAt_le record.registeredAt_pos⟩

end Producer

end AgentLedger
