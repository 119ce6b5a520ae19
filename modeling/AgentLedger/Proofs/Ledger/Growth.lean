import AgentLedger.Proofs.Ledger.Accounts

namespace AgentLedger

/-!
# Growth of the contents

A log only gets longer at its end, and an account or an agent that is there stays there: what is
fixed once for all remains, and what is counted does not fall. Code must be put where there is none.
What comes on top is said apart: which agents a change registers and which contracts it deploys.
-/

namespace SortedMap

variable {κ α : Type} [Ord κ] {R : α → α → Prop} {m n o : SortedMap κ α}

/-- What one map has under a key, the other has too, but for a step of the relation. -/
def Carries (R : α → α → Prop) (m n : SortedMap κ α) : Prop :=
  ∀ k a, m.get? k = some a → ∃ b, n.get? k = some b ∧ R a b

theorem Carries.refl (hR : ∀ a, R a a) (m : SortedMap κ α) : Carries R m m :=
  fun _ a found => ⟨a, found, hR a⟩

theorem Carries.trans (hR : ∀ a b c, R a b → R b c → R a c) (h : Carries R m n)
    (h' : Carries R n o) : Carries R m o := by
  intro k a found
  obtain ⟨b, found', first⟩ := h k a found
  obtain ⟨c, found'', second⟩ := h' k b found'
  exact ⟨c, found'', hR a b c first second⟩

theorem carries_insert [Std.TransOrd κ] [Std.LawfulEqOrd κ] [DecidableEq κ] (hR : ∀ a, R a a)
    {k : κ} {b : α} (h : ∀ a, m.get? k = some a → R a b) : Carries R m (m.insert k b) := by
  intro j a found
  rw [get?_insert]
  split
  · next same => exact ⟨b, rfl, h a (same ▸ found)⟩
  · exact ⟨a, found, hR a⟩

end SortedMap

open SortedMap (Carries carries_insert)

/-- A nonce does not fall and code stays as it is. -/
structure Account.Grows (x y : Account) : Prop where
  nonce_le : x.nonce ≤ y.nonce
  code_eq : ∀ code, x.code = some code → y.code = some code

namespace Account.Grows

theorem refl (x : Account) : x.Grows x := ⟨UInt64.le_refl _, fun _ same => same⟩

theorem trans (x y z : Account) (h : x.Grows y) (h' : y.Grows z) : x.Grows z :=
  ⟨UInt64.le_trans h.nonce_le h'.nonce_le,
    fun code same => h'.code_eq code (h.code_eq code same)⟩

end Account.Grows

/-- The messages of an agent are counted, and nothing else about it changes. -/
structure AgentRecord.Grows (r s : AgentRecord) : Prop where
  identity_eq : s.identity = r.identity
  registeredAt_eq : s.registeredAt = r.registeredAt
  active_eq : s.active = r.active
  messageCount_le : r.messageCount ≤ s.messageCount

namespace AgentRecord.Grows

theorem refl (r : AgentRecord) : r.Grows r := ⟨rfl, rfl, rfl, UInt64.le_refl _⟩

theorem trans (r s t : AgentRecord) (h : r.Grows s) (h' : s.Grows t) : r.Grows t :=
  ⟨h'.identity_eq.trans h.identity_eq, h'.registeredAt_eq.trans h.registeredAt_eq,
    h'.active_eq.trans h.active_eq, UInt64.le_trans h.messageCount_le h'.messageCount_le⟩

end AgentRecord.Grows

theorem Saturating.le_addUInt64 (a b : UInt64) : a ≤ addUInt64 a b := by
  have small : a.toNat < 2 ^ 64 := a.toNat_lt
  rw [UInt64.le_iff_toNat_le, addUInt64, toNat_uint64]
  omega

/-- All that is there stays, and the logs go on from where they were. -/
structure Contents.Grows (c d : Contents) : Prop where
  accounts : Carries Account.Grows c.accounts d.accounts
  agents : Carries AgentRecord.Grows c.agents d.agents
  messages : c.messages <+: d.messages
  receipts : c.receipts <+: d.receipts

namespace Contents

variable {c d e : Contents} {a : Address}

namespace Grows

theorem refl (c : Contents) : c.Grows c :=
  ⟨.refl Account.Grows.refl _, .refl AgentRecord.Grows.refl _, List.prefix_rfl, List.prefix_rfl⟩

theorem trans (h : c.Grows d) (h' : d.Grows e) : c.Grows e :=
  ⟨h.accounts.trans Account.Grows.trans h'.accounts,
    h.agents.trans AgentRecord.Grows.trans h'.agents, h.messages.trans h'.messages,
    h.receipts.trans h'.receipts⟩

end Grows

/-! ## What grows -/

theorem grows_modifyAccount {f : Account → Account} (h : (c.account a).Grows (f (c.account a))) :
    c.Grows (c.modifyAccount a f) := by
  refine ⟨carries_insert Account.Grows.refl fun x found => ?_, .refl AgentRecord.Grows.refl _,
    List.prefix_rfl, List.prefix_rfl⟩
  have same : c.account a = x := by rw [account, found, Option.getD_some]
  rw [same] at h ⊢
  exact h

theorem grows_setBalance (c : Contents) (a : Address) (value : Amount) :
    c.Grows (c.setBalance a value) :=
  grows_modifyAccount ⟨UInt64.le_refl _, fun _ same => same⟩

theorem grows_incrementNonce (c : Contents) (a : Address) : c.Grows (c.incrementNonce a) :=
  grows_modifyAccount ⟨Saturating.le_addUInt64 _ 1, fun _ same => same⟩

theorem grows_advanceNonce (c : Contents) (a : Address) (next : UInt64) :
    c.Grows (c.advanceNonce a next) := by
  refine grows_modifyAccount ⟨?_, fun _ same => same⟩
  change (c.account a).nonce ≤ if (c.account a).nonce ≤ next then next else (c.account a).nonce
  split
  · next behind => exact behind
  · exact UInt64.le_refl _

theorem code?_eq (c : Contents) (a : Address) : c.code? a = (c.account a).code := by
  unfold code? account
  cases c.accounts.get? a with
  | none => rfl
  | some x => rfl

theorem grows_setCode (free : c.code? a = none) (code : Bytes) : c.Grows (c.setCode a code) := by
  rw [code?_eq] at free
  refine grows_modifyAccount ⟨UInt64.le_refl _, fun other there => ?_⟩
  rw [free] at there
  cases there

theorem grows_credit {value : Amount} (h : c.credit a value = .ok d) : c.Grows d := by
  obtain ⟨total, _, rfl⟩ := credit_eq_ok h
  exact c.grows_setBalance a total

theorem grows_transfer {source target : Address} {value : Amount}
    (h : c.transfer source target value = .ok d) : c.Grows d := by
  obtain ⟨_, ⟨_, rfl⟩ | ⟨_, total, _, rfl⟩⟩ := transfer_eq_ok h
  · exact .refl d
  · exact (c.grows_setBalance source _).trans (grows_setBalance _ target total)

theorem grows_registerAgent {identity : AgentIdentity} {height : UInt64}
    (h : c.registerAgent identity height = .ok d) : c.Grows d := by
  obtain ⟨fresh, rfl⟩ := registerAgent_eq_ok h
  refine ⟨.refl Account.Grows.refl _, carries_insert AgentRecord.Grows.refl fun r found => ?_,
    List.prefix_rfl, List.prefix_rfl⟩
  rw [fresh] at found
  cases found

theorem grows_recordMessage (c : Contents) (m : AgentMessage) : c.Grows (c.recordMessage m) := by
  unfold recordMessage countMessage
  cases found : c.agents.get? m.sender with
  | none =>
      exact ⟨.refl Account.Grows.refl _, .refl AgentRecord.Grows.refl _,
        List.prefix_append _ _, List.prefix_rfl⟩
  | some r =>
      refine ⟨.refl Account.Grows.refl _, carries_insert AgentRecord.Grows.refl fun s there => ?_,
        List.prefix_append _ _, List.prefix_rfl⟩
      cases found.symm.trans there
      exact ⟨rfl, rfl, rfl, Saturating.le_addUInt64 _ 1⟩

theorem grows_recordReceipt (c : Contents) (r : InferenceReceipt) : c.Grows (c.recordReceipt r) :=
  ⟨.refl Account.Grows.refl _, .refl AgentRecord.Grows.refl _, List.prefix_rfl,
    List.prefix_append _ _⟩

end Contents

/-! ## What comes on top -/

/-- After it there is what was there before and what is new, and nothing new was there before. -/
structure Adds {κ : Type} (before : κ → Prop) (new : List κ) (after : κ → Prop) : Prop where
  nodup : new.Nodup
  fresh : ∀ k ∈ new, ¬before k
  after_iff : ∀ k, after k ↔ before k ∨ k ∈ new

namespace Adds

variable {κ : Type} {p q r : κ → Prop} {new later : List κ}

theorem nothing (same : ∀ k, q k ↔ p k) : Adds p [] q :=
  ⟨.nil, nofun, fun k => by simp [same k]⟩

theorem one {k : κ} (fresh : ¬p k) (same : ∀ j, q j ↔ p j ∨ j = k) : Adds p [k] q :=
  ⟨List.pairwise_singleton _ k, by simpa using fresh, fun j => by simp [same j]⟩

/-- What is new later is not what was new before, for that is there by then. -/
theorem append (h : Adds p new q) (h' : Adds q later r) : Adds p (new ++ later) r := by
  refine ⟨List.nodup_append.2 ⟨h.nodup, h'.nodup, ?_⟩, fun k mem => ?_, fun k => ?_⟩
  · rintro k mem _ mem' rfl
    exact h'.fresh k mem' ((h.after_iff k).2 (.inr mem))
  · rcases List.mem_append.1 mem with mem | mem
    · exact h.fresh k mem
    · exact fun there => h'.fresh k mem ((h.after_iff k).2 (.inl there))
  · rw [h'.after_iff, h.after_iff, List.mem_append, or_assoc]

end Adds

namespace Contents

variable {c d e : Contents} {a : Address} {agents agents' : List String}
  {contracts contracts' : List Address}

def HasAgent (c : Contents) (identifier : String) : Prop := c.agents.contains identifier

def HasContract (c : Contents) (a : Address) : Prop := (c.code? a).isSome

/-- The agents and the contracts that the one has and the other has not. -/
structure Gains (c : Contents) (agents : List String) (contracts : List Address) (d : Contents) :
    Prop where
  agents : Adds c.HasAgent agents d.HasAgent
  contracts : Adds c.HasContract contracts d.HasContract

namespace Gains

theorem nothing (agents : ∀ k, d.HasAgent k ↔ c.HasAgent k)
    (code : ∀ a, d.code? a = c.code? a) : c.Gains [] [] d := by
  refine ⟨.nothing agents, .nothing fun a => ?_⟩
  rw [HasContract, HasContract, code]

theorem refl (c : Contents) : c.Gains [] [] c := .nothing (fun _ => .rfl) fun _ => rfl

theorem append (h : c.Gains agents contracts d) (h' : d.Gains agents' contracts' e) :
    c.Gains (agents ++ agents') (contracts ++ contracts') e :=
  ⟨h.agents.append h'.agents, h.contracts.append h'.contracts⟩

theorem then_nothing (h : c.Gains agents contracts d) (h' : d.Gains [] [] e) :
    c.Gains agents contracts e := by
  have both := h.append h'
  rw [List.append_nil, List.append_nil] at both
  exact both

end Gains

theorem code?_modifyAccount (c : Contents) (a b : Address) (f : Account → Account) :
    (c.modifyAccount a f).code? b = if b = a then (f (c.account a)).code else c.code? b := by
  rw [code?_eq, code?_eq, account_modifyAccount]
  split
  · rfl
  · rfl

theorem gains_modifyAccount {f : Account → Account} (h : ∀ x, (f x).code = x.code) :
    c.Gains [] [] (c.modifyAccount a f) := by
  refine .nothing (fun _ => .rfl) fun b => ?_
  rw [code?_modifyAccount, h, ← code?_eq]
  split
  · next same => rw [same]
  · rfl

theorem gains_setBalance (c : Contents) (a : Address) (value : Amount) :
    c.Gains [] [] (c.setBalance a value) := gains_modifyAccount fun _ => rfl

theorem gains_setCode (free : c.code? a = none) (code : Bytes) :
    c.Gains [] [a] (c.setCode a code) := by
  refine ⟨.nothing fun _ => .rfl, .one (by simp [HasContract, free]) fun b => ?_⟩
  rw [HasContract, setCode, code?_modifyAccount]
  split
  · next same => simp [same]
  · next other => simp [other, HasContract]

theorem gains_credit {value : Amount} (h : c.credit a value = .ok d) : c.Gains [] [] d := by
  obtain ⟨total, _, rfl⟩ := credit_eq_ok h
  exact c.gains_setBalance a total

theorem gains_transfer {source target : Address} {value : Amount}
    (h : c.transfer source target value = .ok d) : c.Gains [] [] d := by
  obtain ⟨_, ⟨_, rfl⟩ | ⟨_, total, _, rfl⟩⟩ := transfer_eq_ok h
  · exact .refl d
  · exact (c.gains_setBalance source _).then_nothing (gains_setBalance _ target total)

theorem gains_registerAgent {identity : AgentIdentity} {height : UInt64}
    (h : c.registerAgent identity height = .ok d) : c.Gains [identity.identifier] [] d := by
  obtain ⟨fresh, rfl⟩ := registerAgent_eq_ok h
  have absent : ¬c.HasAgent identity.identifier := by simp [HasAgent, SortedMap.contains, fresh]
  refine ⟨.one absent fun k => ?_, .nothing fun _ => .rfl⟩
  simp only [HasAgent, SortedMap.contains, SortedMap.get?_insert]
  split
  · next same => simp [same]
  · next other => simp [other]

/-- A message is counted for an agent that is there. -/
theorem gains_recordMessage (c : Contents) (m : AgentMessage) :
    c.Gains [] [] (c.recordMessage m) := by
  refine .nothing (fun k => ?_) fun a => ?_
  · simp only [HasAgent, SortedMap.contains, recordMessage, countMessage]
    split
    · next r found =>
        rw [SortedMap.get?_insert]
        split
        · next same => simp [same, found]
        · exact .rfl
    · exact .rfl
  · rw [code?, code?, accounts_recordMessage]

theorem gains_recordReceipt (c : Contents) (r : InferenceReceipt) :
    c.Gains [] [] (c.recordReceipt r) := .nothing (fun _ => .rfl) fun _ => rfl

end Contents

end AgentLedger
