import AgentLedger.Proofs.Ledger.Growth
import AgentLedger.Proofs.Machine.Effects
import AgentLedger.Proofs.Machine.Success

namespace AgentLedger

/-!
# Identities that are registered

An identity is stored as it was read, and it stays as it is. Code registers identities one opcode at
a time, and they can be told from the operands that it comes to on its way. If the code runs to its
end without a failure, these are the identities that it adds, and no agent of theirs is there when
its turn comes.
-/

namespace Contents

variable {c d e : Contents} {as bs : List AgentIdentity}

/-- An agent with this very identity is registered. -/
def HasIdentity (c : Contents) (a : AgentIdentity) : Prop :=
  ∃ identifier r, c.agents.get? identifier = some r ∧ r.identity = a

/-- The identities that the one has and the other may not have. -/
def Enrols (c : Contents) (as : List AgentIdentity) (d : Contents) : Prop :=
  ∀ a, d.HasIdentity a ↔ c.HasIdentity a ∨ a ∈ as

namespace Enrols

theorem nothing (same : ∀ a, d.HasIdentity a ↔ c.HasIdentity a) : c.Enrols [] d :=
  fun a => by simp [same a]

theorem refl (c : Contents) : c.Enrols [] c := .nothing fun _ => .rfl

theorem of_agents_eq (same : d.agents = c.agents) : c.Enrols [] d :=
  .nothing fun a => by rw [HasIdentity, HasIdentity, same]

theorem append (h : c.Enrols as d) (h' : d.Enrols bs e) : c.Enrols (as ++ bs) e := by
  intro a
  rw [h' a, h a, List.mem_append, or_assoc]

end Enrols

theorem enrols_transfer {source target : Address} {value : Amount}
    (h : c.transfer source target value = .ok d) : c.Enrols [] d := by
  obtain ⟨_, ⟨_, rfl⟩ | ⟨_, total, _, rfl⟩⟩ := transfer_eq_ok h
  · exact .refl d
  · exact .of_agents_eq rfl

theorem enrols_registerAgent {identity : AgentIdentity} {height : UInt64}
    (h : c.registerAgent identity height = .ok d) : c.Enrols [identity] d := by
  obtain ⟨fresh, rfl⟩ := registerAgent_eq_ok h
  intro a
  rw [List.mem_singleton]
  constructor
  · rintro ⟨k, r, found, rfl⟩
    rw [SortedMap.get?_insert] at found
    split at found
    · cases found
      exact .inr rfl
    · exact .inl ⟨k, r, found, rfl⟩
  · rintro (⟨k, r, found, rfl⟩ | rfl)
    · refine ⟨k, r, ?_, rfl⟩
      rw [SortedMap.get?_insert]
      split
      · next same =>
        rw [same, fresh] at found
        cases found
      · exact found
    · exact ⟨a.identifier, .new a height, SortedMap.get?_insert_self _ _ _, rfl⟩

/-- A message is counted for its sender, whose identity stays. -/
theorem enrols_recordMessage (c : Contents) (m : AgentMessage) :
    c.Enrols [] (c.recordMessage m) := by
  unfold recordMessage countMessage
  split
  · next counted there =>
    refine .nothing fun a => ?_
    constructor
    · rintro ⟨k, r, found, rfl⟩
      rw [SortedMap.get?_insert] at found
      split at found
      · cases found
        exact ⟨m.sender, counted, there, rfl⟩
      · exact ⟨k, r, found, rfl⟩
    · rintro ⟨k, r, found, rfl⟩
      by_cases same : k = m.sender
      · rw [same, there] at found
        obtain rfl := Option.some.inj found
        exact ⟨m.sender, counted.countMessage, SortedMap.get?_insert_self _ _ _, rfl⟩
      · refine ⟨k, r, ?_, rfl⟩
        rw [SortedMap.get?_insert, if_neg same]
        exact found
  · exact .of_agents_eq rfl

/-- What the one has and the other has not: agents with these identities, and these contracts. -/
structure Receives (c : Contents) (as : List AgentIdentity) (contracts : List Address)
    (d : Contents) : Prop where
  gains : c.Gains (as.map (·.identifier)) contracts d
  enrols : c.Enrols as d

namespace Receives

variable {contracts contracts' : List Address}

theorem refl (c : Contents) : c.Receives [] [] c := ⟨.refl c, .refl c⟩

theorem append (h : c.Receives as contracts d) (h' : d.Receives bs contracts' e) :
    c.Receives (as ++ bs) (contracts ++ contracts') e := by
  refine ⟨?_, h.enrols.append h'.enrols⟩
  rw [List.map_append]
  exact h.gains.append h'.gains

theorem then_nothing (h : c.Receives as contracts d) (h' : d.Receives [] [] e) :
    c.Receives as contracts e := by
  have both := h.append h'
  rwa [List.append_nil, List.append_nil] at both

end Receives

theorem receives_transfer {source target : Address} {value : Amount}
    (h : c.transfer source target value = .ok d) : c.Receives [] [] d :=
  ⟨gains_transfer h, enrols_transfer h⟩

theorem receives_registerAgent {identity : AgentIdentity} {height : UInt64}
    (h : c.registerAgent identity height = .ok d) : c.Receives [identity] [] d :=
  ⟨gains_registerAgent h, enrols_registerAgent h⟩

theorem receives_recordMessage (c : Contents) (m : AgentMessage) :
    c.Receives [] [] (c.recordMessage m) :=
  ⟨c.gains_recordMessage m, c.enrols_recordMessage m⟩

theorem receives_recordReceipt (c : Contents) (r : InferenceReceipt) :
    c.Receives [] [] (c.recordReceipt r) :=
  ⟨c.gains_recordReceipt r, .of_agents_eq rfl⟩

theorem receives_setCode {a : Address} (free : c.code? a = none) (code : Bytes) :
    c.Receives [] [a] (c.setCode a code) :=
  ⟨gains_setCode free code, .of_agents_eq rfl⟩

end Contents

/-! ## Registrations by code -/

/-- The identity that a payload holds, if it holds one. -/
def AgentIdentity.presented (payload : Bytes) : List AgentIdentity :=
  (Wire.decodeOperand payload : Except ChainError AgentIdentity).toOption.toList

def Operation.identities : Operation → Option Bytes → List AgentIdentity
  | .agentRegister, some payload => AgentIdentity.presented payload
  | _, _ => []

namespace Machine

/-- The identities that a byte of the code registers, unless it fails. -/
def identitiesAt (byte : UInt8) (stack : List Bytes) : List AgentIdentity :=
  match Opcode.ofByte? byte with
  | some (.operation op) => op.identities stack.head?
  | _ => []

/-- The identities that code registers from a frame on, unless it fails. -/
def identities (m : Machine) : (code : Bytes) → (stack : List Bytes) → CallFrame →
    List AgentIdentity
  | [], _, _ => []
  | byte :: rest, stack, f =>
      identitiesAt byte stack ++
        match (m.step byte stack).runOn f with
        | (.ok (.running next), g) => m.identities rest next g
        | _ => []

variable {m : Machine} {f g : CallFrame} {output : Option Bytes}

theorem Performed.receives {verify : ReceiptVerifier} {payload : Bytes} {op : Operation}
    {result : Option Bytes} {d : Contents} (h : Performed verify f payload op result d) :
    f.ledger.contents.Receives (op.identities (some payload)) [] d := by
  cases h with
  | agentRegister read _ registered =>
      rw [Operation.identities, AgentIdentity.presented, read]
      exact Contents.receives_registerAgent registered
  | agentSend _ => exact f.ledger.contents.receives_recordMessage _
  | inferProve _ _ => exact f.ledger.contents.receives_recordReceipt _
  | inferVerify _ _ => exact .refl _
  | tokenTransfer _ moved => exact Contents.receives_transfer moved

theorem receives_step (bare : m.Bare) {byte : UInt8} {stack : List Bytes} {s : Step}
    (ran : (m.step byte stack).runOn f = (.ok s, g)) :
    f.ledger.contents.Receives (identitiesAt byte stack) [] g.ledger.contents := by
  unfold identitiesAt
  cases step_eq_ok ran with
  | stop stops =>
      rw [stops]
      exact .refl _
  | ret returns _ =>
      rw [returns]
      exact .refl _
  | operation opcode taken paid performed =>
      rw [opcode, taken, ← CallFrame.ledger_of_charge paid]
      exact performed.receives
  | extension _ found _ =>
      rw [bare byte] at found
      cases found

theorem receives_run (bare : m.Bare) {code : Bytes} {stack : List Bytes}
    (ran : (m.run code stack).runOn f = (.ok output, g)) :
    f.ledger.contents.Receives (m.identities code stack f) [] g.ledger.contents := by
  induction code generalizing stack f with
  | nil =>
      cases ran
      exact .refl _
  | cons byte rest ih =>
      rw [run_cons] at ran
      obtain ⟨s, mid, stepped, ran⟩ := Exec.runOn_bind_eq_ok ran
      have first := receives_step bare stepped
      rw [identities, stepped]
      cases s with
      | finished result =>
          cases ran
          simpa using first
      | running next => exact first.append (ih ran)

theorem receives_execute (bare : m.Bare) {code : Bytes} {operands : List Bytes}
    (ran : (m.execute code operands).runOn f = (.ok output, g)) :
    f.ledger.contents.Receives (m.identities code operands.reverse f) [] g.ledger.contents := by
  unfold execute at ran
  split at ran
  · exact receives_run bare ran
  · cases ran

end Machine

end AgentLedger
