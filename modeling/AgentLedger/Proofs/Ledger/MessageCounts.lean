import AgentLedger.Proofs.Ledger.Session
import Mathlib.Data.List.Forall2

namespace AgentLedger

/-!
# Counted messages

If only the newest checkpoint is ever given up, a session comes to what its standing changes come
to: those that no revert has undone. The log holds their messages. Of their registrations of an
agent the first has succeeded, and the agent's counter tells how many messages of that sender have
been logged since.
-/

/-! ## Counters -/

namespace AgentRecord

/-- The record after that many more messages. -/
def countMessages (r : AgentRecord) (n : Nat) : AgentRecord :=
  { r with messageCount := Saturating.uint64 (r.messageCount.toNat + n) }

theorem countMessage_eq (r : AgentRecord) : r.countMessage = r.countMessages 1 := rfl

@[simp] theorem countMessages_zero (r : AgentRecord) : r.countMessages 0 = r := by
  have same : Saturating.uint64 (r.messageCount.toNat + 0) = r.messageCount := by
    have small := r.messageCount.toNat_lt
    rw [← UInt64.toNat_inj, Saturating.toNat_uint64]
    omega
  unfold countMessages
  rw [same]

/-- A counter that stops at the greatest number stops at the same one for a sum. -/
theorem countMessages_add (r : AgentRecord) (m n : Nat) :
    (r.countMessages m).countMessages n = r.countMessages (m + n) := by
  have sum : Saturating.uint64 ((Saturating.uint64 (r.messageCount.toNat + m)).toNat + n) =
      Saturating.uint64 (r.messageCount.toNat + (m + n)) := by
    rw [← UInt64.toNat_inj, Saturating.toNat_uint64, Saturating.toNat_uint64,
      Saturating.toNat_uint64]
    omega
  unfold countMessages
  rw [sum]

end AgentRecord

/-- How many of the messages come from a sender. -/
def countSent (sender : String) (ms : List AgentMessage) : Nat := ms.countP (·.sender = sender)

/-! ## What one change does to agents and messages -/

namespace Change

/-- The agent that the change asks to register. -/
def registered? : Change → Option String
  | registerAgent identity _ => some identity.identifier
  | _ => none

/-- The message that the change logs. -/
def message? : Change → Option AgentMessage
  | recordMessage m => some m
  | _ => none

/-- The contents after the change; one that fails leaves them as they are. -/
def after (x : Change) (c : Contents) : Contents := (x.onContents c).toOption.getD c

theorem contents_perform (x : Change) (l : Ledger) :
    (x.perform l).contents = x.after l.contents := by
  rw [perform_eq, after]
  cases x.onContents l.contents with
  | ok c => rfl
  | error e => rfl

theorem after_of_ok {x : Change} {c d : Contents} (h : x.onContents c = .ok d) :
    x.after c = d := by
  rw [after, h]
  rfl

theorem after_of_error {x : Change} {c : Contents} {e : ChainError}
    (h : x.onContents c = .error e) : x.after c = c := by
  rw [after, h]
  rfl

/-- A change registers a new agent, or it logs a message, or it touches neither agents nor log. -/
theorem after_cases (x : Change) (c : Contents) :
    (∃ identity height, x = .registerAgent identity height ∧
      c.agents.get? identity.identifier = none ∧
      x.after c =
        { c with agents := c.agents.insert identity.identifier (.new identity height) }) ∨
    (∃ m, x = .recordMessage m ∧ x.after c = c.recordMessage m) ∨
    (x.message? = none ∧ (x.after c).agents = c.agents ∧ (x.after c).messages = c.messages) := by
  cases x with
  | setBalance a value | incrementNonce a | advanceNonce a next | setCode a code
  | recordReceipt r => exact .inr (.inr ⟨rfl, rfl, rfl⟩)
  | credit a value =>
      refine .inr (.inr ⟨rfl, ?_⟩)
      cases h : (credit a value).onContents c with
      | error e =>
          rw [after_of_error h]
          exact ⟨rfl, rfl⟩
      | ok d =>
          rw [after_of_ok h]
          obtain ⟨_, _, rfl⟩ := Contents.credit_eq_ok h
          exact ⟨rfl, rfl⟩
  | transfer source target value =>
      refine .inr (.inr ⟨rfl, ?_⟩)
      cases h : (transfer source target value).onContents c with
      | error e =>
          rw [after_of_error h]
          exact ⟨rfl, rfl⟩
      | ok d =>
          rw [after_of_ok h]
          obtain ⟨_, ⟨_, rfl⟩ | ⟨_, _, _, rfl⟩⟩ := Contents.transfer_eq_ok h
          · exact ⟨rfl, rfl⟩
          · exact ⟨rfl, rfl⟩
  | recordMessage m => exact .inr (.inl ⟨m, rfl, rfl⟩)
  | registerAgent identity height =>
      cases h : (registerAgent identity height).onContents c with
      | ok d =>
          obtain ⟨fresh, rfl⟩ := Contents.registerAgent_eq_ok h
          exact .inl ⟨identity, height, rfl, fresh, after_of_ok h⟩
      | error e =>
          rw [after_of_error h]
          exact .inr (.inr ⟨rfl, rfl, rfl⟩)

end Change

namespace Contents

variable {c : Contents} {identifier : String} {r : AgentRecord}

/-- A message is counted for its sender and for nobody else. -/
theorem get?_agents_recordMessage (c : Contents) (m : AgentMessage) (identifier : String) :
    (c.recordMessage m).agents.get? identifier =
      (c.agents.get? identifier).map (·.countMessages (countSent identifier [m])) := by
  unfold recordMessage countMessage
  by_cases own : m.sender = identifier
  · have one : countSent identifier [m] = 1 := by simp [countSent, own]
    rw [one, ← own]
    cases found : c.agents.get? m.sender with
    | none => simp [found]
    | some r => simp [AgentRecord.countMessage_eq]
  · have none : countSent identifier [m] = 0 := by simp [countSent, own]
    rw [none]
    cases found : c.agents.get? m.sender with
    | none => simp
    | some r => simp [SortedMap.get?_insert, Ne.symm own]

theorem recordMessage_of_unregistered {m : AgentMessage}
    (absent : c.agents.get? m.sender = none) :
    c.recordMessage m = { c with messages := c.messages ++ [m] } := by
  unfold recordMessage countMessage
  rw [absent]

end Contents

namespace Change

variable {x : Change} {c : Contents} {identifier : String} {r : AgentRecord}

theorem messages_after (x : Change) (c : Contents) :
    (x.after c).messages = c.messages ++ x.message?.toList := by
  rcases x.after_cases c with ⟨identity, height, rfl, _, after⟩ | ⟨m, rfl, after⟩ |
    ⟨none, _, same⟩
  · rw [after]
    exact (List.append_nil _).symm
  · rw [after]
    rfl
  · rw [same, none]
    exact (List.append_nil _).symm

theorem get?_agents_after (x : Change) (found : c.agents.get? identifier = some r) :
    (x.after c).agents.get? identifier =
      some (r.countMessages (countSent identifier x.message?.toList)) := by
  rcases x.after_cases c with ⟨identity, height, rfl, fresh, after⟩ | ⟨m, rfl, after⟩ |
    ⟨none, same, _⟩
  · have other : identifier ≠ identity.identifier := by
      rintro rfl
      rw [fresh] at found
      cases found
    rw [after]
    simp [SortedMap.get?_insert, other, found, message?, countSent]
  · rw [after, Contents.get?_agents_recordMessage, found]
    rfl
  · rw [same, none, found]
    simp [countSent]

theorem get?_agents_after_of_other (absent : c.agents.get? identifier = none)
    (other : x.registered? ≠ some identifier) :
    (x.after c).agents.get? identifier = none := by
  rcases x.after_cases c with ⟨identity, height, rfl, _, after⟩ | ⟨m, rfl, after⟩ |
    ⟨_, same, _⟩
  · have apart : identifier ≠ identity.identifier := fun eq => other (congrArg some eq.symm)
    rw [after]
    simp [SortedMap.get?_insert, apart, absent]
  · rw [after, Contents.get?_agents_recordMessage, absent]
    rfl
  · rw [same, absent]

theorem get?_agents_after_registerAgent {identity : AgentIdentity}
    (absent : c.agents.get? identity.identifier = none) (height : UInt64) :
    ((registerAgent identity height).after c).agents.get? identity.identifier =
      some (.new identity height) := by
  have fresh : c.agents.contains identity.identifier = false := by
    rw [SortedMap.contains, absent]
    rfl
  simp [after, onContents, Contents.registerAgent, fresh, Except.toOption]

end Change

/-! ## What any number of changes does -/

/-- The messages that changes log. -/
def logged (xs : List Change) : List AgentMessage := xs.filterMap Change.message?

namespace Contents

variable {c : Contents} {xs : List Change} {identifier : String} {r : AgentRecord}

def afterAll (c : Contents) (xs : List Change) : Contents := xs.foldl (fun d x => x.after d) c

theorem messages_afterAll (c : Contents) (xs : List Change) :
    (c.afterAll xs).messages = c.messages ++ logged xs := by
  induction xs generalizing c with
  | nil => exact (List.append_nil _).symm
  | cons x rest ih =>
      have later : (c.afterAll (x :: rest)).messages = (x.after c).messages ++ logged rest :=
        ih (x.after c)
      have all : logged (x :: rest) = x.message?.toList ++ logged rest := by
        cases h : x.message? <;> simp [logged, h]
      rw [later, all, x.messages_after, List.append_assoc]

theorem get?_agents_afterAll (found : c.agents.get? identifier = some r) (xs : List Change) :
    (c.afterAll xs).agents.get? identifier =
      some (r.countMessages (countSent identifier (logged xs))) := by
  induction xs generalizing c r with
  | nil =>
      rw [← r.countMessages_zero] at found
      exact found
  | cons x rest ih =>
      have later := ih (x.get?_agents_after found)
      have all : countSent identifier (logged (x :: rest)) =
          countSent identifier x.message?.toList + countSent identifier (logged rest) := by
        unfold countSent logged
        rw [← List.countP_append]
        cases h : x.message? <;> simp [h]
      rw [r.countMessages_add, ← all] at later
      exact later

theorem get?_agents_afterAll_of_none (absent : c.agents.get? identifier = none)
    (others : ∀ x ∈ xs, x.registered? ≠ some identifier) :
    (c.afterAll xs).agents.get? identifier = none := by
  induction xs generalizing c with
  | nil => exact absent
  | cons x rest ih =>
      rw [List.forall_mem_cons] at others
      exact ih (Change.get?_agents_after_of_other absent others.1) others.2

end Contents

/-- The first of the changes that asks to register an agent, and what comes before and after it. -/
theorem Change.exists_first_registration {xs : List Change} {identifier : String}
    (asked : ∃ x ∈ xs, x.registered? = some identifier) :
    ∃ before identity height after, xs = before ++ .registerAgent identity height :: after ∧
      identity.identifier = identifier ∧ ∀ x ∈ before, x.registered? ≠ some identifier := by
  have found : (xs.find? (·.registered? = some identifier)).isSome := by
    simpa using asked
  obtain ⟨x, first⟩ := Option.isSome_iff_exists.1 found
  obtain ⟨own, before, after, split, others⟩ := List.find?_eq_some_iff_append.1 first
  cases x with
  | registerAgent identity height =>
      have same : identity.identifier = identifier := by simpa [registered?] using own
      exact ⟨before, identity, height, after, split, same, by simpa using others⟩
  | _ => simp [registered?] at own

/-! ## Changes that stand -/

/-- The changes that stand, in their order, and for each held checkpoint those that stood when it
was taken, the newest checkpoint first. -/
structure Standing where
  changes : List Change
  taken : List (List Change)

namespace Standing

/-- A revert goes back to the changes that stood at the checkpoint. -/
def next (k : Standing) : Action → Standing
  | .change x => { k with changes := k.changes ++ [x] }
  | .checkpoint => { k with taken := k.changes :: k.taken }
  | .commit place => { k with taken := k.taken.eraseIdx place }
  | .revert place => ⟨k.taken.getD place k.changes, k.taken.eraseIdx place⟩

end Standing

/-- The changes that stand after a session has done what it was asked for. -/
def standing (actions : List Action) : List Change :=
  (actions.foldl Standing.next ⟨[], []⟩).changes

/-- Checkpoints are given up in stack order: the newest first. -/
def Action.InStackOrder : Action → Prop
  | .commit place | .revert place => place = 0
  | .change _ | .checkpoint => True

namespace Session

variable {c : Contents} {s t : Session} {k : Standing} {a : Action} {actions : List Action}

/-- The session comes to its standing changes, and would do so again after a revert. -/
structure ComesTo (c : Contents) (s : Session) (k : Standing) : Prop where
  sound : s.Sound 0
  contents_eq : s.ledger.contents = c.afterAll k.changes
  taken : List.Forall₂ (fun h xs => h.intact = true ∧ h.taken.contents = c.afterAll xs)
    s.held k.taken

namespace ComesTo

theorem start (c : Contents) : ComesTo c (start c) ⟨[], []⟩ := ⟨sound_start c, rfl, .nil⟩

theorem step (h : ComesTo c s k) (ordered : a.InStackOrder) (ha : s.step? a = some t) :
    ComesTo c t (k.next a) := by
  have sound : t.Sound 0 := h.sound.step ha
  obtain ⟨l, held⟩ := s
  obtain ⟨changes, saved⟩ := k
  rcases step?_cases ha with ⟨x, rfl, rfl⟩ | ⟨rfl, rfl⟩ | ⟨newer, first, older, rfl, rfl, rfl⟩ |
    ⟨newer, first, older, rfl, rfl, rfl⟩
  · refine ⟨sound, ?_, h.taken⟩
    change (x.perform l).contents = c.afterAll (changes ++ [x])
    rw [x.contents_perform, Contents.afterAll, List.foldl_append]
    exact congrArg x.after h.contents_eq
  · exact ⟨sound, h.contents_eq, .cons ⟨rfl, h.contents_eq⟩ h.taken⟩
  · cases List.eq_nil_of_length_eq_zero ordered
    obtain ⟨kept⟩ | ⟨_, rest⟩ := h.taken
    refine ⟨sound, ?_, rest⟩
    exact l.contents_close.trans h.contents_eq
  · cases List.eq_nil_of_length_eq_zero ordered
    have way := h.sound.goesBack first (List.mem_append_right _ List.mem_cons_self)
    have mark := h.sound.marked first (List.mem_append_right _ List.mem_cons_self)
    obtain ⟨kept⟩ | ⟨⟨intact, copied⟩, rest⟩ := h.taken
    refine ⟨sound, ?_, rest⟩
    exact ((way intact).contents_revertTo mark).trans copied

theorem run (h : ComesTo c s k) (ordered : ∀ a ∈ actions, a.InStackOrder)
    (ran : s.run? actions = some t) : ComesTo c t (actions.foldl Standing.next k) := by
  induction actions generalizing s k with
  | nil =>
      cases ran
      exact h
  | cons a rest ih =>
      rw [List.forall_mem_cons] at ordered
      obtain ⟨u, first, last⟩ := Option.bind_eq_some_iff.1 ran
      exact ih (h.step ordered.1 first) ordered.2 last

end ComesTo

/-- A session from the empty ledger on comes to its standing changes. An agent that is registered
has been so by the first standing change that asks for it, and its counter tells how many messages
from it the log holds beyond those that were logged before that change. A message of anyone who is
not registered only goes into the log. -/
theorem messageCount_eq_countSent (ran : (start .empty).run? actions = some s)
    (ordered : ∀ a ∈ actions, a.InStackOrder)
    (few : s.ledger.contents.messages.length < UInt64.size) :
    s.ledger.contents = Contents.empty.afterAll (standing actions) ∧
    s.ledger.contents.messages = logged (standing actions) ∧
    (∀ identifier r, s.ledger.contents.agents.get? identifier = some r →
      ∃ before identity height after,
        standing actions = before ++ .registerAgent identity height :: after ∧
        identity.identifier = identifier ∧ (∀ x ∈ before, x.registered? ≠ some identifier) ∧
        r.identity = identity ∧ r.registeredAt = height ∧
        s.ledger.contents.messages = logged before ++ logged after ∧
        r.messageCount.toNat = countSent identifier (logged after)) ∧
    ∀ m, s.ledger.contents.agents.get? m.sender = none →
      (s.ledger.recordMessage m).contents =
        { s.ledger.contents with messages := s.ledger.contents.messages ++ [m] } := by
  have comes : ComesTo .empty s (actions.foldl Standing.next ⟨[], []⟩) :=
    (ComesTo.start .empty).run ordered ran
  have contents : s.ledger.contents = Contents.empty.afterAll (standing actions) :=
    comes.contents_eq
  have messages : s.ledger.contents.messages = logged (standing actions) := by
    rw [contents, Contents.messages_afterAll]
    rfl
  refine ⟨contents, messages, ?_, fun m absent => Contents.recordMessage_of_unregistered absent⟩
  intro identifier r found
  have asked : ∃ x ∈ standing actions, x.registered? = some identifier := by
    by_contra never
    have others : ∀ x ∈ standing actions, x.registered? ≠ some identifier :=
      fun x mem same => never ⟨x, mem, same⟩
    rw [contents, Contents.get?_agents_afterAll_of_none rfl others] at found
    cases found
  obtain ⟨before, identity, height, after, split, rfl, others⟩ :=
    Change.exists_first_registration asked
  have parts : s.ledger.contents.messages = logged before ++ logged after := by
    rw [messages, split, logged, List.filterMap_append]
    rfl
  -- Nobody has registered the agent before, so this change does, and the others only count.
  have absent := Contents.get?_agents_afterAll_of_none (c := .empty) rfl others
  have counted := Contents.get?_agents_afterAll
    (Change.get?_agents_after_registerAgent absent height) after
  rw [contents, split, Contents.afterAll, List.foldl_append] at found
  cases found.symm.trans counted
  refine ⟨before, identity, height, after, split, rfl, others, rfl, rfl, parts, ?_⟩
  have room : countSent identity.identifier (logged after) < UInt64.size := by
    have most : countSent identity.identifier (logged after) ≤ (logged after).length :=
      List.countP_le_length
    rw [parts, List.length_append] at few
    omega
  change (Saturating.uint64 (0 + _)).toNat = _
  rw [Saturating.toNat_uint64, Nat.zero_add]
  exact Nat.min_eq_left (Nat.le_of_lt_succ room)

/-! A sender who is heard before, between and after two registrations. -/

def hello (sender : String) : Change := .recordMessage ⟨sender, "did:agc:all", .task, [], 0⟩

def talker (height : UInt64) : Change := .registerAgent ⟨"did:agc:a", .zero, [], [], .empty⟩ height

/-- The first registration is undone and the third comes too late. The counter tells of two messages
since the second, one of which has been logged inside a checkpoint that was kept. -/
theorem second_registration_counts :
    let actions : List Action := [.change (hello "did:agc:a"), .checkpoint, .change (talker 1),
      .change (hello "did:agc:a"), .revert 0, .change (hello "did:agc:a"), .change (talker 2),
      .checkpoint, .change (hello "did:agc:a"), .checkpoint, .change (hello "did:agc:a"),
      .revert 0, .commit 0, .change (talker 3), .change (hello "did:agc:a"),
      .change (hello "did:agc:b")]
    ∃ s r before identity after, (start .empty).run? actions = some s ∧
      s.ledger.contents.messages.length = 5 ∧
      s.ledger.contents.agents.get? "did:agc:a" = some r ∧ r.messageCount = 2 ∧
      standing actions = before ++ .registerAgent identity 2 :: after ∧
      r.messageCount.toNat = countSent "did:agc:a" (logged after) := by
  intro actions
  have ran : (start .empty).run? actions = some ⟨_, []⟩ := rfl
  have ordered : ∀ a ∈ actions, a.InStackOrder := by simp [actions, Action.InStackOrder]
  obtain ⟨_, _, counted, _⟩ := messageCount_eq_countSent ran ordered (by decide +kernel)
  obtain ⟨before, identity, height, after, split, _, _, _, since, _, count⟩ :=
    counted "did:agc:a" ⟨_, 2, 2, true⟩ rfl
  subst since
  exact ⟨_, _, before, identity, after, ran, rfl, rfl, rfl, split, count⟩

end Session

end AgentLedger
