import AgentLedger.Proofs.Engine.Chronicle
import AgentLedger.Proofs.Engine.Replay
import AgentLedger.Proofs.Wire.Block

namespace AgentLedger

/-!
# Capabilities of registered agents

An identity that is built capability by capability has each capability once. An identity that is
read has the capabilities that were written, and it is registered as it was read: nothing removes a
capability that is given twice, and nothing refuses it. So the capabilities of the registered agents
are without repeats exactly if those of the identities that were presented are.
-/

/-! ## Identities that are built -/

namespace AgentIdentity

/-- Adds capabilities one after another. -/
def withCapabilities (a : AgentIdentity) (cs : List Capability) : AgentIdentity :=
  cs.foldl (fun b c => b.withCapability c.name c.version) a

theorem capabilities_withCapability (a : AgentIdentity) (c : Capability) :
    (a.withCapability c.name c.version).capabilities =
      if c ∈ a.capabilities then a.capabilities else a.capabilities ++ [c] := by
  rw [withCapability]
  split
  · rfl
  · rfl

/-- The capabilities that have been added stand in the order in which they came first. -/
theorem capabilities_withCapabilities (controller : Address) (key : Bytes)
    (cs : List Capability) :
    ((ofKey controller key).withCapabilities cs).capabilities = cs.eraseDups := by
  induction cs using List.reverseRecOn with
  | nil => rfl
  | append_singleton cs c ih =>
      have one : ((ofKey controller key).withCapabilities (cs ++ [c])) =
          ((ofKey controller key).withCapabilities cs).withCapability c.name c.version := by
        rw [withCapabilities, List.foldl_append]
        rfl
      rw [one, capabilities_withCapability, ih, List.eraseDups_append]
      by_cases there : c ∈ cs
      · simp [there, List.removeAll]
      · simp [there, List.removeAll, List.eraseDups_cons]

theorem nodup_withCapabilities {a : AgentIdentity} (h : a.capabilities.Nodup)
    (cs : List Capability) : (a.withCapabilities cs).capabilities.Nodup := by
  induction cs generalizing a with
  | nil => exact h
  | cons c rest ih =>
      apply ih
      rw [capabilities_withCapability]
      split
      · exact h
      · next absent => exact h.append (List.nodup_singleton c) (List.disjoint_singleton.2 absent)

end AgentIdentity

namespace Engine

variable {e : Engine} {tx : Transaction} {height : UInt64} {l : Ledger} {outcome : Outcome}
  {f g : CallFrame} {output : Option Bytes}

/-! ## Identities that are presented -/

/-- The identities that an application registers; a transaction that fails registers none. -/
def presentedBy (e : Engine) (x : Application) (l : Ledger) : List AgentIdentity :=
  match (e.apply l x.tx x.height).1 with
  | .ok _ => e.identities x.tx (.enter l.checkpoint.2 x.tx.sender x.tx.gasLimit x.height)
  | .error _ => []

/-- The identities that a run registers, as they were read. -/
def presented (e : Engine) : List Application → Ledger → List AgentIdentity
  | [], _ => []
  | x :: rest, l => e.presentedBy x l ++ e.presented rest (e.apply l x.tx x.height).2

theorem enrols_apply (bare : e.Bare) (x : Application) (l : Ledger) :
    l.contents.Enrols (e.presentedBy x l) (e.apply l x.tx x.height).2.contents := by
  unfold presentedBy
  cases ran : (e.apply l x.tx x.height).1 with
  | error err =>
      rw [contents_apply_of_error (fun _ => bare.disciplined) ran]
      exact .refl _
  | ok outcome =>
      obtain ⟨_, output, g, dispatched, _, advanced⟩ := apply_eq_ok ran
      have added := dispatched.receives bare
      exact (added.then_nothing (e.noncePolicy.receives_change advanced)).enrols

theorem enrols_applyAll (bare : e.Bare) (calls : List Application) (l : Ledger) :
    l.contents.Enrols (e.presented calls l) (e.applyAll calls l).contents := by
  induction calls generalizing l with
  | nil => exact .refl _
  | cons x rest ih => exact (enrols_apply bare x l).append (ih _)

/-- The registered identities are those that were presented, repeats and all. So no registered agent
has a capability twice exactly if none was presented with one twice, and an identity that was built
capability by capability has each of them once, in the order in which they came first. -/
theorem capabilities_as_presented (bare : e.Bare) (calls : List Application) :
    (∀ a, (e.applyAll calls .empty).contents.HasIdentity a ↔ a ∈ e.presented calls .empty) ∧
    ((∀ a, (e.applyAll calls .empty).contents.HasIdentity a → a.capabilities.Nodup) ↔
      ∀ a ∈ e.presented calls .empty, a.capabilities.Nodup) ∧
    ∀ (controller : Address) (key : Bytes) (cs : List Capability),
      ((AgentIdentity.ofKey controller key).withCapabilities cs).capabilities = cs.eraseDups ∧
        ((AgentIdentity.ofKey controller key).withCapabilities cs).capabilities.Nodup := by
  have registered (a : AgentIdentity) :
      (e.applyAll calls .empty).contents.HasIdentity a ↔ a ∈ e.presented calls .empty := by
    rw [enrols_applyAll bare calls .empty a]
    exact or_iff_right fun ⟨_, _, found, _⟩ => nomatch found
  refine ⟨registered, ?_, fun controller key cs => ⟨?_, ?_⟩⟩
  · simp only [registered]
  · exact AgentIdentity.capabilities_withCapabilities controller key cs
  · exact AgentIdentity.nodup_withCapabilities List.nodup_nil cs

/-! An identity that gives a capability twice, and one that is built from the same list. -/

def summarize : Capability := ⟨"summarize", "1.0"⟩

def repeating : AgentIdentity :=
  ⟨"did:agc:repeating", .zero, [summarize, summarize], [], .empty⟩

def built : AgentIdentity :=
  (AgentIdentity.ofKey .zero [7]).withCapabilities [summarize, summarize]

def registrar : Transaction :=
  .deployContract .zero [Opcode.byte (.operation .agentRegister)] 0 0

def registerByCall : Transaction :=
  .callContract .zero (contractAddress .zero 0) [Wire.encode repeating] 250000 1 0

/-- Neither a transaction nor an opcode refuses an identity for a capability that it gives twice. -/
theorem repeated_capability_registered :
    let direct : Application := ⟨.agentRegister .zero repeating 0 0, 1⟩
    let byCode : List Application := [⟨registrar, 1⟩, ⟨registerByCall, 1⟩]
    ((Engine.new.applyAll [direct] .empty).contents.agents.get? "did:agc:repeating").map
        (·.identity.capabilities) = some [summarize, summarize] ∧
      ((Engine.new.applyAll byCode .empty).contents.agents.get? "did:agc:repeating").map
        (·.identity.capabilities) = some [summarize, summarize] := by
  decide +kernel

theorem capabilities_as_presented_twice :
    let calls : List Application :=
      [⟨registrar, 1⟩, ⟨registerByCall, 1⟩, ⟨.agentRegister .zero built 2 0, 2⟩]
    Engine.new.presented calls .empty = [repeating, built] ∧
      (Engine.new.applyAll calls .empty).contents.HasIdentity built ∧ built.capabilities.Nodup ∧
      ¬ ∀ a, (Engine.new.applyAll calls .empty).contents.HasIdentity a → a.capabilities.Nodup := by
  intro calls
  have made : Engine.new.presented calls .empty = [repeating, built] := by decide +kernel
  have bare : Engine.new.Bare := Machine.bare_ofVerifier _
  obtain ⟨registered, without, each⟩ := capabilities_as_presented bare calls
  refine ⟨made, (registered built).2 (by simp [made]), (each .zero [7] _).2, fun all => ?_⟩
  have twice := without.1 all repeating (by simp [made])
  exact absurd twice (by decide)

end Engine

end AgentLedger
