import AgentLedger.Machine.Basic

namespace AgentLedger

/-!
# Extending a machine

A byte is registered at most once, and only if it is no opcode. Since nothing but the byte itself
refers to the new extension, the extended machine runs in lockstep with the old one up to the first
use of the byte, at which the old machine gives up.
-/

/-! ## Lockstep -/

/-- The second run goes as the first, unless the first ends with the report that `byte` is no
opcode. -/
def Exec.Follows {α : Type} (byte : UInt8) (x y : Exec α) : Prop :=
  ∀ f, (x.runOn f).1 = .error (.invalidOpcode byte) ∨ y.runOn f = x.runOn f

namespace Exec

variable {α β : Type} {byte : UInt8}

theorem Follows.refl (x : Exec α) : Follows byte x x := fun _ => .inr rfl

theorem Follows.bind {x y : Exec α} {k k' : α → Exec β} (hx : Follows byte x y)
    (hk : ∀ a, Follows byte (k a) (k' a)) : Follows byte (x >>= k) (y >>= k') := by
  intro f
  rw [runOn_bind, runOn_bind]
  rcases hx f with stuck | same
  · cases ran : x.runOn f with
    | mk r g =>
        rw [ran] at stuck
        cases stuck
        exact .inl rfl
  · rw [same]
    cases x.runOn f with
    | mk r g =>
        cases r with
        | ok a => exact hk a g
        | error e => exact .inr rfl

end Exec

namespace Machine

variable {m n : Machine} {byte : UInt8} {x : Extension}

/-! ## Registering -/

theorem get?_of_register (h : m.register byte x = .ok n) (other : UInt8) :
    n.extensions.get? other = if other = byte then some x else m.extensions.get? other := by
  obtain ⟨_, _, _, rfl⟩ := register_eq_ok h
  exact m.extensions.get?_insert byte other x

/-- No extension is asked about a byte that is an opcode. -/
theorem step_of_opcode (same : n.verifyReceipt = m.verifyReceipt) {opcode : Opcode}
    (h : Opcode.ofByte? byte = some opcode) (stack : List Bytes) :
    n.step byte stack = m.step byte stack := by
  have performs (op : Operation) (operand : Option Bytes) :
      n.perform op operand = m.perform op operand := by
    unfold perform
    rw [same]
  unfold step
  rw [h]
  cases opcode with
  | operation op => simp only [performs]
  | stop | ret | revert => rfl

/-! ## Running in lockstep -/

theorem follows_step (h : m.register byte x = .ok n) (b : UInt8) (stack : List Bytes) :
    Exec.Follows byte (m.step b stack) (n.step b stack) := by
  have verifier := verifyReceipt_of_register h
  cases opcode : Opcode.ofByte? b with
  | some _ =>
      rw [step_of_opcode verifier opcode]
      exact .refl _
  | none =>
      by_cases same : b = byte
      · obtain ⟨free, _, fresh, _⟩ := register_eq_ok h
        intro f
        left
        simp only [step, same, free, fresh, Exec.runOn_throw]
      · have kept := get?_of_register h b
        rw [if_neg same] at kept
        unfold step
        rw [opcode, kept]
        exact .refl _

theorem follows_run (h : m.register byte x = .ok n) (code : Bytes) (stack : List Bytes) :
    Exec.Follows byte (m.run code stack) (n.run code stack) := by
  induction code generalizing stack with
  | nil => exact .refl _
  | cons b rest ih =>
      rw [run_cons, run_cons]
      refine (follows_step h b stack).bind fun s => ?_
      cases s with
      | finished output => exact .refl _
      | running next => exact ih next

theorem follows_execute (h : m.register byte x = .ok n) (code : Bytes) (operands : List Bytes) :
    Exec.Follows byte (m.execute code operands) (n.execute code operands) := by
  unfold execute
  split
  · exact follows_run h code _
  · exact .refl _

end Machine

end AgentLedger
