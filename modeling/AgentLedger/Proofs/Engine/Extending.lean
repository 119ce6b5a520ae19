import AgentLedger.Proofs.Engine.Atomicity
import AgentLedger.Proofs.Machine.Extending

namespace AgentLedger

/-!
# Extending an engine

A registration that is granted changes what a transaction does only if the engine gave up at the
new byte before. One that is refused changes nothing. So whatever is registered, opcodes keep their
meaning, and so do the bytes that were registered earlier; and the verifier that has been installed
goes on to judge all receipts.
-/

/-- A byte, and the extension that is to handle it. -/
structure Binding where
  byte : UInt8
  extension : Extension

theorem EngineMachine.register_eq_ok {m n : EngineMachine} {byte : UInt8} {x : Extension}
    (h : m.register byte x = .ok n) : m.toMachine.register byte x = .ok n.toMachine := by
  unfold register at h
  split at h
  · next granted =>
      cases h
      exact granted
  · cases h

namespace Engine

/-- An engine that refuses stays as it is. -/
def register (e : Engine) (b : Binding) : Except ChainError Unit × Engine :=
  match e.machine.register b.byte b.extension with
  | .ok machine => (.ok (), { e with machine })
  | .error err => (.error err, e)

def registerAll (e : Engine) (bs : List Binding) : Engine :=
  bs.foldl (fun e b => (e.register b).2) e

variable {e : Engine} {b : Binding} {n : EngineMachine}

/-! ## One registration -/

theorem register_cases (e : Engine) (b : Binding) :
    (∃ n : EngineMachine, e.machine.toMachine.register b.byte b.extension = .ok n.toMachine ∧
      e.register b = (.ok (), { e with machine := n })) ∨
    ∃ err, e.register b = (.error err, e) := by
  unfold register
  cases registered : e.machine.register b.byte b.extension with
  | ok n => exact .inl ⟨n, EngineMachine.register_eq_ok registered, rfl⟩
  | error err => exact .inr ⟨err, rfl⟩

section Granted

variable (h : e.machine.toMachine.register b.byte b.extension = .ok n.toMachine)

include h

theorem follows_call (tx : Transaction) :
    Exec.Follows b.byte (e.call tx) (Engine.call { e with machine := n } tx) := by
  refine (Exec.Follows.refl _).bind fun _ => ?_
  refine (Exec.Follows.refl _).bind fun contract => ?_
  refine (Exec.Follows.refl _).bind fun c => ?_
  split
  · exact .refl _
  · next code _ =>
      refine (Exec.Follows.refl _).bind fun call => ?_
      exact Machine.follows_execute h code call.operands

/-- Only a call runs code, and the verifier stays the same. -/
theorem follows_dispatch (tx : Transaction) :
    Exec.Follows b.byte (e.dispatch tx) (Engine.dispatch { e with machine := n } tx) := by
  have verifier : n.ownVerifier = e.machine.ownVerifier := by
    rw [n.inStep, e.machine.inStep]
    exact Machine.verifyReceipt_of_register h
  unfold dispatch
  split
  case h_4 =>
    simp only [verifier]
    exact .refl _
  case h_6 => exact follows_call h tx
  all_goals exact .refl _

theorem attempt_of_register (tx : Transaction) (height : UInt64) (l : Ledger) :
    (e.attempt tx height l).1 = .error (.invalidOpcode b.byte) ∨
      Engine.attempt { e with machine := n } tx height l = e.attempt tx height l := by
  unfold attempt
  rcases follows_dispatch h tx (.enter l tx.sender tx.gasLimit height) with stuck | same
  · left
    cases ran : (e.dispatch tx).runOn (.enter l tx.sender tx.gasLimit height) with
    | mk result frame =>
        rw [ran] at stuck
        cases stuck
        rfl
  · right
    rw [same]

theorem apply_of_register (l : Ledger) (tx : Transaction) (height : UInt64) :
    (e.apply l tx height).1 = .error (.invalidOpcode b.byte) ∨
      Engine.apply { e with machine := n } l tx height = e.apply l tx height := by
  unfold apply
  cases e.noncePolicy.check l tx with
  | error err => exact .inr rfl
  | ok _ =>
      simp only [Ledger.atomically_eq]
      rcases attempt_of_register h tx height l.checkpoint.2 with stuck | same
      · left
        cases ran : e.attempt tx height l.checkpoint.2 with
        | mk result changed =>
            rw [ran] at stuck
            cases stuck
            rfl
      · right
        rw [same]

end Granted

/-! ## Any number of registrations -/

/-- The extension that handles a byte, unless the byte is an opcode. -/
def bound? (e : Engine) (byte : UInt8) : Option Extension := e.machine.extensions.get? byte

variable {byte : UInt8} {x : Extension}

theorem verifyReceipt_register (e : Engine) (b : Binding) :
    (e.register b).2.machine.verifyReceipt = e.machine.verifyReceipt := by
  rcases e.register_cases b with ⟨n, granted, same⟩ | ⟨_, same⟩
  · rw [same]
    exact Machine.verifyReceipt_of_register granted
  · rw [same]

theorem verifyReceipt_registerAll (e : Engine) (bs : List Binding) :
    (e.registerAll bs).machine.verifyReceipt = e.machine.verifyReceipt := by
  induction bs generalizing e with
  | nil => rfl
  | cons b rest ih => exact (ih (e.register b).2).trans (e.verifyReceipt_register b)

/-- Receipts are judged by the verifier that has been installed, be they transactions or operands
and whatever is registered afterwards. -/
theorem verifiers_registerAll (e : Engine) (verify : ReceiptVerifier) (bs : List Binding) :
    ((e.withReceiptVerifier verify).registerAll bs).machine.ownVerifier = verify ∧
      ((e.withReceiptVerifier verify).registerAll bs).machine.verifyReceipt = verify := by
  have installed := (e.withReceiptVerifier verify).verifyReceipt_registerAll bs
  exact ⟨(EngineMachine.inStep _).trans installed, installed⟩

theorem bound?_register_of_bound (h : e.bound? byte = some x) (b : Binding) :
    (e.register b).2.bound? byte = some x := by
  rcases e.register_cases b with ⟨n, granted, same⟩ | ⟨_, same⟩
  · obtain ⟨_, _, fresh, _⟩ := Machine.register_eq_ok granted
    have other : byte ≠ b.byte := by
      rintro rfl
      cases fresh.symm.trans h
    rw [same]
    exact (Machine.get?_of_register granted byte).trans ((if_neg other).trans h)
  · rw [same]
    exact h

theorem bound?_registerAll_of_bound (h : e.bound? byte = some x) (bs : List Binding) :
    (e.registerAll bs).bound? byte = some x := by
  induction bs generalizing e with
  | nil => exact h
  | cons b rest ih => exact ih (bound?_register_of_bound h b)

theorem bound?_register (h : (e.register b).2.bound? byte = some x) :
    e.bound? byte = some x ∨ b = ⟨byte, x⟩ ∧ Opcode.ofByte? byte = none ∧ x.arity ≤ 1 := by
  rcases e.register_cases b with ⟨n, granted, same⟩ | ⟨_, same⟩
  · obtain ⟨free, few, _, _⟩ := Machine.register_eq_ok granted
    rw [same] at h
    have bound := (Machine.get?_of_register granted byte).symm.trans h
    split at bound
    · next new =>
        cases bound
        exact .inr ⟨by rw [new], new ▸ free, few⟩
    · exact .inl bound
  · rw [same] at h
    exact .inl h

theorem bound?_registerAll {bs : List Binding}
    (h : (e.registerAll bs).bound? byte = some x) :
    e.bound? byte = some x ∨ ⟨byte, x⟩ ∈ bs ∧ Opcode.ofByte? byte = none ∧ x.arity ≤ 1 := by
  induction bs generalizing e with
  | nil => exact .inl h
  | cons b rest ih =>
      rcases ih h with first | ⟨mem, later⟩
      · rcases bound?_register first with old | ⟨rfl, new⟩
        · exact .inl old
        · exact .inr ⟨List.mem_cons_self, new⟩
      · exact .inr ⟨List.mem_cons_of_mem b mem, later⟩

/-- If a registration is granted, every transaction comes to what it came to before, with the same
ledger, unless the engine gave up at the new byte. If it is refused, the engine is the same. After
any number of registrations opcodes do what they do without extensions, what was bound is bound to
the same extension, and what is bound on top has been registered for a byte that is no opcode and
takes at most one operand. -/
theorem extensions_conservative (e : Engine) :
    (∀ b, (e.register b).1 = .ok () → ∀ l tx height,
      (e.apply l tx height).1 ≠ .error (.invalidOpcode b.byte) →
        (e.register b).2.apply l tx height = e.apply l tx height) ∧
    (∀ b err, (e.register b).1 = .error err → (e.register b).2 = e) ∧
    ∀ bs : List Binding,
      (∀ byte opcode stack, Opcode.ofByte? byte = some opcode →
        (e.registerAll bs).machine.step byte stack =
          (Machine.ofVerifier e.machine.verifyReceipt).step byte stack) ∧
      (∀ byte x, e.bound? byte = some x → (e.registerAll bs).bound? byte = some x) ∧
      ∀ byte x, (e.registerAll bs).bound? byte = some x →
        e.bound? byte = some x ∨
          ⟨byte, x⟩ ∈ bs ∧ Opcode.ofByte? byte = none ∧ x.arity ≤ 1 := by
  refine ⟨fun b granted l tx height runs => ?_, fun b err refused => ?_, fun bs => ⟨?_, ?_, ?_⟩⟩
  · rcases e.register_cases b with ⟨n, registered, same⟩ | ⟨_, same⟩
    · rw [same]
      exact (apply_of_register registered l tx height).resolve_left runs
    · rw [same] at granted
      cases granted
  · rcases e.register_cases b with ⟨n, _, same⟩ | ⟨_, same⟩
    · rw [same] at refused
      cases refused
    · rw [same]
  · intro byte opcode stack known
    have verifier : (e.registerAll bs).machine.verifyReceipt =
        (Machine.ofVerifier e.machine.verifyReceipt).verifyReceipt := e.verifyReceipt_registerAll bs
    exact Machine.step_of_opcode verifier known stack
  · intro byte x bound
    exact bound?_registerAll_of_bound bound bs
  · intro byte x bound
    exact bound?_registerAll bound

/-- Code that stops at once does not notice that the counter has been registered, and neither the
byte of the counter nor an opcode can be registered afterwards. -/
theorem counter_registered :
    let stopping := Ledger.ofContents (Contents.empty.setCode .zero [Opcode.byte .stop])
    let extended := (Engine.new.register ⟨0xE0, counter⟩).2
    extended.apply stopping (counterCall 100000) 1 =
        Engine.new.apply stopping (counterCall 100000) 1 ∧
      (extended.registerAll [⟨0xE0, { counter with gasCost := 9 }⟩, ⟨0x10, counter⟩]).bound? 0xE0 =
        some counter := by
  intro stopping extended
  obtain ⟨granted, _, _⟩ := extensions_conservative .new
  obtain ⟨_, _, later⟩ := extensions_conservative extended
  have stops : (Engine.new.apply stopping (counterCall 100000) 1).1 = .ok ⟨700, none⟩ := by
    decide +kernel
  refine ⟨granted ⟨0xE0, counter⟩ rfl stopping (counterCall 100000) 1 ?_, ?_⟩
  · rw [stops]
    nofun
  · obtain ⟨_, kept, _⟩ := later [⟨0xE0, { counter with gasCost := 9 }⟩, ⟨0x10, counter⟩]
    exact kept 0xE0 counter rfl

end Engine

end AgentLedger
