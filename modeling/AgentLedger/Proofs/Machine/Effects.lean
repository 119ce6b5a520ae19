import AgentLedger.Proofs.Machine.Discipline
import AgentLedger.Proofs.Machine.Faults
import Mathlib.Logic.Relation

namespace AgentLedger

/-!
# Effects

There are five ways in which a machine without extensions and the engine around it can change the
contents of the ledger while a transaction runs. Whatever the code is and however it ends, it takes
the contents from one such effect to the next, for the same caller and at the same height. So what
every effect keeps, every run keeps.
-/

/-- What can be done to the contents for a caller at a height. -/
inductive Effect (verify : ReceiptVerifier) (caller : Address) (height : UInt64) (c : Contents) :
    Contents → Prop where
  | transfer {target : Address} {value : Amount} {d : Contents}
      (moved : c.transfer caller target value = .ok d) : Effect verify caller height c d
  | registerAgent {identity : AgentIdentity} {d : Contents} (valid : identity.validate = .ok ())
      (registered : c.registerAgent identity height = .ok d) : Effect verify caller height c d
  | recordMessage (m : AgentMessage) : Effect verify caller height c (c.recordMessage m)
  | recordReceipt {r : InferenceReceipt} (accepted : Exec.checkReceipt verify r c = .ok ()) :
      Effect verify caller height c (c.recordReceipt r)
  | deploy {contract : Address} {code : Bytes} (free : c.code? contract = none)
      (nonempty : code ≠ []) : Effect verify caller height c (c.setCode contract code)

/-- Any number of effects, one after another. -/
def Effects (verify : ReceiptVerifier) (caller : Address) (height : UInt64) :
    Contents → Contents → Prop := Relation.ReflTransGen (Effect verify caller height)

section Effects

variable {verify : ReceiptVerifier} {caller : Address} {height : UInt64} {c d : Contents}

/-- What every effect preserves, any number of them preserve. -/
theorem Effects.preserves {P : Contents → Prop} (h : Effects verify caller height c d)
    (one : ∀ c d, Effect verify caller height c d → P c → P d) (start : P c) : P d := by
  induction h with
  | refl => exact start
  | tail _ last ih => exact one _ _ last ih

theorem Effects.keeps {α : Type} {f : Contents → α} (h : Effects verify caller height c d)
    (one : ∀ c d, Effect verify caller height c d → f d = f c) : f d = f c :=
  h.preserves (P := fun x => f x = f c) (fun c d effect same => (one c d effect).trans same) rfl

end Effects

/-- Who can report that a balance overflows: a transfer of the caller, or the verifier when it is
asked about a receipt of the right shape. -/
inductive Overflows (verify : ReceiptVerifier) (caller : Address) (c : Contents) (owner : Address) :
    Prop where
  | transfer {target : Address} {value : Amount}
      (refused : c.transfer caller target value =
        .error (.invalidOperation (.balanceOverflow owner)))
  | verifier {r : InferenceReceipt} (shape : r.validateStructure = .ok ())
      (refused : verify r c = .error (.invalidOperation (.balanceOverflow owner)))

/-! ## Results that report no overflow -/

def NoOverflow {α : Type} (r : Except ChainError α) : Prop :=
  ∀ owner, r ≠ .error (.invalidOperation (.balanceOverflow owner))

section NoOverflow

variable {α : Type}

theorem noOverflow_ok (a : α) : NoOverflow (.ok a) := fun _ => nofun

theorem noOverflow_throw {e : ChainError}
    (other : ∀ owner, e ≠ .invalidOperation (.balanceOverflow owner)) :
    NoOverflow (throw e : Except ChainError α) :=
  fun owner thrown => other owner (Except.error.inj thrown)

/-- The fault of an operand is no overflow. -/
theorem FaultsOperand.noOverflow {r : Except ChainError α} (h : FaultsOperand r) :
    NoOverflow r := by
  intro owner same
  obtain ⟨_, reported, fault⟩ := h _ same
  cases reported
  cases fault

theorem noOverflow_decodeOperand [Wire α] (bs : Bytes) :
    NoOverflow (Wire.decodeOperand bs : Except ChainError α) :=
  (faultsOperand_decodeOperand bs).noOverflow

theorem noOverflow_required (operand : Option Bytes) : NoOverflow (Machine.required operand) := by
  cases operand with
  | none => exact noOverflow_throw fun _ => by simp
  | some bs => exact noOverflow_ok bs

theorem noOverflow_push (stack : List Bytes) (result : Option Bytes) :
    NoOverflow (Machine.push stack result) := by
  cases result with
  | none => exact noOverflow_ok stack
  | some bs =>
      simp only [Machine.push]
      split
      · exact noOverflow_ok (bs :: stack)
      · exact noOverflow_throw fun _ => by simp

end NoOverflow

theorem Overflows.of_checkReceipt {verify : ReceiptVerifier} {caller owner : Address}
    {r : InferenceReceipt} {c : Contents}
    (refused : Exec.checkReceipt verify r c = .error (.invalidOperation (.balanceOverflow owner))) :
    Overflows verify caller c owner := by
  unfold Exec.checkReceipt at refused
  cases shape : r.validateStructure with
  | error e =>
      rw [shape] at refused
      exact absurd (shape.trans (congrArg _ (Except.error.inj refused)))
        (r.faultsOperand_validateStructure.noOverflow owner)
  | ok _ =>
      rw [shape] at refused
      exact .verifier shape refused

/-! ## Effects of a run -/

def CallFrame.Serves (f : CallFrame) (caller : Address) (height : UInt64) : Prop :=
  f.caller = caller ∧ f.height = height

/-- What a run has come to that began in a frame. An overflow is reported where the run stopped. -/
structure Acted {α : Type} (verify : ReceiptVerifier) (caller : Address) (height : UInt64)
    (before : Contents) (out : Except ChainError α × CallFrame) : Prop where
  serves : out.2.Serves caller height
  effects : Effects verify caller height before out.2.ledger.contents
  overflow : ∀ owner, out.1 = .error (.invalidOperation (.balanceOverflow owner)) →
    Overflows verify caller out.2.ledger.contents owner

namespace Exec

/-- A run acts by effects if it begins in contents of which something is known. -/
def Acts {α : Type} (verify : ReceiptVerifier) (caller : Address) (height : UInt64)
    (known : Contents → Prop) (x : Exec α) : Prop :=
  ∀ f : CallFrame, f.Serves caller height → known f.ledger.contents →
    Acted verify caller height f.ledger.contents (x.runOn f)

section Acts

variable {α β : Type} {verify : ReceiptVerifier} {caller : Address} {height : UInt64}
  {known : Contents → Prop}

theorem acts_pure (a : α) : Acts verify caller height known (pure a : Exec α) :=
  fun _ serves _ => ⟨serves, .refl, fun _ => nofun⟩

theorem acts_throw {e : ChainError}
    (other : ∀ owner, e ≠ .invalidOperation (.balanceOverflow owner)) :
    Acts verify caller height known (throw e : Exec α) := by
  intro f serves _
  refine ⟨serves, .refl, fun owner thrown => ?_⟩
  exact absurd (Except.error.inj thrown) (other owner)

theorem acts_throw_bind {e : ChainError} (k : α → Exec β)
    (other : ∀ owner, e ≠ .invalidOperation (.balanceOverflow owner)) :
    Acts verify caller height known (throw e >>= k) := by
  intro f serves _
  rw [runOn_bind, runOn_throw]
  refine ⟨serves, .refl, fun owner thrown => ?_⟩
  exact absurd (Except.error.inj thrown) (other owner)

/-- What follows a check starts from the same contents and knows that the check has passed. -/
theorem acts_lift_bind {r : Except ChainError α} {k : α → Exec β}
    (reports : ∀ c owner, known c → r = .error (.invalidOperation (.balanceOverflow owner)) →
      Overflows verify caller c owner)
    (hk : ∀ a, r = .ok a → Acts verify caller height known (k a)) :
    Acts verify caller height known (liftM r >>= k) := by
  intro f serves start
  rw [runOn_bind, runOn_lift]
  cases r with
  | ok a => exact hk a rfl f serves start
  | error e =>
      refine ⟨serves, .refl, fun owner overflowed => reports f.ledger.contents owner start ?_⟩
      exact congrArg _ (Except.error.inj overflowed)

theorem acts_check_bind {r : Except ChainError α} {k : α → Exec β} (quiet : NoOverflow r)
    (hk : ∀ a, r = .ok a → Acts verify caller height known (k a)) :
    Acts verify caller height known (liftM r >>= k) :=
  acts_lift_bind (fun _ owner _ overflowed => absurd overflowed (quiet owner)) hk

theorem acts_contents_bind {k : Contents → Exec β}
    (hk : ∀ c, Acts verify caller height (· = c) (k c)) :
    Acts verify caller height known (contents >>= k) := by
  intro f serves _
  rw [runOn_bind, runOn_contents]
  exact hk f.ledger.contents f serves rfl

theorem acts_get_bind {k : CallFrame → Exec β}
    (hk : ∀ f : CallFrame, f.Serves caller height → Acts verify caller height known (k f)) :
    Acts verify caller height known (get >>= k) := by
  intro f serves start
  rw [runOn_bind, runOn_get]
  exact hk f serves f serves start

theorem acts_charge_bind {amount : UInt64} {k : Unit → Exec β}
    (hk : Acts verify caller height known (k ())) :
    Acts verify caller height known (charge amount >>= k) := by
  intro f serves start
  rw [runOn_bind, runOn_charge]
  by_cases enough : f.gasUsed.toNat + amount.toNat ≤ f.gasLimit.toNat
  · rw [CallFrame.charge, if_pos enough]
    exact hk { f with gasUsed := f.gasUsed + amount } serves start
  · rw [CallFrame.charge, if_neg enough]
    refine ⟨serves, .refl, fun owner overflowed => ?_⟩
    cases Except.error.inj overflowed

theorem acts_bind {x : Exec α} {k : α → Exec β} (hx : Acts verify caller height known x)
    (hk : ∀ a, Acts verify caller height (fun _ => True) (k a)) :
    Acts verify caller height known (x >>= k) := by
  intro f serves start
  have first := hx f serves start
  rw [runOn_bind]
  cases ran : x.runOn f with
  | mk r g =>
      rw [ran] at first
      cases r with
      | error e =>
          refine ⟨first.serves, first.effects, fun owner overflowed => first.overflow owner ?_⟩
          exact congrArg _ (Except.error.inj overflowed)
      | ok a =>
          have second := hk a g first.serves trivial
          exact ⟨second.serves, first.effects.trans second.effects, second.overflow⟩

theorem acts_changeLedger (x : Change)
    (effect : ∀ c d, known c → x.onContents c = .ok d → Effect verify caller height c d)
    (reports : ∀ c owner, x.onContents c = .error (.invalidOperation (.balanceOverflow owner)) →
      Overflows verify caller c owner) :
    Acts verify caller height known (changeLedger x.onLedger) := by
  intro f serves start
  rw [runOn_changeLedger, x.onLedger_eq]
  cases changed : x.onContents f.ledger.contents with
  | ok d => exact ⟨serves, .single (effect _ d start changed), fun _ => nofun⟩
  | error e =>
      refine ⟨serves, .refl, fun owner overflowed => reports f.ledger.contents owner ?_⟩
      rw [changed]
      exact congrArg _ (Except.error.inj overflowed)

/-! ## The effects of the operations -/

theorem acts_transfer (target : Address) (value : Amount) :
    Acts verify caller height known (transfer caller target value) :=
  acts_changeLedger (.transfer caller target value) (fun _ _ _ moved => .transfer moved)
    fun _ _ refused => .transfer refused

theorem acts_registerAgent (payload : Bytes) :
    Acts verify caller height known (registerAgent payload) := by
  refine acts_check_bind (noOverflow_decodeOperand payload) fun identity _ => ?_
  refine acts_check_bind identity.faultsOperand_validate.noOverflow fun _ valid => ?_
  refine acts_get_bind fun f serves => ?_
  obtain ⟨_, rfl⟩ := serves
  refine acts_changeLedger (.registerAgent identity f.height) ?_ ?_
  · intro c d _ registered
    exact .registerAgent valid registered
  · intro c owner refused
    change c.registerAgent identity f.height = _ at refused
    unfold Contents.registerAgent at refused
    split at refused
    · cases refused
    · cases refused

theorem acts_sendMessage (payload : Bytes) :
    Acts verify caller height known (sendMessage payload) := by
  refine acts_check_bind (noOverflow_decodeOperand payload) fun message _ => ?_
  refine acts_changeLedger (.recordMessage message) ?_ fun _ _ => nofun
  intro c d _ recorded
  cases recorded
  exact .recordMessage message

theorem acts_proveInference (payload : Bytes) :
    Acts verify caller height known (proveInference verify payload) := by
  refine acts_check_bind (noOverflow_decodeOperand payload) fun receipt _ => ?_
  refine acts_contents_bind fun c => ?_
  refine acts_lift_bind ?_ fun _ accepted => ?_
  · rintro _ owner rfl refused
    exact .of_checkReceipt refused
  · refine acts_changeLedger (.recordReceipt receipt) ?_ fun _ _ => nofun
    rintro _ d rfl recorded
    cases recorded
    exact .recordReceipt accepted

theorem acts_verifyInference (payload : Bytes) :
    Acts verify caller height known (verifyInference verify payload) := by
  refine acts_check_bind (noOverflow_decodeOperand payload) fun receipt _ => ?_
  exact acts_contents_bind fun c => acts_pure _

end Acts

end Exec

/-! ## Runs of code -/

namespace Machine

/-- A machine without extensions. -/
def Bare (m : Machine) : Prop := ∀ byte, m.extensions.get? byte = none

theorem bare_ofVerifier (verify : ReceiptVerifier) : (ofVerifier verify).Bare := fun _ => rfl

variable {m : Machine} {caller : Address} {height : UInt64} {known : Contents → Prop}

theorem Bare.disciplined (bare : m.Bare) : m.Disciplined := by
  intro byte x found
  rw [bare byte] at found
  cases found

theorem acts_perform (m : Machine) (op : Operation) (operand : Option Bytes) :
    Exec.Acts m.verifyReceipt caller height known (m.perform op operand) := by
  cases op with
  | agentRegister =>
      refine Exec.acts_check_bind (noOverflow_required operand) fun payload _ => ?_
      exact Exec.acts_bind (Exec.acts_registerAgent payload) fun _ => Exec.acts_pure _
  | agentSend =>
      refine Exec.acts_check_bind (noOverflow_required operand) fun payload _ => ?_
      exact Exec.acts_bind (Exec.acts_sendMessage payload) fun _ => Exec.acts_pure _
  | agentDelegate => exact Exec.acts_throw fun _ => nofun
  | inferProve =>
      refine Exec.acts_check_bind (noOverflow_required operand) fun payload _ => ?_
      exact Exec.acts_bind (Exec.acts_proveInference payload) fun _ => Exec.acts_pure _
  | inferVerify =>
      refine Exec.acts_check_bind (noOverflow_required operand) fun payload _ => ?_
      exact Exec.acts_bind (Exec.acts_verifyInference payload) fun _ => Exec.acts_pure _
  | tokenTransfer =>
      refine Exec.acts_check_bind (noOverflow_required operand) fun payload _ => ?_
      refine Exec.acts_check_bind (noOverflow_decodeOperand payload) fun args _ => ?_
      refine Exec.acts_get_bind fun f serves => ?_
      obtain ⟨rfl, _⟩ := serves
      exact Exec.acts_bind (Exec.acts_transfer _ _) fun _ => Exec.acts_pure _

theorem acts_step (bare : m.Bare) (byte : UInt8) (stack : List Bytes) :
    Exec.Acts m.verifyReceipt caller height known (m.step byte stack) := by
  unfold step
  split
  · exact Exec.acts_pure _
  · exact Exec.acts_check_bind (noOverflow_required _) fun top _ => Exec.acts_pure _
  · exact Exec.acts_throw fun _ => nofun
  · next op _ =>
      refine Exec.acts_charge_bind ?_
      refine Exec.acts_bind (m.acts_perform op _) fun result => ?_
      exact Exec.acts_check_bind (noOverflow_push _ result) fun next _ => Exec.acts_pure _
  · rw [bare byte]
    exact Exec.acts_throw fun _ => nofun

theorem acts_run (bare : m.Bare) (code : Bytes) (stack : List Bytes) :
    Exec.Acts m.verifyReceipt caller height known (m.run code stack) := by
  -- After the first byte nothing is known of the contents any more.
  induction code generalizing stack known with
  | nil => exact Exec.acts_pure _
  | cons byte rest ih =>
      rw [run_cons]
      refine Exec.acts_bind (acts_step bare byte stack) fun s => ?_
      cases s with
      | finished output => exact Exec.acts_pure output
      | running next => exact ih next

theorem acts_execute (bare : m.Bare) (code : Bytes) (operands : List Bytes) :
    Exec.Acts m.verifyReceipt caller height known (m.execute code operands) := by
  unfold execute
  split
  · exact acts_run bare code _
  · exact Exec.acts_throw fun _ => nofun

end Machine

end AgentLedger
