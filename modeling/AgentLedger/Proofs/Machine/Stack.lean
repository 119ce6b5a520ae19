import AgentLedger.Proofs.Machine.Extending
import AgentLedger.Proofs.Machine.Faults
import AgentLedger.Proofs.Machine.Opcodes

namespace AgentLedger

/-!
# The height of the stack

No stack that a run comes to is higher than the limit, for what does not fit is refused. The limit
is felt only where an extension that takes no operand leaves a result. Everything else puts at most
one item in the place of another, or one item on an empty stack. So without such an extension no
stack is higher than the operands were, or than one item, and nothing is refused after the start.
-/

/-- The report that there is no room on the stack. -/
abbrev ChainError.fullStack : ChainError := .invalidOperation .stackOverflow

namespace Machine

/-- A run of code on operands comes to a point where `rest` is left of the code. -/
inductive Reaches (m : Machine) (code : Bytes) (operands : List Bytes) (f : CallFrame) :
    (rest : Bytes) → (stack : List Bytes) → CallFrame → Prop where
  | start (fit : operands.length ≤ Policy.stackDepth) :
      Reaches m code operands f code operands.reverse f
  | step {byte : UInt8} {rest : Bytes} {stack next : List Bytes} {g h : CallFrame}
      (before : Reaches m code operands f (byte :: rest) stack g)
      (ran : (m.step byte stack).runOn g = (.ok (.running next), h)) :
      Reaches m code operands f rest next h

/-- No extension that takes no operand leaves a result. -/
def Quiet (m : Machine) : Prop :=
  ∀ byte x, m.extensions.get? byte = some x → x.arity = 0 →
    ∀ f g result, (x.call none).runOn f = (.ok result, g) → result = none

/-- At a point of a run, the extension that is called there or the verifier that is asked about the
receipt on top of the stack fails with the report of a full stack, though neither sees one. -/
inductive Pretends (m : Machine) (byte : UInt8) (stack : List Bytes) (f : CallFrame) : Prop where
  | extension {x : Extension} {charged : CallFrame} (free : Opcode.ofByte? byte = none)
      (found : m.extensions.get? byte = some x) (paid : f.charge x.gasCost = .ok charged)
      (failed : ((x.call (if x.arity = 0 then none else stack.head?)).runOn charged).1 =
        .error .fullStack)
  | verifier {payload : Bytes} {r : InferenceReceipt}
      (proves : Opcode.ofByte? byte = some (.operation .inferProve))
      (top : stack.head? = some payload) (read : Wire.decodeOperand payload = .ok r)
      (failed : m.verifyReceipt r f.ledger.contents = .error .fullStack)

end Machine

/-! ## Results that fit -/

/-- A value is as `post` says, and a report of a full stack is someone else's fault. -/
def Fits {α : Type} (blame : Prop) (post : α → Prop) : Except ChainError α → Prop
  | .ok a => post a
  | .error e => e = .fullStack → blame

section Fits

variable {α β : Type} {blame : Prop} {p : α → Prop} {q : β → Prop} {r : Except ChainError α}

theorem fits_error {e : ChainError} (other : e ≠ .fullStack) :
    Fits blame p (.error e : Except ChainError α) :=
  fun same => absurd same other

theorem Fits.bind {k : α → Except ChainError β} (h : Fits blame p r)
    (hk : ∀ a, p a → Fits blame q (k a)) : Fits blame q (r >>= k) := by
  cases r with
  | ok a => exact hk a h
  | error e => exact h

/-- The fault of an operand is not that the stack is full. -/
theorem FaultsOperand.fits (h : FaultsOperand r) : Fits blame (fun _ => True) r := by
  cases r with
  | ok a => trivial
  | error e =>
      obtain ⟨_, rfl, fault⟩ := h e rfl
      apply fits_error
      rintro ⟨rfl⟩
      cases fault

/-- For what a result reports it is to blame itself. -/
theorem fits_self (ok : ∀ a, r = .ok a → p a) : Fits (r = .error .fullStack) p r := by
  cases r with
  | ok a => exact ok a rfl
  | error e => exact fun full => congrArg Except.error full

/-- Others may be blamed as well. -/
theorem Fits.blaming {blame' : Prop} (h : Fits blame p r) (blamed : blame → blame') :
    Fits blame' p r := by
  cases r with
  | ok a => exact h
  | error e => exact fun full => blamed (h full)

theorem fits_checkReceipt {verify : ReceiptVerifier} {receipt : InferenceReceipt} {c : Contents}
    (blamed : verify receipt c = .error .fullStack → blame) :
    Fits blame (fun _ => True) (Exec.checkReceipt verify receipt c) := by
  refine receipt.faultsOperand_validateStructure.fits.bind fun _ _ => ?_
  cases verdict : verify receipt c with
  | ok _ => trivial
  | error e =>
      rintro rfl
      exact blamed verdict

theorem fits_onContents (x : Change) (c : Contents) :
    Fits blame (fun _ => True) (x.onContents c) := by
  have increased (a : Address) (value : Amount) :
      Fits blame (fun _ => True) (c.increased a value) := by
    unfold Contents.increased
    split
    · trivial
    · exact fits_error (by rintro ⟨⟩)
  cases x with
  | credit a value => exact (increased a value).bind fun _ _ => trivial
  | transfer source target value =>
      simp only [Change.onContents, Contents.transfer]
      split
      · exact fits_error (by rintro ⟨⟩)
      · split
        · trivial
        · exact (increased target value).bind fun _ _ => trivial
  | registerAgent identity height =>
      simp only [Change.onContents, Contents.registerAgent]
      split
      · exact fits_error (by rintro ⟨⟩)
      · trivial
  | _ => trivial

theorem fits_required (operand : Option Bytes) :
    Fits blame (fun _ => True) (Machine.required operand) := by
  cases operand with
  | none => exact fits_error nofun
  | some bs => trivial

/-- Where there is room, a result is put on top of the stack. -/
theorem fits_push {stack : List Bytes} {result : Option Bytes} {n : Nat}
    (room : stack.length < Policy.stackDepth) (height : result.toList.length + stack.length ≤ n) :
    Fits blame (fun next : List Bytes => next.length ≤ n) (Machine.push stack result) := by
  rw [Machine.push_eq_ok room]
  change (result.toList ++ stack).length ≤ n
  rwa [List.length_append]

end Fits

/-! ## Runs that fit -/

namespace Exec

/-- Whatever the frame, the run comes to a result that fits. -/
def Fitting {α : Type} (blame : Prop) (post : α → Prop) (x : Exec α) : Prop :=
  ∀ f, Fits blame post (x.runOn f).1

section Fitting

variable {α β : Type} {blame : Prop} {p : α → Prop} {q : β → Prop} {x : Exec α} {f : CallFrame}

theorem fitting_pure {a : α} (h : p a) : Fitting blame p (pure a : Exec α) := fun _ => h

theorem fitting_lift {r : Except ChainError α} (h : Fits blame p r) :
    Fitting blame p (liftM r : Exec α) := fun _ => h

/-- What comes next begins in the frame that the first run has left. -/
theorem fits_runOn_bind {k : α → Exec β} (h : Fits blame p (x.runOn f).1)
    (hk : ∀ a g, x.runOn f = (.ok a, g) → p a → Fits blame q ((k a).runOn g).1) :
    Fits blame q ((x >>= k).runOn f).1 := by
  rw [runOn_bind]
  cases ran : x.runOn f with
  | mk r g =>
      rw [ran] at h
      cases r with
      | error e => exact h
      | ok a => exact hk a g ran h

theorem Fitting.bind {k : α → Exec β} (h : Fitting blame p x)
    (hk : ∀ a, p a → Fitting blame q (k a)) : Fitting blame q (x >>= k) :=
  fun f => fits_runOn_bind (h f) fun a g _ pa => hk a pa g

/-- Too little gas is not too little room. -/
theorem fits_charge_bind {amount : UInt64} {k : Unit → Exec β}
    (h : ∀ g, f.charge amount = .ok g → Fits blame q ((k ()).runOn g).1) :
    Fits blame q ((charge amount >>= k).runOn f).1 := by
  rw [runOn_bind, runOn_charge]
  cases charged : f.charge amount with
  | ok g => exact h g charged
  | error e =>
      refine fits_error ?_
      rintro rfl
      unfold CallFrame.charge at charged
      split at charged
      · cases charged
      · cases charged

theorem fitting_get : Fitting blame (fun _ => True) (get : Exec CallFrame) := fun _ => trivial

theorem fitting_contents : Fitting blame (fun _ => True) contents := fun _ => trivial

theorem fitting_changeLedger (x : Change) :
    Fitting blame (fun _ => True) (changeLedger x.onLedger) := by
  intro f
  have change : Fits blame (fun _ => True) (x.onContents f.ledger.contents) :=
    fits_onContents x f.ledger.contents
  rw [runOn_changeLedger, x.onLedger_eq]
  cases changed : x.onContents f.ledger.contents with
  | ok d => trivial
  | error e =>
      rw [changed] at change
      exact change

theorem fitting_decodeOperand [Wire α] (bs : Bytes) :
    Fitting blame (fun _ => True) (liftM (Wire.decodeOperand bs : Except ChainError α) : Exec α) :=
  fitting_lift (faultsOperand_decodeOperand bs).fits

/-! ## What can be done to the ledger -/

theorem fitting_transfer (source target : Address) (value : Amount) :
    Fitting blame (fun _ => True) (transfer source target value) :=
  fitting_changeLedger (.transfer source target value)

theorem fitting_registerAgent (payload : Bytes) :
    Fitting blame (fun _ => True) (registerAgent payload) := by
  refine (fitting_decodeOperand payload).bind fun identity _ => ?_
  refine (fitting_lift identity.faultsOperand_validate.fits).bind fun _ _ => ?_
  exact fitting_get.bind fun f _ => fitting_changeLedger (.registerAgent identity f.height)

theorem fitting_sendMessage (payload : Bytes) :
    Fitting blame (fun _ => True) (sendMessage payload) :=
  (fitting_decodeOperand payload).bind fun message _ =>
    fitting_changeLedger (.recordMessage message)

theorem fits_proveInference {verify : ReceiptVerifier} {payload : Bytes}
    (blamed : ∀ receipt, Wire.decodeOperand payload = .ok receipt →
      verify receipt f.ledger.contents = .error .fullStack → blame) :
    Fits blame (fun _ => True) ((proveInference verify payload).runOn f).1 := by
  refine fits_runOn_bind (fitting_decodeOperand payload f) fun receipt _ lifted _ => ?_
  obtain ⟨read, rfl⟩ := Prod.mk.inj lifted
  refine fits_runOn_bind (fitting_contents f) fun c _ seen _ => ?_
  cases seen
  refine fits_runOn_bind (fits_checkReceipt (blamed receipt read)) fun _ g _ _ => ?_
  exact fitting_changeLedger (.recordReceipt receipt) g

theorem fitting_verifyInference (verify : ReceiptVerifier) (payload : Bytes) :
    Fitting blame (fun _ => True) (verifyInference verify payload) :=
  (fitting_decodeOperand payload).bind fun _ _ => fitting_contents.bind fun _ _ =>
    fitting_pure trivial

end Fitting

end Exec

/-! ## One step -/

namespace Machine

open Exec (Fitting)

variable {m : Machine} {stack : List Bytes} {n : Nat}

theorem fitting_act {α : Type} {blame : Prop} {act : Bytes → Exec α} {leave : α → Option Bytes}
    (h : ∀ payload, Fitting blame (fun _ => True) (act payload)) (operand : Option Bytes) :
    Fitting blame (fun _ => True)
      (do return leave (← act (← required operand)) : Exec (Option Bytes)) :=
  (Exec.fitting_lift (fits_required operand)).bind fun payload _ => (h payload).bind fun _ _ =>
    Exec.fitting_pure trivial

/-- Only the operation that proves a receipt asks the verifier for more than a verdict. -/
theorem fits_perform {blame : Prop} {op : Operation} {operand : Option Bytes} {f : CallFrame}
    (blamed : ∀ payload receipt, op = .inferProve → operand = some payload →
      Wire.decodeOperand payload = .ok receipt →
      m.verifyReceipt receipt f.ledger.contents = .error .fullStack → blame) :
    Fits blame (fun _ => True) ((m.perform op operand).runOn f).1 := by
  cases op with
  | agentRegister => exact fitting_act Exec.fitting_registerAgent operand f
  | agentSend => exact fitting_act Exec.fitting_sendMessage operand f
  | agentDelegate => exact fits_error (by rintro ⟨⟩)
  | inferProve =>
      refine Exec.fits_runOn_bind (fits_required operand) fun payload _ lifted _ => ?_
      obtain ⟨there, rfl⟩ := Prod.mk.inj lifted
      refine Exec.fits_runOn_bind (Exec.fits_proveInference fun receipt read => ?_)
        fun _ g _ _ => Exec.fitting_pure trivial g
      exact blamed payload receipt rfl (required_eq_ok there) read
  | inferVerify => exact fitting_act (Exec.fitting_verifyInference _) operand f
  | tokenTransfer =>
      refine (Exec.fitting_lift (fits_required operand)).bind (fun payload _ => ?_) f
      refine (Exec.fitting_decodeOperand payload).bind fun args _ => ?_
      refine Exec.fitting_get.bind fun f _ => ?_
      exact (Exec.fitting_transfer _ _ _).bind fun _ _ => Exec.fitting_pure trivial

/-- The stack that a step leaves, if it leaves one, is not higher than `n`. -/
def Step.Within (n : Nat) : Step → Prop
  | .finished _ => True
  | .running stack => stack.length ≤ n

/-- No step takes a stack that is not higher than `n` to one that is. Who is to blame for a report
of a full stack may depend on the point of the run. -/
def KeepsWithin (m : Machine) (blame : UInt8 → List Bytes → CallFrame → Prop) (n : Nat) : Prop :=
  ∀ byte stack f, stack.length ≤ n →
    Fits (blame byte stack f) (Step.Within n) ((m.step byte stack).runOn f).1

/-- Where an operand is taken, or would be, there is room for a result. -/
theorem fitting_push_tail {blame : Prop} (one : 1 ≤ n) (limit : n ≤ Policy.stackDepth)
    (low : stack.length ≤ n) (result : Option Bytes) :
    Fitting blame (Step.Within n) (do return .running (← push stack.tail result)) := by
  have shorter : stack.tail.length ≤ n - 1 := by
    rw [List.length_tail]
    exact Nat.sub_le_sub_right low 1
  have room : stack.tail.length < Policy.stackDepth := by omega
  have height : result.toList.length + stack.tail.length ≤ n := by
    have atMostOne : result.toList.length ≤ 1 := by cases result <;> simp
    omega
  exact (Exec.fitting_lift (fits_push room height)).bind fun _ short => Exec.fitting_pure short

/-- Only an extension without an operand may need more room than there was. -/
theorem keepsWithin {blame : UInt8 → List Bytes → CallFrame → Prop} (one : 1 ≤ n)
    (limit : n ≤ Policy.stackDepth)
    (blamed : ∀ byte stack f, m.Pretends byte stack f → blame byte stack f)
    (nullary : ∀ byte x, m.extensions.get? byte = some x → x.arity = 0 →
      ∀ (stack : List Bytes) (f g : CallFrame), stack.length ≤ n →
        (((x.call none).runOn g).1 = .error .fullStack → blame byte stack f) →
        Fits (blame byte stack f) (Step.Within n)
          ((do return .running (← push stack (← x.call none)) : Exec Step).runOn g).1) :
    m.KeepsWithin blame n := by
  intro byte stack f low
  have put {y : Exec (Option Bytes)} {g : CallFrame}
      (h : Fits (m.Pretends byte stack f) (fun _ => True) (y.runOn g).1) :
      Fits (blame byte stack f) (Step.Within n)
        ((do return .running (← push stack.tail (← y)) : Exec Step).runOn g).1 :=
    Exec.fits_runOn_bind (h.blaming (blamed byte stack f)) fun result h _ _ =>
      fitting_push_tail one limit low result h
  unfold step
  split
  · exact Exec.fitting_pure trivial f
  · exact (Exec.fitting_lift (fits_required _)).bind (fun _ _ => Exec.fitting_pure trivial) f
  · exact fits_error (by rintro ⟨⟩)
  · next op opcode =>
      refine Exec.fits_charge_bind fun g paid => put (fits_perform ?_)
      rintro payload receipt rfl top read failed
      rw [CallFrame.ledger_of_charge paid] at failed
      exact .verifier opcode top read failed
  · next free =>
      split
      · next x found =>
          refine Exec.fits_charge_bind fun g paid => ?_
          split
          · next noOperand =>
              refine nullary byte x found noOperand stack f g low fun failed => ?_
              refine blamed byte stack f (.extension free found paid ?_)
              rwa [if_pos noOperand]
          · next k operand =>
              refine put ((fits_self fun _ _ => trivial).blaming fun failed => ?_)
              refine .extension free found paid ?_
              rwa [if_neg (by omega)]
      · exact fits_error (by rintro ⟨⟩)

/-- The limit itself is kept by refusing what does not fit. -/
theorem keepsWithin_stackDepth (m : Machine) :
    m.KeepsWithin (fun _ _ _ => True) Policy.stackDepth := by
  apply keepsWithin (by decide) (Nat.le_refl _) fun _ _ _ _ => trivial
  intro byte x found _ stack f g low _
  refine Exec.fits_runOn_bind ((fits_self fun _ _ => trivial).blaming fun _ => trivial)
    fun result h _ _ => ?_
  refine Exec.Fitting.bind (p := fun next => next.length ≤ Policy.stackDepth)
    (Exec.fitting_lift ?_) (fun next height => Exec.fitting_pure height) h
  cases result with
  | none => exact low
  | some bs =>
      by_cases room : stack.length < Policy.stackDepth
      · rw [push_eq_ok room]
        exact room
      · rw [push, if_neg room]
        exact fun _ => trivial

/-- If extensions without an operand leave no result, any other bound is kept as well. -/
theorem Quiet.keepsWithin (quiet : m.Quiet) (one : 1 ≤ n) (limit : n ≤ Policy.stackDepth) :
    m.KeepsWithin m.Pretends n := by
  refine Machine.keepsWithin one limit (fun _ _ _ => id) ?_
  intro byte x found noOperand stack f g low blamed
  have nothing : Fits (m.Pretends byte stack f) (· = none) ((x.call none).runOn g).1 :=
    (fits_self fun result ran =>
      quiet byte x found noOperand g _ result (Prod.ext ran rfl)).blaming blamed
  refine Exec.fits_runOn_bind nothing fun result h _ none => ?_
  rw [none]
  exact low

/-! ## Runs -/

variable {code rest : Bytes} {operands : List Bytes} {f g : CallFrame}
  {blame : UInt8 → List Bytes → CallFrame → Prop}

/-- From any point that a run comes to, it goes on as a run from there would. -/
theorem Reaches.resumes (h : m.Reaches code operands f rest stack g) :
    (m.execute code operands).runOn f = (m.run rest stack).runOn g := by
  induction h with
  | start fit => rw [execute, if_pos fit]
  | step _ ran ih => rw [ih, run_cons, Exec.runOn_bind, ran]

theorem Reaches.fit (h : m.Reaches code operands f rest stack g) :
    operands.length ≤ Policy.stackDepth := by
  induction h with
  | start fit => exact fit
  | step _ _ ih => exact ih

theorem Reaches.length_le (h : m.Reaches code operands f rest stack g)
    (keeps : m.KeepsWithin blame n) (start : operands.length ≤ n) : stack.length ≤ n := by
  induction h with
  | start _ => rwa [List.length_reverse]
  | @step byte _ before _ g _ _ ran ih =>
      have kept := keeps byte before g ih
      rw [ran] at kept
      exact kept

/-- A run that goes on to report a full stack comes to a point where someone is to blame. -/
theorem Reaches.exists_blame (h : m.Reaches code operands f rest stack g)
    (keeps : m.KeepsWithin blame n) (start : operands.length ≤ n)
    (full : ((m.run rest stack).runOn g).1 = .error .fullStack) :
    ∃ byte later next last, m.Reaches code operands f (byte :: later) next last ∧
      blame byte next last := by
  induction rest generalizing stack g with
  | nil => cases full
  | cons byte rest ih =>
      have kept := keeps byte stack g (h.length_le keeps start)
      rw [run_cons, Exec.runOn_bind] at full
      cases stepped : (m.step byte stack).runOn g with
      | mk r last =>
          rw [stepped] at full kept
          cases r with
          | error e => exact ⟨byte, rest, stack, g, h, kept (Except.error.inj full)⟩
          | ok s =>
              cases s with
              | finished _ => cases full
              | running next => exact ih (h.step stepped) full

/-- No stack is higher than the limit. If extensions without an operand leave no result, no stack is
higher than the operands were, or than one item; and after the start a run reports that the stack
is full only if it comes to a point where an extension or the verifier says so by itself. -/
theorem stack_stays_low (m : Machine) (code : Bytes) (operands : List Bytes) (f : CallFrame) :
    (∀ rest stack g, m.Reaches code operands f rest stack g →
      (m.execute code operands).runOn f = (m.run rest stack).runOn g ∧
        stack.length ≤ Policy.stackDepth) ∧
    (m.Quiet →
      (∀ rest stack g, m.Reaches code operands f rest stack g →
        stack.length ≤ max operands.length 1) ∧
      (operands.length ≤ Policy.stackDepth →
        ((m.execute code operands).runOn f).1 = .error .fullStack →
          ∃ byte rest stack g, m.Reaches code operands f (byte :: rest) stack g ∧
            m.Pretends byte stack g)) := by
  have one : 1 ≤ max operands.length 1 := Nat.le_max_right _ _
  have start : operands.length ≤ max operands.length 1 := Nat.le_max_left _ _
  have limit (fit : operands.length ≤ Policy.stackDepth) :
      max operands.length 1 ≤ Policy.stackDepth := Nat.max_le.2 ⟨fit, by decide⟩
  refine ⟨fun rest stack g h => ⟨h.resumes, ?_⟩, fun quiet => ⟨fun rest stack g h => ?_, ?_⟩⟩
  · exact h.length_le m.keepsWithin_stackDepth h.fit
  · exact h.length_le (quiet.keepsWithin one (limit h.fit)) start
  · intro fit full
    have first : m.Reaches code operands f code operands.reverse f := .start fit
    rw [first.resumes] at full
    exact first.exists_blame (quiet.keepsWithin one (limit fit)) start full

end Machine

/-! ## Extensions that leave a result -/

/-- Leaves the same result, whatever it is called on. -/
def Extension.leaving (arity : Nat) (bs : Bytes) : Extension where
  name := "leaving"
  gasCost := 0
  arity
  call _ := return some bs

theorem CallFrame.charge_zero {f : CallFrame} (within : f.gasUsed ≤ f.gasLimit) :
    f.charge 0 = .ok f := by
  have enough : f.gasUsed.toNat + (0 : UInt64).toNat ≤ f.gasLimit.toNat := within
  rw [charge, if_pos enough, UInt64.add_zero]

namespace Machine

variable {m : Machine} {byte : UInt8} {stack : List Bytes} {f : CallFrame} {bs : Bytes}

theorem runOn_step_leaving {arity : Nat} (notOpcode : Opcode.ofByte? byte = none)
    (found : m.extensions.get? byte = some (.leaving arity bs)) (within : f.gasUsed ≤ f.gasLimit) :
    (m.step byte stack).runOn f =
      ((push (if arity = 0 then stack else stack.tail) (some bs)).map Step.running, f) := by
  have pushed (rest : List Bytes) :
      (do return .running (← push rest (some bs)) : Exec Step).runOn f =
        ((push rest (some bs)).map Step.running, f) := by
    rw [Exec.runOn_bind, Exec.runOn_lift]
    cases push rest (some bs) with
    | ok _ => rfl
    | error _ => rfl
  simp only [step, notOpcode, found, stepExtension, Extension.leaving, Exec.runOn_bind,
    Exec.runOn_charge, CallFrame.charge_zero within]
  cases arity with
  | zero => exact pushed stack
  | succ _ => exact pushed stack.tail

/-- An extension that takes no operand and leaves a result comes to fill the stack. -/
theorem runOn_run_leaving (notOpcode : Opcode.ofByte? byte = none)
    (found : m.extensions.get? byte = some (.leaving 0 bs)) (within : f.gasUsed ≤ f.gasLimit)
    {n : Nat} (low : stack.length ≤ Policy.stackDepth)
    (many : Policy.stackDepth < stack.length + n) :
    (m.run (List.replicate n byte) stack).runOn f = (.error .fullStack, f) := by
  induction n generalizing stack with
  | zero => omega
  | succ n ih =>
      rw [List.replicate_succ, run_cons, Exec.runOn_bind,
        runOn_step_leaving notOpcode found within, if_pos rfl]
      by_cases room : stack.length < Policy.stackDepth
      · rw [push_eq_ok room]
        refine ih room ?_
        rw [Option.toList_some, List.singleton_append, List.length_cons]
        omega
      · rw [push, if_neg room]
        rfl

/-- A machine whose only extension takes an operand and leaves a result. -/
def replacing : Machine :=
  ⟨SortedMap.empty.insert 0xe1 (.leaving 1 [7]), .structural⟩

theorem get?_replacing {byte : UInt8} {x : Extension}
    (found : replacing.extensions.get? byte = some x) : x = .leaving 1 [7] := by
  rw [replacing, SortedMap.get?_insert] at found
  split at found
  · exact (Option.some.inj found).symm
  · cases found

/-- The extension leaves a result on an empty stack, and then one in the place of another. -/
theorem stack_stays_low_replacing :
    let f := CallFrame.enter .empty .zero 0 0
    replacing.Quiet ∧
      (∃ stack g, replacing.Reaches [0xe1, 0xe1] [] f [0xe1] stack g ∧ stack.length = 1) ∧
      (∀ rest stack g, replacing.Reaches [0xe1, 0xe1] [] f rest stack g → stack.length ≤ 1) ∧
      ((replacing.execute [0xe1, 0xe1] []).runOn f).1 ≠ .error .fullStack := by
  intro f
  have quiet : replacing.Quiet := by
    intro byte x found noOperand
    rw [get?_replacing found] at noOperand
    cases noOperand
  have honest (byte : UInt8) (stack : List Bytes) (g : CallFrame) :
      ¬ replacing.Pretends byte stack g := by
    rintro (⟨-, found, -, failed⟩ | ⟨-, -, -, failed⟩)
    · rw [get?_replacing found] at failed
      cases failed
    · cases failed
  have found : replacing.extensions.get? 0xe1 = some (.leaving 1 [7]) :=
    SortedMap.get?_insert_self _ _ _
  have stepped : (replacing.step 0xe1 []).runOn f = (.ok (.running [[7]]), f) := by
    rw [runOn_step_leaving rfl found (UInt64.le_refl _)]
    rfl
  obtain ⟨-, low⟩ := replacing.stack_stays_low [0xe1, 0xe1] [] f
  refine ⟨quiet, ⟨[[7]], f, .step (.start (Nat.zero_le _)) stepped, rfl⟩, (low quiet).1, ?_⟩
  intro full
  obtain ⟨byte, _, stack, g, _, pretends⟩ := (low quiet).2 (Nat.zero_le _) full
  exact honest byte stack g pretends

end Machine

end AgentLedger
