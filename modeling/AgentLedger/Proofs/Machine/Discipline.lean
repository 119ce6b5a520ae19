import AgentLedger.Machine.Basic
import AgentLedger.Proofs.Ledger.Regular

namespace AgentLedger

/-!
# Disciplined extensions

An extension is disciplined if it reaches the ledger by sessions only. Effects on a call frame are
regular if the way back stays open and if nothing depends on the notes of the ledger; they are so
for the operations of the machine, and a run of code is regular if the extensions are disciplined.
-/

namespace CallFrame

/-- The frame without the notes of its ledger, which no code can see. -/
def visible (f : CallFrame) : CallFrame := { f with ledger := .ofContents f.ledger.contents }

theorem charge_eq_ok {f g : CallFrame} {amount : UInt64} (h : f.charge amount = .ok g) :
    f.gasUsed.toNat + amount.toNat ≤ f.gasLimit.toNat ∧
      g = { f with gasUsed := f.gasUsed + amount } := by
  unfold charge at h
  split at h
  · next enough => exact ⟨enough, (Except.ok.inj h).symm⟩
  · cases h

/-- A sum that the limit covers does not wrap. -/
theorem toNat_gasUsed_add {f : CallFrame} {amount : UInt64}
    (enough : f.gasUsed.toNat + amount.toNat ≤ f.gasLimit.toNat) :
    (f.gasUsed + amount).toNat = f.gasUsed.toNat + amount.toNat := by
  have bound := f.gasLimit.toNat_lt
  rw [UInt64.toNat_add, Nat.mod_eq_of_lt (by omega)]

theorem charge_visible (f : CallFrame) (amount : UInt64) :
    f.visible.charge amount = (f.charge amount).map visible := by
  by_cases enough : f.gasUsed.toNat + amount.toNat ≤ f.gasLimit.toNat
  · have charged : f.charge amount = .ok { f with gasUsed := f.gasUsed + amount } := if_pos enough
    rw [charged]
    exact if_pos enough
  · have refused : f.charge amount = .error (.outOfGas f.gasUsed amount f.gasLimit) :=
      if_neg enough
    rw [refused]
    exact if_neg enough

end CallFrame

namespace Exec

variable {α β : Type}

structure Regular (x : Exec α) : Prop where
  goesBack : ∀ f, 0 < f.ledger.depth →
    (x.runOn f).2.ledger.depth = f.ledger.depth ∧ (x.runOn f).2.ledger.GoesBackTo f.ledger
  blind : ∀ f, x.runOn f.visible = ((x.runOn f).1, (x.runOn f).2.visible)

theorem regular_pure (a : α) : Regular (pure a : Exec α) where
  goesBack f _ := ⟨rfl, .refl f.ledger⟩
  blind _ := rfl

theorem regular_throw (e : ChainError) : Regular (throw e : Exec α) where
  goesBack f _ := ⟨rfl, .refl f.ledger⟩
  blind _ := rfl

theorem regular_lift (r : Except ChainError α) : Regular (liftM r : Exec α) where
  goesBack f _ := ⟨rfl, .refl f.ledger⟩
  blind _ := rfl

theorem regular_contents : Regular contents where
  goesBack f _ := ⟨rfl, .refl f.ledger⟩
  blind _ := rfl

theorem regular_bind {x : Exec α} {k : α → Exec β} (hx : Regular x) (hk : ∀ a, Regular (k a)) :
    Regular (x >>= k) where
  goesBack f opened := by
    obtain ⟨depth, way⟩ := hx.goesBack f opened
    rw [runOn_bind]
    cases ran : x.runOn f with
    | mk r g =>
        rw [ran] at depth way
        cases r with
        | error e => exact ⟨depth, way⟩
        | ok a =>
            obtain ⟨depth', way'⟩ := (hk a).goesBack g (depth ▸ opened)
            exact ⟨depth'.trans depth, way'.trans way⟩
  blind f := by
    rw [runOn_bind, runOn_bind, hx.blind f]
    cases x.runOn f with
    | mk r g =>
        cases r with
        | error e => rfl
        | ok a => exact (hk a).blind g

/-- What is read off a frame must not depend on the notes. -/
theorem regular_get_bind {k : CallFrame → Exec α} (hk : ∀ f, Regular (k f))
    (same : ∀ f : CallFrame, k f.visible = k f) : Regular (get >>= k) where
  goesBack f opened := by
    rw [runOn_bind, runOn_get]
    exact (hk f).goesBack f opened
  blind f := by
    rw [runOn_bind, runOn_bind, runOn_get, runOn_get]
    change (k f.visible).runOn f.visible = _
    rw [same f]
    exact (hk f).blind f

theorem regular_charge (amount : UInt64) : Regular (charge amount) where
  goesBack f _ := by
    rw [runOn_charge]
    cases charged : f.charge amount with
    | ok g =>
        obtain ⟨_, rfl⟩ := CallFrame.charge_eq_ok charged
        exact ⟨rfl, .refl f.ledger⟩
    | error e => exact ⟨rfl, .refl f.ledger⟩
  blind f := by
    rw [runOn_charge, runOn_charge, f.charge_visible]
    cases f.charge amount with
    | ok g => rfl
    | error e => rfl

theorem regular_changeLedger (x : Change) : Regular (changeLedger x.onLedger) where
  goesBack f opened := by
    have kept := (Ledger.Regular.change x).goesBack f.ledger opened
    rw [runOn_changeLedger]
    cases ran : x.onLedger f.ledger with
    | ok l =>
        rw [ran] at kept
        exact kept
    | error e => exact ⟨rfl, .refl f.ledger⟩
  blind f := by
    have copy : f.visible.ledger = .ofContents f.ledger.contents := rfl
    rw [runOn_changeLedger, runOn_changeLedger, copy, x.onLedger_ofContents]
    cases x.onLedger f.ledger with
    | ok l => rfl
    | error e => rfl

/-! ## Effects -/

theorem regular_transfer (source target : Address) (value : Amount) :
    Regular (transfer source target value) := regular_changeLedger (.transfer source target value)

theorem regular_registerAgent (payload : Bytes) : Regular (registerAgent payload) := by
  refine regular_bind (regular_lift _) fun identity => ?_
  refine regular_bind (regular_lift _) fun _ => ?_
  exact regular_get_bind (fun f => regular_changeLedger (.registerAgent identity f.height))
    fun _ => rfl

theorem regular_sendMessage (payload : Bytes) : Regular (sendMessage payload) :=
  regular_bind (regular_lift _) fun message => regular_changeLedger (.recordMessage message)

theorem regular_proveInference (verify : ReceiptVerifier) (payload : Bytes) :
    Regular (proveInference verify payload) := by
  refine regular_bind (regular_lift _) fun receipt => ?_
  refine regular_bind regular_contents fun c => ?_
  refine regular_bind (regular_lift _) fun _ => ?_
  exact regular_changeLedger (.recordReceipt receipt)

theorem regular_verifyInference (verify : ReceiptVerifier) (payload : Bytes) :
    Regular (verifyInference verify payload) := by
  refine regular_bind (regular_lift _) fun receipt => ?_
  exact regular_bind regular_contents fun c => regular_pure _

end Exec

/-! ## Extensions -/

/-- An extension acts on the ledger by a session in which it gives up every checkpoint that it
takes. The actions, the result and the rest of the frame follow from what it sees. -/
def Extension.Disciplined (x : Extension) : Prop :=
  ∀ operand, ∃ (actions : CallFrame → List Action)
      (outcome : CallFrame → Except ChainError (Option Bytes) × CallFrame),
    ∀ f, ∃ ledger, Session.run? ⟨f.ledger, []⟩ (actions f.visible) = some ⟨ledger, []⟩ ∧
      (x.call operand).runOn f = ((outcome f.visible).1, { (outcome f.visible).2 with ledger })

theorem Extension.Disciplined.regular {x : Extension} (h : x.Disciplined)
    (operand : Option Bytes) : Exec.Regular (x.call operand) := by
  obtain ⟨actions, outcome, acts⟩ := h operand
  refine ⟨fun f opened => ?_, fun f => ?_⟩
  · obtain ⟨ledger, ran, call⟩ := acts f
    rw [call]
    exact Session.run?_goesBackTo ran opened
  · obtain ⟨ledger, ran, call⟩ := acts f
    obtain ⟨copy, ran', call'⟩ := acts f.visible
    have same : copy = .ofContents ledger.contents :=
      congrArg Session.ledger (Option.some.inj (ran'.symm.trans (Session.run?_ofContents ran)))
    rw [call, call', same]
    rfl

namespace Machine

variable {m : Machine}

def Disciplined (m : Machine) : Prop :=
  ∀ byte x, m.extensions.get? byte = some x → x.Disciplined

theorem regular_perform (m : Machine) (op : Operation) (operand : Option Bytes) :
    Exec.Regular (m.perform op operand) := by
  cases op with
  | agentRegister =>
      refine Exec.regular_bind (Exec.regular_lift _) fun payload => ?_
      exact Exec.regular_bind (Exec.regular_registerAgent payload) fun _ => Exec.regular_pure _
  | agentSend =>
      refine Exec.regular_bind (Exec.regular_lift _) fun payload => ?_
      exact Exec.regular_bind (Exec.regular_sendMessage payload) fun _ => Exec.regular_pure _
  | agentDelegate => exact Exec.regular_throw _
  | inferProve =>
      refine Exec.regular_bind (Exec.regular_lift _) fun payload => ?_
      exact Exec.regular_bind (Exec.regular_proveInference _ payload) fun _ => Exec.regular_pure _
  | inferVerify =>
      refine Exec.regular_bind (Exec.regular_lift _) fun payload => ?_
      exact Exec.regular_bind (Exec.regular_verifyInference _ payload) fun _ => Exec.regular_pure _
  | tokenTransfer =>
      refine Exec.regular_bind (Exec.regular_lift _) fun payload => ?_
      refine Exec.regular_bind (Exec.regular_lift _) fun args => ?_
      refine Exec.regular_get_bind (fun f => ?_) fun _ => rfl
      exact Exec.regular_bind (Exec.regular_transfer _ _ _) fun _ => Exec.regular_pure _

theorem regular_stepExtension {x : Extension} (h : x.Disciplined) (stack : List Bytes) :
    Exec.Regular (stepExtension x stack) := by
  refine Exec.regular_bind (Exec.regular_charge _) fun _ => ?_
  have resume (operand : Option Bytes) (rest : List Bytes) :
      Exec.Regular (do return Step.running (← push rest (← x.call operand))) := by
    refine Exec.regular_bind (h.regular operand) fun result => ?_
    exact Exec.regular_bind (Exec.regular_lift _) fun next => Exec.regular_pure _
  split
  · exact resume none stack
  · exact resume stack.head? stack.tail

theorem regular_step (h : m.Disciplined) (byte : UInt8) (stack : List Bytes) :
    Exec.Regular (m.step byte stack) := by
  unfold step
  split
  · exact Exec.regular_pure _
  · exact Exec.regular_bind (Exec.regular_lift _) fun top => Exec.regular_pure _
  · exact Exec.regular_throw _
  · next op _ =>
      refine Exec.regular_bind (Exec.regular_charge _) fun _ => ?_
      refine Exec.regular_bind (m.regular_perform op _) fun result => ?_
      exact Exec.regular_bind (Exec.regular_lift _) fun next => Exec.regular_pure _
  · split
    · next x found => exact regular_stepExtension (h byte x found) stack
    · exact Exec.regular_throw _

theorem regular_run (h : m.Disciplined) (code : Bytes) (stack : List Bytes) :
    Exec.Regular (m.run code stack) := by
  induction code generalizing stack with
  | nil => exact Exec.regular_pure _
  | cons byte rest ih =>
      rw [run_cons]
      refine Exec.regular_bind (regular_step h byte stack) fun s => ?_
      cases s with
      | finished output => exact Exec.regular_pure output
      | running next => exact ih next

theorem regular_execute (h : m.Disciplined) (code : Bytes) (operands : List Bytes) :
    Exec.Regular (m.execute code operands) := by
  unfold execute
  split
  · exact regular_run h code _
  · exact Exec.regular_throw _

end Machine

end AgentLedger
