import AgentLedger.Proofs.Machine.Effects
import AgentLedger.Proofs.Machine.Metering
import AgentLedger.Proofs.Machine.Success

namespace AgentLedger

/-!
# Gas limits

A gas limit acts as a threshold. A run that succeeds ends in the same way under every limit that
covers what it uses, and under a lower one it stops at the first charge that is not covered. What
code uses does not depend on its operands or on its caller: it is the sum of what its operations
cost, up to the first byte at which it stops or returns.
-/

/-! ## The gas meter -/

namespace CallFrame

variable {f g : CallFrame} {amount : UInt64}

theorem gasUsed_of_charge (paid : f.charge amount = .ok g) :
    g.gasUsed.toNat = f.gasUsed.toNat + amount.toNat := by
  obtain ⟨enough, rfl⟩ := charge_eq_ok paid
  exact toNat_gasUsed_add enough

/-- A charge is added in full, or else it is refused and nothing changes. It is refused exactly if
the exact sum passes the limit. -/
theorem charge_cases (f : CallFrame) (amount : UInt64) :
    (∃ g, (Exec.charge amount).runOn f = (.ok (), g) ∧ g = { f with gasUsed := g.gasUsed } ∧
      g.gasUsed.toNat = f.gasUsed.toNat + amount.toNat ∧ g.gasUsed ≤ g.gasLimit) ∨
    (Exec.charge amount).runOn f = (.error (.outOfGas f.gasUsed amount f.gasLimit), f) ∧
      f.gasLimit.toNat < f.gasUsed.toNat + amount.toNat := by
  rw [Exec.runOn_charge]
  by_cases enough : f.gasUsed.toNat + amount.toNat ≤ f.gasLimit.toNat
  · have charged : f.charge amount = .ok { f with gasUsed := f.gasUsed + amount } := if_pos enough
    have used := gasUsed_of_charge charged
    rw [charged]
    refine .inl ⟨_, rfl, rfl, used, ?_⟩
    rw [UInt64.le_iff_toNat_le, used]
    exact enough
  · rw [charge, if_neg enough]
    exact .inr ⟨rfl, Nat.not_le.1 enough⟩

/-- The frames differ in what has been used at most, and no more has been used than is allowed. -/
structure Charged (f g : CallFrame) : Prop where
  same : g = { f with gasUsed := g.gasUsed }
  within : g.gasUsed ≤ g.gasLimit

theorem Charged.charge (h : f.Charged g) (amount : UInt64) :
    f.Charged ((Exec.charge amount).runOn g).2 := by
  rcases g.charge_cases amount with ⟨k, charged, same, _, within⟩ | ⟨refused, _⟩
  · rw [charged]
    refine ⟨same.trans ?_, within⟩
    exact congrArg (fun g : CallFrame => { g with gasUsed := k.gasUsed }) h.same
  · rw [refused]
    exact h

/-- Charges one amount after another, and goes on where one is refused. -/
def chargeAll (f : CallFrame) (amounts : List UInt64) : CallFrame :=
  amounts.foldl (fun g amount => ((Exec.charge amount).runOn g).2) f

theorem Charged.chargeAll (h : f.Charged g) (amounts : List UInt64) :
    f.Charged (g.chargeAll amounts) := by
  induction amounts generalizing g with
  | nil => exact h
  | cons amount rest ih => exact ih (h.charge amount)

theorem toNat_gasLeft (f : CallFrame) : f.gasLeft.toNat = f.gasLimit.toNat - f.gasUsed.toNat :=
  UInt64.toNat_ofNat_of_lt' (Nat.lt_of_le_of_lt (Nat.sub_le _ _) f.gasLimit.toNat_lt)

/-- The frame with another gas limit. -/
def withLimit (f : CallFrame) (limit : UInt64) : CallFrame := f.withMeter f.gasUsed limit

theorem charge_withLimit (f : CallFrame) (limit amount : UInt64) :
    (f.withLimit limit).charge amount =
      if f.gasUsed.toNat + amount.toNat ≤ limit.toNat then
        .ok ({ f with gasUsed := f.gasUsed + amount }.withLimit limit)
      else .error (.outOfGas f.gasUsed amount limit) := rfl

end CallFrame

/-! ## Limits as thresholds -/

namespace Exec

variable {α β : Type} {x : Exec α} {f g : CallFrame} {a : α}

/-- What has been used at the end of a run is a threshold. A limit that covers it makes no
difference, and a lower one stops the run, as long as it covers what had been used before. -/
structure Threshold (x : Exec α) (f : CallFrame) (a : α) (g : CallFrame) : Prop where
  used_le : f.gasUsed ≤ g.gasUsed
  enough : ∀ limit, g.gasUsed ≤ limit →
    x.runOn (f.withLimit limit) = (.ok a, g.withLimit limit)
  short : ∀ limit, f.gasUsed ≤ limit → limit < g.gasUsed →
    ∃ used amount h, x.runOn (f.withLimit limit) = (.error (.outOfGas used amount limit), h)

/-- A run looks at its limit to tell whether a charge is covered, and for nothing else. -/
def Metered (x : Exec α) : Prop := ∀ f a g, x.runOn f = (.ok a, g) → Threshold x f a g

theorem Unmetered.metered (h : Unmetered x) : Metered x := by
  intro f a g ran
  obtain ⟨used, _⟩ := h.meter_eq f
  rw [ran] at used
  have same : g.gasUsed = f.gasUsed := used
  refine ⟨UInt64.le_of_eq same.symm, fun limit _ => ?_, fun limit least below => ?_⟩
  · rw [CallFrame.withLimit, h, ran, CallFrame.withLimit, same]
  · rw [same] at below
    exact absurd least (UInt64.not_le.2 below)

theorem metered_charge (amount : UInt64) : Metered (charge amount) := by
  intro f a g ran
  rw [runOn_charge] at ran
  cases charged : f.charge amount with
  | error _ =>
      rw [charged] at ran
      cases ran
  | ok k =>
      rw [charged] at ran
      cases ran
      have used := CallFrame.gasUsed_of_charge charged
      obtain ⟨_, rfl⟩ := CallFrame.charge_eq_ok charged
      refine ⟨?_, fun limit covered => ?_, fun limit _ below => ?_⟩
      · rw [UInt64.le_iff_toNat_le, used]
        exact Nat.le_add_right _ _
      · rw [UInt64.le_iff_toNat_le, used] at covered
        rw [runOn_charge, CallFrame.charge_withLimit, if_pos covered]
      · rw [UInt64.lt_iff_toNat_lt, used] at below
        rw [runOn_charge, CallFrame.charge_withLimit, if_neg (Nat.not_le.2 below)]
        exact ⟨_, _, _, rfl⟩

theorem metered_bind {k : α → Exec β} (hx : Metered x) (hk : ∀ a, Metered (k a)) :
    Metered (x >>= k) := by
  intro f b h ran
  obtain ⟨a, g, first, second⟩ := runOn_bind_eq_ok ran
  have before := hx f a g first
  have after := hk a g b h second
  refine ⟨UInt64.le_trans before.used_le after.used_le, fun limit covered => ?_,
    fun limit least below => ?_⟩
  · have passed := before.enough limit (UInt64.le_trans after.used_le covered)
    rw [runOn_bind, passed]
    exact after.enough limit covered
  · rw [runOn_bind]
    rcases UInt64.lt_or_le limit g.gasUsed with early | reached
    · obtain ⟨used, amount, stopped, out⟩ := before.short limit least early
      rw [out]
      exact ⟨used, amount, stopped, rfl⟩
    · rw [before.enough limit reached]
      exact after.short limit reached below

end Exec

/-! ## Code -/

/-- What code costs up to the first byte at which it stops or returns. -/
def Opcode.costOf : Bytes → Nat
  | [] => 0
  | byte :: rest =>
      match ofByte? byte with
      | some .stop | some .ret => 0
      | some op => op.gasCost.toNat + costOf rest
      | none => costOf rest

namespace Machine

open Exec

variable {m : Machine} {f g : CallFrame}

theorem unmetered_perform (m : Machine) (op : Operation) (operand : Option Bytes) :
    Unmetered (m.perform op operand) := by
  cases op with
  | agentRegister =>
      refine unmetered_bind (unmetered_lift _) fun payload => ?_
      exact unmetered_bind (unmetered_registerAgent payload) fun _ => unmetered_pure _
  | agentSend =>
      refine unmetered_bind (unmetered_lift _) fun payload => ?_
      exact unmetered_bind (unmetered_sendMessage payload) fun _ => unmetered_pure _
  | agentDelegate => exact unmetered_throw _
  | inferProve =>
      refine unmetered_bind (unmetered_lift _) fun payload => ?_
      exact unmetered_bind (unmetered_proveInference _ payload) fun _ => unmetered_pure _
  | inferVerify =>
      refine unmetered_bind (unmetered_lift _) fun payload => ?_
      exact unmetered_bind (unmetered_verifyInference _ payload) fun _ => unmetered_pure _
  | tokenTransfer =>
      refine unmetered_bind (unmetered_lift _) fun payload => ?_
      refine unmetered_bind (unmetered_lift _) fun args => ?_
      refine unmetered_get_bind (fun f => ?_) fun _ _ _ => rfl
      exact unmetered_bind (unmetered_transfer _ _ _) fun _ => unmetered_pure _

theorem metered_step (bare : m.Bare) (byte : UInt8) (stack : List Bytes) :
    Metered (m.step byte stack) := by
  unfold step
  split
  · exact (unmetered_pure _).metered
  · exact (unmetered_bind (unmetered_lift _) fun top => unmetered_pure _).metered
  · exact (unmetered_throw _).metered
  · next op _ =>
      refine metered_bind (metered_charge _) fun _ => Unmetered.metered ?_
      refine unmetered_bind (m.unmetered_perform op _) fun result => ?_
      exact unmetered_bind (unmetered_lift _) fun next => unmetered_pure _
  · rw [bare byte]
    exact (unmetered_throw _).metered

theorem metered_run (bare : m.Bare) (code : Bytes) (stack : List Bytes) :
    Metered (m.run code stack) := by
  induction code generalizing stack with
  | nil => exact (unmetered_pure _).metered
  | cons byte rest ih =>
      rw [run_cons]
      refine metered_bind (metered_step bare byte stack) fun s => ?_
      cases s with
      | finished output => exact (unmetered_pure output).metered
      | running next => exact ih next

theorem metered_execute (bare : m.Bare) (code : Bytes) (operands : List Bytes) :
    Metered (m.execute code operands) := by
  unfold execute
  split
  · exact metered_run bare code _
  · exact (unmetered_throw _).metered

/-- What is still to be paid for after a step; a run that has finished has paid for everything. -/
def Step.costAhead (rest : Bytes) : Step → Nat
  | .finished _ => 0
  | .running _ => Opcode.costOf rest

theorem gasUsed_step (bare : m.Bare) {byte : UInt8} {stack : List Bytes} {s : Step} (rest : Bytes)
    (ran : (m.step byte stack).runOn f = (.ok s, g)) :
    f.gasUsed.toNat + Opcode.costOf (byte :: rest) = g.gasUsed.toNat + s.costAhead rest := by
  cases step_eq_ok ran with
  | stop stops => simp only [Opcode.costOf, stops, Step.costAhead]
  | ret returns _ => simp only [Opcode.costOf, returns, Step.costAhead]
  | operation opcode _ paid _ alters _ =>
      simp only [alters.gasUsed_eq, CallFrame.gasUsed_of_charge paid, Opcode.costOf, opcode,
        Opcode.gasCost, Step.costAhead, Nat.add_assoc]
  | extension _ found _ =>
      rw [bare byte] at found
      cases found

theorem gasUsed_run (bare : m.Bare) {code : Bytes} {stack : List Bytes} {output : Option Bytes}
    (ran : (m.run code stack).runOn f = (.ok output, g)) :
    g.gasUsed.toNat = f.gasUsed.toNat + Opcode.costOf code := by
  induction code generalizing stack f with
  | nil =>
      cases ran
      rfl
  | cons byte rest ih =>
      rw [run_cons] at ran
      obtain ⟨s, mid, stepped, ran⟩ := runOn_bind_eq_ok ran
      rw [gasUsed_step bare rest stepped]
      cases s with
      | finished result =>
          cases ran
          rfl
      | running next => exact ih ran

theorem gasUsed_execute (bare : m.Bare) {code : Bytes} {operands : List Bytes}
    {output : Option Bytes} (ran : (m.execute code operands).runOn f = (.ok output, g)) :
    g.gasUsed.toNat = f.gasUsed.toNat + Opcode.costOf code := by
  unfold execute at ran
  split at ran
  · exact gasUsed_run bare ran
  · cases ran

end Machine

end AgentLedger
