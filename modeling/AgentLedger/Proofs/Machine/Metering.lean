import AgentLedger.Proofs.Machine.Discipline

namespace AgentLedger

/-!
# Gas ahead

Gas is met by charges alone, and a charge compares what has been used with the limit. So a run does
not notice if more has been used before, as long as the limit is higher by the same amount: it ends
in the same way and leaves the same ledger, still ahead by that amount. Only the report that gas has
run out shows the difference. Whatever is not a charge does the same under every reading of the gas
meter, and leaves the reading as it is.
-/

/-- Errors that are equal but for the numbers in a report that gas has run out. -/
inductive ChainError.SameCause : ChainError → ChainError → Prop where
  | refl (e : ChainError) : SameCause e e
  | outOfGas {used used' amount limit limit' : UInt64} :
      SameCause (.outOfGas used amount limit) (.outOfGas used' amount limit')

inductive SameEnd {α : Type} : Except ChainError α → Except ChainError α → Prop where
  | ok (a : α) : SameEnd (.ok a) (.ok a)
  | error {e e' : ChainError} (same : e.SameCause e') : SameEnd (.error e) (.error e')

theorem SameEnd.refl {α : Type} (r : Except ChainError α) : SameEnd r r := by
  cases r with
  | ok a => exact .ok a
  | error e => exact .error (.refl e)

/-- The second frame has used `base` more gas than the first, and may use as much more. -/
structure CallFrame.Ahead (base : UInt64) (f g : CallFrame) : Prop where
  same : g = { f with gasUsed := g.gasUsed, gasLimit := g.gasLimit }
  used : g.gasUsed.toNat = f.gasUsed.toNat + base.toNat
  limit : g.gasLimit.toNat = f.gasLimit.toNat + base.toNat

namespace CallFrame.Ahead

variable {base : UInt64} {f g : CallFrame}

theorem ledger_eq (h : f.Ahead base g) : g.ledger = f.ledger := by rw [h.same]

theorem afterCharge (h : f.Ahead base g) {amount : UInt64}
    (enough : f.gasUsed.toNat + amount.toNat ≤ f.gasLimit.toNat) :
    { f with gasUsed := f.gasUsed + amount }.Ahead base
      { g with gasUsed := g.gasUsed + amount } where
  same := congrArg (fun k : CallFrame => { k with gasUsed := g.gasUsed + amount }) h.same
  used := by
    have used := h.used
    have limit := h.limit
    change (g.gasUsed + amount).toNat = (f.gasUsed + amount).toNat + base.toNat
    rw [toNat_gasUsed_add enough, toNat_gasUsed_add (by omega)]
    omega
  limit := h.limit

end CallFrame.Ahead

namespace Exec

variable {α β : Type} {base : UInt64}

/-- Two runs, one ahead of the other, end in the same way, and the one is ahead at the end. -/
def Shifts (base : UInt64) (x : Exec α) : Prop :=
  ∀ f g, f.Ahead base g →
    (x.runOn f).2.Ahead base (x.runOn g).2 ∧ SameEnd (x.runOn f).1 (x.runOn g).1

theorem shifts_pure (a : α) : Shifts base (pure a : Exec α) := fun _ _ ahead => ⟨ahead, .ok a⟩

theorem shifts_bind {x : Exec α} {k : α → Exec β} (hx : Shifts base x)
    (hk : ∀ a, Shifts base (k a)) : Shifts base (x >>= k) := by
  intro f g ahead
  obtain ⟨ahead', same⟩ := hx f g ahead
  rw [runOn_bind, runOn_bind]
  cases ran : x.runOn f with
  | mk r f' =>
      cases ran' : x.runOn g with
      | mk s g' =>
          rw [ran, ran'] at ahead' same
          cases same with
          | ok a => exact hk a f' g' ahead'
          | error cause => exact ⟨ahead', .error cause⟩

theorem shifts_charge (amount : UInt64) : Shifts base (charge amount) := by
  intro f g ahead
  have used := ahead.used
  have limit := ahead.limit
  rw [runOn_charge, runOn_charge]
  by_cases enough : f.gasUsed.toNat + amount.toNat ≤ f.gasLimit.toNat
  · have enough' : g.gasUsed.toNat + amount.toNat ≤ g.gasLimit.toNat := by omega
    rw [CallFrame.charge, CallFrame.charge, if_pos enough, if_pos enough']
    exact ⟨ahead.afterCharge enough, .ok ()⟩
  · have short : ¬ g.gasUsed.toNat + amount.toNat ≤ g.gasLimit.toNat := by omega
    rw [CallFrame.charge, CallFrame.charge, if_neg enough, if_neg short]
    exact ⟨ahead, .error .outOfGas⟩

end Exec

/-! ## What takes no gas -/

/-- The frame with another reading of the gas meter. -/
def CallFrame.withMeter (f : CallFrame) (used limit : UInt64) : CallFrame :=
  { f with gasUsed := used, gasLimit := limit }

namespace Exec

/-- A run neither looks at the gas meter nor moves it. -/
def Unmetered (x : Exec α) : Prop :=
  ∀ f used limit,
    x.runOn (f.withMeter used limit) = ((x.runOn f).1, (x.runOn f).2.withMeter used limit)

theorem unmetered_pure (a : α) : Unmetered (pure a : Exec α) := fun _ _ _ => rfl

theorem unmetered_throw (e : ChainError) : Unmetered (throw e : Exec α) := fun _ _ _ => rfl

theorem unmetered_lift (r : Except ChainError α) : Unmetered (liftM r : Exec α) := fun _ _ _ => rfl

theorem unmetered_contents : Unmetered contents := fun _ _ _ => rfl

theorem unmetered_bind {x : Exec α} {k : α → Exec β} (hx : Unmetered x)
    (hk : ∀ a, Unmetered (k a)) : Unmetered (x >>= k) := by
  intro f used limit
  rw [runOn_bind, runOn_bind, hx f used limit]
  cases x.runOn f with
  | mk r g =>
      cases r with
      | ok a => exact hk a g used limit
      | error e => rfl

/-- What is read off a frame must not depend on the gas. -/
theorem unmetered_get_bind {k : CallFrame → Exec α} (hk : ∀ f, Unmetered (k f))
    (same : ∀ (f : CallFrame) used limit, k (f.withMeter used limit) = k f) :
    Unmetered (get >>= k) := by
  intro f used limit
  have moved : (get >>= k).runOn (f.withMeter used limit) =
      (k (f.withMeter used limit)).runOn (f.withMeter used limit) := rfl
  rw [moved, same f used limit]
  exact hk f f used limit

theorem unmetered_changeLedger (change : Ledger → Except ChainError Ledger) :
    Unmetered (changeLedger change) := by
  intro f used limit
  have same : (f.withMeter used limit).ledger = f.ledger := rfl
  rw [runOn_changeLedger, runOn_changeLedger, same]
  cases change f.ledger with
  | ok l => rfl
  | error e => rfl

theorem unmetered_transfer (source target : Address) (value : Amount) :
    Unmetered (transfer source target value) := unmetered_changeLedger _

theorem unmetered_registerAgent (payload : Bytes) : Unmetered (registerAgent payload) := by
  refine unmetered_bind (unmetered_lift _) fun identity => ?_
  refine unmetered_bind (unmetered_lift _) fun _ => ?_
  exact unmetered_get_bind (fun f => unmetered_changeLedger _) fun _ _ _ => rfl

theorem unmetered_sendMessage (payload : Bytes) : Unmetered (sendMessage payload) :=
  unmetered_bind (unmetered_lift _) fun _ => unmetered_changeLedger _

theorem unmetered_proveInference (verify : ReceiptVerifier) (payload : Bytes) :
    Unmetered (proveInference verify payload) := by
  refine unmetered_bind (unmetered_lift _) fun receipt => ?_
  refine unmetered_bind unmetered_contents fun c => ?_
  exact unmetered_bind (unmetered_lift _) fun _ => unmetered_changeLedger _

theorem unmetered_verifyInference (verify : ReceiptVerifier) (payload : Bytes) :
    Unmetered (verifyInference verify payload) := by
  refine unmetered_bind (unmetered_lift _) fun receipt => ?_
  exact unmetered_bind unmetered_contents fun c => unmetered_pure _

theorem Unmetered.meter_eq {x : Exec α} (h : Unmetered x) (f : CallFrame) :
    (x.runOn f).2.gasUsed = f.gasUsed ∧ (x.runOn f).2.gasLimit = f.gasLimit := by
  have still : (x.runOn f).2 = (x.runOn f).2.withMeter f.gasUsed f.gasLimit :=
    congrArg Prod.snd (h f f.gasUsed f.gasLimit)
  rw [still]
  exact ⟨rfl, rfl⟩

theorem Unmetered.shifts {x : Exec α} (h : Unmetered x) : Shifts base x := by
  intro f g ahead
  obtain ⟨used, limit⟩ := h.meter_eq f
  have moved : x.runOn g = ((x.runOn f).1, (x.runOn f).2.withMeter g.gasUsed g.gasLimit) := by
    conv_lhs => rw [ahead.same]
    exact h f g.gasUsed g.gasLimit
  rw [moved]
  refine ⟨⟨rfl, ?_, ?_⟩, .refl _⟩
  · rw [used]
    exact ahead.used
  · rw [limit]
    exact ahead.limit

end Exec

end AgentLedger
