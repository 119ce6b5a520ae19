import AgentLedger.Proofs.Ledger.Regular
import AgentLedger.Engine
import AgentLedger.Transaction.Draft

namespace AgentLedger

/-!
# Transactions that cannot pay their fixed cost

A transaction under whose gas limit not even the fixed cost fits runs out of gas before anything
else about it is looked at. A deployment is the exception. What it costs in all depends on its code,
so its payload is read before any gas is charged, and if that cannot be read the fault is found in
the payload, however little gas there is. The ledger stays as it was in any case.
-/

/-- What every transaction of a kind costs, whatever it goes on to do. -/
def TransactionKind.fixedCost? : TransactionKind → Option UInt64
  | transfer => some Gas.transfer
  | agentRegister => some Gas.agentRegister
  | agentMessage => some Gas.agentMessage
  | inferenceReceipt => some Gas.inferenceReceipt
  | deployContract => some Gas.deployBase
  | callContract => some Gas.callBase
  | agentDelegate | validatorStake | validatorUnstake => none

theorem Gas.deployBase_le_deployment (length : Nat) : deployBase ≤ deployment length := by
  rw [UInt64.le_iff_toNat_le, toNat_deployment]
  change 32000 ≤ _
  omega

namespace Exec

variable {α β : Type} {amount : UInt64} {x : Exec α}

/-- Where an amount does not fit under the limit, the charge for it fails and nothing happens
before. -/
def PaysFirst (amount : UInt64) (x : Exec α) : Prop :=
  ∀ f : CallFrame, f.gasLimit.toNat < f.gasUsed.toNat + amount.toNat →
    x.runOn f = (.error (.outOfGas f.gasUsed amount f.gasLimit), f)

theorem paysFirst_charge (amount : UInt64) : PaysFirst amount (charge amount) := by
  intro f short
  rw [runOn_charge, CallFrame.charge, if_neg (Nat.not_le.2 short)]

theorem PaysFirst.bind (h : PaysFirst amount x) (k : α → Exec β) : PaysFirst amount (x >>= k) := by
  intro f short
  rw [runOn_bind, h f short]

theorem PaysFirst.after_reading {r : Except ChainError α} {a : α} {k : α → Exec β}
    (h : PaysFirst amount (k a)) (read : r = .ok a) : PaysFirst amount (liftM r >>= k) := by
  intro f short
  rw [runOn_bind, runOn_lift, read]
  exact h f short

end Exec

namespace Engine

open Exec

variable {e : Engine} {l : Ledger} {tx : Transaction} {height cost : UInt64} {err : ChainError}
  {d : ContractDeployment}

/-! ## What is charged first -/

theorem paysFirst_dispatch (fixed : tx.kind.fixedCost? = some cost)
    (other : tx.kind ≠ .deployContract) : PaysFirst cost (e.dispatch tx) := by
  unfold dispatch
  cases kind : tx.kind with
  | transfer =>
      cases kind ▸ fixed
      exact ((paysFirst_charge _).bind _).bind _
  | agentRegister | agentMessage | inferenceReceipt | callContract =>
      cases kind ▸ fixed
      exact (paysFirst_charge _).bind _
  | deployContract => exact absurd kind other
  | agentDelegate | validatorStake | validatorUnstake => cases kind ▸ fixed

theorem paysFirst_dispatch_deployContract (kind : tx.kind = .deployContract)
    (read : Wire.decode? tx.payload = some d) :
    PaysFirst (Gas.deployment d.code.length) (e.dispatch tx) := by
  have operand : Wire.decodeOperand tx.payload = .ok d := by rw [Wire.decodeOperand, read]
  unfold dispatch
  rw [kind]
  refine PaysFirst.bind (.after_reading ?_ operand) _
  exact (paysFirst_charge _).bind _

theorem dispatch_of_unreadable (kind : tx.kind = .deployContract)
    (unreadable : (Wire.decode? tx.payload : Option ContractDeployment) = none) (f : CallFrame) :
    (e.dispatch tx).runOn f = (.error (.invalidOperation .malformedPayload), f) := by
  have failed : (Wire.decodeOperand tx.payload : Except ChainError ContractDeployment) =
      .error (.invalidOperation .malformedPayload) := by rw [Wire.decodeOperand, unreadable]
  unfold dispatch deploy
  rw [kind]
  simp only [runOn_bind, runOn_lift, failed]

/-! ## The transaction as a whole -/

/-- A run that fails without a trace leaves no trace in the ledger, whatever the machine can do. -/
theorem apply_of_dispatch_error (unchecked : e.noncePolicy = .unchecked) (l : Ledger)
    (height : UInt64) (failed : ∀ f : CallFrame, f.gasUsed = 0 →
      f.gasLimit = tx.gasLimit → (e.dispatch tx).runOn f = (.error err, f)) :
    (e.apply l tx height).1 = .error err ∧ (e.apply l tx height).2.contents = l.contents ∧
      (l.Tidy → (e.apply l tx height).2 = l) := by
  have applied : e.apply l tx height =
      (.error err, l.checkpoint.2.revertTo l.checkpoint.1) := by
    unfold apply
    rw [unchecked]
    simp only [NoncePolicy.check, Ledger.atomically_eq, attempt, failed (.enter _ _ _ _) rfl rfl]
    rfl
  rw [applied]
  exact ⟨rfl, (Ledger.GoesBackTo.refl _).contents_revertTo rfl,
    Ledger.revertTo_checkpoint rfl (.refl _)⟩

theorem apply_of_paysFirst {amount : UInt64} (unchecked : e.noncePolicy = .unchecked)
    (pays : PaysFirst amount (e.dispatch tx)) (short : tx.gasLimit < amount) (l : Ledger)
    (height : UInt64) :
    (e.apply l tx height).1 = .error (.outOfGas 0 amount tx.gasLimit) ∧
      (e.apply l tx height).2.contents = l.contents ∧
      (l.Tidy → (e.apply l tx height).2 = l) := by
  refine apply_of_dispatch_error unchecked l height fun f fresh limit => ?_
  have beyond : f.gasLimit.toNat < f.gasUsed.toNat + amount.toNat := by
    rw [fresh, limit]
    change _ < 0 + _
    rwa [Nat.zero_add, ← UInt64.lt_iff_toNat_lt]
  rw [pays f beyond, fresh, limit]

/-- Whatever the ledger, the recipient and the payload, a transaction whose limit is below its fixed
cost fails without a trace. It runs out of gas, be the rest of it sound or not, unless it is a
deployment that cannot be read. -/
theorem fails_short_of_fixed_cost (unchecked : e.noncePolicy = .unchecked) (l : Ledger)
    (tx : Transaction) (height : UInt64) (fixed : tx.kind.fixedCost? = some cost)
    (short : tx.gasLimit < cost) :
    (tx.kind ≠ .deployContract →
      (e.apply l tx height).1 = .error (.outOfGas 0 cost tx.gasLimit)) ∧
    (tx.kind = .deployContract →
      (∀ d : ContractDeployment, Wire.decode? tx.payload = some d → (e.apply l tx height).1 =
        .error (.outOfGas 0 (Gas.deployment d.code.length) tx.gasLimit)) ∧
      ((Wire.decode? tx.payload : Option ContractDeployment) = none →
        (e.apply l tx height).1 = .error (.invalidOperation .malformedPayload))) ∧
    (e.apply l tx height).2.contents = l.contents ∧ (l.Tidy → (e.apply l tx height).2 = l) := by
  by_cases kind : tx.kind = .deployContract
  · have base : Gas.deployBase = cost := by
      rw [kind] at fixed
      exact Option.some.inj fixed
    cases read : (Wire.decode? tx.payload : Option ContractDeployment) with
    | none =>
        obtain ⟨refused, unchanged⟩ := apply_of_dispatch_error unchecked l height
          fun f _ _ => dispatch_of_unreadable kind read f
        exact ⟨absurd kind, fun _ => ⟨nofun, fun _ => refused⟩, unchanged⟩
    | some d =>
        have below : tx.gasLimit < Gas.deployment d.code.length :=
          UInt64.lt_of_lt_of_le short (base ▸ Gas.deployBase_le_deployment _)
        obtain ⟨out, unchanged⟩ := apply_of_paysFirst unchecked
          (paysFirst_dispatch_deployContract kind read) below l height
        refine ⟨absurd kind, fun _ => ⟨fun d' same => ?_, nofun⟩, unchanged⟩
        cases same
        exact out
  · obtain ⟨out, unchanged⟩ := apply_of_paysFirst unchecked (paysFirst_dispatch fixed kind) short l
      height
    exact ⟨fun _ => out, fun deploys => absurd deploys kind, unchanged⟩

/-! Transactions without any gas, some of them with a payload that is not even text. -/

def gasless (kind : TransactionKind) (payload : Bytes) : Transaction :=
  { Transaction.draft kind .zero 0 0 1 with payload }

/-- The call names no contract. The code has two bytes. -/
theorem gasless_runs_out :
    (new.apply .empty (gasless .callContract [255]) 1).1 = .error (.outOfGas 0 700 0) ∧
    (new.apply .empty (gasless .callContract [255]) 1).2 = .empty ∧
    (new.apply .empty (gasless .deployContract (Wire.encode (ContractDeployment.mk [0, 1]))) 1).1 =
      .error (.outOfGas 0 32400 0) := by
  have tidy : Ledger.empty.Tidy := Ledger.tidy_ofContents _
  obtain ⟨out, _, _, unchanged⟩ := fails_short_of_fixed_cost (e := new) rfl .empty
    (gasless .callContract [255]) 1 rfl (by decide)
  obtain ⟨_, deploys, _⟩ := fails_short_of_fixed_cost (e := new) rfl .empty
    (gasless .deployContract (Wire.encode (ContractDeployment.mk [0, 1]))) 1 rfl (by decide)
  obtain ⟨readable, _⟩ := deploys rfl
  exact ⟨out nofun, unchanged tidy, readable ⟨[0, 1]⟩ (by decide)⟩

theorem gasless_deployment_blames_payload :
    (new.apply .empty (gasless .deployContract [255]) 1).1 =
      .error (.invalidOperation .malformedPayload) ∧
    ∀ used requested limit, (new.apply .empty (gasless .deployContract [255]) 1).1 ≠
      .error (.outOfGas used requested limit) := by
  have refused : (new.apply .empty (gasless .deployContract [255]) 1).1 =
      .error (.invalidOperation .malformedPayload) := by decide
  refine ⟨refused, fun used requested limit => ?_⟩
  rw [refused]
  nofun

end Engine

end AgentLedger
