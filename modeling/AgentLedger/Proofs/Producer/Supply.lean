import AgentLedger.Proofs.Engine.Effects
import AgentLedger.Proofs.Ledger.Supply
import AgentLedger.Proofs.Producer.Runs

namespace AgentLedger

/-!
# The supply of a chain

No transaction changes the supply, so each block adds its reward to it and nothing else does: the
supply after any run from genesis is what it was at genesis and one reward per unit of height. As
long as the next reward fits, the supply is an amount, and within the next request neither a
transfer nor the reward overflows.
-/

section Effects

variable {verify : ReceiptVerifier} {caller : Address} {height : UInt64} {c d : Contents}

theorem Effect.supply_eq (h : Effect verify caller height c d) : d.supply = c.supply := by
  cases h with
  | transfer moved => exact Contents.supply_transfer moved
  | registerAgent _ registered =>
      exact Contents.supply_of_accounts_eq (Contents.accounts_registerAgent registered)
  | recordMessage m => exact Contents.supply_of_accounts_eq (c.accounts_recordMessage m)
  | recordReceipt _ => rfl
  | deploy _ _ => exact c.supply_setCode _ _

theorem Effects.supply_eq (h : Effects verify caller height c d) : d.supply = c.supply :=
  h.keeps fun _ _ effect => effect.supply_eq

end Effects

theorem NoncePolicy.supply_change (p : NoncePolicy) {tx : Transaction} {c d : Contents}
    (h : (p.change tx).onContents c = .ok d) : d.supply = c.supply := by
  obtain ⟨next, rfl⟩ := p.change_eq_ok h
  exact Contents.supply_modifyAccount_of_balance_eq fun _ => rfl

namespace Engine

variable {e : Engine} {l m : Ledger}

theorem supply_apply (bare : e.Bare) (l : Ledger) (tx : Transaction) (height : UInt64) :
    (e.apply l tx height).2.contents.supply = l.contents.supply :=
  apply_preserves bare (P := fun c => c.supply = l.contents.supply)
    (fun _ _ effect same => effect.supply_eq.trans same)
    (fun _ _ advanced same => (e.noncePolicy.supply_change advanced).trans same) rfl

theorem supply_applyBatch (bare : e.Bare) (height : UInt64) (batch : List Transaction)
    (l : Ledger) : (e.applyBatch height batch l).2.contents.supply = l.contents.supply :=
  applyBatch_preserves (P := fun c => c.supply = l.contents.supply)
    (fun l tx same => (supply_apply bare l tx height).trans same) batch rfl

theorem supply_applyBody (bare : e.Bare) {height : UInt64} {txs : List Transaction}
    (h : e.applyBody height txs l = (.ok (), m)) : m.contents.supply = l.contents.supply := by
  have batch := supply_applyBatch bare height txs l
  rw [applyBatch_of_applyBody h] at batch
  exact batch

/-- Where the supply is an amount no transfer overflows, so the verifier must have said so where the
transaction has stopped. -/
theorem verifier_of_apply_overflow (bare : e.Bare) {tx : Transaction} {height : UInt64}
    {owner : Address} (room : l.contents.supply < Amount.bound)
    (overflowed : (e.apply l tx height).1 = .error (.invalidOperation (.balanceOverflow owner))) :
    Effects e.machine.verifyReceipt tx.sender height l.contents (e.reached l tx height) ∧
      ∃ r : InferenceReceipt, r.validateStructure = .ok () ∧
        e.machine.verifyReceipt r (e.reached l tx height) =
          .error (.invalidOperation (.balanceOverflow owner)) := by
  obtain ⟨effects, reports⟩ := apply_overflow bare overflowed
  refine ⟨effects, ?_⟩
  cases reports with
  | transfer refused =>
      have small : (e.reached l tx height).supply < Amount.bound := effects.supply_eq ▸ room
      exact absurd refused (Contents.transfer_ne_overflow _ small _ _ _ owner)
  | verifier shape refused => exact ⟨_, shape, refused⟩

end Engine

namespace Producer

variable {p q : Producer} {b : Block}

theorem Extends.supply_eq (h : p.Extends q b) (bare : p.engine.Bare) :
    q.ledger.contents.supply = p.ledger.contents.supply + Policy.blockReward.units := by
  obtain ⟨applied, ran, rewarded⟩ := h.applied
  have kept := Engine.supply_applyBody bare ran
  have added := Contents.supply_credit rewarded
  rw [added, kept]
  rfl

theorem supply_run (bare : p.engine.Bare) (requests : List Request) :
    (p.run requests).ledger.contents.supply =
      p.ledger.contents.supply + Policy.blockReward.units * (p.adopted requests).length := by
  induction requests generalizing p with
  | nil => rfl
  | cons r rest ih =>
      have bare' : (p.serve r).2.engine.Bare := engine_serve bare.disciplined r ▸ bare
      have later := ih bare'
      rw [run_cons, adopted, List.length_append, Nat.mul_add]
      rcases serve_cases bare.disciplined r with ⟨b, granted, extended⟩ | ⟨refused, same⟩
      · have added := extended.supply_eq bare
        rw [granted, Option.toList_some, List.length_singleton]
        omega
      · rw [refused, Option.toList_none, List.length_nil, later, same.contents_eq]
        omega

/-! ## Inside a request -/

/-- The ledgers on which a request goes on after it has run transactions. A block that is being
built leaves out those that fail, and one that is being adopted has none that fail. -/
inductive WorksOn (p : Producer) (height : UInt64) (txs : List Transaction) : Ledger → Prop where
  | building : p.WorksOn height txs (p.engine.applyBatch height txs p.ledger.checkpoint.2).2
  | adopting {l : Ledger}
      (ran : p.engine.applyBody height txs p.ledger.checkpoint.2 = (.ok (), l)) :
      p.WorksOn height txs l

theorem WorksOn.supply_eq {height : UInt64} {txs : List Transaction} {l : Ledger}
    (h : p.WorksOn height txs l) (bare : p.engine.Bare) :
    l.contents.supply = p.ledger.contents.supply := by
  have opened : p.ledger.checkpoint.2.contents.supply = p.ledger.contents.supply := rfl
  cases h with
  | building => exact (Engine.supply_applyBatch bare height txs _).trans opened
  | adopting ran => exact (Engine.supply_applyBody bare ran).trans opened

/-- Transactions keep the supply, and every block adds one reward. While there is room for the next
reward the computed supply is exact, and in no request can a transfer overflow or the reward be
refused. If a transaction still reports an overflow, that is what the verifier says of a receipt of
the right shape in the contents where the transaction has stopped. -/
theorem supply_law (bare : p.engine.Bare) (genesis : p.tip = .genesis) (requests : List Request)
    (few : (p.adopted requests).length < UInt64.size) :
    (∀ l tx height, (p.engine.apply l tx height).2.contents.supply = l.contents.supply) ∧
    (p.run requests).ledger.contents.supply = p.ledger.contents.supply +
      Policy.blockReward.units * (p.run requests).tip.header.height.toNat ∧
    (p.ledger.contents.supply + Policy.blockReward.units *
        ((p.run requests).tip.header.height.toNat + 1) < Amount.bound →
      (p.run requests).ledger.contents.totalSupply.units =
        (p.run requests).ledger.contents.supply ∧
      ∀ height txs l, (p.run requests).WorksOn height txs l →
        (∀ tx owner, (p.engine.apply l tx height).1 =
            .error (.invalidOperation (.balanceOverflow owner)) →
          Effects p.engine.machine.verifyReceipt tx.sender height l.contents
              (p.engine.reached l tx height) ∧
            ∃ r : InferenceReceipt, r.validateStructure = .ok () ∧
              p.engine.machine.verifyReceipt r (p.engine.reached l tx height) =
                .error (.invalidOperation (.balanceOverflow owner))) ∧
        ∀ proposer, ∃ credited, l.credit proposer Policy.blockReward = .ok credited) := by
  have grown := supply_run bare requests
  have start : p.tip.header.height.toNat = 0 := by
    rw [genesis]
    rfl
  have height : (p.run requests).tip.header.height.toNat = (p.adopted requests).length := by
    rw [height_run bare.disciplined (by omega), start, Nat.zero_add]
  rw [← height] at grown
  refine ⟨Engine.supply_apply bare, grown, fun room => ?_⟩
  -- The room is what is left above the present supply.
  rw [Nat.mul_add, ← Nat.add_assoc, ← grown] at room
  have small : (p.run requests).ledger.contents.supply < Amount.bound := by omega
  refine ⟨Contents.units_totalSupply _ small, fun height txs l works => ?_⟩
  have same := works.supply_eq (engine_run bare.disciplined requests ▸ bare)
  refine ⟨?_, fun proposer => ?_⟩
  · intro tx owner overflowed
    exact Engine.verifier_of_apply_overflow bare (same ▸ small) overflowed
  · rw [← same, Nat.mul_one] at room
    obtain ⟨c, rewarded⟩ := l.contents.credit_eq_ok_of_room proposer Policy.blockReward room
    unfold Ledger.credit
    rw [rewarded]
    exact ⟨_, rfl⟩

/-- A producer at genesis whose machine has no extensions. -/
def plain : Producer :=
  .new .empty ⟨0, SortedMap.empty.insert .zero (.new .zero [] 0 0)⟩ .new 64

/-- The genesis block cannot be adopted, and the reward for the block that is proposed is all there
is. -/
theorem plain_supply :
    (plain.adopted [.propose ⟨0, .zero, [transferOfNothing]⟩, .adopt .genesis]).length = 1 ∧
    (plain.run [.propose ⟨0, .zero, [transferOfNothing]⟩, .adopt .genesis]
      ).ledger.contents.totalSupply = Policy.blockReward := by
  let requests : List Request := [.propose ⟨0, .zero, [transferOfNothing]⟩, .adopt .genesis]
  have one : (plain.adopted requests).length = 1 := by decide +kernel
  have height : (plain.run requests).tip.header.height.toNat = 1 := by decide +kernel
  have bare : plain.engine.Bare := Machine.bare_ofVerifier _
  obtain ⟨_, grown, exactly⟩ := supply_law bare rfl requests (by rw [one]; decide)
  rw [height] at grown exactly
  obtain ⟨computed, _⟩ := exactly (by decide)
  exact ⟨one, Amount.ext (computed.trans grown)⟩

end Producer

end AgentLedger
