import AgentLedger.Node
import AgentLedger.Proofs.Pool.Indexes
import AgentLedger.Proofs.Producer.Adoption

namespace AgentLedger

/-!
# What becomes of admitted transactions

A node admits transactions to its pool, takes batches out of it in rounds of production, and adopts
blocks of others in between. Each admission is accounted for once: the transaction is still pending,
or the round that took it out put it into a block, or left it out of that block because it failed.
There is one more case. A round whose proposal fails has already emptied its batch out of the pool,
and these transactions are lost.
-/

/-! ## Batches -/

namespace Engine

/-- The transactions of a batch that fail. -/
def failures (e : Engine) (height : UInt64) : List Transaction → Ledger → List Transaction
  | [], _ => []
  | tx :: rest, l =>
      match e.apply l tx height with
      | (.ok _, next) => e.failures height rest next
      | (.error _, next) => tx :: e.failures height rest next

theorem perm_applyBatch (e : Engine) (height : UInt64) (batch : List Transaction) (l : Ledger) :
    batch.Perm ((e.applyBatch height batch l).1 ++ e.failures height batch l) := by
  induction batch generalizing l with
  | nil => exact .refl _
  | cons tx rest ih =>
      unfold applyBatch failures
      cases e.apply l tx height with
      | mk r next =>
          cases r with
          | ok _ => exact (ih next).cons tx
          | error _ => exact ((ih next).cons tx).trans List.perm_middle.symm

/-- A transaction that fails does so on the ledger that those before it in the batch leave. -/
theorem apply_of_mem_failures {e : Engine} {height : UInt64} {batch : List Transaction} {l : Ledger}
    {tx : Transaction} (mem : tx ∈ e.failures height batch l) :
    ∃ before after err, batch = before ++ tx :: after ∧
      (e.apply (e.applyBatch height before l).2 tx height).1 = .error err := by
  induction batch generalizing l with
  | nil => cases mem
  | cons first rest ih =>
      unfold failures at mem
      cases ran : e.apply l first height with
      | mk r next =>
          rw [ran] at mem
          have later (mem : tx ∈ e.failures height rest next) : ∃ before after err,
              first :: rest = before ++ tx :: after ∧
                (e.apply (e.applyBatch height before l).2 tx height).1 = .error err := by
            obtain ⟨before, after, err, split, failed⟩ := ih mem
            refine ⟨first :: before, after, err, by rw [split]; rfl, ?_⟩
            have passed : (e.applyBatch height (first :: before) l).2 =
                (e.applyBatch height before next).2 := by
              simp only [applyBatch, ran]
              cases r with
              | ok _ => rfl
              | error _ => rfl
            rw [passed]
            exact failed
          cases r with
          | ok _ => exact later mem
          | error err =>
              rcases List.mem_cons.1 mem with rfl | mem
              · exact ⟨[], rest, err, rfl, congrArg Prod.fst ran⟩
              · exact later mem

end Engine

namespace Producer

variable {p : Producer} {clock : Int64} {proposer : Address} {batch : List Transaction} {b : Block}
  {body : Body} {err : ChainError} {l : Ledger}

theorem transactions_of_buildBody_ok (h : (p.buildBody proposer batch l).1 = .ok body) :
    body.transactions = (p.engine.applyBatch p.nextHeight batch l).1 := by
  rw [buildBody_eq] at h
  simp only at h
  cases settled : (p.committer.settle proposer
      (p.engine.applyBatch p.nextHeight batch l).2).1 with
  | error _ =>
      rw [settled] at h
      cases h
  | ok _ =>
      rw [settled] at h
      cases h
      rfl

theorem tip_tick (p : Producer) (clock : Int64) (proposer : Address) (batch : List Transaction) :
    (p.tick clock proposer batch).tip = (p.propose clock proposer batch).2.tip := by
  simp only [tick]

theorem propose_ok_spec (h : (p.propose clock proposer batch).1 = .ok b) :
    b.transactions = (p.engine.applyBatch p.nextHeight batch p.ledger.checkpoint.2).1 ∧
      (p.propose clock proposer batch).2.tip = b := by
  have built := p.ledger.result_atomically (p.buildBody proposer batch)
  unfold propose at h ⊢
  cases ran : p.ledger.atomically (p.buildBody proposer batch) with
  | mk r ledger =>
      rw [ran] at h built
      cases r with
      | error _ => cases h
      | ok body =>
          cases h
          exact ⟨transactions_of_buildBody_ok built.symm, rfl⟩

theorem propose_error_tip (h : (p.propose clock proposer batch).1 = .error err) :
    (p.propose clock proposer batch).2.tip = p.tip := by
  unfold propose at h ⊢
  cases ran : p.ledger.atomically (p.buildBody proposer batch) with
  | mk r ledger =>
      rw [ran] at h
      cases r with
      | error _ => rfl
      | ok _ => cases h

end Producer

namespace Node

def pending (n : Node) : List Transaction := n.pool.pending.values

/-- The transactions that the next round takes out of the pool. -/
def nextBatch (n : Node) : List Transaction := (n.popBatch n.config.batchSize.toNat).1

theorem nextBatch_append (n : Node) (clock : Int64) (proposer : Address) :
    n.nextBatch ++ (n.tickFromPool clock proposer).pending = n.pending :=
  n.pool.popBatch_append n.config.batchSize.toNat

theorem producer_tickFromPool (n : Node) (clock : Int64) (proposer : Address) :
    (n.tickFromPool clock proposer).producer = n.producer.tick clock proposer n.nextBatch := by
  simp only [tickFromPool, tick, nextBatch, popBatch]

/-! ## One round -/

/-- A round of production, with the node as it is when the round begins. -/
structure Round where
  node : Node
  clock : Int64
  proposer : Address

namespace Round

def batch (r : Round) : List Transaction := r.node.nextBatch

def result (r : Round) : Except ChainError Block :=
  (r.node.producer.propose r.clock r.proposer r.batch).1

def after (r : Round) : Node := r.node.tickFromPool r.clock r.proposer

def included (r : Round) : List Transaction :=
  match r.result with
  | .ok b => b.transactions
  | .error _ => []

/-- What is left out of the block that is built. -/
def dropped (r : Round) : List Transaction :=
  match r.result with
  | .ok _ =>
      r.node.producer.engine.failures r.node.producer.nextHeight r.batch
        r.node.producer.ledger.checkpoint.2
  | .error _ => []

/-- What has left the pool for a block that is not built. -/
def lost (r : Round) : List Transaction :=
  match r.result with
  | .ok _ => []
  | .error _ => r.batch

/-- A transaction of the batch fails when its turn comes. -/
def Fails (r : Round) (tx : Transaction) : Prop :=
  ∃ before after err, r.batch = before ++ tx :: after ∧
    (r.node.producer.engine.apply
      (r.node.producer.engine.applyBatch r.node.producer.nextHeight before
        r.node.producer.ledger.checkpoint.2).2 tx r.node.producer.nextHeight).1 = .error err

theorem perm_batch (r : Round) : r.batch.Perm (r.included ++ r.dropped ++ r.lost) := by
  unfold included dropped lost
  cases made : r.result with
  | error _ => exact .refl _
  | ok b =>
      obtain ⟨txs, _⟩ := Producer.propose_ok_spec made
      simp only
      rw [txs, List.append_nil]
      exact r.node.producer.engine.perm_applyBatch _ _ _

theorem tip_after (r : Round) : r.after.producer.tip =
    (r.node.producer.propose r.clock r.proposer r.batch).2.tip := by
  unfold after
  rw [producer_tickFromPool, Producer.tip_tick, batch]

/-- The block of a round that succeeds is adopted by the node, and what the round drops has failed.
A round that fails adopts nothing and loses its batch. -/
theorem cases (r : Round) :
    (∃ b, r.result = .ok b ∧ r.after.producer.tip = b ∧ r.included = b.transactions ∧
      (∀ tx ∈ r.dropped, r.Fails tx) ∧ r.lost = []) ∨
    ∃ err, r.result = .error err ∧ r.after.producer.tip = r.node.producer.tip ∧
      r.included = [] ∧ r.dropped = [] ∧ r.lost = r.batch := by
  unfold included dropped lost
  rw [tip_after]
  cases made : r.result with
  | ok b =>
      obtain ⟨_, tip⟩ := Producer.propose_ok_spec made
      refine .inl ⟨b, rfl, tip, rfl, ?_, rfl⟩
      intro tx mem
      exact Engine.apply_of_mem_failures mem
  | error err =>
      have tip := Producer.propose_error_tip made
      exact .inr ⟨err, rfl, tip, rfl, rfl, rfl⟩

end Round

/-! ## Runs -/

inductive Event where
  | submit (tx : Transaction)
  | tick (clock : Int64) (proposer : Address)
  | adopt (b : Block)

def step (n : Node) : Event → Node
  | .submit tx =>
      match n.submit tx with
      | .ok (_, next) => next
      | .error _ => n
  | .tick clock proposer => n.tickFromPool clock proposer
  | .adopt b => (n.adopt b).2

def run (n : Node) (events : List Event) : Node := events.foldl step n

def admission (n : Node) : Event → List Transaction
  | .submit tx =>
      match n.submit tx with
      | .ok _ => [tx]
      | .error _ => []
  | _ => []

def admissions (n : Node) : List Event → List Transaction
  | [] => []
  | e :: rest => n.admission e ++ (n.step e).admissions rest

def roundOf (n : Node) : Event → List Round
  | .tick clock proposer => [⟨n, clock, proposer⟩]
  | _ => []

def rounds (n : Node) : List Event → List Round
  | [] => []
  | e :: rest => n.roundOf e ++ (n.step e).rounds rest

theorem perm_step (n : Node) (e : Event) : (n.pending ++ n.admission e).Perm
    ((n.step e).pending ++ (n.roundOf e).flatMap Round.batch) := by
  cases e with
  | submit tx =>
      cases added : n.pool.add tx with
      | error _ => simp [step, admission, roundOf, submit, added, bind, Except.bind]
      | ok answer =>
          obtain ⟨hash, pool⟩ := answer
          have grown : pool.pending.values.Perm (tx :: n.pending) := Pool.perm_add added
          have last : (n.pending ++ [tx]).Perm (tx :: n.pending) := List.perm_append_comm
          simp only [step, admission, roundOf, submit, added, bind, Except.bind, pure, Except.pure,
            List.flatMap_nil, List.append_nil]
          exact last.trans grown.symm
  | tick clock proposer =>
      have split := n.nextBatch_append clock proposer
      change (n.pending ++ []).Perm ((n.tickFromPool clock proposer).pending ++ (n.nextBatch ++ []))
      rw [List.append_nil, List.append_nil, ← split]
      exact List.perm_append_comm
  | adopt b => exact .refl _

theorem perm_run (n : Node) (events : List Event) :
    (n.pending ++ n.admissions events).Perm
      ((n.run events).pending ++ (n.rounds events).flatMap Round.batch) := by
  induction events generalizing n with
  | nil => exact .refl _
  | cons e rest ih =>
      let next := n.step e
      let taken := (n.roundOf e).flatMap Round.batch
      have first : (n.pending ++ n.admission e).Perm (next.pending ++ taken) := n.perm_step e
      have later : (next.pending ++ next.admissions rest).Perm
          ((next.run rest).pending ++ (next.rounds rest).flatMap Round.batch) := ih next
      unfold admissions rounds
      rw [List.flatMap_append]
      change (n.pending ++ (n.admission e ++ next.admissions rest)).Perm
        ((next.run rest).pending ++ (taken ++ (next.rounds rest).flatMap Round.batch))
      rw [← List.append_assoc]
      -- What the first event takes out of the pool is moved past what is admitted later.
      calc (n.pending ++ n.admission e ++ next.admissions rest).Perm
            (next.pending ++ taken ++ next.admissions rest) := first.append_right _
        List.Perm _ (taken ++ next.pending ++ next.admissions rest) :=
            List.perm_append_comm.append_right _
        List.Perm _ (taken ++ ((next.run rest).pending ++
            (next.rounds rest).flatMap Round.batch)) := by
            rw [List.append_assoc]
            exact later.append_left taken
        List.Perm _ ((next.run rest).pending ++
            (taken ++ (next.rounds rest).flatMap Round.batch)) :=
            List.perm_append_comm_assoc _ _ _

theorem perm_batches (rs : List Round) : (rs.flatMap Round.batch).Perm
    (rs.flatMap Round.included ++ rs.flatMap Round.dropped ++ rs.flatMap Round.lost) := by
  have each : (rs.flatMap Round.batch).Perm
      (rs.flatMap fun r => r.included ++ r.dropped ++ r.lost) :=
    .flatMap_left rs fun r _ => r.perm_batch
  have two := List.flatMap_append_perm rs Round.included Round.dropped
  have three := List.flatMap_append_perm rs (fun r => r.included ++ r.dropped) Round.lost
  exact each.trans (three.symm.trans (two.symm.append_right _))

/-- Every admission is accounted for once: the transaction is pending, or in the block of a round,
or left out of one because it failed, or in the batch of a round that failed. If all rounds succeed
there are none of the last kind. -/
theorem admissions_accounted (n : Node) (events : List Event) :
    (n.pending ++ n.admissions events).Perm
      ((n.run events).pending ++ ((n.rounds events).flatMap Round.included ++
        (n.rounds events).flatMap Round.dropped ++ (n.rounds events).flatMap Round.lost)) ∧
    (∀ r ∈ n.rounds events,
      (∃ b, r.result = .ok b ∧ r.after.producer.tip = b ∧ r.included = b.transactions ∧
        (∀ tx ∈ r.dropped, r.Fails tx) ∧ r.lost = []) ∨
      ∃ err, r.result = .error err ∧ r.after.producer.tip = r.node.producer.tip ∧
        r.included = [] ∧ r.dropped = [] ∧ r.lost = r.batch) ∧
    ((∀ r ∈ n.rounds events, ∃ b, r.result = .ok b) →
      (n.rounds events).flatMap Round.lost = []) := by
  refine ⟨?_, fun r _ => r.cases, fun succeed => ?_⟩
  · exact (n.perm_run events).trans ((perm_batches (n.rounds events)).append_left _)
  · apply List.flatMap_eq_nil_iff.2
    intro r mem
    obtain ⟨b, made⟩ := succeed r mem
    rcases r.cases with ⟨_, _, _, _, _, none⟩ | ⟨err, failed, _⟩
    · exact none
    · rw [made] at failed
      cases failed

/-- A node whose proposer has no room for a reward. -/
def brimming : Node where
  config := .standard
  pool := .new
  producer := .new (.ofContents (Contents.empty.setBalance .zero .max)) .new .new 64
  shared := false
  production := none

/-- The only transaction is admitted, and after one round it is nowhere. -/
theorem failed_round_loses_admission :
    ∃ tx, brimming.admissions [.submit tx, .tick 0 .zero] = [tx] ∧
      (brimming.run [.submit tx, .tick 0 .zero]).pending = [] ∧
      (brimming.run [.submit tx, .tick 0 .zero]).producer.tip = .genesis ∧
      (brimming.rounds [.submit tx, .tick 0 .zero]).flatMap Round.included = [] ∧
      (brimming.rounds [.submit tx, .tick 0 .zero]).flatMap Round.dropped = [] := by
  refine ⟨Producer.transferOfNothing, ?_⟩
  decide +kernel

end Node

end AgentLedger
