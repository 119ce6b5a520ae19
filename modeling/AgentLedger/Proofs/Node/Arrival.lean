import AgentLedger.Proofs.Node.Admissions
import AgentLedger.Proofs.Pool.Requests
import AgentLedger.Proofs.Producer.Signatures
import AgentLedger.Transaction.Draft

namespace AgentLedger

/-!
# Orders of arrival

A pool that breaks ties by hash keeps nothing of the way in which it came to hold what it holds, but
for the signatures that were seen first. Nodes that agree and hold the same hashes therefore take
the same batch in the same order, and a round comes to the same on each of them, whatever their
clocks say and whoever signs their blocks.
-/

namespace Pool

variable {p q : Pool} {txs : List Transaction}

/-- The pending transactions at their places, without their signatures. -/
def unsigned (p : Pool) : SortedMap Rank Transaction where
  entries := p.pending.entries.map fun e => (e.1, e.2.unsigned)
  sorted := List.pairwise_map.2 p.pending.sorted

theorem values_unsigned (p : Pool) : p.unsigned.values = p.pending.values.map .unsigned := by
  simp [unsigned, SortedMap.values]

theorem mem_unsigned_of_mem (tp : p.tieBreak = .hash) (tq : q.tieBreak = .hash)
    (clean : Hash256.NoCollision (txs.map Transaction.preimage))
    (hp : ∀ tx ∈ p.pending.values, tx ∈ txs) (hq : ∀ tx ∈ q.pending.values, tx ∈ txs)
    (held : ∀ hash, p.contains hash = q.contains hash) {e : Rank × Transaction}
    (mem : e ∈ p.unsigned.entries) : e ∈ q.unsigned.entries := by
  obtain ⟨d, memD, rfl⟩ := List.mem_map.1 mem
  have pendingD : d.2 ∈ p.pending.values := List.mem_map_of_mem memD
  have known : q.contains d.2.hash := by
    rw [← held]
    exact contains_iff.2 ⟨d.2, pendingD, rfl⟩
  obtain ⟨tx, pendingE, hash⟩ := contains_iff.1 known
  obtain ⟨e, memE, rfl⟩ := List.mem_map.1 pendingE
  have content : e.2.unsigned = d.2.unsigned :=
    (Transaction.hash_eq_iff clean (hq _ pendingE) (hp _ pendingD)).1 hash
  have place : e.1 = d.1 := by
    have price := congrArg Transaction.gasPrice content
    change e.2.gasPrice = d.2.gasPrice at price
    obtain ⟨_, _, placeD⟩ := rank_of_mem_pending memD
    obtain ⟨_, _, placeE⟩ := rank_of_mem_pending memE
    rw [placeD, placeE, tp, tq, hash, price]
    rfl
  exact List.mem_map.2 ⟨e, memE, Prod.ext place content⟩

/-- The places and the contents of what is pending can be told from the hashes. -/
theorem unsigned_eq (tp : p.tieBreak = .hash) (tq : q.tieBreak = .hash)
    (clean : Hash256.NoCollision (txs.map Transaction.preimage))
    (hp : ∀ tx ∈ p.pending.values, tx ∈ txs) (hq : ∀ tx ∈ q.pending.values, tx ∈ txs)
    (held : ∀ hash, p.contains hash = q.contains hash) : p.unsigned = q.unsigned := by
  refine SortedMap.ext_get? fun rank => Option.ext fun tx => ?_
  rw [← SortedMap.mem_entries_iff, ← SortedMap.mem_entries_iff]
  constructor
  · exact mem_unsigned_of_mem tp tq clean hp hq held
  · exact mem_unsigned_of_mem tq tp clean hq hp fun hash => (held hash).symm

/-- It does not matter by which requests two pools have come to hold the same hashes. -/
theorem unsigned_run_eq {history history' : List Request} {capacity capacity' : UInt64}
    (clean : Hash256.NoCollision
      (((history ++ history').flatMap Request.offered).map Transaction.preimage))
    (held : ∀ hash, ((withCapacity capacity .hash).run history).contains hash =
      ((withCapacity capacity' .hash).run history').contains hash) :
    ((withCapacity capacity .hash).run history).unsigned =
      ((withCapacity capacity' .hash).run history').unsigned := by
  refine unsigned_eq (run_settings _ history).2 (run_settings _ history').2 clean ?_ ?_ held
  · intro tx mem
    rw [List.flatMap_append]
    exact List.mem_append_left _ (mem_offered_of_mem_pending mem)
  · intro tx mem
    rw [List.flatMap_append]
    exact List.mem_append_right _ (mem_offered_of_mem_pending mem)

theorem popBatch_unsigned (same : p.unsigned = q.unsigned) {m n : Nat} (count : m = n) :
    (p.popBatch m).1.map Transaction.unsigned = (q.popBatch n).1.map .unsigned ∧
      (p.popBatch m).2.pending.values.map Transaction.unsigned =
        (q.popBatch n).2.pending.values.map .unsigned := by
  subst count
  have values := congrArg SortedMap.values same
  rw [values_unsigned, values_unsigned] at values
  rw [values_popBatch, values_popBatch, (p.popBatch_spec m).1, (q.popBatch_spec m).1]
  constructor
  · rw [List.map_take, List.map_take, values]
  · rw [List.map_drop, List.map_drop, values]

theorem contains_eq_of_unsigned
    (same : p.pending.values.map Transaction.unsigned = q.pending.values.map .unsigned)
    (hash : Hash256) : p.contains hash = q.contains hash := by
  have known (r : Pool) : r.contains hash ↔ hash ∈ r.pending.values.map Transaction.hash := by
    rw [contains_iff, List.mem_map]
  rw [Bool.eq_iff_iff, known, known, Transaction.map_hash_eq same]

end Pool

namespace Node

/-- The blocks of the rounds are equal but for their times and signatures, or the rounds fail alike,
and they leave the same contents and the same hashes. -/
structure Round.SameOutcome (r s : Round) : Prop where
  results : (∃ a b, r.result = .ok a ∧ s.result = .ok b ∧
      r.after.producer.tip = a ∧ s.after.producer.tip = b ∧
      a.transactions.map Transaction.hash = b.transactions.map Transaction.hash ∧
      (a.transactions.Pairwise fun x y =>
        y.gasPrice < x.gasPrice ∨ x.gasPrice = y.gasPrice ∧ compare x.hash y.hash = .lt) ∧
      { a.header with timestamp := b.header.timestamp } = b.header) ∨
    ∃ err, r.result = .error err ∧ s.result = .error err
  contents_eq : r.after.contents = s.after.contents
  held_eq : ∀ hash, r.after.pool.contains hash = s.after.pool.contains hash

theorem Round.contents_after (r : Round) : r.after.contents =
    (r.node.producer.propose r.clock r.proposer r.batch).2.ledger.contents := by
  unfold Node.contents after
  rw [producer_tickFromPool]
  rfl

/-- The block of a round has its transactions in the order of the pool. -/
theorem Round.pairwise_included {r : Round} (tie : r.node.pool.tieBreak = .hash) {b : Block}
    (made : r.result = .ok b) : b.transactions.Pairwise fun x y =>
      y.gasPrice < x.gasPrice ∨ x.gasPrice = y.gasPrice ∧ compare x.hash y.hash = .lt := by
  have batch : r.batch.Sublist r.node.pool.pending.values := by
    rw [← r.node.pool.popBatch_append r.node.config.batchSize.toNat]
    exact List.sublist_append_left _ _
  rw [(Producer.propose_ok_spec made).1]
  exact (Pool.pairwise_pending tie).sublist ((Engine.applyBatch_sublist _ _ _ _).trans batch)

variable {r s : Round} {history history' : List Pool.Request} {capacity capacity' : UInt64}

/-- Nodes that agree and hold the same hashes come to the same in a round, by whatever requests to
their pools they have come to hold them. Besides the contents of its ledger a node could see the
checkpoints that are open. So either the engine is disciplined, which sees none, or none is open on
either node, or the ledgers are equal in that as well. -/
theorem outcome_of_same_hashes (pool : r.node.pool = (Pool.withCapacity capacity .hash).run history)
    (pool' : s.node.pool = (Pool.withCapacity capacity' .hash).run history')
    (clean : Hash256.NoCollision
      (((history ++ history').flatMap Pool.Request.offered).map Transaction.preimage))
    (held : ∀ hash, r.node.pool.contains hash = s.node.pool.contains hash)
    (same : r.node.producer.Agrees s.node.producer)
    (blind : r.node.producer.engine.Disciplined ∨
      (r.node.producer.ledger.depth = 0 ∧ r.node.producer.ledger.Tidy) ∧
        (s.node.producer.ledger.depth = 0 ∧ s.node.producer.ledger.Tidy) ∨
      r.node.producer.ledger = s.node.producer.ledger)
    (size : r.node.config.batchSize = s.node.config.batchSize)
    (proposer : r.proposer = s.proposer) : r.SameOutcome s := by
  have tie : r.node.pool.tieBreak = .hash := by
    rw [pool]
    exact ((Pool.withCapacity capacity .hash).run_settings history).2
  have pending : r.node.pool.unsigned = s.node.pool.unsigned := by
    rw [pool, pool'] at held ⊢
    exact Pool.unsigned_run_eq clean held
  obtain ⟨popped, rest⟩ := Pool.popBatch_unsigned pending (congrArg UInt64.toNat size)
  have batches : r.batch.map Transaction.unsigned = s.batch.map .unsigned := popped
  have left : r.after.pool.pending.values.map Transaction.unsigned =
      s.after.pool.pending.values.map .unsigned := rest
  have unseen : r.node.producer.engine.Disciplined ∨
      r.node.producer.ledger = s.node.producer.ledger := by
    rcases blind with disciplined | ⟨⟨shut, tidy⟩, shut', tidy'⟩ | equal
    · exact .inl disciplined
    · right
      rw [Ledger.eq_ofContents shut tidy rfl, Ledger.eq_ofContents shut' tidy' rfl,
        same.contents_eq]
    · exact .inr equal
  obtain ⟨results, contents⟩ :=
    same.propose_unsigned unseen r.proposer batches r.clock s.clock
  refine ⟨?_, ?_, Pool.contains_eq_of_unsigned left⟩
  · have result : (s.node.producer.propose s.clock r.proposer s.batch).1 = s.result := by
      rw [proposer]
      rfl
    rw [result] at results
    rcases results with ⟨a, b, made, made', txs, header⟩ | failed
    · refine .inl ⟨a, b, made, made', ?_, ?_, Transaction.map_hash_eq txs,
        Round.pairwise_included tie made, header⟩
      · rw [r.tip_after]
        exact (Producer.propose_ok_spec made).2
      · rw [s.tip_after]
        exact (Producer.propose_ok_spec made').2
    · exact .inr failed
  · rw [r.contents_after, s.contents_after, contents, proposer]

/-- A node at genesis whose pool has served some requests. -/
def listening (requests : List Pool.Request) : Node where
  config := .standard
  pool := (Pool.withCapacity 8 .hash).run requests
  producer := .lone
  shared := false
  production := none

/-- Two transfers arrive in one order and signed by one key, and then the other way round in both
respects. The dearer one cannot be paid. -/
theorem two_arrivals_one_outcome :
    let paid := Transaction.transfer .zero .zero 0 0 0
    let unpaid := Transaction.transfer .zero .zero 1 0 1
    Round.SameOutcome
      ⟨listening [.add { paid with signature := [1] }, .add { unpaid with signature := [1] }],
        0, .zero⟩
      ⟨listening [.add unpaid, .remove paid.hash, .add paid], 9, .zero⟩ := by
  intro paid unpaid
  let history : List Pool.Request :=
    [.add { paid with signature := [1] }, .add { unpaid with signature := [1] }]
  let history' : List Pool.Request := [.add unpaid, .remove paid.hash, .add paid]
  have clean : Hash256.NoCollision
      (((history ++ history').flatMap Pool.Request.offered).map Transaction.preimage) := by
    unfold Hash256.NoCollision
    decide +kernel
  have held : (listening history).pool.pending.values.map Transaction.unsigned =
      (listening history').pool.pending.values.map .unsigned := by
    decide +kernel
  have pool : (listening history).pool = (Pool.withCapacity 8 .hash).run history := rfl
  have pool' : (listening history').pool = (Pool.withCapacity 8 .hash).run history' := rfl
  have shut : Producer.lone.ledger.depth = 0 ∧ Producer.lone.ledger.Tidy :=
    ⟨rfl, Ledger.tidy_ofContents _⟩
  exact outcome_of_same_hashes pool pool' clean (Pool.contains_eq_of_unsigned held) (.refl .lone)
    (.inr (.inl ⟨shut, shut⟩)) rfl rfl

end Node

end AgentLedger
