import AgentLedger.Proofs.Digest.Preimage
import AgentLedger.Proofs.Producer.Adoption

namespace AgentLedger

/-!
# Signatures of transactions

Nothing that runs a transaction looks at its signature. Batches that are equal up to signatures
therefore build bodies that are, on equal ledgers, and what a block commits to is the same.
-/

variable {batch other : List Transaction} {l : Ledger} {height : UInt64}

namespace Engine

theorem apply_unsigned (e : Engine) (l : Ledger) (tx : Transaction) (height : UInt64) :
    e.apply l tx.unsigned height = e.apply l tx height := rfl

theorem applyBatch_unsigned (e : Engine) (height : UInt64) (batch : List Transaction) (l : Ledger) :
    e.applyBatch height (batch.map .unsigned) l =
      ((e.applyBatch height batch l).1.map .unsigned, (e.applyBatch height batch l).2) := by
  induction batch generalizing l with
  | nil => rfl
  | cons tx rest ih =>
      simp only [List.map_cons, applyBatch, apply_unsigned]
      cases e.apply l tx height with
      | mk r next =>
          cases r with
          | ok _ => simp only [ih, List.map_cons]
          | error _ => simp only [ih]

theorem applyBatch_sublist (e : Engine) (height : UInt64) (batch : List Transaction) (l : Ledger) :
    (e.applyBatch height batch l).1.Sublist batch := by
  induction batch generalizing l with
  | nil => exact .refl _
  | cons tx rest ih =>
      unfold applyBatch
      cases e.apply l tx height with
      | mk r next =>
          cases r with
          | ok _ => exact (ih next).cons_cons tx
          | error _ => exact (ih next).cons tx

end Engine

theorem Block.transactionRoot_unsigned (txs : List Transaction) :
    transactionRoot (txs.map .unsigned) = transactionRoot txs := by
  unfold transactionRoot
  rw [List.length_map, List.map_map]
  rfl

theorem Ledger.atomically_map {α β : Type} {f : Ledger → Except ChainError α × Ledger}
    {g : Ledger → Except ChainError β × Ledger} (φ : α → β)
    (image : ∀ l, g l = ((f l).1.map φ, (f l).2)) (l : Ledger) :
    l.atomically g = ((l.atomically f).1.map φ, (l.atomically f).2) := by
  rw [atomically_eq, atomically_eq, image]
  cases f l.checkpoint.2 with
  | mk r changed =>
      cases r with
      | ok _ => rfl
      | error _ => rfl

namespace Producer

variable {p q : Producer} {proposer : Address}

def Body.unsigned (body : Body) : Body :=
  { body with transactions := body.transactions.map .unsigned }

theorem buildBody_unsigned (p : Producer) (proposer : Address) (batch : List Transaction)
    (l : Ledger) : p.buildBody proposer (batch.map .unsigned) l =
      ((p.buildBody proposer batch l).1.map .unsigned, (p.buildBody proposer batch l).2) := by
  rw [p.buildBody_eq, p.buildBody_eq, Engine.applyBatch_unsigned]
  simp only
  cases p.committer.settle proposer (p.engine.applyBatch p.nextHeight batch l).2 with
  | mk roots settled => cases roots <;> rfl

/-- Producers that agree build the same from batches that are equal up to signatures, as long as
what they run cannot see more of a ledger than its contents, or sees the same. -/
theorem Agrees.atomically_buildBody (same : p.Agrees q)
    (blind : p.engine.Disciplined ∨ p.ledger = q.ledger) (proposer : Address)
    (batches : batch.map Transaction.unsigned = other.map .unsigned) :
    (p.ledger.atomically (p.buildBody proposer batch)).1.map Body.unsigned =
        (q.ledger.atomically (q.buildBody proposer other)).1.map Body.unsigned ∧
      (p.ledger.atomically (p.buildBody proposer batch)).2.contents =
        (q.ledger.atomically (q.buildBody proposer other)).2.contents := by
  let run := p.buildBody proposer (batch.map .unsigned)
  have ofBatch := Ledger.atomically_map Body.unsigned (p.buildBody_unsigned proposer batch) p.ledger
  have ofOther := Ledger.atomically_map Body.unsigned (q.buildBody_unsigned proposer other) q.ledger
  have either : (p.ledger.atomically run).1 = (q.ledger.atomically run).1 ∧
      (p.ledger.atomically run).2.contents = (q.ledger.atomically run).2.contents := by
    rcases blind with disciplined | equal
    · exact (regular_buildBody disciplined proposer _).atomically.congr same.contents_eq
    · rw [equal]
      exact ⟨rfl, rfl⟩
  rw [← batches, ← same.buildBody_eq] at ofOther
  rw [ofBatch, ofOther] at either
  exact either

/-- They propose blocks that are equal up to time and signatures, or fail alike. -/
theorem Agrees.propose_unsigned (same : p.Agrees q)
    (blind : p.engine.Disciplined ∨ p.ledger = q.ledger) (proposer : Address)
    (batches : batch.map Transaction.unsigned = other.map .unsigned) (clock clock' : Int64) :
    ((∃ a b, (p.propose clock proposer batch).1 = .ok a ∧
        (q.propose clock' proposer other).1 = .ok b ∧
        a.transactions.map Transaction.unsigned = b.transactions.map .unsigned ∧
        { a.header with timestamp := b.header.timestamp } = b.header) ∨
      ∃ err, (p.propose clock proposer batch).1 = .error err ∧
        (q.propose clock' proposer other).1 = .error err) ∧
    (p.propose clock proposer batch).2.ledger.contents =
      (q.propose clock' proposer other).2.ledger.contents := by
  obtain ⟨results, contents⟩ := same.atomically_buildBody blind proposer batches
  unfold propose
  cases ranP : p.ledger.atomically (p.buildBody proposer batch) with
  | mk r ledger =>
      cases ranQ : q.ledger.atomically (q.buildBody proposer other) with
      | mk s ledger' =>
          rw [ranP, ranQ] at results contents
          cases r with
          | error err =>
              cases s with
              | ok _ => cases results
              | error _ =>
                  cases results
                  exact ⟨.inr ⟨err, rfl, rfl⟩, contents⟩
          | ok body =>
              cases s with
              | error _ => cases results
              | ok body' =>
                  obtain ⟨txs, state, agent⟩ := Body.mk.inj (Except.ok.inj results)
                  have root : Block.transactionRoot body.transactions =
                      Block.transactionRoot body'.transactions := by
                    rw [← Block.transactionRoot_unsigned, txs, Block.transactionRoot_unsigned]
                  refine ⟨.inl ⟨_, _, rfl, rfl, txs, ?_⟩, contents⟩
                  simp only [sign, headerOf]
                  change body.stateRoot = body'.stateRoot at state
                  change body.agentRoot = body'.agentRoot at agent
                  rw [root, state, agent, same.tip_eq, same.nextHeight_eq]

end Producer

end AgentLedger
