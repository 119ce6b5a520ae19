import AgentLedger.Proofs.Producer.Replicas

namespace AgentLedger

/-!
# Runs of a producer

A producer serves requests in any order: some ask it to propose, others hand it a block. A request
that is granted extends the tip by one block, whose transactions and reward make the new contents,
no matter who has built it. A request that is refused leaves tip and contents as they are.
-/

inductive Request where
  | propose (x : Proposal)
  | adopt (b : Block)

namespace Producer

variable {p q : Producer} {b : Block} {clock : Int64} {proposer : Address}
  {batch : List Transaction} {err : ChainError}

/-! ## One request -/

/-- Serves a request and says which block has become the tip, if one has. -/
def serve (p : Producer) : Request → Option Block × Producer
  | .propose x =>
      match p.propose x.clock x.proposer x.batch with
      | (.ok b, q) => (some b, q)
      | (.error _, q) => (none, q)
  | .adopt b =>
      match p.adopt b with
      | (.ok (), q) => (some b, q)
      | (.error _, q) => (none, q)

theorem serve_of_refused (refused : (p.adopt b).1 = .error err) :
    p.serve (.adopt b) = (none, (p.adopt b).2) := by
  cases ran : p.adopt b with
  | mk r q =>
      rw [ran] at refused
      cases refused
      simp only [serve, ran]

/-- A block comes after the tip of one producer and makes it the other. -/
structure Extends (p q : Producer) (b : Block) : Prop where
  tip_eq : q.tip = b
  height_eq : b.header.height = p.nextHeight
  parent_eq : b.header.previousHash = p.tip.hash
  root_eq : Block.transactionRoot b.transactions = b.header.transactionRoot
  replays : ∃ m, p.replay b (.ofContents p.ledger.contents) = (.ok (), m) ∧
    q.ledger.contents = m.contents
  engine_eq : q.engine = p.engine
  committer_eq : q.committer = p.committer

theorem extends_of_propose (hp : p.engine.Disciplined)
    (h : p.propose clock proposer batch = (.ok b, q)) : p.Extends q b := by
  obtain ⟨body, m, built, rfl, tip, contents, engine, committer⟩ := propose_eq_ok hp h
  have next : q.tip.header.height = p.nextHeight := by
    rw [tip]
    rfl
  have made : p.buildBody q.tip.header.proposer batch (.ofContents p.ledger.contents) =
      (.ok ⟨q.tip.transactions, q.tip.header.stateRoot, q.tip.header.agentRoot⟩, m) := by
    rw [tip]
    exact built
  have replayed := (replay_iff_buildBody hp (.refl p) next).2 ⟨batch, made⟩
  refine ⟨rfl, next, ?_, ?_, ⟨m, replayed, contents⟩, engine, committer⟩
  · rw [tip]
    rfl
  · rw [tip]
    rfl

theorem extends_of_adopt (hp : p.engine.Disciplined) (h : p.adopt b = (.ok (), q)) :
    p.Extends q b := by
  obtain ⟨valid, m, replayed⟩ := (adopt_eq_ok_iff hp b).1 (congrArg Prod.fst h)
  obtain ⟨_, height, parent, root⟩ := (p.validate_eq_ok_iff b).1 valid
  obtain ⟨q', adopted, tip, contents, engine, committer, _⟩ := adopt_of_replayed hp valid replayed
  cases adopted.symm.trans h
  exact ⟨tip, height, parent, root, ⟨m, replayed, contents⟩, engine, committer⟩

theorem adopt_eq_error (hp : p.engine.Disciplined) (h : p.adopt b = (.error err, q)) :
    q.Agrees p := by
  cases valid : p.validate b with
  | error _ =>
      cases (adopt_of_invalid valid).symm.trans h
      exact .refl p
  | ok _ =>
      cases ran : p.replay b (.ofContents p.ledger.contents) with
      | mk r m =>
          cases r with
          | ok _ =>
              obtain ⟨q', adopted, _⟩ := adopt_of_replayed hp valid ran
              cases adopted.symm.trans h
          | error _ =>
              obtain ⟨q', refused, same⟩ := adopt_of_not_replayed hp valid ran
              cases refused.symm.trans h
              exact same

theorem serve_cases (hp : p.engine.Disciplined) (r : Request) :
    (∃ b, (p.serve r).1 = some b ∧ p.Extends (p.serve r).2 b) ∨
      (p.serve r).1 = none ∧ (p.serve r).2.Agrees p := by
  cases r with
  | propose x =>
      cases ran : p.propose x.clock x.proposer x.batch with
      | mk result q =>
          simp only [serve, ran]
          cases result with
          | ok b => exact .inl ⟨b, rfl, extends_of_propose hp ran⟩
          | error _ => exact .inr ⟨rfl, propose_eq_error hp ran⟩
  | adopt b =>
      cases ran : p.adopt b with
      | mk result q =>
          simp only [serve, ran]
          cases result with
          | ok _ => exact .inl ⟨b, rfl, extends_of_adopt hp ran⟩
          | error _ => exact .inr ⟨rfl, adopt_eq_error hp ran⟩

theorem credit_of_settle {k : Committer} {l m : Ledger} {roots : Hash256 × Hash256}
    (h : k.settle proposer l = (.ok roots, m)) :
    l.contents.credit proposer Policy.blockReward = .ok m.contents := by
  unfold Committer.settle Ledger.credit at h
  cases rewarded : l.contents.credit proposer Policy.blockReward with
  | error _ =>
      rw [rewarded] at h
      cases h
  | ok c =>
      rw [rewarded] at h
      have last : { l.noteAccount proposer with contents := c } = m := congrArg Prod.snd h
      rw [← last]

/-- The block's transactions all succeed, and its proposer is credited with the reward. -/
theorem Extends.applied (h : p.Extends q b) :
    ∃ applied, p.engine.applyBody b.header.height b.transactions (.ofContents p.ledger.contents) =
        (.ok (), applied) ∧
      applied.contents.credit b.header.proposer Policy.blockReward = .ok q.ledger.contents := by
  obtain ⟨m, replayed, contents⟩ := h.replays
  obtain ⟨applied, ran, settled⟩ := replay_eq_ok_iff_settles.1 replayed
  rw [contents]
  exact ⟨applied, ran, credit_of_settle settled⟩

/-! ## Any number of requests -/

/-- Serves requests one after another. -/
def run (p : Producer) (requests : List Request) : Producer :=
  requests.foldl (fun q r => (q.serve r).2) p

theorem run_cons (p : Producer) (r : Request) (rest : List Request) :
    p.run (r :: rest) = (p.serve r).2.run rest := rfl

/-- The blocks that become the tip, in their order. -/
def adopted (p : Producer) : List Request → List Block
  | [] => []
  | r :: rest => (p.serve r).1.toList ++ (p.serve r).2.adopted rest

theorem engine_serve (hp : p.engine.Disciplined) (r : Request) :
    (p.serve r).2.engine = p.engine := by
  rcases serve_cases hp r with ⟨b, _, extended⟩ | ⟨_, same⟩
  · exact extended.engine_eq
  · exact same.engine_eq

theorem engine_run (hp : p.engine.Disciplined) (requests : List Request) :
    (p.run requests).engine = p.engine := by
  induction requests generalizing p with
  | nil => rfl
  | cons r rest ih =>
      have first := engine_serve hp r
      exact (ih (first ▸ hp)).trans first

/-- Unless the height is the greatest there is, a block adds one to it. -/
theorem Extends.height_toNat (h : p.Extends q b)
    (room : p.tip.header.height.toNat + 1 < UInt64.size) :
    q.tip.header.height.toNat = p.tip.header.height.toNat + 1 := by
  rw [h.tip_eq, h.height_eq, nextHeight, UInt64.toNat_add]
  exact Nat.mod_eq_of_lt room

theorem height_run (hp : p.engine.Disciplined) {requests : List Request}
    (few : p.tip.header.height.toNat + (p.adopted requests).length < UInt64.size) :
    (p.run requests).tip.header.height.toNat =
      p.tip.header.height.toNat + (p.adopted requests).length := by
  induction requests generalizing p with
  | nil => rfl
  | cons r rest ih =>
      have disciplined : (p.serve r).2.engine.Disciplined := engine_serve hp r ▸ hp
      rw [adopted, List.length_append] at few ⊢
      rw [run_cons]
      rcases serve_cases hp r with ⟨b, granted, extended⟩ | ⟨refused, same⟩
      · rw [granted, Option.toList_some, List.length_singleton] at few ⊢
        have up := extended.height_toNat (by omega)
        have later := ih disciplined (by omega)
        omega
      · rw [refused, Option.toList_none, List.length_nil] at few ⊢
        have level : (p.serve r).2.tip.header.height.toNat = p.tip.header.height.toNat := by
          rw [same.tip_eq]
        have later := ih disciplined (by omega)
        omega

end Producer

end AgentLedger
