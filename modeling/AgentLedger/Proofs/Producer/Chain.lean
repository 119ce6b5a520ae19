import AgentLedger.Proofs.Producer.Runs

namespace AgentLedger

/-!
# The chain of blocks

Each block that becomes the tip continues the block before it, and it commits to the ledger as it
then is, whoever has built it. What is refused moves neither tip nor announcements. The blocks that
a run adopts therefore form a chain, a listener is told of exactly these, and the newest of them
commits to the ledger for as long as it is the tip.
-/

/-- A block follows on its parent and carries the body that it commits to. -/
structure Block.Continues (b parent : Block) : Prop where
  height_eq : b.header.height = parent.header.height + 1
  parent_eq : b.header.previousHash = parent.hash
  root_eq : Block.transactionRoot b.transactions = b.header.transactionRoot

theorem Ledger.atomically_eq_ok {α : Type} {l m : Ledger} {a : α}
    {change : Ledger → Except ChainError α × Ledger} (h : l.atomically change = (.ok a, m)) :
    ∃ changed, change l.checkpoint.2 = (.ok a, changed) ∧ m.contents = changed.contents := by
  rw [atomically_eq] at h
  cases ran : change l.checkpoint.2 with
  | mk r changed =>
      rw [ran] at h
      cases r with
      | error _ => cases h
      | ok _ =>
          obtain ⟨⟨⟩, rfl⟩ := Prod.mk.inj h
          exact ⟨changed, rfl, changed.contents_close⟩

theorem Committer.roots_of_settle {k : Committer} {proposer : Address} {l m : Ledger}
    {roots : Hash256 × Hash256} (h : k.settle proposer l = (.ok roots, m)) :
    k.roots m.contents = .ok roots := by
  unfold settle at h
  cases rewarded : l.credit proposer Policy.blockReward with
  | error _ =>
      rw [rewarded] at h
      cases h
  | ok credited =>
      rw [rewarded] at h
      obtain ⟨computed, rfl⟩ := Prod.mk.inj h
      exact computed

namespace Producer

variable {p q : Producer} {b : Block} {clock : Int64} {proposer : Address}
  {batch : List Transaction} {err : ChainError} {r : Request}

/-! ## One request -/

/-- The tip commits to the ledger. -/
def Committed (p : Producer) : Prop :=
  p.committer.roots p.ledger.contents = .ok (p.tip.header.stateRoot, p.tip.header.agentRoot)

/-- What a block brings about when it becomes the tip, whatever the extensions of the engine do. -/
structure Advances (p q : Producer) (b : Block) : Prop where
  tip_eq : q.tip = b
  continues : b.Continues p.tip
  committed : q.Committed
  announcer_eq : q.announcer = p.announcer.map (·.announce b)

theorem roots_of_buildBody {l m : Ledger} {body : Body}
    (h : p.buildBody proposer batch l = (.ok body, m)) :
    p.committer.roots m.contents = .ok (body.stateRoot, body.agentRoot) := by
  rw [buildBody_eq] at h
  simp only at h
  cases settled : p.committer.settle proposer
      (p.engine.applyBatch p.nextHeight batch l).2 with
  | mk roots last =>
      rw [settled] at h
      cases roots with
      | error _ => cases h
      | ok roots =>
          obtain ⟨same, rfl⟩ := Prod.mk.inj h
          cases Except.ok.inj same
          exact Committer.roots_of_settle settled

theorem advances_of_propose (h : p.propose clock proposer batch = (.ok b, q)) :
    p.Advances q b := by
  unfold propose at h
  cases ran : p.ledger.atomically (p.buildBody proposer batch) with
  | mk result ledger =>
      rw [ran] at h
      cases result with
      | error _ => cases h
      | ok body =>
          obtain ⟨made, rfl⟩ := Prod.mk.inj h
          cases Except.ok.inj made
          obtain ⟨m, built, contents⟩ := Ledger.atomically_eq_ok ran
          refine ⟨rfl, ⟨rfl, rfl, rfl⟩, ?_, rfl⟩
          exact (congrArg p.committer.roots contents).trans (roots_of_buildBody built)

theorem advances_of_adopt (h : p.adopt b = (.ok (), q)) : p.Advances q b := by
  unfold adopt at h
  cases valid : p.validate b with
  | error _ =>
      rw [valid] at h
      cases h
  | ok _ =>
      rw [valid] at h
      simp only at h
      cases ran : p.ledger.atomically (p.replay b) with
      | mk result ledger =>
          rw [ran] at h
          cases result with
          | error _ => cases h
          | ok _ =>
              obtain ⟨_, rfl⟩ := Prod.mk.inj h
              obtain ⟨_, height, parent, root⟩ := (p.validate_eq_ok_iff b).1 valid
              obtain ⟨m, replayed, contents⟩ := Ledger.atomically_eq_ok ran
              obtain ⟨_, _, settled⟩ := replay_eq_ok_iff_settles.1 replayed
              refine ⟨rfl, ⟨height, parent, root⟩, ?_, rfl⟩
              exact (congrArg p.committer.roots contents).trans (Committer.roots_of_settle settled)

/-- A refusal may be told from the ledger, but neither from the tip nor by a listener. -/
theorem serve_advances (p : Producer) (r : Request) :
    (∃ b, (p.serve r).1 = some b ∧ p.Advances (p.serve r).2 b) ∨
      (p.serve r).1 = none ∧ (p.serve r).2.tip = p.tip ∧
        (p.serve r).2.announcer = p.announcer := by
  cases r with
  | propose x =>
      cases ran : p.propose x.clock x.proposer x.batch with
      | mk result q =>
          simp only [serve, ran]
          cases result with
          | ok b => exact .inl ⟨b, rfl, advances_of_propose ran⟩
          | error _ =>
              have still := propose_error_still (congrArg Prod.fst ran)
              rw [ran] at still
              rw [still]
              exact .inr ⟨rfl, rfl, rfl⟩
  | adopt b =>
      cases ran : p.adopt b with
      | mk result q =>
          simp only [serve, ran]
          cases result with
          | ok _ => exact .inl ⟨b, rfl, advances_of_adopt ran⟩
          | error _ =>
              have still := adopt_error_still (congrArg Prod.fst ran)
              rw [ran] at still
              rw [still]
              exact .inr ⟨rfl, rfl, rfl⟩

theorem committed_of_serve_eq_some (h : (p.serve r).1 = some b) : (p.serve r).2.Committed := by
  rcases p.serve_advances r with ⟨_, _, advanced⟩ | ⟨refused, _⟩
  · exact advanced.committed
  · rw [refused] at h
    cases h

/-- A refusal leaves the ledger to which the tip commits. -/
theorem Committed.serve (h : p.Committed) (hp : p.engine.Disciplined) (r : Request) :
    (p.serve r).2.Committed := by
  rcases serve_cases hp r with ⟨b, granted, _⟩ | ⟨_, same⟩
  · exact committed_of_serve_eq_some granted
  · unfold Committed
    rw [same.committer_eq, same.contents_eq, same.tip_eq]
    exact h

/-! ## Any number of requests -/

theorem isChain_adopted (p : Producer) (requests : List Request) :
    (p.tip :: p.adopted requests).IsChain fun parent b => b.Continues parent := by
  induction requests generalizing p with
  | nil => exact List.isChain_singleton _
  | cons r rest ih =>
      have later := ih (p.serve r).2
      unfold adopted
      rcases p.serve_advances r with ⟨b, granted, advanced⟩ | ⟨refused, tip, _⟩
      · rw [advanced.tip_eq] at later
        rw [granted]
        exact List.isChain_cons_cons.2 ⟨advanced.continues, later⟩
      · rw [refused, ← tip]
        exact later

theorem tip_run (p : Producer) (requests : List Request) :
    (p.run requests).tip = (p.adopted requests).getLastD p.tip := by
  induction requests generalizing p with
  | nil => rfl
  | cons r rest ih =>
      rw [run_cons, ih, adopted]
      rcases p.serve_advances r with ⟨b, granted, advanced⟩ | ⟨refused, tip, _⟩
      · rw [granted, advanced.tip_eq, Option.toList_some, List.singleton_append,
          List.getLastD_cons]
      · rw [refused, tip]
        rfl

theorem announcer_run (p : Producer) (requests : List Request) :
    (p.run requests).announcer = p.announcer.map (·.announceAll (p.adopted requests)) := by
  induction requests generalizing p with
  | nil => simp [run, adopted]
  | cons r rest ih =>
      rw [run_cons, ih, adopted]
      rcases p.serve_advances r with ⟨b, granted, advanced⟩ | ⟨refused, _, still⟩
      · rw [granted, advanced.announcer_eq, Option.map_map]
        rfl
      · rw [refused, still]
        rfl

theorem Committed.run (h : p.Committed) (hp : p.engine.Disciplined) (requests : List Request) :
    (p.run requests).Committed := by
  induction requests generalizing p with
  | nil => exact h
  | cons r rest ih => exact ih (h.serve hp r) (engine_serve hp r ▸ hp)

theorem committed_run (hp : p.engine.Disciplined) {requests : List Request}
    (some : p.adopted requests ≠ []) : (p.run requests).Committed := by
  induction requests generalizing p with
  | nil => exact absurd rfl some
  | cons r rest ih =>
      have hp' : (p.serve r).2.engine.Disciplined := engine_serve hp r ▸ hp
      rw [run_cons]
      rcases p.serve_advances r with ⟨b, _, advanced⟩ | ⟨refused, _⟩
      · exact advanced.committed.run hp' rest
      · refine ih hp' fun none => some ?_
        rw [adopted, refused, none]
        rfl

/-- A chain with fewer blocks than there are heights counts them up. -/
theorem height_of_isChain {bs : List Block} {start : Block}
    (chain : (start :: bs).IsChain fun parent b => b.Continues parent)
    (few : start.header.height.toNat + bs.length < UInt64.size) :
    (start :: bs).IsChain fun parent b =>
      b.header.height.toNat = parent.header.height.toNat + 1 ∧ b.Continues parent := by
  induction bs generalizing start with
  | nil => exact List.isChain_singleton _
  | cons b rest ih =>
      obtain ⟨first, later⟩ := List.isChain_cons_cons.1 chain
      rw [List.length_cons] at few
      have up : b.header.height.toNat = start.header.height.toNat + 1 := by
        rw [first.height_eq, UInt64.toNat_add]
        exact Nat.mod_eq_of_lt (Nat.lt_of_le_of_lt (Nat.add_le_add_left (Nat.succ_pos _) _) few)
      exact List.isChain_cons_cons.2 ⟨⟨up, first⟩, ih later (by omega)⟩

/-- From genesis on the adopted blocks form a chain, and the last of them is the tip. Each commits
to the ledger when it is adopted, and the tip does so after every run if extensions keep their
discipline, without which a refusal need not restore the ledger. Whoever has listened from the
start is told of the adopted blocks in their order, and of no others. -/
theorem adopted_blocks_chain (genesis : p.tip = .genesis) (requests : List Request)
    (few : (p.adopted requests).length < UInt64.size) :
    ((Block.genesis :: p.adopted requests).IsChain fun parent b =>
      b.header.height.toNat = parent.header.height.toNat + 1 ∧
        b.header.previousHash = parent.hash ∧
        Block.transactionRoot b.transactions = b.header.transactionRoot) ∧
    (p.run requests).tip = (p.adopted requests).getLastD .genesis ∧
    (∀ r b, ((p.run requests).serve r).1 = some b →
      ((p.run requests).serve r).2.tip = b ∧ ((p.run requests).serve r).2.Committed) ∧
    (p.engine.Disciplined → p.adopted requests ≠ [] → (p.run requests).Committed) ∧
    ∀ a, p.announcer = some a → ∃ heard, (p.run requests).announcer = some heard ∧
      heard.announced = (p.adopted requests).reverse ++ a.announced ∧
      ∀ i b, (p.adopted requests)[i]? = some b →
        (p.adopted requests).length - i ≤ a.capacity →
        heard.read (a.current + i) = (.block b, a.current + i + 1) := by
  have chain := p.isChain_adopted requests
  have tip := p.tip_run requests
  rw [genesis] at chain tip
  refine ⟨?_, tip, ?_, fun hp => committed_run hp, ?_⟩
  · have start : Block.genesis.header.height.toNat = 0 := rfl
    have heights := height_of_isChain chain (by omega)
    refine heights.imp ?_
    rintro parent b ⟨height, continues⟩
    exact ⟨height, continues.parent_eq, continues.root_eq⟩
  · intro r b granted
    refine ⟨?_, committed_of_serve_eq_some granted⟩
    rcases (p.run requests).serve_advances r with ⟨c, granted', advanced⟩ | ⟨refused, _⟩
    · rw [advanced.tip_eq]
      exact Option.some.inj (granted'.symm.trans granted)
    · rw [refused] at granted
      cases granted
  · intro a live
    refine ⟨a.announceAll (p.adopted requests), ?_, a.announced_announceAll _, ?_⟩
    · rw [p.announcer_run, live]
      rfl
    · intro i b h kept
      exact Announcer.read_announceAll h kept

/-- Two blocks are adopted, the genesis block handed over in between is refused, and a listener
who has read the first block finds the second. -/
theorem lone_chain :
    ∃ first second heard,
      lone.subscribe.2.adopted [.propose ⟨0, .zero, [transferOfNothing]⟩, .adopt .genesis,
        .propose ⟨9, .zero, []⟩] = [first, second] ∧
      second.header.previousHash = first.hash ∧
      (lone.subscribe.2.run [.propose ⟨0, .zero, [transferOfNothing]⟩, .adopt .genesis,
        .propose ⟨9, .zero, []⟩]).Committed ∧
      (lone.subscribe.2.run [.propose ⟨0, .zero, [transferOfNothing]⟩, .adopt .genesis,
        .propose ⟨9, .zero, []⟩]).announcer = some heard ∧
      heard.read (lone.subscribe.1 + 1) = (.block second, 2) := by
  let requests : List Request :=
    [.propose ⟨0, .zero, [transferOfNothing]⟩, .adopt .genesis, .propose ⟨9, .zero, []⟩]
  let first := (lone.subscribe.2.propose 0 .zero [transferOfNothing]).2
  let second := (first.propose 9 .zero []).2
  have made : lone.subscribe.2.adopted requests = [first.tip, second.tip] := rfl
  obtain ⟨chain, _, _, committed, listens⟩ := adopted_blocks_chain (p := lone.subscribe.2) rfl
    requests (by rw [made]; decide)
  obtain ⟨heard, live, _, finds⟩ := listens _ rfl
  rw [made] at chain committed finds
  obtain ⟨_, later⟩ := List.isChain_cons_cons.1 chain
  obtain ⟨⟨_, parent, _⟩, _⟩ := List.isChain_cons_cons.1 later
  have kept : [first.tip, second.tip].length - 1 ≤ lone.openAnnouncer.capacity :=
    Nat.pos_of_isPowerOfTwo (Nat.isPowerOfTwo_nextPowerOfTwo _)
  exact ⟨first.tip, second.tip, heard, made, parent,
    committed Engine.withCounter_disciplined (by simp), live, finds 1 second.tip rfl kept⟩

/-- What the producer is once it has proposed an empty block. -/
def founded (x : Extension) : Producer := ((holding x).propose 0 .zero []).2

/-- The first block commits to a ledger with a contract and the reward. The second is refused, but
not before the contract has emptied the ledger, to which the tip no longer commits. -/
theorem emptied_ledger_not_committed :
    let requests : List Request := [.propose ⟨0, .zero, []⟩, .adopt (founded emptying).calling]
    (holding emptying).tip = .genesis ∧
      (holding emptying).adopted requests = [(founded emptying).tip] ∧
      ((holding emptying).run requests).tip = (founded emptying).tip ∧
      ¬((holding emptying).run requests).Committed := by
  intro requests
  have valid : (founded emptying).validate (founded emptying).calling = .ok () :=
    validate_calling rfl rfl
  have refused : ((founded emptying).adopt (founded emptying).calling).1 =
      .error (.invalidBlock (.transaction (Engine.counterCall 100000).hash .executionReverted)) := by
    rw [(adopt_of_valid valid).1]
    decide +kernel
  have emptied : ((founded emptying).adopt (founded emptying).calling).2.ledger = .empty := by
    rw [(adopt_of_valid valid).2]
    decide +kernel
  have proposed : (holding emptying).serve (.propose ⟨0, .zero, []⟩) =
      (some (founded emptying).tip, founded emptying) := rfl
  have served := serve_of_refused refused
  rw [adopt_error_still refused, emptied] at served
  have ran : (holding emptying).run requests = { founded emptying with ledger := .empty } := by
    rw [run_cons, run_cons, proposed, served]
    rfl
  refine ⟨rfl, ?_, by rw [ran], fun committed => ?_⟩
  · rw [Producer.adopted, Producer.adopted, proposed, served]
    rfl
  · rw [ran] at committed
    have same : Contents.empty.stateRoot = (founded emptying).tip.header.stateRoot :=
      congrArg Prod.fst (Except.ok.inj committed)
    exact absurd same (by decide +kernel)

end Producer

end AgentLedger
