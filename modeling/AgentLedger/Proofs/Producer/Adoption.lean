import AgentLedger.Proofs.Producer.Bodies

namespace AgentLedger

/-!
# Adoption

A block is adopted exactly if its proposer is registered, its signature is accepted and some batch
could have been proposed from the same tip and contents to give it. Nobody checks its version and
its timestamp.
-/

/-- Equal in every field but the version and the timestamp. -/
def BlockHeader.Matches (h k : BlockHeader) : Prop :=
  { h with version := k.version, timestamp := k.timestamp } = k

theorem BlockHeader.matches_iff {h k : BlockHeader} : h.Matches k ↔
    h.height = k.height ∧ h.previousHash = k.previousHash ∧ h.stateRoot = k.stateRoot ∧
      h.transactionRoot = k.transactionRoot ∧ h.agentRoot = k.agentRoot ∧
      h.proposer = k.proposer := by
  cases h
  cases k
  simp [Matches]

namespace Producer

/-- Producers that agree work from the same tip and contents and by the same rules. -/
structure Agrees (p q : Producer) : Prop where
  tip_eq : p.tip = q.tip
  contents_eq : p.ledger.contents = q.ledger.contents
  engine_eq : p.engine = q.engine
  committer_eq : p.committer = q.committer

namespace Agrees

variable {p q r : Producer}

theorem refl (p : Producer) : p.Agrees p := ⟨rfl, rfl, rfl, rfl⟩

theorem symm (h : p.Agrees q) : q.Agrees p :=
  ⟨h.tip_eq.symm, h.contents_eq.symm, h.engine_eq.symm, h.committer_eq.symm⟩

theorem trans (h : p.Agrees q) (h' : q.Agrees r) : p.Agrees r :=
  ⟨h.tip_eq.trans h'.tip_eq, h.contents_eq.trans h'.contents_eq, h.engine_eq.trans h'.engine_eq,
    h.committer_eq.trans h'.committer_eq⟩

theorem nextHeight_eq (h : p.Agrees q) : p.nextHeight = q.nextHeight := by
  rw [nextHeight, nextHeight, h.tip_eq]

theorem buildBody_eq (h : p.Agrees q) (proposer : Address) (batch : List Transaction) :
    p.buildBody proposer batch = q.buildBody proposer batch := by
  funext l
  rw [p.buildBody_eq, q.buildBody_eq, h.engine_eq, h.nextHeight_eq, h.committer_eq]

end Agrees

variable {p q : Producer} {b : Block} {clock : Int64} {proposer : Address}
  {batch : List Transaction} {body : Body} {m : Ledger} {err : ChainError}

/-! ## What a proposal comes to -/

theorem propose_of_built (hp : p.engine.Disciplined) (clock : Int64)
    (built : p.buildBody proposer batch (.ofContents p.ledger.contents) = (.ok body, m)) :
    ∃ q, p.propose clock proposer batch = (.ok q.tip, q) ∧
      q.tip = p.sign (p.headerOf clock proposer body) body ∧ q.ledger.contents = m.contents ∧
      q.engine = p.engine ∧ q.committer = p.committer := by
  obtain ⟨ledger, ran, contents⟩ :=
    Ledger.atomically_of_copy_ok (regular_buildBody hp proposer batch) built
  let b := p.sign (p.headerOf clock proposer body) body
  unfold propose
  rw [ran]
  exact ⟨announce { p with ledger, tip := b, phase := .published } b, rfl, rfl, contents, rfl, rfl⟩

theorem propose_of_not_built (hp : p.engine.Disciplined) (clock : Int64)
    (failed : p.buildBody proposer batch (.ofContents p.ledger.contents) = (.error err, m)) :
    ∃ q, p.propose clock proposer batch = (.error err, q) ∧ q.Agrees p := by
  obtain ⟨ledger, ran, contents⟩ :=
    Ledger.atomically_of_copy_error (regular_buildBody hp proposer batch) failed
  unfold propose
  rw [ran]
  exact ⟨_, rfl, rfl, contents, rfl, rfl⟩

theorem propose_eq_ok (hp : p.engine.Disciplined)
    (h : p.propose clock proposer batch = (.ok b, q)) :
    ∃ body m, p.buildBody proposer batch (.ofContents p.ledger.contents) = (.ok body, m) ∧
      b = q.tip ∧ q.tip = p.sign (p.headerOf clock proposer body) body ∧
      q.ledger.contents = m.contents ∧ q.engine = p.engine ∧ q.committer = p.committer := by
  cases ran : p.buildBody proposer batch (.ofContents p.ledger.contents) with
  | mk r m =>
      cases r with
      | ok body =>
          obtain ⟨q', proposed, spec⟩ := propose_of_built hp clock ran
          cases proposed.symm.trans h
          exact ⟨body, m, rfl, rfl, spec⟩
      | error err =>
          obtain ⟨q', failed, _⟩ := propose_of_not_built hp clock ran
          cases failed.symm.trans h

theorem propose_eq_error (hp : p.engine.Disciplined)
    (h : p.propose clock proposer batch = (.error err, q)) : q.Agrees p := by
  cases ran : p.buildBody proposer batch (.ofContents p.ledger.contents) with
  | mk r m =>
      cases r with
      | ok body =>
          obtain ⟨q', proposed, _⟩ := propose_of_built hp clock ran
          cases proposed.symm.trans h
      | error err' =>
          obtain ⟨q', failed, same⟩ := propose_of_not_built hp clock ran
          cases failed.symm.trans h
          exact same

/-- Whatever the engine does, a failed proposal leaves its mark on the ledger at most. -/
theorem propose_error_still (failed : (p.propose clock proposer batch).1 = .error err) :
    (p.propose clock proposer batch).2 =
      { p with ledger := (p.propose clock proposer batch).2.ledger, phase := .idle } := by
  unfold propose at failed ⊢
  cases ran : p.ledger.atomically (p.buildBody proposer batch) with
  | mk result ledger =>
      rw [ran] at failed
      cases result with
      | ok _ => cases failed
      | error _ => rfl

/-! ## What an adoption comes to -/

theorem validate_eq_ok_iff (p : Producer) (b : Block) : p.validate b = .ok () ↔
    (∃ v, p.validators.get? b.header.proposer = some v ∧ p.verifier b v = .ok ()) ∧
      b.header.height = p.nextHeight ∧ b.header.previousHash = p.tip.hash ∧
      Block.transactionRoot b.transactions = b.header.transactionRoot := by
  unfold validate
  cases p.validators.get? b.header.proposer with
  | none => simp [bind, Except.bind]
  | some v =>
      cases accepted : p.verifier b v with
      | error err => simp [bind, Except.bind, accepted]
      | ok _ =>
          by_cases height : b.header.height = p.nextHeight
          · by_cases parent : b.header.previousHash = p.tip.hash
            · simp [bind, Except.bind, pure, Except.pure, throw, throwThe, MonadExceptOf.throw,
                accepted, height, parent, Block.hasConsistentBody]
            · simp [bind, Except.bind, throw, throwThe, MonadExceptOf.throw, accepted, height,
                parent]
          · simp [bind, Except.bind, throw, throwThe, MonadExceptOf.throw, accepted, height]

theorem adopt_of_invalid (h : p.validate b = .error err) : p.adopt b = (.error err, p) := by
  unfold adopt
  rw [h]

/-- A valid block is adopted if it replays, and the ledger is that of the replay either way. -/
theorem adopt_of_valid (valid : p.validate b = .ok ()) :
    (p.adopt b).1 = (p.ledger.atomically (p.replay b)).1 ∧
      (p.adopt b).2.ledger = (p.ledger.atomically (p.replay b)).2 := by
  unfold adopt
  rw [valid]
  simp only
  cases p.ledger.atomically (p.replay b) with
  | mk r ledger =>
      cases r with
      | ok _ => exact ⟨rfl, rfl⟩
      | error _ => exact ⟨rfl, rfl⟩

/-- Whatever the engine does, a failed adoption leaves its mark on the ledger at most. -/
theorem adopt_error_still (failed : (p.adopt b).1 = .error err) :
    (p.adopt b).2 = { p with ledger := (p.adopt b).2.ledger } := by
  cases valid : p.validate b with
  | error _ => rw [adopt_of_invalid valid]
  | ok _ =>
      unfold adopt at failed ⊢
      rw [valid] at failed ⊢
      simp only at failed ⊢
      cases ran : p.ledger.atomically (p.replay b) with
      | mk result ledger =>
          rw [ran] at failed
          cases result with
          | ok _ => cases failed
          | error _ => rfl

theorem adopt_of_replayed (hp : p.engine.Disciplined) (valid : p.validate b = .ok ())
    (replayed : p.replay b (.ofContents p.ledger.contents) = (.ok (), m)) :
    ∃ q, p.adopt b = (.ok (), q) ∧ q.tip = b ∧ q.ledger.contents = m.contents ∧
      q.engine = p.engine ∧ q.committer = p.committer ∧ q.validators = p.validators ∧
      q.verifier = p.verifier := by
  obtain ⟨ledger, ran, contents⟩ := Ledger.atomically_of_copy_ok (regular_replay hp b) replayed
  unfold adopt
  rw [valid]
  simp only [ran]
  exact ⟨_, rfl, rfl, contents, rfl, rfl, rfl, rfl⟩

theorem adopt_of_not_replayed (hp : p.engine.Disciplined) (valid : p.validate b = .ok ())
    (failed : p.replay b (.ofContents p.ledger.contents) = (.error err, m)) :
    ∃ q, p.adopt b = (.error err, q) ∧ q.Agrees p := by
  obtain ⟨ledger, ran, contents⟩ := Ledger.atomically_of_copy_error (regular_replay hp b) failed
  unfold adopt
  rw [valid]
  simp only [ran]
  exact ⟨_, rfl, rfl, contents, rfl, rfl⟩

theorem adopt_eq_ok_iff (hp : p.engine.Disciplined) (b : Block) :
    (p.adopt b).1 = .ok () ↔
      p.validate b = .ok () ∧ ∃ m, p.replay b (.ofContents p.ledger.contents) = (.ok (), m) := by
  constructor
  · intro adopted
    cases valid : p.validate b with
    | error err =>
        rw [adopt_of_invalid valid] at adopted
        cases adopted
    | ok _ =>
        cases ran : p.replay b (.ofContents p.ledger.contents) with
        | mk r m =>
            cases r with
            | ok _ => exact ⟨rfl, m, rfl⟩
            | error err =>
                obtain ⟨q, failed, _⟩ := adopt_of_not_replayed hp valid ran
                rw [failed] at adopted
                cases adopted
  · rintro ⟨valid, m, replayed⟩
    obtain ⟨q, adopted, _⟩ := adopt_of_replayed hp valid replayed
    rw [adopted]

/-! ## Adopting what could have been proposed -/

/-- What a block must say to be, but for version, timestamp and signature, the one that is made of
a body. -/
theorem sign_matches_iff (q : Producer) (clock : Int64) (body : Body) (b : Block) :
    ((q.sign (q.headerOf clock b.header.proposer body) body).transactions = b.transactions ∧
      (q.sign (q.headerOf clock b.header.proposer body) body).header.Matches b.header) ↔
    body = ⟨b.transactions, b.header.stateRoot, b.header.agentRoot⟩ ∧
      b.header.height = q.nextHeight ∧ b.header.previousHash = q.tip.hash ∧
      Block.transactionRoot b.transactions = b.header.transactionRoot := by
  rw [BlockHeader.matches_iff]
  obtain ⟨txs, stateRoot, agentRoot⟩ := body
  simp only [sign, headerOf, Body.mk.injEq]
  constructor
  · rintro ⟨rfl, height, parent, state, root, agent, _⟩
    exact ⟨⟨rfl, state, agent⟩, height.symm, parent.symm, root⟩
  · rintro ⟨⟨rfl, state, agent⟩, height, parent, root⟩
    exact ⟨rfl, height.symm, parent.symm, state, root, agent, trivial⟩

theorem replay_iff_buildBody (hp : p.engine.Disciplined) (same : p.Agrees q)
    (next : b.header.height = p.nextHeight) :
    p.replay b (.ofContents p.ledger.contents) = (.ok (), m) ↔
      ∃ batch, q.buildBody b.header.proposer batch (.ofContents q.ledger.contents) =
        (.ok ⟨b.transactions, b.header.stateRoot, b.header.agentRoot⟩, m) := by
  rw [replay_eq_ok_iff hp (Ledger.tidy_ofContents _) next, same.contents_eq]
  simp only [same.buildBody_eq]

/-- A registered proposer's block is adopted by whoever agrees with the producer that built it. -/
theorem adopt_of_built (hp : p.engine.Disciplined) (same : p.Agrees q)
    (registered : ∃ v, p.validators.get? b.header.proposer = some v ∧ p.verifier b v = .ok ())
    (height : b.header.height = q.nextHeight) (parent : b.header.previousHash = q.tip.hash)
    (root : Block.transactionRoot b.transactions = b.header.transactionRoot)
    (built : q.buildBody b.header.proposer batch (.ofContents q.ledger.contents) =
      (.ok ⟨b.transactions, b.header.stateRoot, b.header.agentRoot⟩, m)) :
    ∃ r, p.adopt b = (.ok (), r) ∧ r.tip = b ∧ r.ledger.contents = m.contents ∧
      r.engine = p.engine ∧ r.committer = p.committer ∧ r.validators = p.validators ∧
      r.verifier = p.verifier := by
  rw [← same.nextHeight_eq] at height
  rw [← same.tip_eq] at parent
  have valid : p.validate b = .ok () :=
    (p.validate_eq_ok_iff b).2 ⟨registered, height, parent, root⟩
  exact adopt_of_replayed hp valid ((replay_iff_buildBody hp same height).2 ⟨batch, built⟩)

/-- A block is adopted exactly if its proposer is registered, its signature is accepted and some
batch can be proposed that gives it but for its version, its timestamp and its signature. Adopting
and proposing then leave the same contents. -/
theorem adopt_ok_iff_proposable (hp : p.engine.Disciplined) (same : p.Agrees q) (clock : Int64)
    (b : Block) :
    ((p.adopt b).1 = .ok () ↔
      (∃ v, p.validators.get? b.header.proposer = some v ∧ p.verifier b v = .ok ()) ∧
      ∃ batch built, (q.propose clock b.header.proposer batch).1 = .ok built ∧
        built.transactions = b.transactions ∧ built.header.Matches b.header) ∧
    ∀ batch built, (q.propose clock b.header.proposer batch).1 = .ok built →
      built.transactions = b.transactions → built.header.Matches b.header →
      (p.adopt b).1 = .ok () →
      (p.adopt b).2.ledger.contents =
        (q.propose clock b.header.proposer batch).2.ledger.contents := by
  have hq : q.engine.Disciplined := same.engine_eq ▸ hp
  refine ⟨?_, ?_⟩
  · constructor
    · intro adopted
      obtain ⟨valid, m, replayed⟩ := (adopt_eq_ok_iff hp b).1 adopted
      obtain ⟨registered, height, parent, root⟩ := (p.validate_eq_ok_iff b).1 valid
      refine ⟨registered, ?_⟩
      obtain ⟨batch, built⟩ := (replay_iff_buildBody hp same height).1 replayed
      obtain ⟨q', proposed, tip, _⟩ := propose_of_built hq clock built
      refine ⟨batch, q'.tip, congrArg Prod.fst proposed, ?_⟩
      rw [tip, sign_matches_iff, ← same.nextHeight_eq, ← same.tip_eq]
      exact ⟨rfl, height, parent, root⟩
    · rintro ⟨registered, batch, built, proposed, matching⟩
      obtain ⟨body, m, made, rfl, tip, _⟩ := propose_eq_ok hq (Prod.ext proposed rfl)
      rw [tip, sign_matches_iff] at matching
      obtain ⟨rfl, height, parent, root⟩ := matching
      obtain ⟨p', adopted, _⟩ := adopt_of_built hp same registered height parent root made
      exact congrArg Prod.fst adopted
  · intro batch built proposed txs header adopted
    obtain ⟨body, m, made, rfl, tip, contents, _⟩ := propose_eq_ok hq (Prod.ext proposed rfl)
    rw [tip] at txs header
    obtain ⟨rfl, height, parent, root⟩ := (sign_matches_iff q clock body b).1 ⟨txs, header⟩
    obtain ⟨registered, _⟩ := (p.validate_eq_ok_iff b).1 ((adopt_eq_ok_iff hp b).1 adopted).1
    obtain ⟨p', adopts, _, contents', _⟩ :=
      adopt_of_built hp same registered height parent root made
    rw [adopts, contents', contents]

/-- A producer at genesis that knows one validator. -/
def lone : Producer :=
  .new .empty ⟨0, SortedMap.empty.insert .zero (.new .zero [] 0 0)⟩ Engine.withCounter 64

def transferOfNothing : Transaction where
  kind := .transfer
  sender := .zero
  recipient := some .zero
  value := 0
  gasLimit := Gas.transfer
  gasPrice := 0
  nonce := 0
  payload := []
  signature := []

/-- The block leaves out a call of a contract that does not exist, and is adopted by a producer
that does not sign. -/
theorem lone_adopts_signed_proposal :
    ∃ b signed, ({ lone with signer := Hash256.bytes }.propose 0 .zero
        [Engine.counterCall 100000, transferOfNothing]) = (.ok b, signed) ∧
      b.transactions = [transferOfNothing] ∧ (lone.adopt b).1 = .ok () ∧
      (lone.adopt b).2.ledger.contents = signed.ledger.contents := by
  let signed := { lone with signer := Hash256.bytes }.propose 0 .zero
    [Engine.counterCall 100000, transferOfNothing]
  have same : lone.Agrees { lone with signer := Hash256.bytes } := ⟨rfl, rfl, rfl, rfl⟩
  have proposed : signed.1 = .ok signed.2.tip := rfl
  obtain ⟨exactly, contents⟩ := adopt_ok_iff_proposable Engine.withCounter_disciplined same 0
    signed.2.tip
  have adopted : (lone.adopt signed.2.tip).1 = .ok () :=
    exactly.2 ⟨⟨_, rfl, rfl⟩, _, _, proposed, rfl, rfl⟩
  exact ⟨signed.2.tip, signed.2, rfl, rfl, adopted, contents _ _ proposed rfl rfl adopted⟩

/-! Extensions that write the ledger of the frame themselves, and a block whose only transaction
calls the extension. Since the call fails, it does not matter which roots the block claims. -/

/-- Replaces the ledger by an empty one, and fails. -/
def emptying : Extension where
  name := "emptying"
  gasCost := 0
  arity := 0
  call _ := do
    set { ← get with ledger := Ledger.empty }
    throw .executionReverted

/-- Leaves a checkpoint open, and fails. -/
def leaking : Extension where
  name := "leaking"
  gasCost := 0
  arity := 0
  call _ := do
    let frame ← get
    set { frame with ledger := frame.ledger.checkpoint.2 }
    throw .executionReverted

/-- A producer at genesis with a contract that calls the extension. -/
def holding (x : Extension) : Producer :=
  .new (.ofContents (Contents.empty.setCode .zero [0xE0])) lone.validators
    ⟨Machine.mk (SortedMap.empty.insert 0xE0 x) .structural, .unchecked⟩ 64

def calling (p : Producer) : Block :=
  let body : Body := ⟨[Engine.counterCall 100000], .zero, .zero⟩
  p.sign (p.headerOf 0 .zero body) body

theorem validate_calling {v : Validator} (known : p.validators.get? .zero = some v)
    (accepts : p.verifier p.calling v = .ok ()) : p.validate p.calling = .ok () :=
  (p.validate_eq_ok_iff _).2 ⟨⟨v, known, accepts⟩, rfl, rfl, rfl⟩

end Producer

end AgentLedger
