import AgentLedger.Proofs.Producer.Atomicity

namespace AgentLedger

/-!
# Rejected blocks

What is wrong with a block that someone else has built is reported as an error of consensus, be it
the proposer, the signature, the place in the chain, a transaction or a root. Only where the reward
does not fit into the proposer's balance is the refusal passed on as the ledger words it, which is
an error of execution.
-/

variable {err : ChainError}

/-! ## Errors of consensus -/

/-- If it fails, it fails with an error of consensus. -/
def ConsensusOnly {α : Type} (x : Except ChainError α) : Prop :=
  ∀ err, x = .error err → err.errorClass = .consensus

section

variable {α β : Type}

theorem consensusOnly_ok (a : α) : ConsensusOnly (.ok a : Except ChainError α) := nofun

theorem consensusOnly_error (h : err.errorClass = .consensus) :
    ConsensusOnly (.error err : Except ChainError α) := by
  rintro _ ⟨rfl⟩
  exact h

/-- Nothing is asked of what comes after a failure. -/
theorem consensusOnly_throw_bind (h : err.errorClass = .consensus)
    (k : α → Except ChainError β) : ConsensusOnly (throw err >>= k) := consensusOnly_error h

theorem consensusOnly_bind {x : Except ChainError α} {k : α → Except ChainError β}
    (hx : ConsensusOnly x) (hk : ∀ a, ConsensusOnly (k a)) : ConsensusOnly (x >>= k) := by
  cases x with
  | error err => exact consensusOnly_error (hx err rfl)
  | ok a => exact hk a

end

namespace BlockVerifier

variable {b : Block} {v : Validator}

theorem consensusOnly_acceptAll : ConsensusOnly (acceptAll b v) := consensusOnly_ok ()

/-- A key or a signature that cannot be read is no better than one that does not fit. -/
theorem consensusOnly_ed25519 : ConsensusOnly (ed25519 b v) := by
  unfold ed25519
  split
  · split
    · exact consensusOnly_ok ()
    · exact consensusOnly_error rfl
  · exact consensusOnly_error rfl

end BlockVerifier

/-- A body stops at its first failing transaction and names it as a fault of the block. -/
theorem Engine.consensusOnly_applyBody (e : Engine) (height : UInt64) (txs : List Transaction)
    (l : Ledger) : ConsensusOnly (e.applyBody height txs l).1 := by
  induction txs generalizing l with
  | nil => exact consensusOnly_ok ()
  | cons tx rest ih =>
      unfold applyBody
      cases e.apply l tx height with
      | mk r next =>
          cases r with
          | ok _ => exact ih next
          | error cause => exact consensusOnly_error rfl

/-! ## The reward -/

/-- A credit is refused exactly if there is no room for it. -/
theorem Contents.credit_eq_error_iff {c : Contents} {a : Address} {value : Amount} :
    c.credit a value = .error err ↔
      err = .invalidOperation (.balanceOverflow a) ∧
        Amount.bound ≤ (c.balance a).units + value.units := by
  rw [Nat.add_comm]
  unfold credit increased Amount.add? Amount.ofNat?
  by_cases room : value.units + (c.balance a).units < Amount.bound
  · simp [room, Nat.not_le.2 room, bind, Except.bind, pure, Except.pure]
  · simp [room, Nat.not_lt.1 room, bind, Except.bind, eq_comm]

/-- Digests never fail, so neither does settling, but for the reward. -/
theorem Committer.settle_digests_eq_error_iff {proposer : Address} {l : Ledger} :
    (digests.settle proposer l).1 = .error err ↔
      err = .invalidOperation (.balanceOverflow proposer) ∧
        Amount.bound ≤ (l.contents.balance proposer).units + Policy.blockReward.units := by
  rw [← Contents.credit_eq_error_iff]
  unfold settle Ledger.credit
  cases l.contents.credit proposer Policy.blockReward with
  | error _ => simp [bind, Except.bind]
  | ok _ => exact ⟨nofun, nofun⟩

namespace Producer

variable {p : Producer} {b : Block}

/-- The transactions of the block all succeed, and then there is no room for the reward. -/
def RewardOverflows (p : Producer) (b : Block) : Prop :=
  ∃ l, p.engine.applyBody b.header.height b.transactions p.ledger.checkpoint.2 = (.ok (), l) ∧
    Amount.bound ≤ (l.contents.balance b.header.proposer).units + Policy.blockReward.units

theorem consensusOnly_validate (verifies : ∀ v, ConsensusOnly (p.verifier b v)) :
    ConsensusOnly (p.validate b) := by
  unfold validate
  cases p.validators.get? b.header.proposer with
  | none => exact consensusOnly_error rfl
  | some v =>
      refine consensusOnly_bind (consensusOnly_ok v) fun v => ?_
      refine consensusOnly_bind (verifies v) fun _ => ?_
      dsimp only
      split
      · exact consensusOnly_throw_bind rfl _
      · split
        · exact consensusOnly_throw_bind rfl _
        · split
          · exact consensusOnly_error rfl
          · exact consensusOnly_ok ()

theorem consensusOnly_matchRoots (header : BlockHeader) (stateRoot agentRoot : Hash256) :
    ConsensusOnly (matchRoots header stateRoot agentRoot) := by
  unfold matchRoots
  split
  · exact consensusOnly_error rfl
  · split
    · exact consensusOnly_error rfl
    · exact consensusOnly_ok ()

/-- Up to the reward and after it a replay fails with errors of consensus only. -/
theorem replay_error_cases (digests : p.committer = .digests)
    (failed : (p.replay b p.ledger.checkpoint.2).1 = .error err) :
    err.errorClass = .consensus ∨
      p.RewardOverflows b ∧ err = .invalidOperation (.balanceOverflow b.header.proposer) := by
  unfold replay at failed
  cases ran : p.engine.applyBody b.header.height b.transactions p.ledger.checkpoint.2 with
  | mk r applied =>
      rw [ran] at failed
      cases r with
      | error cause =>
          have fault := p.engine.consensusOnly_applyBody b.header.height b.transactions
            p.ledger.checkpoint.2
          rw [ran] at fault
          exact .inl (fault err failed)
      | ok _ =>
          simp only at failed
          cases settled : p.committer.settle b.header.proposer applied with
          | mk roots last =>
              rw [settled] at failed
              cases roots with
              | ok roots => exact .inl (consensusOnly_matchRoots _ _ _ err failed)
              | error cause =>
                  cases Except.error.inj failed
                  rw [digests] at settled
                  obtain ⟨named, full⟩ :=
                    Committer.settle_digests_eq_error_iff.1 (congrArg Prod.fst settled)
                  exact .inr ⟨⟨applied, ran, full⟩, named⟩

theorem replay_of_rewardOverflows (digests : p.committer = .digests)
    (overflows : p.RewardOverflows b) :
    (p.replay b p.ledger.checkpoint.2).1 =
      .error (.invalidOperation (.balanceOverflow b.header.proposer)) := by
  obtain ⟨applied, ran, full⟩ := overflows
  have refused := Committer.settle_digests_eq_error_iff.2 ⟨rfl, full⟩
  unfold replay
  rw [ran, digests]
  simp only
  cases settled : Committer.digests.settle b.header.proposer applied with
  | mk roots last =>
      rw [settled] at refused
      cases refused
      rfl

/-- A block that is not valid is refused with an error of consensus. So is a valid one, unless its
transactions succeed and the reward does not fit into the balance of its proposer: then, and only
then, the ledger's own error gets out, which is one of execution. -/
theorem rejections_blame_block (digests : p.committer = .digests)
    (known : p.verifier = .acceptAll ∨ p.verifier = .ed25519) (b : Block) :
    (∀ err, p.validate b = .error err →
      err.errorClass = .consensus ∧ (p.adopt b).1 = .error err) ∧
    (∀ err, (p.adopt b).1 = .error err → err.errorClass = .consensus ∨
      p.validate b = .ok () ∧ p.RewardOverflows b ∧
        err = .invalidOperation (.balanceOverflow b.header.proposer)) ∧
    (p.validate b = .ok () → p.RewardOverflows b →
      (p.adopt b).1 = .error (.invalidOperation (.balanceOverflow b.header.proposer))) := by
  have verifies (v : Validator) : ConsensusOnly (p.verifier b v) := by
    rcases known with every | signed
    · rw [every]
      exact BlockVerifier.consensusOnly_acceptAll
    · rw [signed]
      exact BlockVerifier.consensusOnly_ed25519
  have validates := consensusOnly_validate verifies
  refine ⟨fun err refused => ?_, fun err refused => ?_, fun valid overflows => ?_⟩
  · exact ⟨validates err refused, congrArg Prod.fst (adopt_of_invalid refused)⟩
  · cases valid : p.validate b with
    | error _ =>
        rw [adopt_of_invalid valid] at refused
        cases refused
        exact .inl (validates _ valid)
    | ok _ =>
        rw [(adopt_of_valid valid).1, Ledger.result_atomically] at refused
        exact (replay_error_cases digests refused).imp_right fun reward => ⟨rfl, reward⟩
  · rw [(adopt_of_valid valid).1, Ledger.result_atomically]
    exact replay_of_rewardOverflows digests overflows

/-! A proposer who cannot own more, and blocks that are valid and are to reward it. -/

def sated : Producer := { lone with ledger := .ofContents (Contents.empty.setBalance .zero .max) }

def rewarding (txs : List Transaction) : Block :=
  let body : Body := ⟨txs, .zero, .zero⟩
  sated.sign (sated.headerOf 0 .zero body) body

theorem validate_rewarding (txs : List Transaction) : sated.validate (rewarding txs) = .ok () :=
  (sated.validate_eq_ok_iff _).2 ⟨⟨_, rfl, rfl⟩, rfl, rfl, rfl⟩

/-- The block at fault is the one with a call of a contract that does not exist. With an empty
block nothing is wrong but that it has to be paid for. -/
theorem sated_blames_failing_call :
    (∃ err, (sated.adopt (rewarding [Engine.counterCall 100000])).1 = .error err ∧
      err.errorClass = .consensus) ∧
    sated.RewardOverflows (rewarding []) ∧
    (sated.adopt (rewarding [])).1 = .error (.invalidOperation (.balanceOverflow .zero)) := by
  obtain ⟨_, blamed, _⟩ :=
    rejections_blame_block (p := sated) rfl (.inl rfl) (rewarding [Engine.counterCall 100000])
  obtain ⟨_, _, passed⟩ := rejections_blame_block (p := sated) rfl (.inl rfl) (rewarding [])
  have overflows : sated.RewardOverflows (rewarding []) := ⟨_, rfl, by decide⟩
  have refused : (sated.adopt (rewarding [Engine.counterCall 100000])).1 =
      .error (.invalidBlock (.transaction (Engine.counterCall 100000).hash
        (.invalidOperation (.noContract .zero)))) := by
    rw [(adopt_of_valid (validate_rewarding _)).1]
    rfl
  refine ⟨⟨_, refused, ?_⟩, overflows, passed (validate_rewarding []) overflows⟩
  rcases blamed _ refused with consensus | ⟨_, _, other⟩
  · exact consensus
  · cases other

/-- The reward is refused with an error of execution. -/
theorem sated_reports_overflow :
    sated.committer = .digests ∧ sated.verifier = .acceptAll ∧
    sated.validate (rewarding []) = .ok () ∧
    (sated.adopt (rewarding [])).1 = .error (.invalidOperation (.balanceOverflow .zero)) ∧
    (ChainError.invalidOperation (.balanceOverflow .zero)).errorClass ≠ .consensus := by
  refine ⟨rfl, rfl, validate_rewarding [], ?_, by decide⟩
  rw [(adopt_of_valid (validate_rewarding [])).1]
  rfl

end Producer

end AgentLedger
