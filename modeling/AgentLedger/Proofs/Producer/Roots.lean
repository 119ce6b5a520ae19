import AgentLedger.Proofs.Digest.Preimage
import AgentLedger.Proofs.Producer.Chain
import AgentLedger.Proofs.Producer.Resume

namespace AgentLedger

/-!
# What the roots commit to

The two roots are the digests of two wire texts, from which accounts, logs and agents are read back.
Where nothing collides the roots therefore stand for the contents. A block is adopted only by a
producer whose contents then have the block's roots, so whoever adopts it ends up with the same
contents.
-/

namespace Contents

variable {c d : Contents}

/-- What the two roots are the digests of. -/
def rootTexts (c : Contents) : List Bytes := [c.stateView.render, Wire.encode c.agents]

theorem readable_stateView (c : Contents) : c.stateView.Readable :=
  Json.readable_record (by simp)

theorem of_stateView_eq (h : c.stateView = d.stateView) :
    c.accounts = d.accounts ∧ c.messages = d.messages ∧ c.receipts = d.receipts := by
  simp only [stateView, Json.record, Json.namedMembers, List.map_cons, List.map_nil,
    Json.object.injEq, List.cons.injEq, Prod.mk.injEq, true_and, and_true] at h
  obtain ⟨accounts, messages, receipts⟩ := h
  exact ⟨Wire.toJson_injective accounts, Wire.toJson_injective messages,
    Wire.toJson_injective receipts⟩

theorem eq_iff_parts_eq : c = d ↔ c.accounts = d.accounts ∧ c.messages = d.messages ∧
    c.receipts = d.receipts ∧ c.agents = d.agents := by
  constructor
  · rintro rfl
    exact ⟨rfl, rfl, rfl, rfl⟩
  · rintro ⟨accounts, messages, receipts, agents⟩
    cases c
    cases d
    cases accounts
    cases messages
    cases receipts
    cases agents
    rfl

theorem eq_of_rootTexts_eq (h : c.rootTexts = d.rootTexts) : c = d := by
  simp only [rootTexts, List.cons.injEq, and_true] at h
  obtain ⟨accounts, messages, receipts⟩ :=
    of_stateView_eq (Json.render_inj c.readable_stateView d.readable_stateView h.1)
  exact eq_iff_parts_eq.2 ⟨accounts, messages, receipts, Wire.encode_injective h.2⟩

theorem eq_of_roots_eq (clean : Hash256.NoCollision (c.rootTexts ++ d.rootTexts))
    (state : c.stateRoot = d.stateRoot) (agents : c.agentRoot = d.agentRoot) : c = d := by
  apply eq_of_rootTexts_eq
  have view : c.stateView.render = d.stateView.render :=
    clean _ (by simp [rootTexts]) _ (by simp [rootTexts]) state
  have text : Wire.encode c.agents = Wire.encode d.agents :=
    clean _ (by simp [rootTexts]) _ (by simp [rootTexts]) agents
  rw [rootTexts, rootTexts, view, text]

end Contents

namespace Producer

variable {p q : Producer} {b : Block}

/-- A producer that commits by digests has the roots of its tip. -/
theorem Committed.roots_eq (h : p.Committed) (digests : p.committer = .digests) :
    p.ledger.contents.stateRoot = p.tip.header.stateRoot ∧
      p.ledger.contents.agentRoot = p.tip.header.agentRoot := by
  unfold Committed at h
  rw [digests] at h
  exact Prod.mk.inj (Except.ok.inj h)

theorem committer_adopt (p : Producer) (b : Block) : (p.adopt b).2.committer = p.committer := by
  unfold adopt
  cases p.validate b with
  | error _ => rfl
  | ok _ =>
      cases p.ledger.atomically (p.replay b) with
      | mk r l =>
          cases r with
          | error _ => rfl
          | ok _ => rfl

/-- Whoever adopts a block has its roots, whatever the ledger and the engine were. -/
theorem roots_adopt (digests : p.committer = .digests) (adopted : (p.adopt b).1 = .ok ()) :
    (p.adopt b).2.ledger.contents.stateRoot = b.header.stateRoot ∧
      (p.adopt b).2.ledger.contents.agentRoot = b.header.agentRoot := by
  have advanced : p.Advances (p.adopt b).2 b := advances_of_adopt (Prod.ext adopted rfl)
  have roots := advanced.committed.roots_eq ((p.committer_adopt b).trans digests)
  rw [advanced.tip_eq] at roots
  exact roots

/-- Where nothing collides two ledgers have the same two roots exactly if they hold the same
accounts, messages, receipts and agents. So two producers that adopt one block hold the same
contents from then on, whatever they held before. -/
theorem roots_bind_contents :
    (∀ l m : Ledger, Hash256.NoCollision (l.contents.rootTexts ++ m.contents.rootTexts) →
      (l.contents.stateRoot = m.contents.stateRoot ∧
          l.contents.agentRoot = m.contents.agentRoot ↔
        l.contents.accounts = m.contents.accounts ∧ l.contents.messages = m.contents.messages ∧
          l.contents.receipts = m.contents.receipts ∧ l.contents.agents = m.contents.agents)) ∧
    ∀ (p q : Producer) (b : Block), p.committer = .digests → q.committer = .digests →
      (p.adopt b).1 = .ok () → (q.adopt b).1 = .ok () →
      Hash256.NoCollision ((p.adopt b).2.ledger.contents.rootTexts ++
        (q.adopt b).2.ledger.contents.rootTexts) →
      (p.adopt b).2.ledger.contents = (q.adopt b).2.ledger.contents := by
  refine ⟨fun l m clean => ?_, ?_⟩
  · rw [← Contents.eq_iff_parts_eq]
    refine ⟨fun ⟨state, agents⟩ => Contents.eq_of_roots_eq clean state agents, fun same => ?_⟩
    rw [same]
    exact ⟨rfl, rfl⟩
  · intro p q b hp hq adopts adopts' clean
    obtain ⟨state, agents⟩ := roots_adopt hp adopts
    obtain ⟨state', agents'⟩ := roots_adopt hq adopts'
    exact Contents.eq_of_roots_eq clean (state.trans state'.symm) (agents.trans agents'.symm)

/-- Like `lone`, but with an account that holds nothing. -/
def touched : Producer := lone.withLedger (.ofContents (Contents.empty.setBalance .zero 0))

/-- The account that holds nothing shows in the roots. The first block credits its reward to it,
and then both producers hold the same contents. -/
theorem touched_roots :
    ∃ b, (lone.propose 0 .zero []).1 = .ok b ∧
      ¬(lone.ledger.contents.stateRoot = touched.ledger.contents.stateRoot ∧
        lone.ledger.contents.agentRoot = touched.ledger.contents.agentRoot) ∧
      (lone.adopt b).1 = .ok () ∧ (touched.adopt b).1 = .ok () ∧
      (lone.adopt b).2.ledger.contents = (touched.adopt b).2.ledger.contents := by
  let made := (lone.propose 0 .zero []).2
  let paid := Contents.empty.setBalance .zero Policy.blockReward
  have disciplined : lone.engine.Disciplined := Engine.withCounter_disciplined
  have valid : lone.validate made.tip = .ok () :=
    (lone.validate_eq_ok_iff made.tip).2 ⟨⟨_, rfl, rfl⟩, rfl, rfl, rfl⟩
  have valid' : touched.validate made.tip = .ok () :=
    (touched.validate_eq_ok_iff made.tip).2 ⟨⟨_, rfl, rfl⟩, rfl, rfl, rfl⟩
  have extended : lone.Extends made made.tip :=
    extends_of_propose disciplined (show lone.propose 0 .zero [] = (.ok made.tip, made) from rfl)
  obtain ⟨m, replayed, same⟩ := extended.replays
  have contents : m.contents = paid := same.symm
  -- The reward is credited to the empty account as it is to none.
  have replayed' : touched.replay made.tip (.ofContents touched.ledger.contents) = (.ok (), m) :=
    replayed
  obtain ⟨p, adopts, _, after, _⟩ := adopt_of_replayed disciplined valid replayed
  obtain ⟨q, adopts', _, after', _⟩ :=
    adopt_of_replayed (p := touched) disciplined valid' replayed'
  obtain ⟨exactly, converges⟩ := roots_bind_contents
  refine ⟨made.tip, rfl, fun equal => ?_, congrArg Prod.fst adopts, congrArg Prod.fst adopts',
    converges _ _ made.tip rfl rfl (congrArg Prod.fst adopts) (congrArg Prod.fst adopts') ?_⟩
  · have accounts := ((exactly lone.ledger touched.ledger ?_).1 equal).1
    · exact absurd accounts (by decide +kernel)
    · have nodup : (([touched.ledger.contents.stateView.render] ++
          lone.ledger.contents.rootTexts).map Hash256.ofData).Nodup := by decide +kernel
      have agents : touched.ledger.contents.agents = lone.ledger.contents.agents := rfl
      exact Hash256.noCollision_of_nodup (by simp [Contents.rootTexts, agents]) nodup
  · rw [adopts, adopts', after, after', contents]
    have nodup : (paid.rootTexts.map Hash256.ofData).Nodup := by decide +kernel
    exact Hash256.noCollision_of_nodup (by simp) nodup

end Producer

end AgentLedger
