import AgentLedger.Proofs.Producer.Adoption
import Mathlib.Data.List.Chain

namespace AgentLedger

/-!
# Replicas

A source makes blocks from genesis, and a replica is handed them in any order, some of them often
and some never. The replica adopts exactly the block after its tip, so it always stands where the
source stood at the height that the replica has reached.
-/

structure Proposal where
  clock : Int64
  proposer : Address
  batch : List Transaction

namespace Producer

/-- The producer as it was after each proposal that succeeded. -/
def produced (p : Producer) : List Proposal → List Producer
  | [] => []
  | x :: rest =>
      match p.propose x.clock x.proposer x.batch with
      | (.ok _, q) => q :: q.produced rest
      | (.error _, q) => q.produced rest

/-- The producer as it was at the start and after each proposal that succeeded. -/
def stages (p : Producer) (xs : List Proposal) : List Producer := p :: p.produced xs

/-- Hands over blocks one after another. -/
def deliver (p : Producer) (bs : List Block) : Producer := bs.foldl (fun r b => (r.adopt b).2) p

/-! ## From one stage to the next -/

/-- A proposal that succeeds makes the next stage. Proposals that failed in between have left tip
and contents as they were. -/
def Follows (p q : Producer) : Prop :=
  ∃ (r : Producer) (x : Proposal), r.Agrees p ∧
    r.propose x.clock x.proposer x.batch = (.ok q.tip, q)

variable {p q r : Producer} {b : Block}

namespace Follows

theorem spec (h : Follows p q) (hp : p.engine.Disciplined) :
    ∃ clock proposer batch body m,
      p.buildBody proposer batch (.ofContents p.ledger.contents) = (.ok body, m) ∧
      q.tip.header = p.headerOf clock proposer body ∧ q.tip.transactions = body.transactions ∧
      q.ledger.contents = m.contents ∧ q.engine = p.engine ∧ q.committer = p.committer := by
  obtain ⟨r, x, same, proposed⟩ := h
  have hr : r.engine.Disciplined := same.engine_eq ▸ hp
  obtain ⟨body, m, built, _, tip, contents, engine, committer⟩ := propose_eq_ok hr proposed
  rw [same.buildBody_eq, same.contents_eq] at built
  refine ⟨x.clock, x.proposer, x.batch, body, m, built, ?_, congrArg Block.transactions tip,
    contents, engine.trans same.engine_eq, committer.trans same.committer_eq⟩
  rw [tip]
  unfold sign headerOf
  rw [same.nextHeight_eq, same.tip_eq]

theorem disciplined (h : Follows p q) (hp : p.engine.Disciplined) : q.engine.Disciplined := by
  obtain ⟨clock, proposer, batch, body, m, _, _, _, _, engine, _⟩ := h.spec hp
  exact engine ▸ hp

theorem height_eq (h : Follows p q) (hp : p.engine.Disciplined) :
    q.tip.header.height = p.nextHeight := by
  obtain ⟨clock, proposer, batch, body, m, _, header, _⟩ := h.spec hp
  rw [header]
  rfl

theorem adopt (h : Follows p q) (hp : p.engine.Disciplined) (same : r.Agrees p)
    (registered : ∃ v, r.validators.get? q.tip.header.proposer = some v ∧
      r.verifier q.tip v = .ok ()) :
    ∃ r', r.adopt q.tip = (.ok (), r') ∧ r'.Agrees q ∧ r'.validators = r.validators ∧
      r'.verifier = r.verifier := by
  have hr : r.engine.Disciplined := same.engine_eq ▸ hp
  obtain ⟨clock, proposer, batch, body, m, built, header, txs, contents, engine, committer⟩ :=
    h.spec hp
  have made : p.buildBody q.tip.header.proposer batch (.ofContents p.ledger.contents) =
      (.ok ⟨q.tip.transactions, q.tip.header.stateRoot, q.tip.header.agentRoot⟩, m) := by
    rw [header, txs]
    exact built
  have root : Block.transactionRoot q.tip.transactions = q.tip.header.transactionRoot := by
    rw [header, txs]
    rfl
  obtain ⟨r', adopted, tip', contents', engine', committer', validators, verifier⟩ :=
    adopt_of_built hr same registered (h.height_eq hp) (by rw [header]; rfl) root made
  refine ⟨r', adopted, ⟨tip', ?_, ?_, ?_⟩, validators, verifier⟩
  · rw [contents', contents]
  · rw [engine', engine, same.engine_eq]
  · rw [committer', committer, same.committer_eq]

end Follows

/-! ## The history of a source -/

theorem isChain_stages (hp : p.engine.Disciplined) (xs : List Proposal) :
    (p.stages xs).IsChain Follows := by
  unfold stages
  induction xs generalizing p with
  | nil => exact List.isChain_singleton p
  | cons x rest ih =>
      unfold produced
      cases ran : p.propose x.clock x.proposer x.batch with
      | mk r next =>
          cases r with
          | ok b =>
              obtain ⟨_, _, _, rfl, _, _, engine, _⟩ := propose_eq_ok hp ran
              exact List.isChain_cons_cons.2 ⟨⟨p, x, .refl p, ran⟩, ih (engine ▸ hp)⟩
          | error err =>
              have same : next.Agrees p := propose_eq_error hp ran
              refine (ih (same.engine_eq ▸ hp)).imp_head ?_
              rintro q ⟨r, y, agrees, proposed⟩
              exact ⟨r, y, agrees.trans same, proposed⟩

/-- The stages of a source that starts at genesis. -/
structure History (stages : List Producer) : Prop where
  disciplined : ∀ q ∈ stages, q.engine.Disciplined
  follows : ∀ (n : Nat) (p q : Producer), stages[n]? = some p → stages[n + 1]? = some q →
    Follows p q
  height_eq : ∀ (n : Nat) (q : Producer), stages[n]? = some q → q.tip.header.height.toNat = n

theorem history_stages (hp : p.engine.Disciplined) (genesis : p.tip = .genesis)
    {xs : List Proposal} (few : (p.produced xs).length < UInt64.size) : History (p.stages xs) := by
  have disciplined : ∀ q ∈ p.stages xs, q.engine.Disciplined := by
    refine (isChain_stages hp xs).induction _ _ ?_ fun _ => hp
    intro q r follows hq
    exact follows.disciplined hq
  have follows : ∀ n q r, (p.stages xs)[n]? = some q → (p.stages xs)[n + 1]? = some r →
      Follows q r := by
    intro n q r hq hr
    obtain ⟨_, rfl⟩ := List.getElem?_eq_some_iff.1 hq
    obtain ⟨short, rfl⟩ := List.getElem?_eq_some_iff.1 hr
    exact List.isChain_iff_getElem.1 (isChain_stages hp xs) n short
  refine ⟨disciplined, follows, ?_⟩
  intro n
  induction n with
  | zero =>
      rintro q ⟨⟩
      rw [genesis]
      decide
  | succ n ih =>
      intro q hq
      obtain ⟨short, _⟩ := List.getElem?_eq_some_iff.1 hq
      have before : (p.stages xs)[n]? = some (p.stages xs)[n] := List.getElem?_eq_getElem _
      have height := (follows n _ q before hq).height_eq (disciplined _ (List.getElem_mem _))
      have bound : n + 1 < UInt64.size := by
        change n + 1 < (p.produced xs).length + 1 at short
        omega
      rw [height, nextHeight, UInt64.toNat_add, ih _ before]
      exact Nat.mod_eq_of_lt bound

/-! ## Deliveries -/

/-- A replica stands at one of the stages and will take the block of each. -/
structure Mirrors (stages : List Producer) (r : Producer) : Prop where
  stands : ∃ q, stages[r.tip.header.height.toNat]? = some q ∧ r.Agrees q
  accepts : ∀ q ∈ stages.tail, ∃ v, r.validators.get? q.tip.header.proposer = some v ∧
    r.verifier q.tip v = .ok ()

theorem adopt_of_height_ne (h : b.header.height ≠ p.nextHeight) :
    ∃ err, p.adopt b = (.error err, p) := by
  cases valid : p.validate b with
  | ok _ =>
      obtain ⟨_, height, _⟩ := (p.validate_eq_ok_iff b).1 valid
      exact absurd height h
  | error err => exact ⟨err, adopt_of_invalid valid⟩

namespace Mirrors

variable {stages : List Producer}

theorem adopt_next (h : History stages) (mirror : Mirrors stages r) (sent : q ∈ stages.tail)
    (next : q.tip.header.height.toNat = r.tip.header.height.toNat + 1) :
    ∃ r', r.adopt q.tip = (.ok (), r') ∧ Mirrors stages r' := by
  obtain ⟨n, place⟩ := List.mem_iff_getElem?.1 sent
  rw [List.getElem?_tail] at place
  have height := h.height_eq (n + 1) q place
  have here : r.tip.header.height.toNat = n := by omega
  obtain ⟨p, stage, same⟩ := mirror.stands
  rw [here] at stage
  have hp := h.disciplined p (List.mem_of_getElem? stage)
  obtain ⟨r', adopted, same', validators, verifier⟩ :=
    (h.follows n p q stage place).adopt hp same (mirror.accepts q sent)
  refine ⟨r', adopted, ⟨q, ?_, same'⟩, ?_⟩
  · rw [same'.tip_eq, height]
    exact place
  · rw [validators, verifier]
    exact mirror.accepts

theorem adopt_other (h : History stages) (sent : q ∈ stages.tail)
    (other : q.tip.header.height.toNat ≠ r.tip.header.height.toNat + 1) :
    ∃ err, r.adopt q.tip = (.error err, r) := by
  obtain ⟨n, place⟩ := List.mem_iff_getElem?.1 sent
  rw [List.getElem?_tail] at place
  have height := h.height_eq (n + 1) q place
  refine adopt_of_height_ne fun same => ?_
  -- The height after the greatest one is zero, which is no height of a block that is sent.
  have wrapped := congrArg UInt64.toNat same
  rw [nextHeight, UInt64.toNat_add] at wrapped
  have small := r.tip.header.height.toNat_lt
  change _ = (_ + 1) % 2 ^ 64 at wrapped
  omega

theorem deliver (h : History stages) (mirror : Mirrors stages r) {bs : List Block}
    (sent : ∀ b ∈ bs, ∃ q ∈ stages.tail, q.tip = b) : Mirrors stages (r.deliver bs) := by
  induction bs generalizing r with
  | nil => exact mirror
  | cons b rest ih =>
      have later : ∀ c ∈ rest, ∃ q ∈ stages.tail, q.tip = c := fun c mem =>
        sent c (List.mem_cons_of_mem b mem)
      obtain ⟨q, mem, rfl⟩ := sent b List.mem_cons_self
      have one : Mirrors stages (r.adopt q.tip).2 := by
        by_cases next : q.tip.header.height.toNat = r.tip.header.height.toNat + 1
        · obtain ⟨r', adopted, mirror'⟩ := mirror.adopt_next h mem next
          rw [adopted]
          exact mirror'
        · obtain ⟨err, refused⟩ := adopt_other h mem next
          rw [refused]
          exact mirror
      exact ih one later

end Mirrors

/-- Whatever is delivered, the replica is where the source was when its own tip was the tip of the
replica. It takes exactly the block after its tip and is not changed by any other. -/
theorem replica_converges {source replica : Producer} (disciplined : source.engine.Disciplined)
    (genesis : source.tip = .genesis) (same : replica.Agrees source) (xs : List Proposal)
    (few : (source.produced xs).length < UInt64.size)
    (accepts : ∀ q ∈ source.produced xs, ∃ v,
      replica.validators.get? q.tip.header.proposer = some v ∧ replica.verifier q.tip v = .ok ())
    (bs : List Block) (sent : ∀ b ∈ bs, ∃ q ∈ source.produced xs, q.tip = b) :
    (∃ q, (source.stages xs)[(replica.deliver bs).tip.header.height.toNat]? = some q ∧
      (replica.deliver bs).tip = q.tip ∧
      (replica.deliver bs).ledger.contents = q.ledger.contents) ∧
    ∀ q ∈ source.produced xs,
      (((replica.deliver bs).adopt q.tip).1 = .ok () ↔
        q.tip.header.height.toNat = (replica.deliver bs).tip.header.height.toNat + 1) ∧
      (((replica.deliver bs).adopt q.tip).1 ≠ .ok () →
        ((replica.deliver bs).adopt q.tip).2 = replica.deliver bs) := by
  have history : History (source.stages xs) := history_stages disciplined genesis few
  have first : Mirrors (source.stages xs) replica := by
    refine ⟨⟨source, ?_, same⟩, accepts⟩
    rw [same.tip_eq, genesis]
    rfl
  have mirror : Mirrors (source.stages xs) (replica.deliver bs) := first.deliver history sent
  refine ⟨?_, ?_⟩
  · obtain ⟨q, stage, agrees⟩ := mirror.stands
    exact ⟨q, stage, agrees.tip_eq, agrees.contents_eq⟩
  · intro q mem
    by_cases next : q.tip.header.height.toNat = (replica.deliver bs).tip.header.height.toNat + 1
    · obtain ⟨r', adopted, _⟩ := mirror.adopt_next history mem next
      rw [adopted]
      exact ⟨⟨fun _ => next, fun _ => rfl⟩, fun refused => absurd rfl refused⟩
    · obtain ⟨err, refused⟩ := Mirrors.adopt_other history mem next
      rw [refused]
      exact ⟨⟨nofun, fun h => absurd h next⟩, fun _ => rfl⟩

/-- The second block comes too early, and the first comes twice. So the replica is where the source
was after the first block. It takes the second when that comes again, and the first no more. -/
theorem lone_takes_blocks_in_order :
    ∃ first second, lone.produced [⟨0, .zero, [transferOfNothing]⟩, ⟨9, .zero, []⟩] =
        [first, second] ∧
      let replica := lone.deliver [second.tip, first.tip, first.tip]
      replica.tip = first.tip ∧ replica.ledger.contents = first.ledger.contents ∧
        (replica.adopt second.tip).1 = .ok () ∧ (replica.adopt first.tip).2 = replica := by
  let proposals : List Proposal := [⟨0, .zero, [transferOfNothing]⟩, ⟨9, .zero, []⟩]
  obtain ⟨first, second, made, one, two, own, own'⟩ : ∃ first second,
      lone.produced proposals = [first, second] ∧ first.tip.header.height = 1 ∧
        second.tip.header.height = 2 ∧ first.tip.header.proposer = .zero ∧
        second.tip.header.proposer = .zero := ⟨_, _, rfl, rfl, rfl, rfl, rfl⟩
  have converges := replica_converges Engine.withCounter_disciplined rfl (.refl lone) proposals
  rw [stages, made] at converges
  have accepts : ∀ q ∈ [first, second], ∃ v,
      lone.validators.get? q.tip.header.proposer = some v ∧ lone.verifier q.tip v = .ok () := by
    intro q mem
    refine ⟨.new .zero [] 0 0, ?_, rfl⟩
    rcases List.mem_pair.1 mem with rfl | rfl
    · rw [own]
      rfl
    · rw [own']
      rfl
  have sent : first ∈ [first, second] := List.mem_cons_self
  have sent' : second ∈ [first, second] := List.mem_cons_of_mem _ List.mem_cons_self
  -- Before anything is delivered the second block is refused and the first is taken.
  have few : [first, second].length < UInt64.size := (by decide : 2 < UInt64.size)
  obtain ⟨_, takes⟩ := converges few accepts [] (by simp)
  obtain ⟨early, refuses⟩ := takes second sent'
  have skipped : (lone.adopt second.tip).2 = lone := by
    rw [two] at early
    exact refuses fun h => absurd (early.1 h) (by decide)
  have taken : (lone.adopt first.tip).1 = .ok () := by
    refine (takes first sent).1.2 ?_
    rw [one]
    rfl
  obtain ⟨valid, m, replayed⟩ := (adopt_eq_ok_iff Engine.withCounter_disciplined _).1 taken
  obtain ⟨r, adopted, tip, _⟩ := adopt_of_replayed Engine.withCounter_disciplined valid replayed
  obtain ⟨err, again⟩ : ∃ err, r.adopt first.tip = (.error err, r) := by
    refine adopt_of_height_ne ?_
    rw [nextHeight, tip, one]
    decide
  have arrived : lone.deliver [second.tip, first.tip, first.tip] = r := by
    change (((lone.adopt second.tip).2.adopt first.tip).2.adopt first.tip).2 = r
    rw [skipped, adopted, again]
  obtain ⟨⟨q, stage, stands, contents⟩, takes⟩ :=
    converges few accepts [second.tip, first.tip, first.tip] (by simp)
  rw [arrived] at stage stands contents takes
  rw [tip, one] at stage takes
  have same : first = q := Option.some.inj stage
  rw [← same] at stands contents
  obtain ⟨next, _⟩ := takes second sent'
  obtain ⟨repeated, refuses⟩ := takes first sent
  rw [two] at next
  rw [one] at repeated
  refine ⟨first, second, made, ?_⟩
  rw [arrived]
  exact ⟨stands, contents, next.2 rfl, refuses fun h => absurd (repeated.1 h) (by decide)⟩

end Producer

end AgentLedger
