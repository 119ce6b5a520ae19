import AgentLedger.Proofs.Producer.Chain

namespace AgentLedger

/-!
# Timestamps

Nobody checks the timestamp of a block that comes from elsewhere, but a block that is proposed is
later than the tip that it extends, whatever the clock says, unless the tip has the last timestamp
there is. How far timestamps get depends on the clock, on the blocks that are adopted and on how
many are proposed, so in a run of any realistic length the exception does not arise.
-/

/-- No time comes after it. -/
def lastTimestamp : Int64 := .maxValue

/-- What a request says about the time: the clock when a block is proposed, and the timestamp that
an adopted block brings along. -/
def Request.timestamp : Request → Int64
  | .propose x => x.clock
  | .adopt b => b.header.timestamp

namespace Producer

variable {p q : Producer} {b parent : Block} {clock : Int64} {proposer : Address}
  {batch : List Transaction} {r : Request} {requests : List Request}

/-! ## The next timestamp -/

theorem toInt_nextTimestamp (clock parent : Int64) : (nextTimestamp clock parent).toInt =
    max clock.toInt (min (parent.toInt + 1) lastTimestamp.toInt) := by
  have after : (Saturating.addInt64 parent 1).toInt =
      min (parent.toInt + 1) lastTimestamp.toInt := by
    have least := parent.le_toInt
    rw [Saturating.addInt64, Saturating.toInt_int64]
    change max _ (min (parent.toInt + 1) _) = min (parent.toInt + 1) 0x7FFFFFFFFFFFFFFF
    omega
  rw [← after]
  change (if clock ≤ Saturating.addInt64 parent 1 then _ else clock).toInt = _
  split
  · next le =>
      rw [Int64.le_iff_toInt_le] at le
      omega
  · next gt =>
      rw [Int64.le_iff_toInt_le] at gt
      omega

theorem toInt_le_last (t : Int64) : t.toInt ≤ lastTimestamp.toInt := Int.le_of_lt_add_one t.toInt_lt

theorem lt_nextTimestamp (clock : Int64) {parent : Int64} (below : parent ≠ lastTimestamp) :
    parent < nextTimestamp clock parent := by
  have least := toInt_le_last parent
  have other : parent.toInt ≠ lastTimestamp.toInt := fun same => below (Int64.toInt_inj.1 same)
  rw [Int64.lt_iff_toInt_lt, toInt_nextTimestamp]
  omega

theorem nextTimestamp_last (clock : Int64) :
    nextTimestamp clock lastTimestamp = lastTimestamp := by
  have most := toInt_le_last clock
  rw [← Int64.toInt_inj, toInt_nextTimestamp]
  omega

/-! ## One request -/

theorem timestamp_of_propose (h : p.propose clock proposer batch = (.ok b, q)) :
    b.header.timestamp = nextTimestamp clock p.tip.header.timestamp := by
  unfold propose at h
  cases ran : p.ledger.atomically (p.buildBody proposer batch) with
  | mk result ledger =>
      rw [ran] at h
      cases result with
      | error _ => cases h
      | ok body =>
          cases Except.ok.inj (congrArg Prod.fst h)
          rfl

/-- The block that a request has the producer make, behind the tip that it extends. -/
def made (p : Producer) : Request → List (Block × Block)
  | .propose x => ((p.serve (.propose x)).1.map fun b => (p.tip, b)).toList
  | .adopt _ => []

/-- What a request does to the timestamp of the tip. It stays, or a block is made that is the next
one, or a block is adopted that has any other. -/
theorem timestamp_serve_cases (p : Producer) (r : Request) :
    (p.made r = [] ∧ ((p.serve r).2.tip.header.timestamp = p.tip.header.timestamp ∨
      (p.serve r).2.tip.header.timestamp = r.timestamp)) ∨
    ∃ b, p.made r = [(p.tip, b)] ∧ (p.serve r).2.tip = b ∧ b.Continues p.tip ∧
      b.header.timestamp = nextTimestamp r.timestamp p.tip.header.timestamp := by
  rcases p.serve_advances r with ⟨b, granted, advanced⟩ | ⟨refused, tip, _⟩
  · cases r with
    | propose x =>
        refine .inr ⟨b, by simp [made, granted], advanced.tip_eq, advanced.continues, ?_⟩
        cases ran : p.propose x.clock x.proposer x.batch with
        | mk result q =>
            simp only [serve, ran] at granted
            cases result with
            | ok _ =>
                cases granted
                exact timestamp_of_propose ran
            | error _ => cases granted
    | adopt c =>
        refine .inl ⟨rfl, .inr ?_⟩
        cases ran : p.adopt c with
        | mk result q =>
            simp only [serve, ran] at granted advanced ⊢
            cases result with
            | ok _ =>
                cases granted
                exact congrArg (·.header.timestamp) advanced.tip_eq
            | error _ => cases granted
  · refine .inl ⟨?_, .inl (congrArg _ (congrArg _ tip))⟩
    cases r with
    | propose x => simp [made, refused]
    | adopt c => rfl

/-! ## Any number of requests -/

/-- The blocks that a run has the producer make, each behind the tip that it extends. -/
def proposed (p : Producer) : List Request → List (Block × Block)
  | [] => []
  | r :: rest => p.made r ++ (p.serve r).2.proposed rest

theorem proposed_adopt_propose {x : Proposal} {next : Producer} {c : Block}
    (adopted : p.adopt b = (.ok (), q))
    (proposes : q.propose x.clock x.proposer x.batch = (.ok c, next)) :
    p.proposed [.adopt b, .propose x] = [(q.tip, c)] := by
  simp only [proposed, made, serve, adopted, proposes, List.nil_append, List.append_nil]
  rfl

theorem spec_of_mem_proposed (mem : (parent, b) ∈ p.proposed requests) :
    b.Continues parent ∧
      ∃ clock, b.header.timestamp = nextTimestamp clock parent.header.timestamp := by
  induction requests generalizing p with
  | nil => cases mem
  | cons r rest ih =>
      rcases List.mem_append.1 mem with here | later
      · rcases p.timestamp_serve_cases r with ⟨none, _⟩ | ⟨c, one, _, continues, time⟩
        · rw [none] at here
          cases here
        · rw [one] at here
          cases List.mem_singleton.1 here
          exact ⟨continues, r.timestamp, time⟩
      · exact ih later

/-- Each block that is made moves the time up to which timestamps go by at most one. -/
theorem timestamp_lt_of_mem_proposed {t : Int} (start : p.tip.header.timestamp.toInt ≤ t)
    (times : ∀ r ∈ requests, r.timestamp.toInt ≤ t) (mem : (parent, b) ∈ p.proposed requests) :
    parent.header.timestamp.toInt < t + (p.proposed requests).length := by
  induction requests generalizing p t with
  | nil => cases mem
  | cons r rest ih =>
      rw [List.forall_mem_cons] at times
      unfold proposed at mem ⊢
      rcases p.timestamp_serve_cases r with ⟨none, tip⟩ | ⟨c, one, tip, _, time⟩
      · rw [none, List.nil_append] at mem ⊢
        have next : (p.serve r).2.tip.header.timestamp.toInt ≤ t := by
          rcases tip with same | brought
          · rw [same]
            exact start
          · rw [brought]
            exact times.1
        exact ih next times.2 mem
      · rw [one, List.singleton_append] at mem ⊢
        rw [List.length_cons]
        have next : (p.serve r).2.tip.header.timestamp.toInt ≤ t + 1 := by
          rw [tip, time, toInt_nextTimestamp]
          omega
        have others : ∀ r ∈ rest, r.timestamp.toInt ≤ t + 1 := fun r mem =>
          Int.le_add_one (times.2 r mem)
        rcases List.mem_cons.1 mem with here | later
        · cases here
          omega
        · have below := ih next others later
          omega

/-- Whatever the clock says and whatever is adopted in between, a block that is proposed is later
than the tip that it extends, unless that has the last timestamp: then the block has it too. It does
not come to that while the times that the clock and the adopted blocks bring along stay below the
last one by as much as there are proposals. -/
theorem proposed_later_than_tip (genesis : p.tip = .genesis) (requests : List Request) :
    (∀ parent b, (parent, b) ∈ p.proposed requests → b.Continues parent ∧
      (parent.header.timestamp ≠ lastTimestamp →
        parent.header.timestamp < b.header.timestamp) ∧
      (parent.header.timestamp = lastTimestamp → b.header.timestamp = lastTimestamp)) ∧
    ∀ t, Policy.genesisTimestamp ≤ t → (∀ r ∈ requests, r.timestamp ≤ t) →
      t.toInt + (p.proposed requests).length ≤ lastTimestamp.toInt →
      ∀ parent b, (parent, b) ∈ p.proposed requests →
        parent.header.timestamp < b.header.timestamp := by
  have later {parent b : Block} (mem : (parent, b) ∈ p.proposed requests)
      (below : parent.header.timestamp ≠ lastTimestamp) :
      parent.header.timestamp < b.header.timestamp := by
    obtain ⟨_, clock, time⟩ := spec_of_mem_proposed mem
    rw [time]
    exact lt_nextTimestamp clock below
  refine ⟨fun parent b mem => ?_, fun t start times room parent b mem => later mem ?_⟩
  · obtain ⟨continues, clock, time⟩ := spec_of_mem_proposed mem
    refine ⟨continues, later mem, fun last => ?_⟩
    rw [time, last, nextTimestamp_last]
  · have begin : p.tip.header.timestamp.toInt ≤ t.toInt := by
      rw [genesis]
      exact Int64.le_iff_toInt_le.1 start
    have below := timestamp_lt_of_mem_proposed begin
      (fun r mem => Int64.le_iff_toInt_le.1 (times r mem)) mem
    intro last
    rw [last] at below
    omega

/-! A block that claims to have been made at the end of time. -/

def late : Block :=
  let b := (lone.propose 0 .zero []).2.tip
  { b with header := { b.header with timestamp := lastTimestamp } }

/-- Where adopting that block leads, but for the announcement. -/
def belated : Producer :=
  { lone with
    tip := late
    ledger := (lone.buildBody .zero [] (.ofContents .empty)).2 }

/-- The clock is ahead of the genesis block once and behind the tip once. -/
theorem lone_proposes_later :
    ∃ first second, lone.proposed [.propose ⟨1735689600007, .zero, []⟩, .adopt .genesis,
        .propose ⟨0, .zero, []⟩] = [(.genesis, first), (first, second)] ∧
      first.header.timestamp = 1735689600007 ∧
      first.header.timestamp < second.header.timestamp := by
  let requests : List Request := [.propose ⟨1735689600007, .zero, []⟩, .adopt .genesis,
    .propose ⟨0, .zero, []⟩]
  let first := (lone.propose 1735689600007 .zero []).2
  let second := (first.propose 0 .zero []).2
  have made : lone.proposed requests = [(.genesis, first.tip), (first.tip, second.tip)] := rfl
  obtain ⟨_, strictly⟩ := proposed_later_than_tip (p := lone) rfl requests
  refine ⟨first.tip, second.tip, made, rfl, ?_⟩
  refine strictly 1735689600007 (by decide) (by decide) (by rw [made]; decide) _ _ ?_
  rw [made]
  exact List.mem_cons_of_mem _ List.mem_cons_self

/-- The last timestamp there is leaves none for the next block. -/
theorem lone_repeats_last_timestamp :
    ∃ b, lone.proposed [.adopt late, .propose ⟨0, .zero, []⟩] = [(late, b)] ∧
      ¬late.header.timestamp < b.header.timestamp := by
  have built : lone.buildBody .zero [] (.ofContents .empty) =
      (.ok ⟨[], late.header.stateRoot, late.header.agentRoot⟩, belated.ledger) := rfl
  obtain ⟨q, adopted, tip, contents, engine, committer, _⟩ :=
    adopt_of_built (b := late) Engine.withCounter_disciplined (.refl lone)
      ⟨.new .zero [] 0 0, rfl, rfl⟩ rfl rfl rfl built
  have same : q.Agrees belated := ⟨tip, contents, engine, committer⟩
  obtain ⟨body, m, next⟩ : ∃ body m,
      belated.buildBody .zero [] (.ofContents belated.ledger.contents) = (.ok body, m) :=
    ⟨_, _, rfl⟩
  rw [← same.buildBody_eq, ← same.contents_eq] at next
  have disciplined : q.engine.Disciplined := by
    rw [engine]
    exact Engine.withCounter_disciplined
  obtain ⟨r, proposes, _⟩ := propose_of_built disciplined 0 next
  refine ⟨r.tip, ?_, ?_⟩
  · rw [proposed_adopt_propose (x := ⟨0, .zero, []⟩) adopted proposes, tip]
  · have last : late.header.timestamp = lastTimestamp := rfl
    have time := timestamp_of_propose proposes
    rw [tip, last, nextTimestamp_last] at time
    rw [time, last]
    decide

end Producer

end AgentLedger
