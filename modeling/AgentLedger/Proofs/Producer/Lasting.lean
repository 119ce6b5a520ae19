import AgentLedger.Proofs.Engine.Chronicle
import AgentLedger.Proofs.Producer.Resume
import AgentLedger.Proofs.Producer.Supply
import AgentLedger.Transaction.Draft

namespace AgentLedger

/-!
# What lasts

Between two calls the contents of a ledger only grow, whether transactions are applied one by one or
in blocks, and whatever fails on the way. The transactions whose effects last form a chronicle from
the first state to the last. No place is deployed to twice in it and no agent is registered twice,
by whatever kind of transaction.
-/

/-- The call applies a transaction or a block, and its engine has no extensions. -/
def Call.Plain : Call → Prop
  | apply e _ _ => e.Bare
  | propose _ | adopt _ => True
  | change _ | checkpoint | commit _ | revertTo _ => False

namespace Producer

variable {p q : Producer} {b : Block} {c : Call} {calls : List Call}

/-- The transactions that a call applies for good. -/
def appliedBy (p : Producer) : Call → List Applied
  | .apply e tx height => e.applied height [tx] p.ledger.contents
  | .propose x =>
      match (p.propose x.clock x.proposer x.batch).1 with
      | .ok b => p.engine.applied b.header.height b.transactions p.ledger.contents
      | .error _ => []
  | .adopt b =>
      match (p.adopt b).1 with
      | .ok () => p.engine.applied b.header.height b.transactions p.ledger.contents
      | .error _ => []
  | .change _ | .checkpoint | .commit _ | .revertTo _ => []

/-- The transactions that calls apply for good, one after another. -/
def lasting (p : Producer) : List Call → List Applied
  | [] => []
  | c :: rest => p.appliedBy c ++ (p.perform c).2.lasting rest

/-! ## One call -/

theorem Extends.chronicle (h : p.Extends q b) (bare : p.engine.Bare) :
    Chronicle (p.engine.applied b.header.height b.transactions p.ledger.contents)
      p.ledger.contents q.ledger.contents := by
  obtain ⟨l, ran, credited⟩ := h.applied
  have batch := Engine.chronicle_applyBatch bare b.header.height b.transactions
    (.ofContents p.ledger.contents)
  rw [Engine.applyBatch_of_applyBody ran] at batch
  have rewarded := batch.append (.rewarded credited (.done _))
  rw [List.append_nil] at rewarded
  exact rewarded

theorem chronicle_perform (bare : p.engine.Bare) (plain : c.Plain) :
    Chronicle (p.appliedBy c) p.ledger.contents (p.perform c).2.ledger.contents := by
  cases c with
  | apply e tx height =>
      have alone : (e.applyBatch height [tx] p.ledger).2 = (e.apply p.ledger tx height).2 := by
        unfold Engine.applyBatch
        cases e.apply p.ledger tx height with
        | mk r l => cases r <;> rfl
      have batch := Engine.chronicle_applyBatch plain height [tx] p.ledger
      rw [alone] at batch
      exact batch
  | propose x =>
      cases ran : p.propose x.clock x.proposer x.batch with
      | mk r q =>
          simp only [appliedBy, perform, ran]
          cases r with
          | ok b => exact (extends_of_propose bare.disciplined ran).chronicle bare
          | error _ =>
              rw [(propose_eq_error bare.disciplined ran).contents_eq]
              exact .done _
  | adopt b =>
      cases ran : p.adopt b with
      | mk r q =>
          simp only [appliedBy, perform, ran]
          cases r with
          | ok _ => exact (extends_of_adopt bare.disciplined ran).chronicle bare
          | error _ =>
              rw [(adopt_eq_error bare.disciplined ran).contents_eq]
              exact .done _
  | change x => cases plain
  | checkpoint => cases plain
  | commit k => cases plain
  | revertTo k => cases plain

/-! ## Any number of calls -/

theorem performAll_append (p : Producer) (calls later : List Call) :
    p.performAll (calls ++ later) = (p.performAll calls).performAll later :=
  List.foldl_append

theorem engine_performAll (p : Producer) (calls : List Call) :
    (p.performAll calls).engine = p.engine := by
  induction calls generalizing p with
  | nil => rfl
  | cons c rest ih => exact (ih (p.perform c).2).trans (p.engine_perform c)

theorem chronicle_performAll (bare : p.engine.Bare) (plain : ∀ c ∈ calls, c.Plain) :
    Chronicle (p.lasting calls) p.ledger.contents (p.performAll calls).ledger.contents := by
  induction calls generalizing p with
  | nil => exact .done _
  | cons c rest ih =>
      rw [List.forall_mem_cons] at plain
      exact (chronicle_perform bare plain.1).append (ih (p.engine_perform c ▸ bare) plain.2)

/-- Of any two states between calls the later one has all that the earlier one had: its logs go on,
and accounts, code and agents stay. What lasts in the end are the effects of transactions that have
succeeded. They have deployed and registered just what has come on top, no two of them have deployed
with the same sender and nonce, and no two have registered the same agent. -/
theorem contents_only_grow (bare : p.engine.Bare) (plain : ∀ c ∈ calls, c.Plain) :
    (∀ i j, i ≤ j → (p.performAll (calls.take i)).ledger.contents.Grows
      (p.performAll (calls.take j)).ledger.contents) ∧
    (∀ x ∈ p.lasting calls, ∃ outcome after, x.result = .ok (outcome, after) ∧
      after.Grows (p.performAll calls).ledger.contents) ∧
    p.ledger.contents.Gains ((p.lasting calls).flatMap Applied.registrations)
      ((p.lasting calls).flatMap fun x => x.tx.contracts)
      (p.performAll calls).ledger.contents ∧
    (p.lasting calls).Pairwise (fun x y => x.tx.kind = .deployContract →
      y.tx.kind = .deployContract → (x.tx.sender, x.tx.nonce) ≠ (y.tx.sender, y.tx.nonce)) ∧
    (p.lasting calls).Pairwise fun x y =>
      ∀ identifier ∈ x.registrations, identifier ∉ y.registrations := by
  have chronicle := chronicle_performAll bare plain
  refine ⟨fun i j le => ?_, chronicle.lasts, chronicle.gains, chronicle.pairwise_deployments,
    chronicle.pairwise_registrations⟩
  obtain ⟨k, rfl⟩ := Nat.exists_eq_add_of_le le
  rw [List.take_add, performAll_append]
  have plain' : ∀ c ∈ (calls.drop i).take k, c.Plain := fun c mem =>
    plain c (List.mem_of_mem_drop (List.mem_of_mem_take mem))
  exact (chronicle_performAll ((p.engine_performAll _).symm ▸ bare) plain').grows

/-! An agent, and code that registers the agent that it is called with. -/

def newcomer : AgentIdentity := ⟨"did:agc:new", .zero, [], [], .empty⟩

def enrolment : Transaction :=
  .deployContract .zero [Opcode.byte (.operation .agentRegister)] 0 0

def enrolNewcomer : Transaction :=
  .callContract .zero (contractAddress .zero 0) [Wire.encode newcomer] 250000 1 0

/-- The code is not deployed again with the same nonce. It registers the newcomer, and the block
leaves out the transaction that would register the newcomer again. -/
theorem newcomer_enrolled_once :
    let calls : List Call := [.apply .new enrolment 1, .apply .new enrolment 1,
      .apply .new enrolNewcomer 1,
      .propose ⟨0, .zero, [.agentRegister .zero newcomer 2 0, transferOfNothing]⟩]
    (plain.lasting calls).map (fun x => (x.tx, x.registrations)) =
        [(enrolment, []), (enrolNewcomer, ["did:agc:new"]), (transferOfNothing, [])] ∧
      (plain.performAll (calls.take 1)).ledger.contents.Grows
        (plain.performAll (calls.take 3)).ledger.contents ∧
      (plain.performAll calls).ledger.contents.HasAgent "did:agc:new" := by
  intro calls
  have bare : Engine.new.Bare := Machine.bare_ofVerifier _
  have every : ∀ c ∈ calls, c.Plain := by simp [calls, Call.Plain, bare]
  obtain ⟨grows, _, gains, _⟩ := contents_only_grow (p := plain) bare every
  have made : (plain.lasting calls).map (fun x => (x.tx, x.registrations)) =
      [(enrolment, []), (enrolNewcomer, ["did:agc:new"]), (transferOfNothing, [])] := by
    decide +kernel
  refine ⟨made, grows 1 3 (by decide), (gains.agents.after_iff _).2 (.inr ?_)⟩
  have enrols : (enrolNewcomer, ["did:agc:new"]) ∈
      (plain.lasting calls).map fun x => (x.tx, x.registrations) := by simp [made]
  obtain ⟨x, mem, same⟩ := List.mem_map.1 enrols
  refine List.mem_flatMap.2 ⟨x, mem, ?_⟩
  simp [(Prod.mk.inj same).2]

end Producer

end AgentLedger
