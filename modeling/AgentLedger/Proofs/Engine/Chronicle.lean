import AgentLedger.Producer
import AgentLedger.Proofs.Engine.Effects
import AgentLedger.Proofs.Engine.Success
import AgentLedger.Proofs.Machine.Identities
import Mathlib.Data.List.Nodup

namespace AgentLedger

/-!
# Chronicles

Every effect lets the contents grow, so every transaction does that succeeds, and one that fails
leaves them as they are. What a transaction registers and deploys can be told from it and from what
it is applied to. A chronicle lists the transactions that lead from one state of the contents to a
later one; besides them only rewards are credited.
-/

section Effects

variable {verify : ReceiptVerifier} {caller : Address} {height : UInt64} {c d : Contents}

theorem Effect.grows (h : Effect verify caller height c d) : c.Grows d := by
  cases h with
  | transfer moved => exact Contents.grows_transfer moved
  | registerAgent _ registered => exact Contents.grows_registerAgent registered
  | recordMessage m => exact c.grows_recordMessage m
  | recordReceipt _ => exact c.grows_recordReceipt _
  | deploy free _ => exact Contents.grows_setCode free _

theorem Effects.grows (h : Effects verify caller height c d) : c.Grows d := by
  induction h with
  | refl => exact .refl c
  | tail _ last ih => exact ih.trans last.grows

end Effects

namespace NoncePolicy

variable {c d : Contents} {tx : Transaction}

theorem grows_change (p : NoncePolicy) (h : (p.change tx).onContents c = .ok d) : c.Grows d := by
  cases p with
  | unchecked =>
      cases h
      exact c.grows_incrementNonce _
  | rejectStale =>
      cases h
      exact c.grows_advanceNonce _ _

theorem receives_change (p : NoncePolicy) (h : (p.change tx).onContents c = .ok d) :
    c.Receives [] [] d := by
  obtain ⟨next, rfl⟩ := p.change_eq_ok h
  exact ⟨Contents.gains_modifyAccount fun _ => rfl, .of_agents_eq rfl⟩

end NoncePolicy

/-- Where a transaction puts the code that it deploys. -/
def Transaction.contracts (tx : Transaction) : List Address :=
  match tx.kind with
  | .deployContract => [contractAddress tx.sender tx.nonce]
  | _ => []

namespace Engine

variable {e : Engine} {tx : Transaction} {height : UInt64} {c d : Contents} {outcome : Outcome}
  {f g : CallFrame} {output : Option Bytes}

/-! ## What a transaction adds -/

/-- The code that a transaction calls, and its operands. -/
def called (tx : Transaction) (c : Contents) : Option (Bytes × List Bytes) := do
  let contract ← tx.recipient
  let code ← c.code? contract
  let call ← (Wire.decodeOperand tx.payload : Except ChainError ContractCall).toOption
  return (code, call.operands)

/-- The identities that a transaction registers, unless it fails. -/
def identities (e : Engine) (tx : Transaction) (f : CallFrame) : List AgentIdentity :=
  match tx.kind with
  | .agentRegister => AgentIdentity.presented tx.payload
  | .callContract =>
      match called tx f.ledger.contents, f.charge Gas.callBase with
      | some (code, operands), .ok g => e.machine.identities code operands.reverse g
      | _, _ => []
  | _ => []

theorem Dispatched.receives (bare : e.Bare) (h : Dispatched e tx f output g) :
    f.ledger.contents.Receives (e.identities tx f) tx.contracts g.ledger.contents := by
  cases h with
  | transfer kind _ _ moved _ =>
      simp only [identities, Transaction.contracts, kind]
      exact Contents.receives_transfer moved
  | agentRegister kind _ read _ registered _ =>
      simp only [identities, Transaction.contracts, kind, AgentIdentity.presented, read]
      exact Contents.receives_registerAgent registered
  | agentMessage kind _ _ recorded _ =>
      simp only [identities, Transaction.contracts, kind, recorded]
      exact f.ledger.contents.receives_recordMessage _
  | inferenceReceipt kind _ _ _ recorded _ =>
      simp only [identities, Transaction.contracts, kind, recorded]
      exact f.ledger.contents.receives_recordReceipt _
  | deployContract kind _ _ _ free stored _ =>
      simp only [identities, Transaction.contracts, kind, stored]
      exact Contents.receives_setCode free _
  | @callContract _ code call charged _ _ kind paid recipient found read ran =>
      have calls : called tx f.ledger.contents = some (code, call.operands) := by
        simp [called, recipient, found, read, Except.toOption]
      simp only [identities, Transaction.contracts, kind, calls, paid]
      rw [← CallFrame.ledger_of_charge paid]
      exact Machine.receives_execute bare ran

theorem applyOnCopy_eq_ok (ran : e.applyOnCopy c tx height = .ok (outcome, d)) :
    ∃ output g, (e.dispatch tx).runOn (.enter (.ofContents c) tx.sender tx.gasLimit height) =
        (.ok output, g) ∧ (e.noncePolicy.change tx).onContents g.ledger.contents = .ok d := by
  unfold applyOnCopy at ran
  cases checked : e.noncePolicy.check (.ofContents c) tx with
  | error _ =>
      rw [checked] at ran
      cases ran
  | ok _ =>
      rw [checked] at ran
      simp only at ran
      cases dispatched : (e.dispatch tx).runOn
          (.enter (.ofContents c) tx.sender tx.gasLimit height) with
      | mk r g =>
          rw [dispatched] at ran
          cases r with
          | error _ => cases ran
          | ok output =>
              refine ⟨output, g, rfl, ?_⟩
              simp only at ran
              cases advanced : (e.noncePolicy.change tx).onContents g.ledger.contents with
              | error _ =>
                  rw [advanced] at ran
                  cases ran
              | ok final =>
                  rw [advanced] at ran
                  cases ran
                  rfl

end Engine

/-! ## Transactions that have been applied -/

/-- A transaction and what it was applied to. -/
structure Applied where
  engine : Engine
  before : Contents
  tx : Transaction
  height : UInt64

namespace Applied

variable {x : Applied} {outcome : Outcome} {d : Contents}

def result (x : Applied) : Except ChainError (Outcome × Contents) :=
  x.engine.applyOnCopy x.before x.tx x.height

/-- The identifiers of the agents that it registers, unless it fails. -/
def registrations (x : Applied) : List String :=
  (x.engine.identities x.tx
    (.enter (.ofContents x.before) x.tx.sender x.tx.gasLimit x.height)).map (·.identifier)

theorem grows (bare : x.engine.Bare) (ran : x.result = .ok (outcome, d)) : x.before.Grows d := by
  obtain ⟨output, g, dispatched, advanced⟩ := Engine.applyOnCopy_eq_ok ran
  have acted := Engine.acts_dispatch bare x.tx x.height
    (.enter (.ofContents x.before) x.tx.sender x.tx.gasLimit x.height) ⟨rfl, rfl⟩ trivial
  rw [dispatched] at acted
  exact acted.effects.grows.trans (x.engine.noncePolicy.grows_change advanced)

theorem gains (bare : x.engine.Bare) (ran : x.result = .ok (outcome, d)) :
    x.before.Gains x.registrations x.tx.contracts d := by
  obtain ⟨output, g, dispatched, advanced⟩ := Engine.applyOnCopy_eq_ok ran
  have added := (Engine.dispatch_eq_ok dispatched).receives bare
  exact (added.then_nothing (x.engine.noncePolicy.receives_change advanced)).gains

end Applied

/-- Transactions of engines without extensions lead from one state of the contents to another, with
rewards in between. -/
inductive Chronicle : List Applied → Contents → Contents → Prop where
  | done (c : Contents) : Chronicle [] c c
  | applied {x : Applied} {xs : List Applied} {outcome : Outcome} {d final : Contents}
      (bare : x.engine.Bare) (ran : x.result = .ok (outcome, d)) (later : Chronicle xs d final) :
      Chronicle (x :: xs) x.before final
  | rewarded {xs : List Applied} {a : Address} {value : Amount} {c d final : Contents}
      (credited : c.credit a value = .ok d) (later : Chronicle xs d final) : Chronicle xs c final

namespace Chronicle

variable {xs ys : List Applied} {c d e : Contents}

theorem append (h : Chronicle xs c d) (h' : Chronicle ys d e) : Chronicle (xs ++ ys) c e := by
  induction h with
  | done c => exact h'
  | applied bare ran _ ih => exact .applied bare ran (ih h')
  | rewarded credited _ ih => exact .rewarded credited (ih h')

theorem grows (h : Chronicle xs c d) : c.Grows d := by
  induction h with
  | done c => exact .refl c
  | applied bare ran _ ih => exact (Applied.grows bare ran).trans ih
  | rewarded credited _ ih => exact (Contents.grows_credit credited).trans ih

theorem gains (h : Chronicle xs c d) :
    c.Gains (xs.flatMap Applied.registrations) (xs.flatMap fun x => x.tx.contracts) d := by
  induction h with
  | done c => exact .refl c
  | applied bare ran _ ih =>
      rw [List.flatMap_cons, List.flatMap_cons]
      exact (Applied.gains bare ran).append ih
  | rewarded credited _ ih => exact (Contents.gains_credit credited).append ih

/-- Each transaction in a chronicle has succeeded, and what it has done is still there. -/
theorem lasts (h : Chronicle xs c d) :
    ∀ x ∈ xs, ∃ outcome after, x.result = .ok (outcome, after) ∧ after.Grows d := by
  induction h with
  | done c => exact nofun
  | applied bare ran later ih => exact List.forall_mem_cons.2 ⟨⟨_, _, ran, later.grows⟩, ih⟩
  | rewarded _ _ ih => exact ih

/-- A place is deployed to once, so no two deployments have the same sender and nonce. -/
theorem pairwise_deployments (h : Chronicle xs c d) :
    xs.Pairwise fun x y => x.tx.kind = .deployContract → y.tx.kind = .deployContract →
      (x.tx.sender, x.tx.nonce) ≠ (y.tx.sender, y.tx.nonce) := by
  refine (List.nodup_flatMap.1 h.gains.contracts.nodup).2.imp ?_
  intro x y apart deploys deploys' same
  obtain ⟨sender, nonce⟩ := Prod.mk.inj same
  refine apart (a := contractAddress x.tx.sender x.tx.nonce) ?_ ?_
  · simp [Transaction.contracts, deploys]
  · simp [Transaction.contracts, deploys', sender, nonce]

theorem pairwise_registrations (h : Chronicle xs c d) :
    xs.Pairwise fun x y => ∀ identifier ∈ x.registrations, identifier ∉ y.registrations :=
  (List.nodup_flatMap.1 h.gains.agents.nodup).2

end Chronicle

/-! ## Chronicles of batches -/

namespace Engine

variable {e : Engine} {height : UInt64}

/-- The transactions of a batch that succeed, with what they are applied to. -/
def applied (e : Engine) (height : UInt64) : List Transaction → Contents → List Applied
  | [], _ => []
  | tx :: rest, c =>
      match e.applyOnCopy c tx height with
      | .ok (_, d) => ⟨e, c, tx, height⟩ :: e.applied height rest d
      | .error _ => e.applied height rest c

theorem chronicle_applyBatch (bare : e.Bare) (height : UInt64) (batch : List Transaction)
    (l : Ledger) : Chronicle (e.applied height batch l.contents) l.contents
      (e.applyBatch height batch l).2.contents := by
  induction batch generalizing l with
  | nil => exact .done _
  | cons tx rest ih =>
      have copied := applyOnCopy_eq bare.disciplined l tx height
      unfold applyBatch applied
      cases ran : e.apply l tx height with
      | mk r next =>
          rw [ran] at copied
          cases r with
          | ok outcome =>
              have succeeded : e.applyOnCopy l.contents tx height =
                .ok (outcome, next.contents) := copied
              rw [succeeded]
              exact .applied (x := ⟨e, l.contents, tx, height⟩) bare succeeded (ih next)
          | error err =>
              have failed : e.applyOnCopy l.contents tx height = .error err := copied
              have same :=
                contents_apply_of_error (fun _ => bare.disciplined) (congrArg Prod.fst ran)
              rw [ran] at same
              rw [failed]
              have later := ih next
              rw [show next.contents = l.contents from same] at later
              exact later

end Engine

end AgentLedger
