import AgentLedger.Proofs.Engine.Replay
import AgentLedger.Proofs.Producer.Supply
import AgentLedger.Transaction.Draft

namespace AgentLedger

/-!
# Nonces as counters

Under the policy that checks no nonce, a transaction that succeeds adds one to the nonce of its
sender, and nothing else moves a nonce. A block holds exactly the transactions that have succeeded
for good, so a nonce tells how many transactions of its owner the adopted blocks hold, until it
comes to the last nonce and stays there.
-/

open NoncePolicy (lastNonce past)

namespace Contents

variable {c d : Contents} {a : Address}

theorem nonce_le_last (c : Contents) (a : Address) : c.nonce a ≤ lastNonce.toNat :=
  Nat.le_of_lt_succ (c.account a).nonce.toNat_lt

theorem nonce_incrementNonce (c : Contents) (a b : Address) :
    (c.incrementNonce a).nonce b = if b = a then past (c.account a).nonce else c.nonce b := by
  unfold nonce incrementNonce
  rw [account_modifyAccount]
  split
  · exact Saturating.toNat_uint64 _
  · rfl

theorem nonce_credit {value : Amount} (h : c.credit a value = .ok d) (b : Address) :
    d.nonce b = c.nonce b := by
  obtain ⟨total, _, rfl⟩ := credit_eq_ok h
  exact congrArg UInt64.toNat (c.nonce_setBalance a b total)

end Contents

/-- How many of the transactions come from an address. -/
def Transaction.countFrom (a : Address) (txs : List Transaction) : Nat :=
  txs.countP fun tx => tx.sender = a

open Transaction (countFrom)

/-- From the first contents to the second each nonce has gone up by one for each transaction of its
owner, as far as nonces go. -/
def Contents.Counts (c : Contents) (txs : List Transaction) (d : Contents) : Prop :=
  ∀ a, d.nonce a = min (c.nonce a + countFrom a txs) lastNonce.toNat

namespace Contents.Counts

variable {c d e : Contents} {txs later : List Transaction}

theorem of_nonce_eq (same : ∀ a, d.nonce a = c.nonce a) : c.Counts [] d := by
  intro a
  have small := c.nonce_le_last a
  rw [same, countFrom, List.countP_nil, Nat.add_zero, Nat.min_eq_left small]

theorem append (h : c.Counts txs d) (rest : d.Counts later e) : c.Counts (txs ++ later) e := by
  intro a
  rw [rest a, h a, countFrom, countFrom, countFrom, List.countP_append]
  omega

theorem then_same (h : c.Counts txs d) (same : ∀ a, e.nonce a = d.nonce a) : c.Counts txs e := by
  have whole := h.append (of_nonce_eq same)
  rw [List.append_nil] at whole
  exact whole

end Contents.Counts

/-! ## Transactions and bodies -/

namespace Engine

variable {e : Engine} {l m : Ledger} {tx : Transaction} {height : UInt64} {outcome : Outcome}

theorem counts_apply (bare : e.Bare) (counting : e.noncePolicy = .unchecked)
    (ok : e.apply l tx height = (.ok outcome, m)) : l.contents.Counts [tx] m.contents := by
  obtain ⟨_, c, effects, advanced⟩ := apply_ok_effects bare ok
  rw [counting] at advanced
  have counted : c.incrementNonce tx.sender = m.contents := Except.ok.inj advanced
  intro a
  have small := l.contents.nonce_le_last a
  rw [← counted, Contents.nonce_incrementNonce, ← effects.nonce_eq a, countFrom,
    List.countP_singleton]
  split
  · next own =>
      rw [own, decide_eq_true rfl]
      rfl
  · next other =>
      rw [effects.nonce_eq a, decide_eq_false fun own => other own.symm]
      exact (Nat.min_eq_left small).symm

theorem counts_applyBody (bare : e.Bare) (counting : e.noncePolicy = .unchecked)
    {txs : List Transaction} (ran : e.applyBody height txs l = (.ok (), m)) :
    l.contents.Counts txs m.contents := by
  induction txs generalizing l with
  | nil =>
      cases ran
      exact .of_nonce_eq fun _ => rfl
  | cons tx rest ih =>
      unfold applyBody at ran
      cases applied : e.apply l tx height with
      | mk r next =>
          rw [applied] at ran
          cases r with
          | error _ => cases ran
          | ok _ => exact (counts_apply bare counting applied).append (ih ran)

end Engine

/-! ## Blocks and runs -/

namespace Producer

variable {p q : Producer} {b : Block}

/-- All transactions in blocks that become the tip, in their order. -/
def included (p : Producer) (requests : List Request) : List Transaction :=
  (p.adopted requests).flatMap (·.transactions)

theorem Extends.counts (h : p.Extends q b) (bare : p.engine.Bare)
    (counting : p.engine.noncePolicy = .unchecked) :
    p.ledger.contents.Counts b.transactions q.ledger.contents := by
  obtain ⟨applied, ran, rewarded⟩ := h.applied
  exact (Engine.counts_applyBody bare counting ran).then_same (Contents.nonce_credit rewarded)

theorem counts_run (bare : p.engine.Bare) (counting : p.engine.noncePolicy = .unchecked)
    (requests : List Request) :
    p.ledger.contents.Counts (p.included requests) (p.run requests).ledger.contents := by
  induction requests generalizing p with
  | nil => exact .of_nonce_eq fun _ => rfl
  | cons r rest ih =>
      have same : (p.serve r).2.engine = p.engine := engine_serve bare.disciplined r
      have later := ih (same ▸ bare) (same ▸ counting)
      unfold included at later ⊢
      rw [run_cons, adopted, List.flatMap_append]
      rcases serve_cases bare.disciplined r with ⟨b, granted, extended⟩ | ⟨refused, agrees⟩
      · rw [granted, Option.toList_some, List.flatMap_singleton]
        exact (extended.counts bare counting).append later
      · rw [refused, Option.toList_none, List.flatMap_nil, List.nil_append, ← agrees.contents_eq]
        exact later

/-- Where all nonces start at zero and none is checked, the nonce of an address tells after any run
how many transactions from it the adopted blocks hold, each as often as it is held. What has been
left out of a block, what came with a block that was refused and what happened in calls that failed
has left no trace in it. -/
theorem nonces_count_inclusions (bare : p.engine.Bare)
    (counting : p.engine.noncePolicy = .unchecked)
    (fresh : ∀ a, (p.ledger.contents.account a).nonce = 0) (requests : List Request)
    (few : (p.included requests).length < UInt64.size) (a : Address) :
    ((p.run requests).ledger.contents.account a).nonce.toNat =
      countFrom a (p.included requests) := by
  have counted : (p.run requests).ledger.contents.nonce a = _ := counts_run bare counting requests a
  have start : p.ledger.contents.nonce a = 0 := congrArg UInt64.toNat (fresh a)
  have room : countFrom a (p.included requests) ≤ lastNonce.toNat :=
    Nat.le_of_lt_succ (Nat.lt_of_le_of_lt List.countP_le_length few)
  rw [start, Nat.zero_add, Nat.min_eq_left room] at counted
  exact counted

/-! A call of code that is not there, and a block in which it comes after a transfer. -/

def callOfNothing : Transaction := .callContract .zero .zero [] 100000 0 0

def halfSound : Block :=
  let body : Body := ⟨[transferOfNothing, callOfNothing], .zero, .zero⟩
  plain.sign (plain.headerOf 0 .zero body) body

/-- The first block is valid in itself and refused after its first transaction. The block that is
then proposed leaves out the call and holds the transfer twice, and the nonce has counted both. -/
theorem transfer_counted_twice :
    let requests : List Request := [.adopt halfSound,
      .propose ⟨0, .zero, [transferOfNothing, callOfNothing, transferOfNothing]⟩]
    plain.validate halfSound = .ok () ∧
      plain.included requests = [transferOfNothing, transferOfNothing] ∧
      ((plain.run requests).ledger.contents.account .zero).nonce.toNat = 2 := by
  intro requests
  have bare : plain.engine.Bare := Machine.bare_ofVerifier _
  have held : plain.included requests = [transferOfNothing, transferOfNothing] := by
    decide +kernel
  have counted := nonces_count_inclusions bare rfl (fun _ => rfl) requests (by
    rw [held]
    decide) .zero
  rw [held] at counted
  exact ⟨(plain.validate_eq_ok_iff _).2 ⟨⟨_, rfl, rfl⟩, rfl, rfl, rfl⟩, held, counted⟩

end Producer

end AgentLedger
