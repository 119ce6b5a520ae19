import AgentLedger.Proofs.Engine.Effects
import AgentLedger.Proofs.Ledger.Accounts

namespace AgentLedger

/-!
# Replay of transactions

No effect touches a nonce, so under the policy that rejects stale nonces the nonce of an account is
moved by the successful transactions of its owner alone, each time past the nonce of the
transaction. A transaction that has succeeded is therefore stale from then on. The one exception is
the last nonce: nothing lies past it, and a transaction that carries it can succeed again.
-/

namespace Contents

def nonce (c : Contents) (a : Address) : Nat := (c.account a).nonce.toNat

end Contents

section Effects

variable {verify : ReceiptVerifier} {caller : Address} {height : UInt64} {c d : Contents}

theorem Effect.nonce_eq (h : Effect verify caller height c d) (a : Address) :
    d.nonce a = c.nonce a := by
  unfold Contents.nonce
  cases h with
  | transfer moved => rw [Contents.nonce_transfer moved]
  | registerAgent _ registered =>
      rw [Contents.account_of_accounts_eq (Contents.accounts_registerAgent registered)]
  | recordMessage m => rw [Contents.account_of_accounts_eq (c.accounts_recordMessage m)]
  | recordReceipt _ => rfl
  | deploy _ _ => rw [Contents.nonce_setCode]

theorem Effects.nonce_eq (h : Effects verify caller height c d) (a : Address) :
    d.nonce a = c.nonce a :=
  h.keeps fun _ _ effect => effect.nonce_eq a

end Effects

/-! ## One transaction -/

namespace NoncePolicy

/-- The nonce after which there is none. -/
def lastNonce : UInt64 := 0xFFFFFFFFFFFFFFFF

/-- The nonce that an account has after a transaction with a given nonce, unless it has a higher
one already. -/
def past (nonce : UInt64) : Nat := min (nonce.toNat + 1) lastNonce.toNat

theorem lt_or_last_of_past_le {n m : UInt64} (h : past n ≤ m.toNat) :
    n < m ∨ n = lastNonce ∧ m = lastNonce := by
  have small : m.toNat ≤ lastNonce.toNat := Nat.le_of_lt_succ m.toNat_lt
  unfold past at h
  rcases Nat.lt_or_ge n.toNat m.toNat with less | not_less
  · exact .inl (UInt64.lt_iff_toNat_lt.2 less)
  · have high : n.toNat ≤ lastNonce.toNat := Nat.le_of_lt_succ n.toNat_lt
    refine .inr ⟨UInt64.toNat_inj.1 ?_, UInt64.toNat_inj.1 ?_⟩
    · omega
    · omega

end NoncePolicy

open NoncePolicy (lastNonce past)

theorem Contents.nonce_advance_past (c : Contents) (a b : Address) (nonce : UInt64) :
    (c.advanceNonce a (Saturating.addUInt64 nonce 1)).nonce b =
      if b = a then max (c.nonce a) (past nonce) else c.nonce b := by
  unfold Contents.nonce
  rw [nonce_advanceNonce]
  split
  · rw [UInt64.toNat_max, Saturating.addUInt64, Saturating.toNat_uint64]
    rfl
  · rfl

namespace Engine

variable {e : Engine}

/-- What applying a transaction does to the nonces. -/
theorem nonce_apply (bare : e.Bare) (strict : e.noncePolicy = .rejectStale) (l : Ledger)
    (tx : Transaction) (height : UInt64) :
    (∃ outcome, (e.apply l tx height).1 = .ok outcome ∧
      l.contents.nonce tx.sender ≤ tx.nonce.toNat ∧
      ∀ a, (e.apply l tx height).2.contents.nonce a =
        if a = tx.sender then max (l.contents.nonce tx.sender) (past tx.nonce)
        else l.contents.nonce a) ∨
    (∃ err, (e.apply l tx height).1 = .error err ∧
      (e.apply l tx height).2.contents = l.contents) := by
  cases ran : e.apply l tx height with
  | mk r m =>
      cases r with
      | error err =>
          refine .inr ⟨err, rfl, ?_⟩
          have failed := contents_apply_of_error (fun _ => bare.disciplined) (congrArg Prod.fst ran)
          rw [ran] at failed
          exact failed
      | ok outcome =>
          obtain ⟨checked, c, effects, advanced⟩ := apply_ok_effects bare ran
          rw [strict] at checked advanced
          have fresh : ¬ tx.nonce < (l.contents.account tx.sender).nonce := by
            intro stale
            simp only [NoncePolicy.check, if_pos stale] at checked
            cases checked
          have moved : c.advanceNonce tx.sender (Saturating.addUInt64 tx.nonce 1) = m.contents :=
            Except.ok.inj advanced
          refine .inl ⟨outcome, rfl, ?_, fun a => ?_⟩
          · exact Nat.not_lt.1 fun less => fresh (UInt64.lt_iff_toNat_lt.2 less)
          · rw [← effects.nonce_eq tx.sender, ← effects.nonce_eq a, ← moved]
            exact c.nonce_advance_past tx.sender a tx.nonce

theorem nonce_le_nonce_apply (bare : e.Bare) (strict : e.noncePolicy = .rejectStale) (l : Ledger)
    (tx : Transaction) (height : UInt64) (a : Address) :
    l.contents.nonce a ≤ (e.apply l tx height).2.contents.nonce a := by
  rcases nonce_apply bare strict l tx height with ⟨_, _, _, moved⟩ | ⟨_, _, same⟩
  · rw [moved]
    split
    · next own => exact own ▸ Nat.le_max_left _ _
    · exact Nat.le_refl _
  · exact Nat.le_of_eq (congrArg (fun c => c.nonce a) same.symm)

theorem nonce_le_of_apply_ok (bare : e.Bare) (strict : e.noncePolicy = .rejectStale) {l : Ledger}
    {tx : Transaction} {height : UInt64} {outcome : Outcome}
    (ok : (e.apply l tx height).1 = .ok outcome) :
    l.contents.nonce tx.sender ≤ tx.nonce.toNat := by
  rcases nonce_apply bare strict l tx height with ⟨_, _, fresh, _⟩ | ⟨_, failed, _⟩
  · exact fresh
  · rw [failed] at ok
    cases ok

/-- A transaction that succeeds moves the nonce of its sender past its own. -/
theorem past_le_nonce_apply (bare : e.Bare) (strict : e.noncePolicy = .rejectStale) {l : Ledger}
    {tx : Transaction} {height : UInt64} {outcome : Outcome}
    (ok : (e.apply l tx height).1 = .ok outcome) :
    past tx.nonce ≤ (e.apply l tx height).2.contents.nonce tx.sender := by
  rcases nonce_apply bare strict l tx height with ⟨_, _, _, moved⟩ | ⟨_, failed, _⟩
  · rw [moved, if_pos rfl]
    exact Nat.le_max_right _ _
  · rw [failed] at ok
    cases ok

theorem apply_of_stale (strict : e.noncePolicy = .rejectStale) {l : Ledger} {tx : Transaction}
    (stale : tx.nonce.toNat < l.contents.nonce tx.sender) (height : UInt64) :
    e.apply l tx height =
      (.error (.staleNonce (l.contents.account tx.sender).nonce tx.nonce), l) := by
  have less : tx.nonce < (l.contents.account tx.sender).nonce := UInt64.lt_iff_toNat_lt.2 stale
  unfold apply
  rw [strict]
  simp only [NoncePolicy.check, if_pos less]

/-! ## Runs of transactions -/

/-- A transaction and the height at which it is applied. -/
structure Application where
  tx : Transaction
  height : UInt64

/-- The ledger after transactions have been applied one after another. -/
def applyAll (e : Engine) : List Application → Ledger → Ledger
  | [], l => l
  | x :: rest, l => e.applyAll rest (e.apply l x.tx x.height).2

/-- The transaction if it succeeds, and nothing if it fails. -/
def succeeded (e : Engine) (x : Application) (l : Ledger) : List Transaction :=
  match (e.apply l x.tx x.height).1 with
  | .ok _ => [x.tx]
  | .error _ => []

theorem mem_succeeded {x : Application} {l : Ledger} {tx : Transaction} :
    tx ∈ e.succeeded x l ↔ tx = x.tx ∧ ∃ outcome, (e.apply l x.tx x.height).1 = .ok outcome := by
  unfold succeeded
  cases (e.apply l x.tx x.height).1 with
  | ok outcome => simp
  | error err => simp

/-- The transactions that succeed, in their order. -/
def successes (e : Engine) : List Application → Ledger → List Transaction
  | [], _ => []
  | x :: rest, l => e.succeeded x l ++ e.successes rest (e.apply l x.tx x.height).2

theorem nonce_le_nonce_applyAll (bare : e.Bare) (strict : e.noncePolicy = .rejectStale)
    (calls : List Application) (l : Ledger) (a : Address) :
    l.contents.nonce a ≤ (e.applyAll calls l).contents.nonce a := by
  induction calls generalizing l with
  | nil => exact Nat.le_refl _
  | cons x rest ih =>
      exact Nat.le_trans (nonce_le_nonce_apply bare strict l x.tx x.height a) (ih _)

/-- A transaction that succeeds later is not stale now. -/
theorem nonce_le_of_mem_successes (bare : e.Bare) (strict : e.noncePolicy = .rejectStale)
    (calls : List Application) (l : Ledger) {tx : Transaction}
    (mem : tx ∈ e.successes calls l) : l.contents.nonce tx.sender ≤ tx.nonce.toNat := by
  induction calls generalizing l with
  | nil => cases mem
  | cons x rest ih =>
      rcases List.mem_append.1 mem with here | later
      · obtain ⟨rfl, _, ok⟩ := mem_succeeded.1 here
        exact nonce_le_of_apply_ok bare strict ok
      · have kept := nonce_le_nonce_apply bare strict l x.tx x.height tx.sender
        exact Nat.le_trans kept (ih _ later)

/-- A transaction that has succeeded has moved the nonce of its sender for good. -/
theorem past_le_of_mem_successes (bare : e.Bare) (strict : e.noncePolicy = .rejectStale)
    (calls : List Application) (l : Ledger) {tx : Transaction}
    (mem : tx ∈ e.successes calls l) :
    past tx.nonce ≤ (e.applyAll calls l).contents.nonce tx.sender := by
  induction calls generalizing l with
  | nil => cases mem
  | cons x rest ih =>
      rcases List.mem_append.1 mem with here | later
      · obtain ⟨rfl, _, ok⟩ := mem_succeeded.1 here
        have kept := nonce_le_nonce_applyAll bare strict rest
          (e.apply l x.tx x.height).2 x.tx.sender
        exact Nat.le_trans (past_le_nonce_apply bare strict ok) kept
      · exact ih _ later

theorem pairwise_successes (bare : e.Bare) (strict : e.noncePolicy = .rejectStale)
    (calls : List Application) (l : Ledger) :
    (e.successes calls l).Pairwise fun earlier later => earlier.sender = later.sender →
      past earlier.nonce ≤ later.nonce.toNat := by
  induction calls generalizing l with
  | nil => exact .nil
  | cons x rest ih =>
      refine List.pairwise_append.2 ⟨?_, ih _, ?_⟩
      · unfold succeeded
        split
        · exact List.pairwise_singleton _ _
        · exact .nil
      · intro earlier here later mem same
        obtain ⟨rfl, _, ok⟩ := mem_succeeded.1 here
        have fresh := nonce_le_of_mem_successes bare strict rest _ mem
        rw [← same] at fresh
        exact Nat.le_trans (past_le_nonce_apply bare strict ok) fresh

/-- Once a transaction has succeeded it is stale and changes nothing any more, unless its nonce is
the last one. The nonces of the successful transactions of a sender increase strictly until they
reach the last nonce, and stay there. -/
theorem succeeds_once_below_last_nonce (bare : e.Bare) (strict : e.noncePolicy = .rejectStale)
    (calls : List Application) (l : Ledger) :
    (∀ tx ∈ e.successes calls l, tx.nonce ≠ lastNonce → ∀ height,
      e.apply (e.applyAll calls l) tx height =
        (.error (.staleNonce ((e.applyAll calls l).contents.account tx.sender).nonce tx.nonce),
          e.applyAll calls l)) ∧
    (e.successes calls l).Pairwise fun earlier later => earlier.sender = later.sender →
      earlier.nonce < later.nonce ∨ earlier.nonce = lastNonce ∧ later.nonce = lastNonce := by
  constructor
  · intro tx mem below height
    apply apply_of_stale strict
    have moved := past_le_of_mem_successes bare strict calls l mem
    rcases NoncePolicy.lt_or_last_of_past_le moved with less | ⟨last, _⟩
    · exact UInt64.lt_iff_toNat_lt.1 less
    · exact absurd last below
  · apply (pairwise_successes bare strict calls l).imp
    intro earlier later increases same
    exact NoncePolicy.lt_or_last_of_past_le (increases same)

/-! An engine that rejects stale nonces, and transfers to it. -/

def rejecting : Engine := { Engine.new with noncePolicy := .rejectStale }

def payment (nonce : UInt64) : Transaction where
  kind := .transfer
  sender := .zero
  recipient := some (.ofPublicKey [])
  value := 1
  gasLimit := Gas.transfer
  gasPrice := 1
  nonce
  payload := []
  signature := []

def funded : Ledger := .ofContents (Contents.empty.setBalance .zero .max)

/-- The transfer with the lower nonce comes later and is stale; a gap of nonces is left. -/
theorem payment_succeeds_once :
    rejecting.successes [⟨payment 5, 1⟩, ⟨payment 3, 1⟩, ⟨payment 9, 2⟩] funded =
        [payment 5, payment 9] ∧
      (rejecting.apply (rejecting.applyAll [⟨payment 5, 1⟩, ⟨payment 3, 1⟩, ⟨payment 9, 2⟩] funded)
        (payment 5) 3).1 = .error (.staleNonce 10 5) := by
  have bare : rejecting.Bare := Machine.bare_ofVerifier _
  let calls : List Application := [⟨payment 5, 1⟩, ⟨payment 3, 1⟩, ⟨payment 9, 2⟩]
  have made : rejecting.successes calls funded = [payment 5, payment 9] := by decide +kernel
  have moved : ((rejecting.applyAll calls funded).contents.account .zero).nonce = 10 := by
    decide +kernel
  obtain ⟨replayed, _⟩ := succeeds_once_below_last_nonce bare rfl calls funded
  refine ⟨made, ?_⟩
  rw [replayed (payment 5) (by rw [made]; exact List.mem_cons_self) (by decide) 3]
  exact congrArg (fun nonce => Except.error (ChainError.staleNonce nonce 5)) moved

/-- The last nonce is the exception. -/
theorem last_nonce_succeeds_twice :
    rejecting.successes [⟨payment lastNonce, 1⟩, ⟨payment lastNonce, 1⟩] funded =
      [payment lastNonce, payment lastNonce] := by
  decide +kernel

end Engine

end AgentLedger
