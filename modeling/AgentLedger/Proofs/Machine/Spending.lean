import AgentLedger.Proofs.Ledger.Accounts
import AgentLedger.Proofs.Machine.Effects
import AgentLedger.Proofs.Machine.Success

namespace AgentLedger

/-!
# What code spends

Code may be hostile, but all that it can work with are the operands of the call, and each operand
that an operation takes is gone. What an operation leaves on the stack is the byte 0 or 1, and
neither is a JSON text, so no operation can read it as an operand. Hence a run moves at most what
the operands say, always away from the caller, and adds at most one record for each operand.
-/

/-! ## What operands allow -/

/-- The units that an operand moves, if it is the operand of a token transfer. -/
def TokenTransfer.unitsIn (operand : Bytes) : Nat :=
  match (Wire.decodeOperand operand : Except ChainError TokenTransfer) with
  | .ok args => args.value.units
  | .error _ => 0

/-- The exact sum of what operands move. -/
def TokenTransfer.unitsInAll : List Bytes → Nat
  | [] => 0
  | operand :: rest => unitsIn operand + unitsInAll rest

open TokenTransfer (unitsIn unitsInAll)

theorem TokenTransfer.unitsInAll_append (xs ys : List Bytes) :
    unitsInAll (xs ++ ys) = unitsInAll xs + unitsInAll ys := by
  induction xs with
  | nil => exact (Nat.zero_add _).symm
  | cons operand rest ih =>
      rw [List.cons_append, unitsInAll, unitsInAll, ih, Nat.add_assoc]

@[simp] theorem TokenTransfer.unitsInAll_reverse (xs : List Bytes) :
    unitsInAll xs.reverse = unitsInAll xs := by
  induction xs with
  | nil => rfl
  | cons operand rest ih =>
      rw [List.reverse_cons, unitsInAll_append, ih, unitsInAll, unitsInAll, unitsInAll,
        Nat.add_zero, Nat.add_comm]

/-- How many operands are JSON texts, which every operation asks for. -/
def Json.countTexts (operands : List Bytes) : Nat :=
  operands.countP fun operand => (parse? operand).isSome

open Json (countTexts)

theorem Json.countTexts_cons_of_read {α : Type} [Wire α] {operand : Bytes} {a : α}
    (read : Wire.decodeOperand operand = .ok a) (rest : List Bytes) :
    countTexts (operand :: rest) = countTexts rest + 1 := by
  refine List.countP_cons_of_pos ?_
  cases parsed : parse? operand with
  | some v => rfl
  | none =>
      simp only [Wire.decodeOperand, Wire.decode?, parsed] at read
      cases read

/-! ## What contents bear -/

/-- How many messages, agents and receipts there are. -/
def Contents.recordCount (c : Contents) : Nat :=
  c.messages.length + c.agents.size + c.receipts.length

/-- Between the one and the other nobody but the payer has paid, and the payer at most `paid` units.
No nonce has moved, and at most `added` messages, agents and receipts have been added. -/
structure Contents.Spends (payer : Address) (paid added : Nat) (c d : Contents) : Prop where
  others_le : ∀ a, a ≠ payer → c.balance a ≤ d.balance a
  payer_le : (c.balance payer).units ≤ (d.balance payer).units + paid
  nonce_eq : ∀ a, (d.account a).nonce = (c.account a).nonce
  count_le : d.recordCount ≤ c.recordCount + added

namespace Contents

variable {payer : Address} {paid paid' added added' : Nat} {c d e : Contents}

namespace Spends

theorem refl (payer : Address) (c : Contents) : c.Spends payer 0 0 c :=
  ⟨fun _ _ => Nat.le_refl _, Nat.le_refl _, fun _ => rfl, Nat.le_refl _⟩

theorem trans (h : c.Spends payer paid added d) (h' : d.Spends payer paid' added' e) :
    c.Spends payer (paid + paid') (added + added') e where
  others_le a other := Nat.le_trans (h.others_le a other) (h'.others_le a other)
  payer_le := by
    have first := h.payer_le
    have second := h'.payer_le
    omega
  nonce_eq a := (h'.nonce_eq a).trans (h.nonce_eq a)
  count_le := by
    have first := h.count_le
    have second := h'.count_le
    omega

theorem mono (h : c.Spends payer paid added d) (le : paid ≤ paid') (le' : added ≤ added') :
    c.Spends payer paid' added' d :=
  ⟨h.others_le, Nat.le_trans h.payer_le (Nat.add_le_add_left le _), h.nonce_eq,
    Nat.le_trans h.count_le (Nat.add_le_add_left le' _)⟩

/-- What touches no account spends nothing. -/
theorem of_accounts_eq (same : d.accounts = c.accounts)
    (count : d.recordCount ≤ c.recordCount + added) : c.Spends payer 0 added d where
  others_le a _ := by
    rw [balance, balance, account_of_accounts_eq same]
    exact Nat.le_refl _
  payer_le := by
    rw [balance, balance, account_of_accounts_eq same]
    exact Nat.le_refl _
  nonce_eq a := by rw [account_of_accounts_eq same]
  count_le := count

end Spends

theorem spends_transfer {target : Address} {value : Amount}
    (h : c.transfer payer target value = .ok d) : c.Spends payer value.units 0 d := by
  have nonces := nonce_transfer h
  obtain ⟨covered, ⟨_, rfl⟩ | ⟨other, total, sum, rfl⟩⟩ := transfer_eq_ok h
  · exact (Spends.refl payer d).mono (Nat.zero_le _) (Nat.le_refl 0)
  · have units : total.units = value.units + (c.balance target).units :=
      Amount.add?_eq_some_iff.1 sum
    refine ⟨fun a others => ?_, ?_, nonces, Nat.le_refl _⟩
    · rw [balance_setBalance, balance_setBalance, if_neg others]
      split
      · next same =>
          subst same
          change (c.balance a).units ≤ total.units
          omega
      · exact Nat.le_refl _
    · rw [balance_setBalance, if_neg other, balance_setBalance, if_pos rfl, Amount.units_sub]
      omega

theorem spends_registerAgent {identity : AgentIdentity} {height : UInt64}
    (h : c.registerAgent identity height = .ok d) : c.Spends payer 0 1 d := by
  refine .of_accounts_eq (accounts_registerAgent h) ?_
  obtain ⟨_, rfl⟩ := registerAgent_eq_ok h
  have more := c.agents.size_insert_le identity.identifier (.new identity height)
  simp only [recordCount]
  omega

theorem spends_recordMessage (c : Contents) (m : AgentMessage) :
    c.Spends payer 0 1 (c.recordMessage m) := by
  refine .of_accounts_eq (c.accounts_recordMessage m) ?_
  unfold recordMessage countMessage
  cases found : c.agents.get? m.sender with
  | none =>
      simp only [recordCount, List.length_append, List.length_singleton]
      omega
  | some r =>
      simp only [recordCount, List.length_append, List.length_singleton,
        SortedMap.size_insert_of_found found]
      omega

theorem spends_recordReceipt (c : Contents) (r : InferenceReceipt) :
    c.Spends payer 0 1 (c.recordReceipt r) := by
  refine .of_accounts_eq rfl ?_
  simp only [recordCount, recordReceipt, List.length_append, List.length_singleton]
  omega

theorem spends_setCode (c : Contents) (a : Address) (code : Bytes) :
    c.Spends payer 0 0 (c.setCode a code) := by
  have balances (b : Address) : (c.setCode a code).balance b = c.balance b := by
    refine balance_modifyAccount_of_balance_eq ?_ b
    exact fun _ => rfl
  refine ⟨fun b _ => ?_, ?_, fun b => c.nonce_setCode a b code, Nat.le_refl _⟩
  · rw [balances]
    exact Nat.le_refl _
  · rw [balances]
    exact Nat.le_refl _

end Contents

/-! ## What code spends -/

namespace Machine

variable {m : Machine} {f g : CallFrame} {verify : ReceiptVerifier} {payload : Bytes}
  {bs : Bytes} {op : Operation} {result : Option Bytes} {d : Contents}
  {stack next rest : List Bytes}

theorem Performed.spends (h : Performed verify f payload op result d) :
    f.ledger.contents.Spends f.caller (unitsIn payload) 1 d := by
  cases h with
  | agentRegister _ _ registered =>
      exact (Contents.spends_registerAgent registered).mono (Nat.zero_le _) (Nat.le_refl 1)
  | agentSend _ =>
      exact (f.ledger.contents.spends_recordMessage _).mono (Nat.zero_le _) (Nat.le_refl 1)
  | inferProve _ _ =>
      exact (f.ledger.contents.spends_recordReceipt _).mono (Nat.zero_le _) (Nat.le_refl 1)
  | inferVerify _ _ => exact (Contents.Spends.refl _ _).mono (Nat.zero_le _) (Nat.zero_le _)
  | tokenTransfer read moved =>
      rw [unitsIn, read]
      exact (Contents.spends_transfer moved).mono (Nat.le_refl _) (Nat.zero_le _)

theorem Performed.countTexts_cons (h : Performed verify f payload op result d)
    (rest : List Bytes) : countTexts (payload :: rest) = countTexts rest + 1 := by
  cases h with
  | agentRegister read _ _ => exact Json.countTexts_cons_of_read read rest
  | agentSend read => exact Json.countTexts_cons_of_read read rest
  | inferProve read _ => exact Json.countTexts_cons_of_read read rest
  | inferVerify read _ => exact Json.countTexts_cons_of_read read rest
  | tokenTransfer read _ => exact Json.countTexts_cons_of_read read rest

/-- What an operation leaves on the stack is no operand for another. -/
theorem Performed.parse?_eq_none (h : Performed verify f payload op (some bs) d) :
    Json.parse? bs = none := by
  cases h with
  | inferProve _ _ => rfl
  | @inferVerify _ verdict _ _ =>
      cases verdict with
      | true => rfl
      | false => rfl

theorem Performed.pushed (h : Performed verify f payload op result d)
    (pushed : push rest result = .ok next) :
    unitsInAll next = unitsInAll rest ∧ countTexts next = countTexts rest := by
  cases result with
  | none =>
      cases pushed
      exact ⟨rfl, rfl⟩
  | some bs =>
      simp only [push] at pushed
      split at pushed
      · cases pushed
        have unread := h.parse?_eq_none
        refine ⟨?_, ?_⟩
        · simp [unitsInAll, unitsIn, Wire.decodeOperand, Wire.decode?, unread]
        · simp [countTexts, unread]
      · cases pushed

/-- What is on the stack after a step; a run that has finished has no use for it. -/
def Step.operands : Step → List Bytes
  | .finished _ => []
  | .running next => next

theorem caller_step (bare : m.Bare) {byte : UInt8} {s : Step}
    (ran : (m.step byte stack).runOn f = (.ok s, g)) : g.caller = f.caller := by
  cases step_eq_ok ran with
  | stop _ => rfl
  | ret _ _ => rfl
  | operation _ _ paid _ alters _ =>
      exact alters.caller_eq.trans (CallFrame.caller_of_charge paid)
  | extension _ found _ =>
      rw [bare byte] at found
      cases found

/-- An operand that is taken pays for what is done with it. -/
theorem spends_step (bare : m.Bare) {byte : UInt8} {s : Step}
    (ran : (m.step byte stack).runOn f = (.ok s, g)) :
    ∃ paid added, f.ledger.contents.Spends f.caller paid added g.ledger.contents ∧
      paid + unitsInAll s.operands ≤ unitsInAll stack ∧
      added + countTexts s.operands ≤ countTexts stack := by
  cases step_eq_ok ran with
  | stop _ => exact ⟨0, 0, .refl _ _, Nat.zero_le _, Nat.zero_le _⟩
  | ret _ _ => exact ⟨0, 0, .refl _ _, Nat.zero_le _, Nat.zero_le _⟩
  | @operation _ operand rest next _ _ _ _ taken paid performed _ pushed =>
      obtain ⟨units, texts⟩ := performed.pushed pushed
      refine ⟨unitsIn operand, 1, ?_, ?_, ?_⟩
      · rw [← CallFrame.ledger_of_charge paid, ← CallFrame.caller_of_charge paid]
        exact performed.spends
      · rw [taken, unitsInAll]
        exact Nat.le_of_eq (congrArg _ units)
      · rw [taken, performed.countTexts_cons, Nat.add_comm]
        exact Nat.le_of_eq (congrArg (· + 1) texts)
  | extension _ found _ =>
      rw [bare byte] at found
      cases found

theorem spends_run (bare : m.Bare) {code : Bytes} {output : Option Bytes}
    (ran : (m.run code stack).runOn f = (.ok output, g)) :
    f.ledger.contents.Spends f.caller (unitsInAll stack) (countTexts stack)
      g.ledger.contents := by
  induction code generalizing stack f with
  | nil =>
      cases ran
      exact (Contents.Spends.refl _ _).mono (Nat.zero_le _) (Nat.zero_le _)
  | cons byte rest ih =>
      rw [run_cons] at ran
      obtain ⟨s, mid, stepped, ran⟩ := Exec.runOn_bind_eq_ok ran
      obtain ⟨paid, added, first, units, texts⟩ := spends_step bare stepped
      have same := caller_step bare stepped
      cases s with
      | finished result =>
          cases ran
          exact first.mono (Nat.le_of_add_right_le units) (Nat.le_of_add_right_le texts)
      | running next => exact (first.trans (same ▸ ih ran)).mono units texts

theorem spends_execute (bare : m.Bare) {code : Bytes} {operands : List Bytes}
    {output : Option Bytes} (ran : (m.execute code operands).runOn f = (.ok output, g)) :
    f.ledger.contents.Spends f.caller (unitsInAll operands) operands.length
      g.ledger.contents := by
  unfold execute at ran
  split at ran
  · have texts : countTexts operands.reverse ≤ operands.length := by
      have most := List.countP_le_length (p := fun operand => (Json.parse? operand).isSome)
        (l := operands.reverse)
      rw [List.length_reverse] at most
      exact most
    have spent := spends_run bare ran
    rw [TokenTransfer.unitsInAll_reverse] at spent
    exact spent.mono (Nat.le_refl _) texts
  · cases ran

end Machine

end AgentLedger
