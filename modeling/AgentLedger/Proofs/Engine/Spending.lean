import AgentLedger.Proofs.Engine.Chronicle
import AgentLedger.Proofs.Machine.Spending
import AgentLedger.Transaction.Draft

namespace AgentLedger

/-!
# What a transaction spends

A transaction that succeeds takes nothing from anyone but its sender, and from its sender no more
than what it says itself: the value of a transfer, or what the operands of a call move. The code
that is called has no say in it.
-/

open TokenTransfer (unitsInAll)

namespace Transaction

/-- The operands of a call; a payload that is no call has none. -/
def operands (tx : Transaction) : List Bytes :=
  match (Wire.decodeOperand tx.payload : Except ChainError ContractCall) with
  | .ok call => call.operands
  | .error _ => []

/-- How many units the sender has agreed to pay. -/
def unitsAuthorised (tx : Transaction) : Nat :=
  match tx.kind with
  | .transfer => tx.value.units
  | .callContract => unitsInAll tx.operands
  | _ => 0

/-- How many messages, agents and receipts there may be more afterwards. -/
def recordsAllowed (tx : Transaction) : Nat :=
  match tx.kind with
  | .callContract => tx.operands.length
  | _ => 1

end Transaction

namespace Engine

variable {e : Engine} {tx : Transaction} {height : UInt64} {l m : Ledger} {outcome : Outcome}
  {f g : CallFrame} {output : Option Bytes}

theorem Dispatched.spends (bare : e.Bare) (h : Dispatched e tx f output g)
    (sender : f.caller = tx.sender) :
    f.ledger.contents.Spends tx.sender tx.unitsAuthorised tx.recordsAllowed
      g.ledger.contents := by
  cases h with
  | transfer kind _ _ moved _ =>
      simp only [Transaction.unitsAuthorised, Transaction.recordsAllowed, kind]
      exact (Contents.spends_transfer moved).mono (Nat.le_refl _) (Nat.zero_le 1)
  | agentRegister kind _ _ _ registered _ =>
      simp only [Transaction.unitsAuthorised, Transaction.recordsAllowed, kind]
      exact Contents.spends_registerAgent registered
  | agentMessage kind _ _ recorded _ =>
      simp only [Transaction.unitsAuthorised, Transaction.recordsAllowed, kind, recorded]
      exact f.ledger.contents.spends_recordMessage _
  | inferenceReceipt kind _ _ _ recorded _ =>
      simp only [Transaction.unitsAuthorised, Transaction.recordsAllowed, kind, recorded]
      exact f.ledger.contents.spends_recordReceipt _
  | deployContract kind _ _ _ _ stored _ =>
      simp only [Transaction.unitsAuthorised, Transaction.recordsAllowed, kind, stored]
      exact (f.ledger.contents.spends_setCode _ _).mono (Nat.le_refl 0) (Nat.zero_le 1)
  | callContract kind paid _ _ read ran =>
      simp only [Transaction.unitsAuthorised, Transaction.recordsAllowed, Transaction.operands,
        kind, read]
      rw [← sender, ← CallFrame.caller_of_charge paid, ← CallFrame.ledger_of_charge paid]
      exact Machine.spends_execute bare ran

theorem apply_ok_grows (bare : e.Bare) (h : e.apply l tx height = (.ok outcome, m)) :
    l.contents.Grows m.contents := by
  obtain ⟨_, c, effects, advanced⟩ := apply_ok_effects bare h
  exact effects.grows.trans (e.noncePolicy.grows_change advanced)

/-- Whatever code is called, a transaction that succeeds takes nothing from any account but that of
its sender, changes no other nonce, and costs the sender at most what the sender has authorised.
Nothing is removed, and a call adds at most one message, agent or receipt for each operand. -/
theorem only_sender_pays (bare : e.Bare) (h : e.apply l tx height = (.ok outcome, m)) :
    (∀ a, a ≠ tx.sender → l.contents.balance a ≤ m.contents.balance a ∧
      (m.contents.account a).nonce = (l.contents.account a).nonce) ∧
    (l.contents.balance tx.sender).units ≤
      (m.contents.balance tx.sender).units + tx.unitsAuthorised ∧
    l.contents.Grows m.contents ∧
    m.contents.recordCount ≤ l.contents.recordCount + tx.recordsAllowed := by
  obtain ⟨_, output, g, dispatched, _, advanced⟩ := apply_eq_ok (congrArg Prod.fst h)
  have spent := dispatched.spends bare rfl
  rw [h] at advanced
  obtain ⟨next, final⟩ := e.noncePolicy.change_eq_ok advanced
  have balances (a : Address) : m.contents.balance a = g.ledger.contents.balance a := by
    rw [final]
    refine Contents.balance_modifyAccount_of_balance_eq ?_ a
    exact fun _ => rfl
  refine ⟨fun a other => ⟨?_, ?_⟩, ?_, apply_ok_grows bare h, ?_⟩
  · rw [balances]
    exact spent.others_le a other
  · rw [final, Contents.account_modifyAccount, if_neg other]
    exact spent.nonce_eq a
  · rw [balances]
    exact spent.payer_le
  · rw [final]
    exact spent.count_le

/-! Code that makes one transfer, called with operands for two. -/

def onePayment : Ledger :=
  .ofContents ((Contents.empty.setBalance .zero Policy.token).setCode (.ofPublicKey [])
    [Opcode.byte (.operation .tokenTransfer), Opcode.byte .stop])

def twoPaymentsAllowed : Transaction :=
  let operand (value : Amount) := Wire.encode (TokenTransfer.mk (.ofPublicKey [1]) value)
  .callContract .zero (.ofPublicKey []) [operand 0, operand 1] 30000 0 0

/-- The caller allows for one unit, which the code takes from the top of the stack. The receiver has
no less than before, and the caller no more than one unit less. -/
theorem one_of_two_payments :
    ∃ outcome m, Engine.new.apply onePayment twoPaymentsAllowed 1 = (.ok outcome, m) ∧
      twoPaymentsAllowed.unitsAuthorised = 1 ∧ m.contents.balance (.ofPublicKey [1]) = 1 ∧
      Policy.token.units ≤ (m.contents.balance .zero).units + 1 ∧
      m.contents.recordCount ≤ 2 := by
  have bare : Engine.new.Bare := Machine.bare_ofVerifier _
  have succeeds : (Engine.new.apply onePayment twoPaymentsAllowed 1).1 = .ok ⟨21700, none⟩ := by
    decide +kernel
  have received : (Engine.new.apply onePayment twoPaymentsAllowed 1).2.contents.balance
      (.ofPublicKey [1]) = 1 := by decide +kernel
  have authorised : twoPaymentsAllowed.unitsAuthorised = 1 := by decide +kernel
  have allowed : twoPaymentsAllowed.recordsAllowed = 2 := by decide +kernel
  have start : onePayment.contents.balance .zero = Policy.token := by decide +kernel
  have empty : onePayment.contents.recordCount = 0 := by decide +kernel
  cases ran : Engine.new.apply onePayment twoPaymentsAllowed 1 with
  | mk r m =>
      rw [ran] at succeeds received
      cases succeeds
      obtain ⟨_, paid, _, added⟩ := only_sender_pays bare ran
      have spent : (onePayment.contents.balance .zero).units ≤
          (m.contents.balance .zero).units + twoPaymentsAllowed.unitsAuthorised := paid
      rw [authorised, start] at spent
      rw [allowed, empty] at added
      exact ⟨_, m, rfl, authorised, received, spent, added⟩

end Engine

end AgentLedger
