import AgentLedger.Proofs.Ledger.Undo

namespace AgentLedger

/-!
# Accounts after a change

A change of one account leaves every other as it is. Balances and nonces are changed apart: what
moves balances keeps every nonce, and agents, messages and receipts touch no account.
-/

namespace Contents

variable {c d : Contents} {a b : Address}

theorem account_modifyAccount (c : Contents) (a b : Address) (f : Account → Account) :
    (c.modifyAccount a f).account b = if b = a then f (c.account a) else c.account b := by
  unfold modifyAccount account
  rw [SortedMap.get?_insert]
  split
  · rfl
  · rfl

theorem account_of_accounts_eq (h : d.accounts = c.accounts) (a : Address) :
    d.account a = c.account a := by
  unfold account
  rw [h]

/-! ## What touches no account -/

@[simp] theorem accounts_recordMessage (c : Contents) (m : AgentMessage) :
    (c.recordMessage m).accounts = c.accounts := by
  unfold recordMessage countMessage
  split
  · rfl
  · rfl

theorem accounts_registerAgent {identity : AgentIdentity} {height : UInt64}
    (h : c.registerAgent identity height = .ok d) : d.accounts = c.accounts := by
  obtain ⟨_, rfl⟩ := registerAgent_eq_ok h
  rfl

/-! ## Nonces -/

theorem nonce_setBalance (c : Contents) (a b : Address) (value : Amount) :
    ((c.setBalance a value).account b).nonce = (c.account b).nonce := by
  rw [setBalance, account_modifyAccount]
  split
  · next same => rw [same]
  · rfl

theorem nonce_setCode (c : Contents) (a b : Address) (code : Bytes) :
    ((c.setCode a code).account b).nonce = (c.account b).nonce := by
  rw [setCode, account_modifyAccount]
  split
  · next same => rw [same]
  · rfl

theorem nonce_transfer {source target : Address} {value : Amount}
    (h : c.transfer source target value = .ok d) (b : Address) :
    (d.account b).nonce = (c.account b).nonce := by
  obtain ⟨_, ⟨_, rfl⟩ | ⟨_, total, _, rfl⟩⟩ := transfer_eq_ok h
  · rfl
  · rw [nonce_setBalance, nonce_setBalance]

theorem nonce_advanceNonce (c : Contents) (a b : Address) (next : UInt64) :
    ((c.advanceNonce a next).account b).nonce =
      if b = a then max (c.account a).nonce next else (c.account b).nonce := by
  rw [advanceNonce, account_modifyAccount]
  split
  · rfl
  · rfl

/-! ## Balances -/

theorem balance_modifyAccount_of_balance_eq {f : Account → Account}
    (keeps : ∀ x, (f x).balance = x.balance) (b : Address) :
    (c.modifyAccount a f).balance b = c.balance b := by
  rw [balance, account_modifyAccount]
  split
  · next same => rw [keeps, same, balance]
  · rfl

theorem balance_setBalance (c : Contents) (a b : Address) (value : Amount) :
    (c.setBalance a value).balance b = if b = a then value else c.balance b := by
  rw [balance, setBalance, account_modifyAccount]
  split
  · rfl
  · rfl

end Contents

end AgentLedger
