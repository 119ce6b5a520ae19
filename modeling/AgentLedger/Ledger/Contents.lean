import AgentLedger.Agent
import AgentLedger.Saturating

namespace AgentLedger

/-!
# Contents of the ledger

The ledger holds accounts, agents, a log of messages and a log of receipts. The operations here
say what each change does to the contents; an operation that fails has no contents.
-/

structure Account where
  address : Address
  balance : Amount
  nonce : UInt64
  code : Option Bytes
deriving DecidableEq, Repr

namespace Account

def empty (address : Address) : Account := ⟨address, 0, 0, none⟩

def isContract (a : Account) : Bool := a.code.isSome

end Account

structure AgentRecord where
  identity : AgentIdentity
  registeredAt : UInt64
  messageCount : UInt64
  active : Bool
deriving DecidableEq

namespace AgentRecord

def new (identity : AgentIdentity) (height : UInt64) : AgentRecord := ⟨identity, height, 0, true⟩

def countMessage (r : AgentRecord) : AgentRecord :=
  { r with messageCount := Saturating.addUInt64 r.messageCount 1 }

end AgentRecord

structure Contents where
  accounts : SortedMap Address Account
  agents : SortedMap String AgentRecord
  messages : List AgentMessage
  receipts : List InferenceReceipt
deriving DecidableEq, Inhabited

namespace Contents

def empty : Contents := ⟨.empty, .empty, [], []⟩

/-! ## Accounts -/

/-- The account at an address, which is empty if nothing has touched it. -/
def account (c : Contents) (a : Address) : Account := (c.accounts.get? a).getD (.empty a)

def balance (c : Contents) (a : Address) : Amount := (c.account a).balance

def code? (c : Contents) (a : Address) : Option Bytes := (c.accounts.get? a).bind (·.code)

def modifyAccount (c : Contents) (a : Address) (f : Account → Account) : Contents :=
  { c with accounts := c.accounts.insert a (f (c.account a)) }

def setBalance (c : Contents) (a : Address) (value : Amount) : Contents :=
  c.modifyAccount a fun x => { x with balance := value }

def increased (c : Contents) (a : Address) (value : Amount) : Except ChainError Amount :=
  -- The balance stands last. A sum that ends in a known number is unfolded unit by unit.
  match value.add? (c.balance a) with
  | some total => .ok total
  | none => .error (.invalidOperation (.balanceOverflow a))

def credit (c : Contents) (a : Address) (value : Amount) : Except ChainError Contents := do
  let total ← c.increased a value
  return c.setBalance a total

/-- Both balances are checked before either changes. -/
def transfer (c : Contents) (source target : Address) (value : Amount) :
    Except ChainError Contents :=
  if c.balance source < value then .error (.insufficientBalance (c.balance source) value)
  else if source = target then .ok c
  else do
    let total ← c.increased target value
    return (c.setBalance source (c.balance source - value)).setBalance target total

def incrementNonce (c : Contents) (a : Address) : Contents :=
  c.modifyAccount a fun x => { x with nonce := Saturating.addUInt64 x.nonce 1 }

/-- Moves a nonce forward; it never goes back. -/
def advanceNonce (c : Contents) (a : Address) (next : UInt64) : Contents :=
  c.modifyAccount a fun x => { x with nonce := max x.nonce next }

def setCode (c : Contents) (a : Address) (code : Bytes) : Contents :=
  c.modifyAccount a fun x => { x with code := some code }

def totalSupply (c : Contents) : Amount :=
  c.accounts.values.foldl (fun total x => total.saturatingAdd x.balance) 0

/-! ## Agents and logs -/

def agent (c : Contents) (identifier : String) : Except ChainError AgentRecord :=
  match c.agents.get? identifier with
  | some r => .ok r
  | none => .error (.agentNotFound identifier)

def registerAgent (c : Contents) (identity : AgentIdentity) (height : UInt64) :
    Except ChainError Contents :=
  if c.agents.contains identity.identifier then
    .error (.agentAlreadyRegistered identity.identifier)
  else
    .ok { c with agents := c.agents.insert identity.identifier (.new identity height) }

/-- Counts a message of a registered agent. -/
def countMessage (c : Contents) (sender : String) : Contents :=
  match c.agents.get? sender with
  | some r => { c with agents := c.agents.insert sender r.countMessage }
  | none => c

def recordMessage (c : Contents) (m : AgentMessage) : Contents :=
  { c.countMessage m.sender with messages := c.messages ++ [m] }

def recordReceipt (c : Contents) (r : InferenceReceipt) : Contents :=
  { c with receipts := c.receipts ++ [r] }

def messagesFrom (c : Contents) (identifier : String) : List AgentMessage :=
  c.messages.filter fun m => m.sender = identifier

end Contents

end AgentLedger
