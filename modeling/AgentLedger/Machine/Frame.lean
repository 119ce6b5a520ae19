import AgentLedger.Ledger.Basic
import AgentLedger.Wire.Agent
import AgentLedger.Wire.Transaction

namespace AgentLedger

/-!
# Call frames

A transaction or a call runs in a frame, which holds the ledger and a gas meter. An effect that
fails leaves the frame as it stands; whoever opened the frame gives up what has been done to the
ledger.
-/

structure CallFrame where
  caller : Address
  originator : Address
  gasLimit : UInt64
  gasUsed : UInt64
  height : UInt64
  ledger : Ledger

namespace CallFrame

def enter (ledger : Ledger) (caller : Address) (gasLimit height : UInt64) : CallFrame :=
  ⟨caller, caller, gasLimit, 0, height, ledger⟩

def gasLeft (f : CallFrame) : UInt64 := .ofNat (f.gasLimit.toNat - f.gasUsed.toNat)

/-- Charges nothing if the limit would be passed. -/
def charge (f : CallFrame) (amount : UInt64) : Except ChainError CallFrame :=
  if f.gasUsed.toNat + amount.toNat ≤ f.gasLimit.toNat then
    .ok { f with gasUsed := f.gasUsed + amount }
  else .error (.outOfGas f.gasUsed amount f.gasLimit)

end CallFrame

abbrev Exec := ExceptT ChainError (StateM CallFrame)

/-- Accepts a receipt that claims an inference, in view of the contents of the ledger. -/
abbrev ReceiptVerifier := InferenceReceipt → Contents → Except ChainError Unit

/-- Accepts every receipt whose shape is right. -/
def ReceiptVerifier.structural : ReceiptVerifier := fun _ _ => .ok ()

namespace Exec

def runOn {α : Type} (x : Exec α) (f : CallFrame) : Except ChainError α × CallFrame :=
  StateT.run (ExceptT.run x) f

section Run

variable {α β : Type}

@[simp] theorem runOn_pure (a : α) (f : CallFrame) : (pure a : Exec α).runOn f = (.ok a, f) := rfl

@[simp] theorem runOn_throw (e : ChainError) (f : CallFrame) :
    (throw e : Exec α).runOn f = (.error e, f) := rfl

@[simp] theorem runOn_get (f : CallFrame) : (get : Exec CallFrame).runOn f = (.ok f, f) := rfl

@[simp] theorem runOn_set (f g : CallFrame) : (set g : Exec Unit).runOn f = (.ok (), g) := rfl

@[simp] theorem runOn_lift (r : Except ChainError α) (f : CallFrame) :
    (liftM r : Exec α).runOn f = (r, f) := rfl

theorem runOn_bind (x : Exec α) (k : α → Exec β) (f : CallFrame) :
    (x >>= k).runOn f =
      match x.runOn f with
      | (.ok a, g) => (k a).runOn g
      | (.error e, g) => (.error e, g) := by
  change ExceptT.bindCont k (x.runOn f).1 (x.runOn f).2 = _
  split
  · next h => rw [h]; rfl
  · next h => rw [h]; rfl

end Run

def charge (amount : UInt64) : Exec Unit := do
  set (← (← get).charge amount)

def contents : Exec Contents := return (← get).ledger.contents

@[simp] theorem runOn_contents (f : CallFrame) :
    contents.runOn f = (.ok f.ledger.contents, f) := rfl

theorem runOn_charge (amount : UInt64) (f : CallFrame) :
    (charge amount).runOn f =
      match f.charge amount with
      | .ok g => (.ok (), g)
      | .error e => (.error e, f) := by
  cases h : f.charge amount <;> simp [charge, runOn_bind, h]

def changeLedger (change : Ledger → Except ChainError Ledger) : Exec Unit := do
  let frame ← get
  set { frame with ledger := ← change frame.ledger }

theorem runOn_changeLedger (change : Ledger → Except ChainError Ledger) (f : CallFrame) :
    (changeLedger change).runOn f =
      match change f.ledger with
      | .ok l => (.ok (), { f with ledger := l })
      | .error e => (.error e, f) := by
  cases h : change f.ledger <;> simp [changeLedger, runOn_bind, h]

/-! ## Effects -/

def transfer (source target : Address) (value : Amount) : Exec Unit :=
  changeLedger fun l => l.transfer source target value

def registerAgent (payload : Bytes) : Exec Unit := do
  let identity : AgentIdentity ← Wire.decodeOperand payload
  identity.validate
  let frame ← get
  changeLedger fun l => l.registerAgent identity frame.height

def sendMessage (payload : Bytes) : Exec Unit := do
  let message : AgentMessage ← Wire.decodeOperand payload
  changeLedger fun l => .ok (l.recordMessage message)

def checkReceipt (verify : ReceiptVerifier) (r : InferenceReceipt) (c : Contents) :
    Except ChainError Unit := do
  r.validateStructure
  verify r c

def proveInference (verify : ReceiptVerifier) (payload : Bytes) : Exec Unit := do
  let receipt : InferenceReceipt ← Wire.decodeOperand payload
  checkReceipt verify receipt (← contents)
  changeLedger fun l => .ok (l.recordReceipt receipt)

/-- Tells whether a receipt would be accepted, and records nothing. -/
def verifyInference (verify : ReceiptVerifier) (payload : Bytes) : Exec Bool := do
  let receipt : InferenceReceipt ← Wire.decodeOperand payload
  return (checkReceipt verify receipt (← contents)).isOk

end Exec

end AgentLedger
