import AgentLedger.Machine.Basic

namespace AgentLedger

/-!
# Engine

The engine applies a transaction to the ledger as a whole or not at all. The nonce of the sender
advances only if the transaction succeeds.
-/

inductive NoncePolicy where
  /-- Nonces are counted and never checked. -/
  | unchecked
  /-- A nonce below the sender's is stale, and the sender's moves past the nonce. -/
  | rejectStale
deriving DecidableEq, Repr, Inhabited

namespace NoncePolicy

def name : NoncePolicy → String
  | unchecked => "unchecked"
  | rejectStale => "reject_stale"

instance : Wire NoncePolicy where
  toJson p := .ofText p.name
  ofJson? := Json.oneOf? ([unchecked, rejectStale].map fun p => (p.name, p))

def check (p : NoncePolicy) (l : Ledger) (tx : Transaction) : Except ChainError Unit :=
  let expected := (l.contents.account tx.sender).nonce
  match p with
  | unchecked => .ok ()
  | rejectStale => if tx.nonce < expected then .error (.staleNonce expected tx.nonce) else .ok ()

def advance (p : NoncePolicy) (l : Ledger) (tx : Transaction) : Ledger :=
  match p with
  | unchecked => l.incrementNonce tx.sender
  | rejectStale => l.advanceNonce tx.sender (Saturating.addUInt64 tx.nonce 1)

end NoncePolicy

structure Outcome where
  gasUsed : UInt64
  output : Option Bytes
deriving DecidableEq, Repr

/-! ## The two verifiers -/

/-- The machine of an engine, which verifies the receipts among operands, and beside it the verifier
for receipts that are transactions of their own. Whatever sets one of the two sets the other. -/
structure EngineMachine extends Machine where
  ownVerifier : ReceiptVerifier
  inStep : ownVerifier = verifyReceipt

namespace EngineMachine

def ofMachine (m : Machine) : EngineMachine := ⟨m, m.verifyReceipt, rfl⟩

instance : Coe Machine EngineMachine := ⟨ofMachine⟩

def withReceiptVerifier (m : EngineMachine) (verifyReceipt : ReceiptVerifier) : EngineMachine :=
  ⟨m.setReceiptVerifier verifyReceipt, verifyReceipt, rfl⟩

/-- A registration touches neither verifier. -/
def register (m : EngineMachine) (byte : UInt8) (x : Extension) :
    Except ChainError EngineMachine :=
  match h : m.toMachine.register byte x with
  | .ok n => .ok ⟨n, m.ownVerifier, m.inStep.trans (Machine.verifyReceipt_of_register h).symm⟩
  | .error err => .error err

end EngineMachine

structure Engine where
  machine : EngineMachine
  noncePolicy : NoncePolicy

namespace Engine

def new : Engine := ⟨Machine.ofVerifier .structural, .unchecked⟩

def withReceiptVerifier (e : Engine) (verifyReceipt : ReceiptVerifier) : Engine :=
  { e with machine := e.machine.withReceiptVerifier verifyReceipt }

def requireRecipient (tx : Transaction) : Except ChainError Address :=
  match tx.recipient with
  | some a => .ok a
  | none => .error (.invalidOperation (.recipientMissing tx.kind))

def transfer (tx : Transaction) : Exec Unit := do
  Exec.charge Gas.transfer
  Exec.transfer tx.sender (← requireRecipient tx) tx.value

/-- What a deployment costs depends on the code, so the payload is read first. -/
def deploy (tx : Transaction) : Exec Bytes := do
  let deployment : ContractDeployment ← Wire.decodeOperand tx.payload
  Exec.charge (Gas.deployment deployment.code.length)
  if deployment.code = [] then throw (.invalidOperation .emptyCode)
  let contract := contractAddress tx.sender tx.nonce
  if ((← Exec.contents).code? contract).isSome then
    throw (.invalidOperation (.contractExists contract))
  Exec.changeLedger fun l => .ok (l.setCode contract deployment.code)
  return contract.bytes

def call (e : Engine) (tx : Transaction) : Exec (Option Bytes) := do
  Exec.charge Gas.callBase
  let contract ← requireRecipient tx
  match (← Exec.contents).code? contract with
  | none => throw (.invalidOperation (.noContract contract))
  | some code =>
      let call : ContractCall ← Wire.decodeOperand tx.payload
      e.machine.execute code call.operands

def dispatch (e : Engine) (tx : Transaction) : Exec (Option Bytes) := do
  match tx.kind with
  | .transfer =>
      transfer tx
      return none
  | .agentRegister =>
      Exec.charge Gas.agentRegister
      Exec.registerAgent tx.payload
      return none
  | .agentMessage =>
      Exec.charge Gas.agentMessage
      Exec.sendMessage tx.payload
      return none
  | .inferenceReceipt =>
      Exec.charge Gas.inferenceReceipt
      Exec.proveInference e.machine.ownVerifier tx.payload
      return none
  | .deployContract => return some (← deploy tx)
  | .callContract => e.call tx
  | .agentDelegate | .validatorStake | .validatorUnstake =>
      throw (.invalidOperation (.unsupported tx.kind))

/-- Runs a transaction and advances the nonce of its sender. -/
def attempt (e : Engine) (tx : Transaction) (height : UInt64) (l : Ledger) :
    Except ChainError Outcome × Ledger :=
  match (e.dispatch tx).runOn (.enter l tx.sender tx.gasLimit height) with
  | (.ok output, frame) => (.ok ⟨frame.gasUsed, output⟩, e.noncePolicy.advance frame.ledger tx)
  | (.error err, frame) => (.error err, frame.ledger)

def apply (e : Engine) (l : Ledger) (tx : Transaction) (height : UInt64) :
    Except ChainError Outcome × Ledger :=
  match e.noncePolicy.check l tx with
  | .error err => (.error err, l)
  | .ok () => l.atomically (e.attempt tx height)

end Engine

end AgentLedger
