import AgentLedger.Address
import AgentLedger.Amount
import AgentLedger.Machine.Opcode
import AgentLedger.Transaction.Kind

namespace AgentLedger

/-!
# Errors

An error is a cause. Its wording is given in one place, `ChainError.message`, and its class says
how a failure is reported: to the submitter, to the block being built, or to the sender of a block.
A text cause is one that an extension of the ledger brought along.
-/

/-- The digests that a receipt carries. -/
inductive ReceiptDigest where
  | model
  | input
  | output
deriving DecidableEq, Repr

def ReceiptDigest.name : ReceiptDigest → String
  | model => "model"
  | input => "input"
  | output => "output"

inductive OperationFault where
  | malformedPayload
  | badAddress (text : String) (fault : Hex.Fault)
  | balanceOverflow (owner : Address)
  | emptyIdentifier
  | notDid (identifier : String)
  | receiptWithoutAgent
  | receiptDigestLength (digest : ReceiptDigest) (length : Nat)
  | receiptTimestamp
  | receiptUnsigned
  | recipientMissing (kind : TransactionKind)
  | unsupported (kind : TransactionKind)
  | emptyCode
  | contractExists (contract : Address)
  | noContract (contract : Address)
  | delegationUnsupported
  | stackOverflow
  | opcodeReserved (byte : UInt8) (opcode : Opcode)
  | tooManyOperands (extension : String) (arity : Nat)
  | opcodeTaken (byte : UInt8) (extension : String)
  | other (text : String)
deriving DecidableEq, Repr

inductive KeyFault where
  | signature
  | publicKey
  | privateKey
  | other (text : String)
deriving DecidableEq, Repr

inductive SerializationFault where
  | malformed
  | unsupportedVersion (version : UInt32)
  | other (text : String)
deriving DecidableEq, Repr

inductive ConfigFault where
  | unreadable
  | unparsable
  | emptyChainId
  | notPositive (field : String)
  | other (text : String)
deriving DecidableEq, Repr

inductive LifecycleFault where
  | alreadyRunning
  | shared
  | other (text : String)
deriving DecidableEq, Repr

mutual

inductive ChainError where
  | poolFull
  | duplicateTransaction (hash : Hash256)
  | outOfGas (used requested limit : UInt64)
  | insufficientBalance (available needed : Amount)
  | invalidOperation (fault : OperationFault)
  | agentAlreadyRegistered (identifier : String)
  | agentNotFound (identifier : String)
  | executionReverted
  | invalidOpcode (byte : UInt8)
  | stackUnderflow
  | staleNonce (expected got : UInt64)
  | invalidBlock (fault : BlockFault)
  | invalidSignature
  | unknownValidator (address : Address)
  | belowMinimumStake (stake minimum : Amount)
  | serialization (fault : SerializationFault)
  | crypto (fault : KeyFault)
  | config (fault : ConfigFault)
  | lifecycle (fault : LifecycleFault)

inductive BlockFault where
  | height (expected got : UInt64)
  | parent (declared tip : Hash256)
  | transactionRoot
  | transaction (hash : Hash256) (cause : ChainError)
  | stateRoot (computed declared : Hash256)
  | agentRoot
  | other (text : String)

end

deriving instance DecidableEq, Repr for ChainError, BlockFault

/-! ## Wording -/

def OperationFault.message : OperationFault → String
  | malformedPayload => "malformed payload"
  | badAddress text fault => s!"invalid address {text}: {fault.message}"
  | balanceOverflow owner => s!"balance overflow for {owner}"
  | emptyIdentifier => "agent identifier is empty"
  | notDid identifier => s!"agent identifier {identifier} is not a DID"
  | receiptWithoutAgent => "receipt has no agent id"
  | receiptDigestLength digest length =>
      s!"receipt {digest.name} hash must be 32 bytes, got {length}"
  | receiptTimestamp => "receipt timestamp must be positive"
  | receiptUnsigned => "receipt is unsigned"
  | recipientMissing kind => s!"{kind.name} requires a recipient"
  | unsupported kind => s!"{kind.name} is not supported"
  | emptyCode => "empty contract code"
  | contractExists contract => s!"contract already deployed at {contract}"
  | noContract contract => s!"no contract at {contract}"
  | delegationUnsupported => "agent delegation is not supported"
  | stackOverflow => "stack overflow"
  | opcodeReserved byte opcode => s!"opcode {Opcode.byteText byte} is reserved for {opcode.name}"
  | tooManyOperands extension arity =>
      s!"precompile {extension} takes {arity} operands, at most 1 supported"
  | opcodeTaken byte extension =>
      s!"opcode {Opcode.byteText byte} already registered to {extension}"
  | other text => text

def KeyFault.message : KeyFault → String
  | signature => "Invalid signature"
  | publicKey => "Invalid public key"
  | privateKey => "Invalid private key"
  | other text => text

def SerializationFault.message : SerializationFault → String
  | malformed => "Serialization error"
  | unsupportedVersion version => s!"Serialization error: unsupported snapshot version {version}"
  | other text => s!"Serialization error: {text}"

def ConfigFault.message : ConfigFault → String
  | unreadable => "cannot read"
  | unparsable => "cannot parse"
  | emptyChainId => "chain_id must not be empty"
  | notPositive field => s!"{field} must be positive"
  | other text => text

def LifecycleFault.message : LifecycleFault → String
  | alreadyRunning => "block producer already running"
  | shared => "block producer is shared"
  | other text => text

mutual

def ChainError.message : ChainError → String
  | .poolFull => "Transaction pool is full"
  | .duplicateTransaction hash => s!"Duplicate transaction: {hash}"
  | .outOfGas used requested limit =>
      s!"Out of gas: used {used}, requested {requested}, limit {limit}"
  | .insufficientBalance available needed =>
      s!"Insufficient balance: have {available}, need {needed}"
  | .invalidOperation fault => s!"Invalid operation: {fault.message}"
  | .agentAlreadyRegistered identifier => s!"Agent already registered: {identifier}"
  | .agentNotFound identifier => s!"Agent not found: {identifier}"
  | .executionReverted => "Execution reverted"
  | .invalidOpcode byte => s!"Invalid opcode: {Opcode.byteText byte}"
  | .stackUnderflow => "Stack underflow"
  | .staleNonce expected got =>
      s!"Stale nonce: account is at {expected}, transaction has {got}"
  | .invalidBlock fault => s!"Invalid block: {fault.message}"
  | .invalidSignature => "Invalid signature"
  | .unknownValidator address => s!"Unknown validator: {address}"
  | .belowMinimumStake stake minimum => s!"Stake {stake} below minimum {minimum}"
  | .serialization fault => fault.message
  | .crypto fault => s!"Cryptography error: {fault.message}"
  | .config fault => s!"Configuration error: {fault.message}"
  | .lifecycle fault => s!"Lifecycle error: {fault.message}"

def BlockFault.message : BlockFault → String
  | .height expected got => s!"expected height {expected}, got {got}"
  | .parent declared tip => s!"previous hash {declared} does not match tip {tip}"
  | .transactionRoot => "transaction root mismatch"
  | .transaction hash cause => s!"transaction {hash} failed: {cause.message}"
  | .stateRoot computed declared =>
      s!"state root mismatch: computed {computed}, declared {declared}"
  | .agentRoot => "agent root mismatch"
  | .other text => text

end

/-- Reads an address, and says what is wrong with the text if it is none. -/
def Address.parse (text : String) : Except ChainError Address :=
  match Address.read text with
  | .ok a => .ok a
  | .error fault => .error (.invalidOperation (.badAddress text fault))

/-! ## Classes -/

inductive ErrorClass where
  | admission
  | execution
  | consensus
  | registration
  | internal
deriving DecidableEq, Repr

def ChainError.errorClass : ChainError → ErrorClass
  | .poolFull | .duplicateTransaction _ => .admission
  | .outOfGas .. | .insufficientBalance .. | .invalidOperation _ | .agentAlreadyRegistered _
  | .agentNotFound _ | .executionReverted | .invalidOpcode _ | .stackUnderflow
  | .staleNonce .. => .execution
  | .invalidBlock _ | .invalidSignature | .unknownValidator _ => .consensus
  | .belowMinimumStake .. => .registration
  | .serialization _ | .crypto _ | .config _ | .lifecycle _ => .internal

end AgentLedger
