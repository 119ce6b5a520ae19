import AgentLedger.Error
import AgentLedger.SortedMap

namespace AgentLedger

/-!
# Agents

An agent is known by a decentralised identifier. Agents send one another messages and claim by
receipts that an inference was performed.
-/

structure Capability where
  name : String
  version : String
deriving DecidableEq, Repr

structure AgentIdentity where
  identifier : String
  controller : Address
  capabilities : List Capability
  publicKey : Bytes
  metadata : SortedMap String String
deriving DecidableEq

namespace AgentIdentity

/-- A method name and the first 20 bytes of the digest of the key. -/
def deriveIdentifier (publicKey : Bytes) : String :=
  "did:agc:0x" ++ Hex.text ((Hash256.ofData publicKey).bytes.take 20)

def ofKey (controller : Address) (publicKey : Bytes) : AgentIdentity :=
  ⟨deriveIdentifier publicKey, controller, [], publicKey, .empty⟩

/-- A capability that is already there is not added again. -/
def withCapability (a : AgentIdentity) (name version : String) : AgentIdentity :=
  let c : Capability := ⟨name, version⟩
  if c ∈ a.capabilities then a else { a with capabilities := a.capabilities ++ [c] }

def withMetadata (a : AgentIdentity) (key value : String) : AgentIdentity :=
  { a with metadata := a.metadata.insert key value }

def isDid (identifier : String) : Bool := "did:".toList.isPrefixOf identifier.toList

def validate (a : AgentIdentity) : Except ChainError Unit :=
  if a.identifier = "" then .error (.invalidOperation .emptyIdentifier)
  else if isDid a.identifier then .ok ()
  else .error (.invalidOperation (.notDid a.identifier))

end AgentIdentity

inductive MessageKind where
  | task
  | result
  | delegate
  | revoke
deriving DecidableEq, Repr

structure AgentMessage where
  sender : String
  recipient : String
  kind : MessageKind
  payload : Bytes
  nonce : UInt64
deriving DecidableEq, Repr

structure InferenceReceipt where
  agentId : String
  modelHash : Bytes
  inputHash : Bytes
  outputHash : Bytes
  timestamp : Int64
  proverSignature : Bytes
deriving DecidableEq, Repr

namespace InferenceReceipt

def requireDigest (digest : ReceiptDigest) (bs : Bytes) : Except ChainError Unit :=
  if bs.length = 32 then .ok ()
  else .error (.invalidOperation (.receiptDigestLength digest bs.length))

/-- Checks the shape of a receipt, not its proof. -/
def validateStructure (r : InferenceReceipt) : Except ChainError Unit := do
  if r.agentId = "" then throw (.invalidOperation .receiptWithoutAgent)
  requireDigest .model r.modelHash
  requireDigest .input r.inputHash
  requireDigest .output r.outputHash
  if r.timestamp ≤ 0 then throw (.invalidOperation .receiptTimestamp)
  if r.proverSignature = [] then throw (.invalidOperation .receiptUnsigned)

end InferenceReceipt

end AgentLedger
