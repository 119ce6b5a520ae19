import AgentLedger.Digest
import AgentLedger.Error

namespace AgentLedger

/-!
# Transactions

The hash of a transaction covers every field but the signature. The payload is a wire text whose
type depends on the kind.
-/

structure Transaction where
  kind : TransactionKind
  sender : Address
  recipient : Option Address
  value : Amount
  gasLimit : UInt64
  gasPrice : Amount
  nonce : UInt64
  payload : Bytes
  signature : Bytes
deriving DecidableEq, Repr

namespace Transaction

def digestFields (tx : Transaction) : List Field :=
  [.u8 tx.kind.code, .bytes tx.sender.bytes, .optional (tx.recipient.map (·.bytes)),
    .u128 tx.value, .u64 tx.gasLimit, .u128 tx.gasPrice, .u64 tx.nonce, .bytes tx.payload]

def hash (tx : Transaction) : Hash256 := Digest.hash "agc/tx" tx.digestFields

end Transaction

/-- Code to be put on the ledger. -/
structure ContractDeployment where
  code : Bytes
deriving DecidableEq, Repr

/-- The operands of a call; the last one is on top of the stack when the code starts. -/
structure ContractCall where
  operands : List Bytes
deriving DecidableEq, Repr

/-- The operand of the token transfer opcode. -/
structure TokenTransfer where
  recipient : Address
  value : Amount
deriving DecidableEq, Repr

/-- Where code lands that `deployer` deploys with a nonce. -/
def contractAddress (deployer : Address) (nonce : UInt64) : Address :=
  .ofPublicKey (Digest.hash "agc/contract" [.bytes deployer.bytes, .u64 nonce]).bytes

end AgentLedger
