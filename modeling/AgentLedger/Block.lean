import AgentLedger.Policy
import AgentLedger.Transaction

namespace AgentLedger

/-!
# Blocks

A block is known by the hash of its header. The header commits to the body by a root over the
hashes of the transactions in their order; the proposer's signature is on the hash and no part of
it.
-/

structure BlockHeader where
  version : UInt32
  height : UInt64
  timestamp : Int64
  previousHash : Hash256
  stateRoot : Hash256
  transactionRoot : Hash256
  agentRoot : Hash256
  proposer : Address
deriving DecidableEq, Repr

namespace BlockHeader

def digestFields (h : BlockHeader) : List Field :=
  [.u32 h.version, .u64 h.height, .i64 h.timestamp, .bytes h.previousHash.bytes,
    .bytes h.stateRoot.bytes, .bytes h.transactionRoot.bytes, .bytes h.agentRoot.bytes,
    .bytes h.proposer.bytes]

def hash (h : BlockHeader) : Hash256 := Digest.hash "agc/header" h.digestFields

end BlockHeader

structure Block where
  header : BlockHeader
  proposerSignature : Bytes
  transactions : List Transaction
deriving DecidableEq, Repr

namespace Block

def hash (b : Block) : Hash256 := b.header.hash

def transactionRoot (txs : List Transaction) : Hash256 :=
  Digest.hash "agc/txroot" (.u64 (.ofNat txs.length) :: txs.map fun tx => .bytes tx.hash.bytes)

def hasConsistentBody (b : Block) : Bool :=
  transactionRoot b.transactions = b.header.transactionRoot

def genesis : Block where
  header :=
    { version := Policy.blockVersion
      height := Policy.genesisHeight
      timestamp := Policy.genesisTimestamp
      previousHash := .zero
      stateRoot := .zero
      transactionRoot := transactionRoot []
      agentRoot := .zero
      proposer := .zero }
  proposerSignature := []
  transactions := []

end Block

end AgentLedger
