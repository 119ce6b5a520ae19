import AgentLedger.Engine
import AgentLedger.Pool
import AgentLedger.Wire.Validator

namespace AgentLedger

/-!
# Configuration of a node

A configuration is a JSON record in which every field may be left out. Loading one checks that it
makes sense.
-/

structure NodeConfig where
  chainId : String
  /-- Milliseconds between two blocks. -/
  blockInterval : UInt64
  batchSize : UInt64
  poolCapacity : UInt64
  tieBreak : TieBreak
  noncePolicy : NoncePolicy
  announcementCapacity : UInt64
  genesisAccounts : SortedMap Address Amount
  genesisValidators : List Validator

namespace NodeConfig

def standard : NodeConfig where
  chainId := Policy.chainId
  blockInterval := Policy.blockTime
  batchSize := Policy.batchSize
  poolCapacity := Policy.poolCapacity
  tieBreak := .hash
  noncePolicy := .unchecked
  announcementCapacity := Policy.announcementCapacity
  genesisAccounts := .empty
  genesisValidators := []

def fieldNames : List String :=
  ["chain_id", "block_interval_ms", "batch_size", "pool_capacity", "tie_break", "nonce_policy",
    "announcement_capacity", "genesis_accounts", "genesis_validators"]

def ofJson? (v : Json) : Option NodeConfig := do
  let r ← v.record? fieldNames
  return {
    chainId := ← r.defaulted "chain_id" standard.chainId Wire.ofJson?
    blockInterval := ← r.defaulted "block_interval_ms" standard.blockInterval Wire.ofJson?
    batchSize := ← r.defaulted "batch_size" standard.batchSize Wire.ofJson?
    poolCapacity := ← r.defaulted "pool_capacity" standard.poolCapacity Wire.ofJson?
    tieBreak := ← r.defaulted "tie_break" standard.tieBreak Wire.ofJson?
    noncePolicy := ← r.defaulted "nonce_policy" standard.noncePolicy Wire.ofJson?
    announcementCapacity :=
      ← r.defaulted "announcement_capacity" standard.announcementCapacity Wire.ofJson?
    genesisAccounts := ← r.defaulted "genesis_accounts" standard.genesisAccounts Wire.ofJson?
    genesisValidators := ← r.defaulted "genesis_validators" standard.genesisValidators
      (Json.list? Validator.genesisOfJson?) }

def decode? (bs : Bytes) : Option NodeConfig := (Json.parse? bs).bind ofJson?

def requirePositive (field : String) (value : UInt64) : Except ChainError Unit :=
  if value = 0 then .error (.config (.notPositive field)) else .ok ()

def validate (c : NodeConfig) : Except ChainError Unit := do
  if c.chainId = "" then throw (.config .emptyChainId)
  requirePositive "block_interval_ms" c.blockInterval
  requirePositive "batch_size" c.batchSize
  requirePositive "pool_capacity" c.poolCapacity
  requirePositive "announcement_capacity" c.announcementCapacity

/-- Loads what a file holds; there is nothing to load from a file that is missing or no text. -/
def load : Option Bytes → Except ChainError NodeConfig
  | none => .error (.config .unreadable)
  | some bs =>
      match Utf8.decode? bs, decode? bs with
      | none, _ => .error (.config .unreadable)
      | some _, none => .error (.config .unparsable)
      | some _, some c => do
          c.validate
          return c

end NodeConfig

end AgentLedger
