import AgentLedger.Config
import AgentLedger.Producer

namespace AgentLedger

/-!
# Nodes

A node has a producer and a pool of pending transactions. While it is running, a production loop
takes one batch per block interval, from the pool or from a feed.
-/

/-- Where a production loop takes its batches from. -/
inductive BatchSource where
  | pool
  | feed (number : Nat)
deriving DecidableEq, Repr

structure ProductionLoop where
  proposer : Address
  source : BatchSource
  /-- When the loop was started, in milliseconds of the timer. -/
  started : Nat
deriving DecidableEq

namespace ProductionLoop

/-- How many rounds there are up to a time. -/
def roundsUntil (l : ProductionLoop) (interval : UInt64) (time : Nat) : Nat :=
  (time - l.started) / max interval.toNat 1

end ProductionLoop

structure Node where
  config : NodeConfig
  pool : Pool
  producer : Producer
  /-- Whether someone else also holds the producer, which then can no longer be changed. -/
  shared : Bool
  production : Option ProductionLoop

namespace Node

def genesisLedger (c : NodeConfig) : Ledger :=
  c.genesisAccounts.entries.foldl (fun l e => l.setBalance e.1 e.2) .empty

def genesisRegistry (c : NodeConfig) : Except ChainError ValidatorRegistry :=
  c.genesisValidators.foldlM (fun r v => r.add v) .new

/-- A node at genesis, whose nonce policy is that of its configuration. -/
def new (c : NodeConfig) (machine : EngineMachine) : Except ChainError Node := do
  c.validate
  let registry ← genesisRegistry c
  return {
    config := c
    pool := .withCapacity c.poolCapacity c.tieBreak
    producer := .new (genesisLedger c) registry ⟨machine, c.noncePolicy⟩ c.announcementCapacity
    shared := false
    production := none }

def share (n : Node) : Node := { n with shared := true }

def withProducer (n : Node) (change : Producer → Producer) : Except ChainError Node :=
  if n.shared then .error (.lifecycle .shared) else .ok { n with producer := change n.producer }

def isRunning (n : Node) : Bool := n.production.isSome

def contents (n : Node) : Contents := n.producer.ledger.contents

def submit (n : Node) (tx : Transaction) : Except ChainError (Hash256 × Node) := do
  let (hash, pool) ← n.pool.add tx
  return (hash, { n with pool })

def popBatch (n : Node) (count : Nat) : List Transaction × Node :=
  let (batch, pool) := n.pool.popBatch count
  (batch, { n with pool })

def propose (n : Node) (clock : Int64) (proposer : Address) (batch : List Transaction) :
    Except ChainError Block × Node :=
  let (result, producer) := n.producer.propose clock proposer batch
  (result, { n with producer })

def adopt (n : Node) (b : Block) : Except ChainError Unit × Node :=
  let (result, producer) := n.producer.adopt b
  (result, { n with producer })

def subscribe (n : Node) : Nat × Node :=
  let (place, producer) := n.producer.subscribe
  (place, { n with producer })

/-! ## Production -/

def start (n : Node) (production : ProductionLoop) : Except ChainError Node :=
  if n.isRunning then .error (.lifecycle .alreadyRunning)
  else .ok { n with producer := n.producer.subscribe.2, production := some production }

/-- Ends the loop and the announcements. Nothing happens to a node that is not running. -/
def stop (n : Node) : Node :=
  if n.isRunning then
    { n with producer := { n.producer.closeAnnouncer with phase := .idle }, production := none }
  else n

def tick (n : Node) (clock : Int64) (proposer : Address) (batch : List Transaction) : Node :=
  { n with producer := n.producer.tick clock proposer batch }

/-- One round that takes its batch from the pool. -/
def tickFromPool (n : Node) (clock : Int64) (proposer : Address) : Node :=
  let (batch, left) := n.popBatch n.config.batchSize.toNat
  left.tick clock proposer batch

end Node

end AgentLedger
