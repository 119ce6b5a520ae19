import AgentLedger.Announcement
import AgentLedger.Block.Signing
import AgentLedger.Engine
import AgentLedger.Ledger.Commitment
import AgentLedger.Validator.Registry

namespace AgentLedger

/-!
# Producing and adopting blocks

A producer extends its tip, either by a block that it builds from a batch or by a block that
someone else has built. A transaction that fails is left out of a block that is being built, and
makes a block that is being adopted fail. Either way the ledger and the tip change together or not
at all.
-/

inductive Phase where
  | idle
  | published
deriving DecidableEq, Repr

namespace Phase

def name : Phase → String
  | idle => "Idle"
  | published => "Published"

end Phase

/-! ## Bodies of blocks -/

namespace Engine

/-- Applies a batch and says which transactions succeeded. -/
def applyBatch (e : Engine) (height : UInt64) : List Transaction → Ledger →
    List Transaction × Ledger
  | [], l => ([], l)
  | tx :: rest, l =>
      match e.apply l tx height with
      | (.ok _, next) =>
          let (included, last) := e.applyBatch height rest next
          (tx :: included, last)
      | (.error _, next) => e.applyBatch height rest next

/-- Applies transactions up to the first that fails. -/
def applyBody (e : Engine) (height : UInt64) : List Transaction → Ledger →
    Except ChainError Unit × Ledger
  | [], l => (.ok (), l)
  | tx :: rest, l =>
      match e.apply l tx height with
      | (.ok _, next) => e.applyBody height rest next
      | (.error cause, next) => (.error (.invalidBlock (.transaction tx.hash cause)), next)

end Engine

/-- Credits the block reward and computes the roots. -/
def Committer.settle (k : Committer) (proposer : Address) (l : Ledger) :
    Except ChainError (Hash256 × Hash256) × Ledger :=
  match l.credit proposer Policy.blockReward with
  | .ok credited => (k.roots credited.contents, credited)
  | .error e => (.error e, l)

structure Producer where
  ledger : Ledger
  validators : ValidatorRegistry
  engine : Engine
  committer : Committer
  signer : BlockSigner
  verifier : BlockVerifier
  announcementCapacity : UInt64
  tip : Block
  phase : Phase
  /-- There is none until someone listens or production starts. -/
  announcer : Option Announcer

namespace Producer

def new (ledger : Ledger) (validators : ValidatorRegistry) (engine : Engine)
    (announcementCapacity : UInt64) : Producer where
  ledger
  validators
  engine
  committer := .digests
  signer := .none
  verifier := .acceptAll
  announcementCapacity
  tip := .genesis
  phase := .idle
  announcer := none

def nextHeight (p : Producer) : UInt64 := p.tip.header.height + 1

/-! ## Announcements -/

def openAnnouncer (p : Producer) : Announcer :=
  p.announcer.getD (.withCapacity (max p.announcementCapacity.toNat 1))

/-- The place of a reader who listens from now on. -/
def subscribe (p : Producer) : Nat × Producer :=
  (p.openAnnouncer.current, { p with announcer := some p.openAnnouncer })

def announce (p : Producer) (b : Block) : Producer :=
  { p with announcer := p.announcer.map (·.announce b) }

def closeAnnouncer (p : Producer) : Producer := { p with announcer := none }

/-! ## Proposing -/

/-- The time of the clock, or the time just after the parent if the clock is not past it. -/
def nextTimestamp (clock parent : Int64) : Int64 := max clock (Saturating.addInt64 parent 1)

/-- What a block contains and commits to. -/
structure Body where
  transactions : List Transaction
  stateRoot : Hash256
  agentRoot : Hash256

def buildBody (p : Producer) (proposer : Address) (batch : List Transaction) (l : Ledger) :
    Except ChainError Body × Ledger :=
  let (included, applied) := p.engine.applyBatch p.nextHeight batch l
  match p.committer.settle proposer applied with
  | (.ok (stateRoot, agentRoot), settled) => (.ok ⟨included, stateRoot, agentRoot⟩, settled)
  | (.error e, settled) => (.error e, settled)

def headerOf (p : Producer) (clock : Int64) (proposer : Address) (body : Body) : BlockHeader where
  version := Policy.blockVersion
  height := p.nextHeight
  timestamp := nextTimestamp clock p.tip.header.timestamp
  previousHash := p.tip.hash
  stateRoot := body.stateRoot
  transactionRoot := Block.transactionRoot body.transactions
  agentRoot := body.agentRoot
  proposer

def sign (p : Producer) (header : BlockHeader) (body : Body) : Block :=
  ⟨header, p.signer header.hash, body.transactions⟩

def propose (p : Producer) (clock : Int64) (proposer : Address) (batch : List Transaction) :
    Except ChainError Block × Producer :=
  match p.ledger.atomically (p.buildBody proposer batch) with
  | (.error e, ledger) => (.error e, { p with ledger, phase := .idle })
  | (.ok body, ledger) =>
      let b := p.sign (p.headerOf clock proposer body) body
      (.ok b, { p with ledger, tip := b, phase := .published }.announce b)

/-- One round of production, after which the producer is idle whatever came of it. -/
def tick (p : Producer) (clock : Int64) (proposer : Address) (batch : List Transaction) :
    Producer :=
  { (p.propose clock proposer batch).2 with phase := .idle }

/-! ## Adopting -/

def validate (p : Producer) (b : Block) : Except ChainError Unit := do
  let proposer ←
    match p.validators.get? b.header.proposer with
    | some v => Except.ok v
    | none => Except.error (.unknownValidator b.header.proposer)
  p.verifier b proposer
  if b.header.height ≠ p.nextHeight then
    throw (.invalidBlock (.height p.nextHeight b.header.height))
  if b.header.previousHash ≠ p.tip.hash then
    throw (.invalidBlock (.parent b.header.previousHash p.tip.hash))
  if !b.hasConsistentBody then
    throw (.invalidBlock .transactionRoot)

def matchRoots (header : BlockHeader) (stateRoot agentRoot : Hash256) : Except ChainError Unit :=
  if stateRoot ≠ header.stateRoot then
    .error (.invalidBlock (.stateRoot stateRoot header.stateRoot))
  else if agentRoot ≠ header.agentRoot then .error (.invalidBlock .agentRoot)
  else .ok ()

def replay (p : Producer) (b : Block) (l : Ledger) : Except ChainError Unit × Ledger :=
  match p.engine.applyBody b.header.height b.transactions l with
  | (.error e, applied) => (.error e, applied)
  | (.ok (), applied) =>
      match p.committer.settle b.header.proposer applied with
      | (.error e, settled) => (.error e, settled)
      | (.ok (stateRoot, agentRoot), settled) => (matchRoots b.header stateRoot agentRoot, settled)

def adopt (p : Producer) (b : Block) : Except ChainError Unit × Producer :=
  match p.validate b with
  | .error e => (.error e, p)
  | .ok () =>
      match p.ledger.atomically (p.replay b) with
      | (.error e, ledger) => (.error e, { p with ledger })
      | (.ok (), ledger) => (.ok (), { p with ledger, tip := b }.announce b)

end Producer

end AgentLedger
