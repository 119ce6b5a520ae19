import AgentLedger.Node
import Std.Time.DateTime

namespace AgentLedger

/-!
# Command line

`start` runs a node that produces blocks until it is interrupted, and `keygen` makes a key for a
proposer.
-/

structure StartOptions where
  config : Option String
  validator : Option String
  blockTime : Option UInt64

inductive Command where
  | start (options : StartOptions)
  | keygen

namespace Command

def readStart? (options : StartOptions) : List String → Option Command
  | [] => some (start options)
  | "--config" :: path :: rest | "-c" :: path :: rest =>
      readStart? { options with config := some path } rest
  | "--validator" :: key :: rest => readStart? { options with validator := some key } rest
  | "--block-time-ms" :: text :: rest =>
      match text.toNat? with
      | some n =>
          if n < UInt64.size then readStart? { options with blockTime := some (.ofNat n) } rest
          else none
      | none => none
  | _ => none

def read? : List String → Option Command
  | "start" :: rest => readStart? ⟨none, none, none⟩ rest
  | ["keygen"] => some keygen
  | _ => none

def usage : String := "usage: start [--config FILE] [--validator KEY] [--block-time-ms N] | keygen"

end Command

/-- The configuration with its proposer among the validators. -/
def NodeConfig.withProposer (c : NodeConfig) (key : Ed25519.PrivateKey) : NodeConfig :=
  if c.genesisValidators.any fun v => v.address = key.address then c
  else
    let v := Validator.new key.address key.publicBytes Policy.minimumStake 0
    { c with genesisValidators := c.genesisValidators ++ [v] }

def NodeConfig.withBlockTime (c : NodeConfig) : Option UInt64 → NodeConfig
  | some blockInterval => { c with blockInterval }
  | none => c

/-- Reads the digits of a key, which may follow `0x`. -/
def Ed25519.PrivateKey.ofText (text : String) : Except ChainError Ed25519.PrivateKey :=
  match (Hex.decode? (Address.digits text)).map Ed25519.PrivateKey.ofBytes with
  | some (.ok key) => .ok key
  | _ => .error (.crypto .privateKey)

/-- A node that signs its blocks and has been started. -/
def Node.launch (c : NodeConfig) (key : Ed25519.PrivateKey) : Except ChainError Node := do
  let fresh ← Node.new c Engine.new.machine
  let signing ← fresh.withProducer fun p => { p with signer := .ed25519 key }
  signing.start ⟨key.address, .pool, 0⟩

namespace CommandLine

def orFail {α : Type} : Except ChainError α → IO α
  | .ok a => return a
  | .error e => throw (IO.userError e.message)

def freshKey : IO Ed25519.PrivateKey := do
  let bytes ← IO.getRandomBytes 32
  orFail ((Ed25519.PrivateKey.ofBytes bytes.toList).mapError .crypto)

def loadConfig : Option String → IO NodeConfig
  | none => return .standard
  | some path => do
      let contents ← (some <$> IO.FS.readBinFile path) <|> pure none
      orFail (NodeConfig.load (contents.map (·.toList)))

def wallClock : IO Int64 := do
  let now ← Std.Time.Timestamp.now
  return .ofInt now.toMillisecondsSinceUnixEpoch.toInt

def say (line : String) : IO Unit := do
  IO.println line
  (← IO.getStdout).flush

def report (b : Block) : IO Unit :=
  say s!"Block #{b.header.height} {b.hash} ({b.transactions.length} transactions)"

def produce (first : Node) (proposer : Address) : IO Unit := do
  let mut node := first
  repeat
    IO.sleep (min node.config.blockInterval 0xFFFFFFFF).toUInt32
    let next := node.tickFromPool (← wallClock) proposer
    if next.producer.tip ≠ node.producer.tip then report next.producer.tip
    node := next

def start (options : StartOptions) : IO Unit := do
  let config ← loadConfig options.config
  let key ←
    match options.validator with
    | some text => orFail (Ed25519.PrivateKey.ofText text)
    | none => freshKey
  let node ← orFail (Node.launch ((config.withBlockTime options.blockTime).withProposer key) key)
  say s!"Node running as {key.address}"
  produce node key.address

def keygen : IO Unit := do
  let key ← freshKey
  say s!"private key: {Hex.text key.bytes}"
  say s!"public key:  {Hex.text key.publicBytes}"
  say s!"address:     {key.address}"

def run (args : List String) : IO UInt32 := do
  match Command.read? args with
  | some (.start options) => start options
  | some .keygen => keygen
  | none =>
      IO.eprintln Command.usage
      return 2
  return 0

end CommandLine

end AgentLedger

def main (args : List String) : IO UInt32 := AgentLedger.CommandLine.run args
