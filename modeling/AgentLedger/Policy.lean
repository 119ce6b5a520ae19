import AgentLedger.Amount

namespace AgentLedger.Policy

/-!
# Protocol constants

Times are in milliseconds and amounts in base units.
-/

def chainId : String := "agc-devnet-1"

def genesisHeight : UInt64 := 0

/-- The start of the year 2025 in UTC. -/
def genesisTimestamp : Int64 := 1735689600000

def blockVersion : UInt32 := 1

def blockTime : UInt64 := 2000

/-- One whole token. -/
def token : Amount := ⟨1000000000000000000, by decide⟩

/-- What one unit of voting power costs. -/
def stakeUnit : Amount := token

def minimumStake : Amount := ⟨10000 * token.units, by decide⟩

def blockReward : Amount := ⟨5 * token.units, by decide⟩

def poolCapacity : UInt64 := 10000

def batchSize : UInt64 := 100

def announcementCapacity : UInt64 := 64

def stackDepth : Nat := 1024

end AgentLedger.Policy
