import AgentLedger.Policy
import AgentLedger.Address
import AgentLedger.Saturating

namespace AgentLedger

/-!
# Validators

A validator's voting power is one unit for each whole token of stake and a boost for reputation.
Both terms are rounded down on their own, and the sum saturates.
-/

structure Validator where
  address : Address
  publicKey : Bytes
  stake : Amount
  reputation : Float
  votingPower : Int64

namespace Validator

def stakePower (stake : Amount) : Int64 := Saturating.int64 (stake.units / Policy.stakeUnit.units)

/-- Hundredths of reputation; a reputation that is no number gives no boost. -/
def boost (reputation : Float) : Int64 := (reputation * 100).floor.toInt64

def powerOf (stake : Amount) (reputation : Float) : Int64 :=
  Saturating.addInt64 (stakePower stake) (boost reputation)

def new (address : Address) (publicKey : Bytes) (stake : Amount) (reputation : Float) : Validator :=
  ⟨address, publicKey, stake, reputation, powerOf stake reputation⟩

/-- The same validator with the voting power that its stake and reputation give. -/
def recomputed (v : Validator) : Validator :=
  { v with votingPower := powerOf v.stake v.reputation }

/-- The weight of a validator in the choice of a proposer. -/
def weight (v : Validator) : Nat := v.votingPower.toInt.toNat

end Validator

end AgentLedger
