import AgentLedger.Error
import AgentLedger.SortedMap
import AgentLedger.Validator

namespace AgentLedger

/-!
# Registry of validators

The registry admits validators with a minimum stake and keeps the voting power of each up to date.
Validators propose in turn: each stands, in the order of the addresses, for as many heights in a
row as it has voting power.
-/

structure ValidatorRegistry where
  minimumStake : Amount
  validators : SortedMap Address Validator

namespace ValidatorRegistry

def withMinimumStake (minimumStake : Amount) : ValidatorRegistry := ⟨minimumStake, .empty⟩

def new : ValidatorRegistry := withMinimumStake Policy.minimumStake

/-- Adds or replaces a validator; its voting power is not taken on trust. -/
def add (r : ValidatorRegistry) (v : Validator) : Except ChainError ValidatorRegistry :=
  if v.stake < r.minimumStake then .error (.belowMinimumStake v.stake r.minimumStake)
  else .ok { r with validators := r.validators.insert v.address v.recomputed }

def get? (r : ValidatorRegistry) (a : Address) : Option Validator := r.validators.get? a

def contains (r : ValidatorRegistry) (a : Address) : Bool := r.validators.contains a

def size (r : ValidatorRegistry) : Nat := r.validators.size

def remove (r : ValidatorRegistry) (a : Address) : ValidatorRegistry :=
  { r with validators := r.validators.erase a }

/-- Says what the new voting power is. -/
def updateReputation (r : ValidatorRegistry) (a : Address) (reputation : Float) :
    Except ChainError (Int64 × ValidatorRegistry) :=
  match r.get? a with
  | none => .error (.unknownValidator a)
  | some v =>
      let w := { v with reputation }.recomputed
      .ok (w.votingPower, { r with validators := r.validators.insert a w })

/-! ## Proposers -/

def weightOf : List Validator → Nat
  | [] => 0
  | v :: rest => v.weight + weightOf rest

def totalVotingPower (r : ValidatorRegistry) : Int64 :=
  Saturating.int64 (weightOf r.validators.values)

def addWeight (sum : UInt64) (v : Validator) : UInt64 := Saturating.uint64 (sum.toNat + v.weight)

def totalWeight (r : ValidatorRegistry) : UInt64 := r.validators.values.foldl addWeight 0

/-- The first validator whose weight takes the sum past the target. -/
def pick (target : UInt64) : (passed : UInt64) → List Validator → Option Validator
  | _, [] => none
  | passed, v :: rest =>
      let reached := addWeight passed v
      if target < reached then some v else pick target reached rest

def proposerAt (r : ValidatorRegistry) (height : UInt64) : Option Address :=
  if r.totalWeight = 0 then none
  else (pick (height % r.totalWeight) 0 r.validators.values).map (·.address)

end ValidatorRegistry

end AgentLedger
