import AgentLedger.Json.Float
import AgentLedger.Validator
import AgentLedger.Wire.Basic

namespace AgentLedger

/-!
# Wire texts of validators

Validators are read and never written. A validator of the genesis needs no reputation, and its
voting power is not given.
-/

def Json.float? : Json → Option Float
  | .number n => n.toFloat?
  | _ => none

def Validator.ofJson? (v : Json) : Option Validator := do
  let r ← v.record? ["address", "public_key", "stake", "reputation_score", "voting_power"]
  return {
    address := ← r.required "address" Wire.ofJson?
    publicKey := ← r.required "public_key" Json.hex?
    stake := ← r.required "stake" Wire.ofJson?
    reputation := ← r.required "reputation_score" Json.float?
    votingPower := ← r.required "voting_power" Wire.ofJson? }

def Validator.genesisOfJson? (v : Json) : Option Validator := do
  let r ← v.record? ["address", "public_key", "stake", "reputation_score"]
  return .new
    (← r.required "address" Wire.ofJson?)
    (← r.required "public_key" Json.hex?)
    (← r.required "stake" Wire.ofJson?)
    (← r.defaulted "reputation_score" 0 Json.float?)

end AgentLedger
