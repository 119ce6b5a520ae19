import AgentLedger.Transaction
import AgentLedger.Wire.Basic

namespace AgentLedger

/-!
# Wire texts of transactions and of contract payloads

The bytes of an operand are an array of numbers, unlike all other bytes in a payload.
-/

open Wire (toJson ofJson?)

instance : Wire TransactionKind where
  toJson k := .ofText k.name
  ofJson? := Json.oneOf? (TransactionKind.all.map fun k => (k.name, k))

instance : Wire Transaction where
  toJson tx := .record [
    ("type", toJson tx.kind),
    ("from", toJson tx.sender),
    ("to", toJson tx.recipient),
    ("value", toJson tx.value),
    ("gas_limit", toJson tx.gasLimit),
    ("gas_price", toJson tx.gasPrice),
    ("nonce", toJson tx.nonce),
    ("payload", .ofHex tx.payload),
    ("signature", .ofHex tx.signature)]
  ofJson? v := do
    let r ← v.record? ["type", "from", "to", "value", "gas_limit", "gas_price", "nonce", "payload",
      "signature"]
    return {
      kind := ← r.required "type" ofJson?
      sender := ← r.required "from" ofJson?
      recipient := (← r.optional "to" ofJson?).join
      value := ← r.required "value" ofJson?
      gasLimit := ← r.required "gas_limit" ofJson?
      gasPrice := ← r.required "gas_price" ofJson?
      nonce := ← r.required "nonce" ofJson?
      payload := ← r.required "payload" Json.hex?
      signature := ← r.required "signature" Json.hex? }

instance : Wire ContractDeployment where
  toJson d := .record [("code", .ofHex d.code)]
  ofJson? v := do
    let r ← v.record? ["code"]
    return { code := ← r.required "code" Json.hex? }

instance : Wire ContractCall where
  toJson c := .record [("operands", toJson c.operands)]
  ofJson? v := do
    let r ← v.record? ["operands"]
    return { operands := ← r.required "operands" ofJson? }

instance : Wire TokenTransfer where
  toJson t := .record [("to", toJson t.recipient), ("value", toJson t.value)]
  ofJson? v := do
    let r ← v.record? ["to", "value"]
    return {
      recipient := ← r.required "to" ofJson?
      value := ← r.required "value" ofJson? }

end AgentLedger
