import AgentLedger.Saturating

namespace AgentLedger.Gas

/-!
# Gas schedule

An opcode costs as much as the transaction that does the same. Control opcodes are free.
-/

def transfer : UInt64 := 21000
def agentRegister : UInt64 := 200000
def agentMessage : UInt64 := 50000
def inferenceReceipt : UInt64 := 100000
def deployBase : UInt64 := 32000
def deployPerByte : UInt64 := 200
def callBase : UInt64 := 700
def inferVerify : UInt64 := 3000

/-- The cost of deploying code of a given length; it stops at the greatest amount of gas. -/
def deployment (length : Nat) : UInt64 :=
  Saturating.uint64 (deployBase.toNat + deployPerByte.toNat * length)

theorem toNat_deployment (length : Nat) :
    (deployment length).toNat = min (32000 + 200 * length) 0xFFFFFFFFFFFFFFFF :=
  Saturating.toNat_uint64 _

end AgentLedger.Gas
