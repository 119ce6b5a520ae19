import AgentLedger.Gas

namespace AgentLedger

/-!
# Opcodes

An instruction is one byte. An operation takes an operand from the stack and acts on the ledger;
the other opcodes end a run.
-/

inductive Operation where
  | agentRegister
  | agentSend
  | agentDelegate
  | inferProve
  | inferVerify
  | tokenTransfer
deriving DecidableEq, Repr

/-- An operation costs as much as the transaction that does the same. -/
def Operation.gasCost : Operation → UInt64
  | agentRegister => Gas.agentRegister
  | agentSend => Gas.agentMessage
  | agentDelegate => 0
  | inferProve => Gas.inferenceReceipt
  | inferVerify => Gas.inferVerify
  | tokenTransfer => Gas.transfer

inductive Opcode where
  | stop
  | operation (op : Operation)
  | ret
  | revert
deriving DecidableEq, Repr

namespace Opcode

def all : List Opcode :=
  [stop, operation .agentRegister, operation .agentSend, operation .agentDelegate,
    operation .inferProve, operation .inferVerify, operation .tokenTransfer, ret, revert]

def byte : Opcode → UInt8
  | stop => 0x00
  | operation .agentRegister => 0x10
  | operation .agentSend => 0x11
  | operation .agentDelegate => 0x12
  | operation .inferProve => 0x20
  | operation .inferVerify => 0x21
  | operation .tokenTransfer => 0x30
  | ret => 0xF3
  | revert => 0xFD

def name : Opcode → String
  | stop => "Stop"
  | operation .agentRegister => "AgentRegister"
  | operation .agentSend => "AgentSend"
  | operation .agentDelegate => "AgentDelegate"
  | operation .inferProve => "InferProve"
  | operation .inferVerify => "InferVerify"
  | operation .tokenTransfer => "TokenTransfer"
  | ret => "Return"
  | revert => "Revert"

/-- What ends a run is free. -/
def gasCost : Opcode → UInt64
  | operation op => op.gasCost
  | stop | ret | revert => 0

def ofByte? (b : UInt8) : Option Opcode := all.find? fun op => op.byte = b

theorem mem_all (op : Opcode) : op ∈ all := by
  cases op with
  | operation op => cases op <;> decide
  | _ => decide

@[simp] theorem ofByte?_byte (op : Opcode) : ofByte? op.byte = some op := by
  cases op with
  | operation op => cases op <;> decide
  | _ => decide

theorem byte_of_ofByte? {b : UInt8} {op : Opcode} (h : ofByte? b = some op) : op.byte = b := by
  simpa using List.find?_some h

/-- A byte as `0x` and two digits. -/
def byteText (b : UInt8) : String :=
  let digits := String.ofList (Nat.toDigits 16 b.toNat)
  if b < 16 then "0x0" ++ digits else "0x" ++ digits

end Opcode

end AgentLedger
