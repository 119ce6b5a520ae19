import AgentLedger.Machine.Frame
import AgentLedger.Policy

namespace AgentLedger

/-!
# Operand machine

Code is a list of opcodes that work on a stack of byte strings, the top of the stack first. An
extension claims a byte that is no opcode, takes at most one operand and leaves at most one
result. Gas is charged before an operand is taken, and an operand is taken before it is needed.
-/

structure Extension where
  name : String
  gasCost : UInt64
  /-- How many operands it takes from the stack. -/
  arity : Nat
  /-- An extension that takes no operand is not given one, and neither is one on an empty stack. -/
  call : Option Bytes → Exec (Option Bytes)

structure Machine where
  extensions : SortedMap UInt8 Extension
  verifyReceipt : ReceiptVerifier

namespace Machine

def ofVerifier (verifyReceipt : ReceiptVerifier) : Machine := ⟨.empty, verifyReceipt⟩

def setReceiptVerifier (m : Machine) (verifyReceipt : ReceiptVerifier) : Machine :=
  { m with verifyReceipt }

def register (m : Machine) (byte : UInt8) (x : Extension) : Except ChainError Machine :=
  match Opcode.ofByte? byte, m.extensions.get? byte with
  | some opcode, _ => .error (.invalidOperation (.opcodeReserved byte opcode))
  | none, found =>
      if 1 < x.arity then .error (.invalidOperation (.tooManyOperands x.name x.arity))
      else match found with
        | some taken => .error (.invalidOperation (.opcodeTaken byte taken.name))
        | none => .ok { m with extensions := m.extensions.insert byte x }

section Register

variable {m n : Machine} {byte : UInt8} {x : Extension}

theorem register_eq_ok (h : m.register byte x = .ok n) :
    Opcode.ofByte? byte = none ∧ x.arity ≤ 1 ∧ m.extensions.get? byte = none ∧
      n = { m with extensions := m.extensions.insert byte x } := by
  unfold register at h
  split at h
  · cases h
  · next free =>
      split at h
      · cases h
      · next few =>
          split at h
          · cases h
          · next fresh => exact ⟨free, Nat.not_lt.1 few, fresh, (Except.ok.inj h).symm⟩

theorem verifyReceipt_of_register (h : m.register byte x = .ok n) :
    n.verifyReceipt = m.verifyReceipt := by
  obtain ⟨_, _, _, rfl⟩ := register_eq_ok h
  rfl

end Register

def isRegistered (m : Machine) (byte : UInt8) : Bool :=
  (Opcode.ofByte? byte).isSome || m.extensions.contains byte

/-! ## One step -/

def required : Option Bytes → Except ChainError Bytes
  | some bs => .ok bs
  | none => .error .stackUnderflow

def push (stack : List Bytes) : Option Bytes → Except ChainError (List Bytes)
  | none => .ok stack
  | some bs =>
      if stack.length < Policy.stackDepth then .ok (bs :: stack)
      else .error (.invalidOperation .stackOverflow)

def perform (m : Machine) (op : Operation) (operand : Option Bytes) : Exec (Option Bytes) := do
  match op with
  | .agentRegister =>
      Exec.registerAgent (← required operand)
      return none
  | .agentSend =>
      Exec.sendMessage (← required operand)
      return none
  | .agentDelegate => throw (.invalidOperation .delegationUnsupported)
  | .inferProve =>
      Exec.proveInference m.verifyReceipt (← required operand)
      return some [1]
  | .inferVerify =>
      let valid ← Exec.verifyInference m.verifyReceipt (← required operand)
      return some [if valid then 1 else 0]
  | .tokenTransfer =>
      let args : TokenTransfer ← Wire.decodeOperand (← required operand)
      Exec.transfer (← get).caller args.recipient args.value
      return none

inductive Step where
  | finished (output : Option Bytes)
  | running (stack : List Bytes)
deriving DecidableEq, Repr

def stepExtension (x : Extension) (stack : List Bytes) : Exec Step := do
  Exec.charge x.gasCost
  match x.arity with
  | 0 => return .running (← push stack (← x.call none))
  | _ + 1 => return .running (← push stack.tail (← x.call stack.head?))

def step (m : Machine) (byte : UInt8) (stack : List Bytes) : Exec Step := do
  match Opcode.ofByte? byte with
  | some .stop => return .finished none
  | some .ret => return .finished (some (← required stack.head?))
  | some .revert => throw .executionReverted
  | some (.operation op) =>
      Exec.charge op.gasCost
      return .running (← push stack.tail (← m.perform op stack.head?))
  | none =>
      match m.extensions.get? byte with
      | some x => stepExtension x stack
      | none => throw (.invalidOpcode byte)

/-! ## Runs -/

/-- Running off the end of the code yields nothing. -/
def run (m : Machine) : (code : Bytes) → (stack : List Bytes) → Exec (Option Bytes)
  | [], _ => return none
  | byte :: rest, stack => do
      match ← m.step byte stack with
      | .finished output => return output
      | .running next => m.run rest next

/-- Runs code with the last operand on top of the stack. -/
def execute (m : Machine) (code : Bytes) (operands : List Bytes) : Exec (Option Bytes) :=
  if operands.length ≤ Policy.stackDepth then m.run code operands.reverse
  else throw (.invalidOperation .stackOverflow)

@[simp] theorem run_nil (m : Machine) (stack : List Bytes) : m.run [] stack = pure none := rfl

theorem run_cons (m : Machine) (byte : UInt8) (rest : Bytes) (stack : List Bytes) :
    m.run (byte :: rest) stack = (do
      match ← m.step byte stack with
      | .finished output => return output
      | .running next => m.run rest next) := rfl

end Machine

end AgentLedger
