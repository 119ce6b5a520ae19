import AgentLedger.Proofs.Machine.Metering
import AgentLedger.Proofs.Machine.Success

namespace AgentLedger

/-!
# Single opcodes

Code that consists of one opcode pays for the operation, performs it and yields nothing. Of the two
opcodes for receipts, the one that verifies tells whether the one that proves would succeed, and it
changes nothing.
-/

/-- Takes an action after it has been paid for, and yields nothing. -/
def Exec.paid {α : Type} (cost : UInt64) (act : Exec α) : Exec (Option Bytes) := do
  charge cost
  let _ ← act
  return none

theorem Exec.shifts_paid {α : Type} {base cost : UInt64} {act : Exec α} (h : Shifts base act) :
    Shifts base (paid cost act) :=
  shifts_bind (shifts_charge cost) fun _ => shifts_bind h fun _ => shifts_pure none

/-- It makes no difference what the action leaves for the stack. -/
theorem Exec.paid_leaving {α : Type} (cost : UInt64) (act : Exec α) (leave : α → Option Bytes) :
    paid cost (do return leave (← act)) = paid cost act := by
  simp only [paid, bind_assoc, pure_bind]

theorem Exec.lift_ok_bind {α β : Type} (a : α) (k : α → Exec β) :
    (liftM (.ok a : Except ChainError α) >>= k : Exec β) = k a := rfl

theorem Exec.runOn_verifyInference (verify : ReceiptVerifier) (payload : Bytes) (f : CallFrame) :
    (verifyInference verify payload).runOn f =
      ((Wire.decodeOperand payload : Except ChainError InferenceReceipt).map fun receipt =>
        (checkReceipt verify receipt f.ledger.contents).isOk, f) := by
  simp only [verifyInference, runOn_bind, runOn_lift, runOn_contents, runOn_pure]
  cases (Wire.decodeOperand payload : Except ChainError InferenceReceipt) with
  | error _ => rfl
  | ok _ => rfl

namespace Machine

/-- There is room for a result where an operand has been taken. -/
theorem push_eq_ok {rest : List Bytes} (room : rest.length < Policy.stackDepth)
    (result : Option Bytes) : push rest result = .ok (result.toList ++ rest) := by
  cases result with
  | none => rfl
  | some bs => exact if_pos room

/-- One operand fits on the stack, so code that is one opcode does nothing but to perform it. -/
theorem execute_operation (m : Machine) (op : Operation) (operand : Bytes) :
    m.execute [(Opcode.operation op).byte] [operand] =
      Exec.paid op.gasCost (m.perform op (some operand)) := by
  have fits : [operand].length ≤ Policy.stackDepth := Nat.succ_le_succ (Nat.zero_le _)
  have room : ([] : List Bytes).length < Policy.stackDepth := Nat.succ_pos _
  simp only [execute, if_pos fits, List.reverse_singleton, run_cons, step, Opcode.ofByte?_byte,
    bind_assoc, Exec.paid, List.tail_cons, List.head?_cons]
  refine bind_congr fun _ => bind_congr fun result => ?_
  rw [push_eq_ok room, Exec.lift_ok_bind]
  rfl

variable {m : Machine} {payload : Bytes} {receipt : InferenceReceipt} {rest : List Bytes}
  {f g : CallFrame}

/-- An operation that is paid for puts its result in place of its operand. -/
theorem runOn_step_operation (m : Machine) (op : Operation) (operand : Bytes)
    (room : rest.length < Policy.stackDepth) (paid : f.charge op.gasCost = .ok g) :
    (m.step (Opcode.operation op).byte (operand :: rest)).runOn f =
      match (m.perform op (some operand)).runOn g with
      | (.ok result, after) => (.ok (.running (result.toList ++ rest)), after)
      | (.error e, after) => (.error e, after) := by
  simp only [step, Opcode.ofByte?_byte, Exec.runOn_bind, Exec.runOn_charge, paid, List.head?_cons,
    List.tail_cons, push_eq_ok room]
  cases (m.perform op (some operand)).runOn g with
  | mk r after =>
      cases r with
      | ok _ => rfl
      | error _ => rfl

/-! ## Proofs of inference -/

/-- The opcode that verifies leaves its verdict in place of the receipt. -/
theorem runOn_step_inferVerify (read : Wire.decodeOperand payload = .ok receipt)
    (room : rest.length < Policy.stackDepth) (paid : f.charge Gas.inferVerify = .ok g) :
    (m.step (Opcode.operation .inferVerify).byte (payload :: rest)).runOn f =
      (.ok (.running ([if (Exec.checkReceipt m.verifyReceipt receipt f.ledger.contents).isOk
        then 1 else 0] :: rest)), g) := by
  rw [m.runOn_step_operation .inferVerify payload room paid, ← CallFrame.ledger_of_charge paid]
  simp only [perform, required, Exec.lift_ok_bind, Exec.runOn_bind, Exec.runOn_verifyInference,
    read, Except.map, Exec.runOn_pure, Option.toList_some, List.singleton_append]

theorem runOn_step_inferProve (read : Wire.decodeOperand payload = .ok receipt)
    (room : rest.length < Policy.stackDepth) (paid : f.charge Gas.inferenceReceipt = .ok g) :
    ((m.step (Opcode.operation .inferProve).byte (payload :: rest)).runOn f).1 =
      (Exec.checkReceipt m.verifyReceipt receipt f.ledger.contents).map
        fun _ => .running ([1] :: rest) := by
  rw [m.runOn_step_operation .inferProve payload room paid, ← CallFrame.ledger_of_charge paid]
  simp only [perform, required, Exec.proveInference, Exec.lift_ok_bind, read, Exec.runOn_bind,
    Exec.runOn_contents, Exec.runOn_lift, Exec.runOn_changeLedger]
  cases Exec.checkReceipt m.verifyReceipt receipt g.ledger.contents with
  | error _ => rfl
  | ok _ => rfl

/-- Whatever the stack holds, verifying changes nothing but the gas that is used. -/
theorem ledger_step_inferVerify (m : Machine) (stack : List Bytes) (f : CallFrame) :
    ((m.step (Opcode.operation .inferVerify).byte stack).runOn f).2.ledger = f.ledger := by
  simp only [step, Opcode.ofByte?_byte, perform, Exec.runOn_bind, Exec.runOn_charge]
  cases charged : f.charge Operation.inferVerify.gasCost with
  | error _ => rfl
  | ok g =>
      rw [← CallFrame.ledger_of_charge charged]
      cases stack with
      | nil => rfl
      | cons payload rest =>
          simp only [List.head?_cons, required, Exec.runOn_lift, Exec.runOn_verifyInference]
          cases (Wire.decodeOperand payload : Except ChainError InferenceReceipt) with
          | error _ => rfl
          | ok receipt =>
              simp only [Except.map, Exec.runOn_pure]
              generalize push _ _ = pushed
              cases pushed with
              | error _ => rfl
              | ok _ => rfl

end Machine

end AgentLedger
