import AgentLedger.Proofs.Machine.Discipline

namespace AgentLedger

/-!
# Runs that succeed

A run that succeeds has passed every check on its way. So it can be told from its success what was
read from an operand, what was allowed, and what has been done to the contents: there is one case
for each operation, and one for each way in which a byte of code can act.
-/

namespace CallFrame

variable {f g : CallFrame} {amount : UInt64}

/-- The frames differ in the ledger at most. -/
def Alters (f g : CallFrame) : Prop := g = { f with ledger := g.ledger }

theorem Alters.caller_eq (h : f.Alters g) : g.caller = f.caller := by rw [h]

theorem Alters.gasUsed_eq (h : f.Alters g) : g.gasUsed = f.gasUsed := by rw [h]

theorem ledger_of_charge (paid : f.charge amount = .ok g) : g.ledger = f.ledger := by
  rw [(charge_eq_ok paid).2]

theorem caller_of_charge (paid : f.charge amount = .ok g) : g.caller = f.caller := by
  rw [(charge_eq_ok paid).2]

theorem height_of_charge (paid : f.charge amount = .ok g) : g.height = f.height := by
  rw [(charge_eq_ok paid).2]

end CallFrame

/-! ## Taking a run apart -/

namespace Exec

variable {α β : Type} {x : Exec α} {k : α → Exec β} {r : Except ChainError α} {f g h : CallFrame}
  {a : α} {b : β} {u : Unit}

theorem runOn_bind_eq_ok (ran : (x >>= k).runOn f = (.ok b, h)) :
    ∃ a g, x.runOn f = (.ok a, g) ∧ (k a).runOn g = (.ok b, h) := by
  rw [runOn_bind] at ran
  cases first : x.runOn f with
  | mk r g =>
      rw [first] at ran
      cases r with
      | ok a => exact ⟨a, g, rfl, ran⟩
      | error _ => cases ran

theorem runOn_lift_bind_eq_ok (ran : (liftM r >>= k : Exec β).runOn f = (.ok b, h)) :
    ∃ a, r = .ok a ∧ (k a).runOn f = (.ok b, h) := by
  obtain ⟨a, g, lifted, ran⟩ := runOn_bind_eq_ok ran
  obtain ⟨rfl, rfl⟩ := Prod.mk.inj lifted
  exact ⟨a, rfl, ran⟩

theorem runOn_charge_bind_eq_ok {amount : UInt64} {k : Unit → Exec β}
    (ran : (charge amount >>= k).runOn f = (.ok b, h)) :
    ∃ g, f.charge amount = .ok g ∧ (k ()).runOn g = (.ok b, h) := by
  rw [runOn_bind, runOn_charge] at ran
  cases charged : f.charge amount with
  | ok g =>
      rw [charged] at ran
      exact ⟨g, rfl, ran⟩
  | error _ =>
      rw [charged] at ran
      cases ran

theorem runOn_changeLedger_eq_ok {x : Change}
    (ran : (changeLedger x.onLedger).runOn f = (.ok u, g)) :
    x.onContents f.ledger.contents = .ok g.ledger.contents ∧ f.Alters g := by
  rw [runOn_changeLedger, x.onLedger_eq] at ran
  cases changed : x.onContents f.ledger.contents with
  | ok d =>
      rw [changed] at ran
      obtain ⟨_, rfl⟩ := Prod.mk.inj ran
      exact ⟨rfl, rfl⟩
  | error _ =>
      rw [changed] at ran
      cases ran

/-! ## What can be done to the ledger -/

variable {payload : Bytes} {verify : ReceiptVerifier}

theorem transfer_eq_ok {source target : Address} {value : Amount}
    (ran : (transfer source target value).runOn f = (.ok u, g)) :
    f.ledger.contents.transfer source target value = .ok g.ledger.contents ∧ f.Alters g :=
  runOn_changeLedger_eq_ok (x := .transfer source target value) ran

theorem registerAgent_eq_ok (ran : (registerAgent payload).runOn f = (.ok u, g)) :
    ∃ identity : AgentIdentity, Wire.decodeOperand payload = .ok identity ∧
      identity.validate = .ok () ∧
      f.ledger.contents.registerAgent identity f.height = .ok g.ledger.contents ∧
      f.Alters g := by
  obtain ⟨identity, read, ran⟩ := runOn_lift_bind_eq_ok ran
  obtain ⟨_, valid, ran⟩ := runOn_lift_bind_eq_ok ran
  exact ⟨identity, read, valid,
    runOn_changeLedger_eq_ok (x := .registerAgent identity f.height) ran⟩

theorem sendMessage_eq_ok (ran : (sendMessage payload).runOn f = (.ok u, g)) :
    ∃ message : AgentMessage, Wire.decodeOperand payload = .ok message ∧
      g.ledger.contents = f.ledger.contents.recordMessage message ∧ f.Alters g := by
  obtain ⟨message, read, ran⟩ := runOn_lift_bind_eq_ok ran
  obtain ⟨recorded, alters⟩ := runOn_changeLedger_eq_ok (x := .recordMessage message) ran
  exact ⟨message, read, (Except.ok.inj recorded).symm, alters⟩

theorem proveInference_eq_ok (ran : (proveInference verify payload).runOn f = (.ok u, g)) :
    ∃ receipt : InferenceReceipt, Wire.decodeOperand payload = .ok receipt ∧
      checkReceipt verify receipt f.ledger.contents = .ok () ∧
      g.ledger.contents = f.ledger.contents.recordReceipt receipt ∧ f.Alters g := by
  obtain ⟨receipt, read, ran⟩ := runOn_lift_bind_eq_ok ran
  obtain ⟨_, _, seen, ran⟩ := runOn_bind_eq_ok ran
  cases seen
  obtain ⟨_, accepted, ran⟩ := runOn_lift_bind_eq_ok ran
  obtain ⟨recorded, alters⟩ := runOn_changeLedger_eq_ok (x := .recordReceipt receipt) ran
  exact ⟨receipt, read, accepted, (Except.ok.inj recorded).symm, alters⟩

theorem verifyInference_eq_ok {verdict : Bool}
    (ran : (verifyInference verify payload).runOn f = (.ok verdict, g)) :
    ∃ receipt : InferenceReceipt, Wire.decodeOperand payload = .ok receipt ∧
      verdict = (checkReceipt verify receipt f.ledger.contents).isOk ∧ g = f := by
  obtain ⟨receipt, read, ran⟩ := runOn_lift_bind_eq_ok ran
  obtain ⟨_, _, seen, ran⟩ := runOn_bind_eq_ok ran
  cases seen
  cases ran
  exact ⟨receipt, read, rfl, rfl⟩

end Exec

namespace Machine

variable {m : Machine} {f g : CallFrame}

/-! ## Operations -/

/-- What an operation has done to the contents, and what it leaves on the stack. -/
inductive Performed (verify : ReceiptVerifier) (f : CallFrame) (payload : Bytes) :
    Operation → Option Bytes → Contents → Prop where
  | agentRegister {identity : AgentIdentity} {d : Contents}
      (read : Wire.decodeOperand payload = .ok identity) (valid : identity.validate = .ok ())
      (registered : f.ledger.contents.registerAgent identity f.height = .ok d) :
      Performed verify f payload .agentRegister none d
  | agentSend {message : AgentMessage} (read : Wire.decodeOperand payload = .ok message) :
      Performed verify f payload .agentSend none (f.ledger.contents.recordMessage message)
  | inferProve {receipt : InferenceReceipt} (read : Wire.decodeOperand payload = .ok receipt)
      (accepted : Exec.checkReceipt verify receipt f.ledger.contents = .ok ()) :
      Performed verify f payload .inferProve (some [1]) (f.ledger.contents.recordReceipt receipt)
  | inferVerify {receipt : InferenceReceipt} {verdict : Bool}
      (read : Wire.decodeOperand payload = .ok receipt)
      (judged : verdict = (Exec.checkReceipt verify receipt f.ledger.contents).isOk) :
      Performed verify f payload .inferVerify (some [if verdict then 1 else 0]) f.ledger.contents
  | tokenTransfer {args : TokenTransfer} {d : Contents}
      (read : Wire.decodeOperand payload = .ok args)
      (moved : f.ledger.contents.transfer f.caller args.recipient args.value = .ok d) :
      Performed verify f payload .tokenTransfer none d

theorem required_eq_ok {operand : Option Bytes} {payload : Bytes}
    (h : required operand = .ok payload) : operand = some payload := by
  cases operand with
  | none => cases h
  | some bs => exact congrArg some (Except.ok.inj h)

/-- An operation that takes its operand and does one thing with it has done that. -/
theorem act_eq_ok {α : Type} {act : Bytes → Exec α} {leave : α → Option Bytes}
    {operand result : Option Bytes}
    (ran : (do return leave (← act (← required operand)) : Exec (Option Bytes)).runOn f =
      (.ok result, g)) :
    ∃ payload a, operand = some payload ∧ (act payload).runOn f = (.ok a, g) ∧
      result = leave a := by
  obtain ⟨payload, there, ran⟩ := Exec.runOn_lift_bind_eq_ok ran
  obtain ⟨a, _, acted, ran⟩ := Exec.runOn_bind_eq_ok ran
  cases ran
  exact ⟨payload, a, required_eq_ok there, acted, rfl⟩

theorem perform_eq_ok {op : Operation} {operand result : Option Bytes}
    (ran : (m.perform op operand).runOn f = (.ok result, g)) :
    ∃ payload, operand = some payload ∧
      Performed m.verifyReceipt f payload op result g.ledger.contents ∧ f.Alters g := by
  cases op with
  | agentRegister =>
      obtain ⟨payload, _, rfl, acted, rfl⟩ := act_eq_ok ran
      obtain ⟨identity, read, valid, registered, alters⟩ := Exec.registerAgent_eq_ok acted
      exact ⟨payload, rfl, .agentRegister read valid registered, alters⟩
  | agentSend =>
      obtain ⟨payload, _, rfl, acted, rfl⟩ := act_eq_ok ran
      obtain ⟨message, read, recorded, alters⟩ := Exec.sendMessage_eq_ok acted
      rw [recorded]
      exact ⟨payload, rfl, .agentSend read, alters⟩
  | agentDelegate => cases ran
  | inferProve =>
      obtain ⟨payload, _, rfl, acted, rfl⟩ := act_eq_ok ran
      obtain ⟨receipt, read, accepted, recorded, alters⟩ := Exec.proveInference_eq_ok acted
      rw [recorded]
      exact ⟨payload, rfl, .inferProve read accepted, alters⟩
  | inferVerify =>
      obtain ⟨payload, verdict, rfl, acted, rfl⟩ := act_eq_ok ran
      obtain ⟨receipt, read, judged, rfl⟩ := Exec.verifyInference_eq_ok acted
      exact ⟨payload, rfl, .inferVerify read judged, rfl⟩
  | tokenTransfer =>
      obtain ⟨payload, there, ran⟩ := Exec.runOn_lift_bind_eq_ok ran
      obtain ⟨args, read, ran⟩ := Exec.runOn_lift_bind_eq_ok ran
      obtain ⟨_, _, seen, ran⟩ := Exec.runOn_bind_eq_ok ran
      cases seen
      obtain ⟨_, _, acted, ran⟩ := Exec.runOn_bind_eq_ok ran
      cases ran
      obtain ⟨moved, alters⟩ := Exec.transfer_eq_ok acted
      exact ⟨payload, required_eq_ok there, .tokenTransfer read moved, alters⟩

/-! ## Code -/

/-- What one byte of code has done. -/
inductive Stepped (m : Machine) (byte : UInt8) (stack : List Bytes) (f : CallFrame) :
    Step → CallFrame → Prop where
  | stop (stops : Opcode.ofByte? byte = some .stop) : Stepped m byte stack f (.finished none) f
  | ret {top : Bytes} (returns : Opcode.ofByte? byte = some .ret) (found : stack.head? = some top) :
      Stepped m byte stack f (.finished (some top)) f
  | operation {op : Operation} {operand : Bytes} {rest next : List Bytes} {result : Option Bytes}
      {charged after : CallFrame} (opcode : Opcode.ofByte? byte = some (.operation op))
      (taken : stack = operand :: rest) (paid : f.charge op.gasCost = .ok charged)
      (performed :
        Performed m.verifyReceipt charged operand op result after.ledger.contents)
      (alters : charged.Alters after)
      (pushed : push rest result = .ok next) : Stepped m byte stack f (.running next) after
  | extension {x : Extension} {s : Step} {after : CallFrame}
      (free : Opcode.ofByte? byte = none) (found : m.extensions.get? byte = some x)
      (ran : (stepExtension x stack).runOn f = (.ok s, after)) : Stepped m byte stack f s after

theorem step_eq_ok {byte : UInt8} {stack : List Bytes} {s : Step}
    (ran : (m.step byte stack).runOn f = (.ok s, g)) : Stepped m byte stack f s g := by
  unfold step at ran
  split at ran
  · next stops =>
      cases ran
      exact .stop stops
  · next returns =>
      obtain ⟨top, found, ran⟩ := Exec.runOn_lift_bind_eq_ok ran
      cases ran
      exact .ret returns (required_eq_ok found)
  · cases ran
  · next op opcode =>
      obtain ⟨charged, paid, ran⟩ := Exec.runOn_charge_bind_eq_ok ran
      obtain ⟨result, after, acted, ran⟩ := Exec.runOn_bind_eq_ok ran
      obtain ⟨next, pushed, ran⟩ := Exec.runOn_lift_bind_eq_ok ran
      cases ran
      obtain ⟨operand, head, performed, alters⟩ := perform_eq_ok acted
      obtain ⟨rest, rfl⟩ := List.head?_eq_some_iff.1 head
      exact .operation opcode rfl paid performed alters pushed
  · next free =>
      split at ran
      · next x found => exact .extension free found ran
      · cases ran

end Machine

end AgentLedger
