import AgentLedger.Machine.Basic

namespace AgentLedger

/-!
# Faults of operands

An operand is read and checked before anything is done with it. Whatever is refused then is refused
for a fault of the operand itself, and no check reports anything else.
-/

/-- What can be wrong with an operand. -/
inductive OperationFault.OfOperand : OperationFault → Prop where
  | malformedPayload : OfOperand .malformedPayload
  | emptyIdentifier : OfOperand .emptyIdentifier
  | notDid (identifier : String) : OfOperand (.notDid identifier)
  | receiptWithoutAgent : OfOperand .receiptWithoutAgent
  | receiptDigestLength (digest : ReceiptDigest) (length : Nat) :
      OfOperand (.receiptDigestLength digest length)
  | receiptTimestamp : OfOperand .receiptTimestamp
  | receiptUnsigned : OfOperand .receiptUnsigned

open OperationFault (OfOperand)

/-- If it fails, it finds fault with an operand. -/
def FaultsOperand {α : Type} (r : Except ChainError α) : Prop :=
  ∀ e, r = .error e → ∃ fault, e = .invalidOperation fault ∧ fault.OfOperand

section

variable {α β : Type} {fault : OperationFault}

theorem faultsOperand_ok (a : α) : FaultsOperand (.ok a : Except ChainError α) := nofun

theorem faultsOperand_error (h : fault.OfOperand) :
    FaultsOperand (.error (.invalidOperation fault) : Except ChainError α) := by
  rintro _ ⟨rfl⟩
  exact ⟨fault, rfl, h⟩

theorem faultsOperand_throw_bind (h : fault.OfOperand) (k : α → Except ChainError β) :
    FaultsOperand (throw (.invalidOperation fault) >>= k) := faultsOperand_error h

theorem faultsOperand_bind {r : Except ChainError α} {k : α → Except ChainError β}
    (hr : FaultsOperand r) (hk : ∀ a, FaultsOperand (k a)) : FaultsOperand (r >>= k) := by
  cases r with
  | ok a => exact hk a
  | error e =>
      rintro _ ⟨rfl⟩
      exact hr e rfl

theorem faultsOperand_decodeOperand [Wire α] (bs : Bytes) :
    FaultsOperand (Wire.decodeOperand bs : Except ChainError α) := by
  unfold Wire.decodeOperand
  split
  · exact faultsOperand_ok _
  · exact faultsOperand_error .malformedPayload

theorem AgentIdentity.faultsOperand_validate (identity : AgentIdentity) :
    FaultsOperand identity.validate := by
  unfold validate
  split
  · exact faultsOperand_error .emptyIdentifier
  · split
    · exact faultsOperand_ok ()
    · exact faultsOperand_error (.notDid _)

namespace InferenceReceipt

theorem faultsOperand_requireDigest (digest : ReceiptDigest) (bs : Bytes) :
    FaultsOperand (requireDigest digest bs) := by
  unfold requireDigest
  split
  · exact faultsOperand_ok ()
  · exact faultsOperand_error (.receiptDigestLength digest _)

theorem faultsOperand_validateStructure (r : InferenceReceipt) :
    FaultsOperand r.validateStructure := by
  have signed : FaultsOperand (if r.proverSignature = [] then
      throw (.invalidOperation .receiptUnsigned) else pure () : Except ChainError Unit) := by
    split
    · exact faultsOperand_error .receiptUnsigned
    · exact faultsOperand_ok ()
  unfold validateStructure
  dsimp only
  split
  · exact faultsOperand_throw_bind .receiptWithoutAgent _
  · refine faultsOperand_bind (faultsOperand_requireDigest _ _) fun _ => ?_
    refine faultsOperand_bind (faultsOperand_requireDigest _ _) fun _ => ?_
    refine faultsOperand_bind (faultsOperand_requireDigest _ _) fun _ => ?_
    split
    · exact faultsOperand_throw_bind .receiptTimestamp _
    · exact signed

end InferenceReceipt

end

end AgentLedger
