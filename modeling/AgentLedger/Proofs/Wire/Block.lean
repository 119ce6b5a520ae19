import AgentLedger.Proofs.Wire.Ledger
import AgentLedger.Transaction.Draft
import AgentLedger.Wire.Block

namespace AgentLedger

/-!
# Transactions and blocks are read back

Transactions, blocks and everything that a payload can hold are read back from their wire texts. A
draft therefore carries what it was made of, and what travels as text keeps its hash.
-/

open Wire (Lawful toJson ofJson?)

theorem Wire.decodeOperand_encode {α : Type} [Wire α] [Lawful α] (a : α) :
    decodeOperand (encode a) = .ok a := by
  rw [decodeOperand, decode?_encode]

/-! ## Payloads -/

instance : Lawful ContractDeployment where
  ofJson?_toJson d := Json.bind_record? (by simp) (by simp)
  readable_toJson d := Json.readable_record (by simp)

instance : Lawful ContractCall where
  ofJson?_toJson c := Json.bind_record? (by simp) (by simp)
  readable_toJson c := Json.readable_record (by simp)

instance : Lawful TokenTransfer where
  ofJson?_toJson t := Json.bind_record? (by simp) (by simp)
  readable_toJson t := Json.readable_record (by simp)

/-! ## Transactions and blocks -/

instance : Lawful TransactionKind where
  ofJson?_toJson k := by cases k <;> rfl
  readable_toJson k := Json.readable_text (Utf8.encode k.name)

/-- No address is written as `null`, which stands for the absence of a recipient. -/
instance : Lawful (Option Address) where
  ofJson?_toJson
    | none => rfl
    | some _ => Wire.ofJson?_some nofun
  readable_toJson
    | none => List.forall_mem_singleton.2 trivial
    | some a => Wire.readable_toJson a

instance : Lawful Transaction where
  ofJson?_toJson tx := Json.bind_record? (by simp) (by simp [Json.Record.optional])
  readable_toJson tx := Json.readable_record (by simp)

instance : Lawful BlockHeader where
  ofJson?_toJson h := Json.bind_record? (by simp) (by simp)
  readable_toJson h := Json.readable_record (by simp)

instance : Lawful Block where
  ofJson?_toJson b := Json.bind_record? (by simp) (by simp)
  readable_toJson b := Json.readable_record (by simp)

/-! ## What is exchanged -/

/-- Every value of the type can be read from its wire text where an operand is read. -/
def Wire.ReadsBack (α : Type) [Wire α] : Prop := ∀ a : α, decodeOperand (encode a) = .ok a

theorem Wire.readsBack (α : Type) [Wire α] [Lawful α] : ReadsBack α := decodeOperand_encode

/-- Everything that is sent, or that a payload or an operand holds, is read back from its wire text.
Each draft carries what was put into its payload, and a transaction or a block that has travelled as
text has the hash that it had. -/
theorem Wire.exchanged_values_read_back :
    (ReadsBack Transaction ∧ ReadsBack Block ∧ ReadsBack BlockHeader ∧ ReadsBack AgentIdentity ∧
      ReadsBack AgentMessage ∧ ReadsBack InferenceReceipt ∧ ReadsBack ContractDeployment ∧
      ReadsBack ContractCall ∧ ReadsBack TokenTransfer) ∧
    (∀ sender nonce gasPrice,
      (∀ identity, decodeOperand
        (Transaction.agentRegister sender identity nonce gasPrice).payload = .ok identity) ∧
      (∀ message, decodeOperand
        (Transaction.agentMessage sender message nonce gasPrice).payload = .ok message) ∧
      (∀ receipt, decodeOperand
        (Transaction.inferenceReceipt sender receipt nonce gasPrice).payload = .ok receipt) ∧
      (∀ code, decodeOperand
        (Transaction.deployContract sender code nonce gasPrice).payload =
          .ok (ContractDeployment.mk code)) ∧
      ∀ contract operands gasLimit, decodeOperand
        (Transaction.callContract sender contract operands gasLimit nonce gasPrice).payload =
          .ok (ContractCall.mk operands)) ∧
    (∀ tx : Transaction, (decodeOperand (encode tx)).map Transaction.hash = .ok tx.hash) ∧
    ∀ b : Block, (decodeOperand (encode b)).map Block.hash = .ok b.hash := by
  refine ⟨⟨readsBack _, readsBack _, readsBack _, readsBack _, readsBack _, readsBack _,
    readsBack _, readsBack _, readsBack _⟩, ?_, ?_, ?_⟩
  · intro sender nonce gasPrice
    refine ⟨readsBack _, readsBack _, readsBack _, ?_, ?_⟩
    · intro code
      exact decodeOperand_encode (ContractDeployment.mk code)
    · intro contract operands gasLimit
      exact decodeOperand_encode (ContractCall.mk operands)
  · intro tx
    rw [decodeOperand_encode]
    rfl
  · intro b
    rw [decodeOperand_encode]
    rfl

end AgentLedger
