import AgentLedger.Gas
import AgentLedger.Wire.Agent
import AgentLedger.Wire.Transaction

namespace AgentLedger.Transaction

/-!
# Drafts of transactions

A draft is unsigned and allows for as much gas as it costs. What a call costs depends on the
contract, so the caller says how much it may use.
-/

def draft (kind : TransactionKind) (sender : Address) (gasLimit nonce : UInt64)
    (gasPrice : Amount) : Transaction :=
  ⟨kind, sender, none, 0, gasLimit, gasPrice, nonce, [], []⟩

def transfer (sender recipient : Address) (value : Amount) (nonce : UInt64) (gasPrice : Amount) :
    Transaction :=
  { draft .transfer sender Gas.transfer nonce gasPrice with
    recipient := some recipient
    value }

def agentRegister (sender : Address) (identity : AgentIdentity) (nonce : UInt64)
    (gasPrice : Amount) : Transaction :=
  { draft .agentRegister sender Gas.agentRegister nonce gasPrice with
    payload := Wire.encode identity }

def agentMessage (sender : Address) (message : AgentMessage) (nonce : UInt64)
    (gasPrice : Amount) : Transaction :=
  { draft .agentMessage sender Gas.agentMessage nonce gasPrice with
    payload := Wire.encode message }

def inferenceReceipt (sender : Address) (receipt : InferenceReceipt) (nonce : UInt64)
    (gasPrice : Amount) : Transaction :=
  { draft .inferenceReceipt sender Gas.inferenceReceipt nonce gasPrice with
    payload := Wire.encode receipt }

def deployContract (sender : Address) (code : Bytes) (nonce : UInt64) (gasPrice : Amount) :
    Transaction :=
  { draft .deployContract sender (Gas.deployment code.length) nonce gasPrice with
    payload := Wire.encode (ContractDeployment.mk code) }

def callContract (sender contract : Address) (operands : List Bytes) (gasLimit nonce : UInt64)
    (gasPrice : Amount) : Transaction :=
  { draft .callContract sender gasLimit nonce gasPrice with
    recipient := some contract
    payload := Wire.encode (ContractCall.mk operands) }

def withGasLimit (tx : Transaction) (gasLimit : UInt64) : Transaction := { tx with gasLimit }

def withSignature (tx : Transaction) (signature : Bytes) : Transaction := { tx with signature }

end AgentLedger.Transaction
