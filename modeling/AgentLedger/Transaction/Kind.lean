namespace AgentLedger

/-!
# Kinds of transactions

The code of a kind is its place in the list of kinds.
-/

inductive TransactionKind where
  | transfer
  | agentRegister
  | agentMessage
  | agentDelegate
  | deployContract
  | callContract
  | inferenceReceipt
  | validatorStake
  | validatorUnstake
deriving DecidableEq, Repr, Inhabited

namespace TransactionKind

def all : List TransactionKind :=
  [transfer, agentRegister, agentMessage, agentDelegate, deployContract, callContract,
    inferenceReceipt, validatorStake, validatorUnstake]

def code : TransactionKind → UInt8
  | transfer => 0
  | agentRegister => 1
  | agentMessage => 2
  | agentDelegate => 3
  | deployContract => 4
  | callContract => 5
  | inferenceReceipt => 6
  | validatorStake => 7
  | validatorUnstake => 8

def name : TransactionKind → String
  | transfer => "Transfer"
  | agentRegister => "AgentRegister"
  | agentMessage => "AgentMessage"
  | agentDelegate => "AgentDelegate"
  | deployContract => "DeployContract"
  | callContract => "CallContract"
  | inferenceReceipt => "InferenceReceipt"
  | validatorStake => "ValidatorStake"
  | validatorUnstake => "ValidatorUnstake"

theorem mem_all (k : TransactionKind) : k ∈ all := by cases k <;> decide

theorem code_injective {j k : TransactionKind} (h : j.code = k.code) : j = k := by
  revert h
  cases j <;> cases k <;> decide

end TransactionKind

end AgentLedger
