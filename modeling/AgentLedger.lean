import AgentLedger.Main
import AgentLedger.Network
import AgentLedger.Wire.Block
import AgentLedger.Proofs.Digest.Domains
import AgentLedger.Proofs.Engine.Agreement
import AgentLedger.Proofs.Engine.Extending
import AgentLedger.Proofs.Engine.Replay
import AgentLedger.Proofs.Engine.Spending
import AgentLedger.Proofs.Node.Arrival
import AgentLedger.Proofs.Pool.Backlog
import AgentLedger.Proofs.Producer.Atomicity
import AgentLedger.Proofs.Producer.Chain
import AgentLedger.Proofs.Producer.Roots
import AgentLedger.Proofs.Producer.Validity
import AgentLedger.Proofs.Wire.Block
import AgentLedger.Proofs.Digest.Bodies
import AgentLedger.Proofs.Producer.Inclusions
import AgentLedger.Proofs.Validator.Rotation
import AgentLedger.Proofs.Machine.Limits
import AgentLedger.Proofs.Engine.Limits
import AgentLedger.Proofs.Ledger.MessageCounts
import AgentLedger.Proofs.Producer.Rejections
import AgentLedger.Proofs.Producer.Timestamps
import AgentLedger.Proofs.Engine.Shortfall
import AgentLedger.Proofs.Machine.Stack
import AgentLedger.Proofs.Address.Digits
import AgentLedger.Proofs.Address.Grammar
import AgentLedger.Proofs.Json.Texts
import AgentLedger.Proofs.Config.Overriding
import AgentLedger.Proofs.Engine.Capabilities
