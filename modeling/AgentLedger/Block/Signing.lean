import AgentLedger.Block
import AgentLedger.Ed25519.Key
import AgentLedger.Validator

namespace AgentLedger

/-!
# Signatures on blocks

A proposer signs the hash of the header. Whether a signature is needed is up to the verifier.
-/

abbrev BlockSigner := Hash256 → Bytes

namespace BlockSigner

def none : BlockSigner := fun _ => []

def ed25519 (k : Ed25519.PrivateKey) : BlockSigner := fun h => (k.sign h.bytes).bytes

end BlockSigner

abbrev BlockVerifier := Block → Validator → Except ChainError Unit

namespace BlockVerifier

def acceptAll : BlockVerifier := fun _ _ => .ok ()

/-- Takes only signatures by the key of the validator. -/
def ed25519 : BlockVerifier := fun b v =>
  match Ed25519.PublicKey.ofBytes v.publicKey, Ed25519.Signature.ofBytes b.proposerSignature with
  | .ok key, .ok signature =>
      if key.verify signature b.hash.bytes then .ok () else .error .invalidSignature
  | _, _ => .error .invalidSignature

end BlockVerifier

end AgentLedger
