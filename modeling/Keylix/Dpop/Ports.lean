import Keylix.Lib.Program
import Keylix.Lib.Bytes

/-!
# Errors and capabilities

The error categories of `keylix-dpop`, the bounded identifiers exchanged with its capabilities, and
the capabilities themselves. A capability is a program over a signature chosen by its
implementation: an operation of the environment, a whole algorithm over a store, or both.
-/

set_option autoImplicit false

namespace Keylix.Dpop

open Keylix.Lib

/-- A failure category of proof processing. -/
inductive DpopError where
  | missingProof
  | ambiguousProof
  | malformedProof
  | proofTooLarge
  | unsupportedAlgorithm
  | unsupportedKey
  | invalidSignature
  | methodMismatch
  | targetMismatch
  | proofExpired
  | proofFromFuture
  | accessTokenHashMissing
  | accessTokenHashMismatch
  | nonceRequired
  | nonceMismatch
  | replayDetected
  | replayStoreUnavailable
  | signerFailure
  | clockUnavailable
  | proofIdUnavailable
  | invalidRequestTarget
  | invalidMethod
  | invalidPolicy
  deriving DecidableEq

/-- The opaque failure of a capability. -/
inductive DpopPortError where
  | mk
  deriving DecidableEq

def maxProofIdBytes : Nat := 256

def maxNonceBytes : Nat := 1024

/-- A proof identifier. -/
structure ProofId where
  value : Str
  ne_nil : value.bytes ≠ []
  length_le : value.bytes.length ≤ maxProofIdBytes
  deriving DecidableEq

def ProofId.new (value : Str) : Except DpopError ProofId :=
  if h : value.bytes = [] ∨ maxProofIdBytes < value.bytes.length then .error .proofIdUnavailable
  else .ok ⟨value, fun he => h (Or.inl he), by omega⟩

def ProofId.asStr (id : ProofId) : Bytes := id.value.bytes

/-- A server-provided nonce. -/
structure DpopNonce where
  value : Str
  ne_nil : value.bytes ≠ []
  length_le : value.bytes.length ≤ maxNonceBytes
  deriving DecidableEq

def DpopNonce.new (value : Str) : Except DpopError DpopNonce :=
  if h : value.bytes = [] ∨ maxNonceBytes < value.bytes.length then .error .malformedProof
  else .ok ⟨value, fun he => h (Or.inl he), by omega⟩

def DpopNonce.asHeaderValue (nonce : DpopNonce) : Bytes := nonce.value.bytes

def DpopNonce.asStr (nonce : DpopNonce) : Bytes := nonce.value.bytes

/-- The digest that identifies a proof within its replay scope. -/
structure ReplayKey where
  bytes : ByteArr 32
  deriving DecidableEq

/-- The answer of a replay store. -/
inductive ReplayStatus where
  | fresh
  | replay
  deriving DecidableEq

/-- A value behind a mutex. A section between lock and unlock is one step: it replaces the value and
answers the one it found. -/
structure Mutex (S : Signature) (σ : Type) where
  update : (σ → σ) → Prog S σ

/-- A section with a result. -/
def Mutex.locked {S : Signature} {σ α : Type} (mutex : Mutex S σ) (f : σ → α × σ) : Prog S α := do
  let found ← mutex.update fun value => (f value).2
  pure (f found).1

/-- The current time in Unix seconds. -/
structure Clock (S : Signature) where
  unixSeconds : Prog S (Except DpopPortError I64)

/-- A source of fresh proof identifiers. -/
structure ProofIdGenerator (S : Signature) where
  generate : Prog S (Except DpopPortError ProofId)

/-- Replay state: checks a key and records it up to the expiry. -/
structure ReplayStore (S : Signature) where
  checkAndRecord : ReplayKey → I64 → Prog S (Except DpopPortError ReplayStatus)

end Keylix.Dpop
