import Countersign.Signature.Platform
import Countersign.Curve.Ed25519
import Countersign.Curve.Secp256k1
import Countersign.Digest.Keccak

/-!
# Verifiers

A verifier takes a batch of platform signatures and stamps each with a status.

## What is here

* `Verifier` — what becomes of a batch; `Verifier.ofStatus` treats every signature on its own.
* `PlatformSignature.verified` — whether the signature is right, by the rules of its scheme.
* `Verifier.crypto` — the verifier that goes by those rules.  It alone counts its verdicts.
-/

set_option autoImplicit false

namespace Countersign

/-- What becomes of a batch of platform signatures, and whether each verdict is counted. -/
structure Verifier where
  verify : List PlatformSignature → List PlatformSignature
  counted : Bool := false

namespace Verifier

/-- The verifier that stamps each signature with a status of its own. -/
def ofStatus (statusOf : PlatformSignature → VerificationStatus) (counted : Bool) : Verifier where
  verify batch := batch.map fun s => { s with status := statusOf s }
  counted := counted

end Verifier

/-- Whether the signature is that of its message under its public key.  On secp256k1 it is the
Keccak-256 digest of the message that is signed. -/
def PlatformSignature.verified (s : PlatformSignature) : Bool :=
  match s.scheme with
  | .ed25519 => Ed25519.verify s.publicKey s.signature s.message
  | .ecdsaSecp256k1 => Secp256k1.verify s.publicKey s.signature (Keccak.keccak256 s.message)

/-- The verifier that goes by the rules of the schemes. -/
def Verifier.crypto : Verifier :=
  .ofStatus (fun s => if s.verified then .valid else .invalid) true

end Countersign
