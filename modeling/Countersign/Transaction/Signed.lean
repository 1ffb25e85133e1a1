import Countersign.Key

/-!
# Signed transactions

A transaction travels as the encoded body and the signatures over exactly those octets.  A
signature does not name its public key: it comes with a prefix of it, which may be the whole.

## What is here

* `SignaturePair` — a signature and the prefix of its public key.
* `SignaturePair.hasFullPrefix` — the prefix is as long as a public key of the scheme.
* `SignedTransaction` — the octets of the body, and the signatures.
-/

set_option autoImplicit false

namespace Countersign

/-- A signature together with a prefix of the public key it belongs to. -/
structure SignaturePair where
  keyPrefix : Bytes
  scheme : Scheme
  signature : Bytes
deriving DecidableEq, Inhabited

/-- Whether the prefix is a complete public key. -/
def SignaturePair.hasFullPrefix (p : SignaturePair) : Bool :=
  p.keyPrefix.length == p.scheme.publicKeyLength

/-- An encoded body and the signatures that came with it. -/
structure SignedTransaction where
  bodyBytes : Bytes
  signatures : List SignaturePair
deriving DecidableEq, Inhabited

end Countersign
