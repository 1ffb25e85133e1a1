import Countersign.Transaction.Wire
import Countersign.Digest.Sha2

/-!
# Parsed transactions

The contents of a transaction are parsed in two steps: the envelope, and the body inside it.  A
transaction is known by the digest of its contents, whatever follows the envelope included.

## What is here

* `TxnRef` — the identity of a transaction, the SHA-384 digest of its contents.
* `ParsedTransaction` and `ParsedTransaction.ofContents`.
-/

set_option autoImplicit false

namespace Countersign

/-- The identity of a transaction. -/
structure TxnRef where
  digest : Bytes
deriving DecidableEq, Inhabited

namespace TxnRef

/-- The identity of the transaction with the given contents. -/
def ofContents (contents : Bytes) : TxnRef := ⟨Sha2.sha384 contents⟩

/-- The first eight octets. -/
def shortText (r : TxnRef) : String := Bytes.hex (r.digest.take 8)

/-- The text in diagnostics, which shows all octets. -/
def debugText (r : TxnRef) : String := "TxnRef(" ++ r.digest.hex ++ ")"

end TxnRef

/-- A transaction with the octets that its signatures cover. -/
structure ParsedTransaction where
  ref : TxnRef
  bodyBytes : Bytes
  body : Body
  signatures : List SignaturePair
deriving DecidableEq, Inhabited

/-- The transaction with the given contents. -/
def ParsedTransaction.ofContents (contents : Bytes) : Except WireError ParsedTransaction := do
  let signed ← SignedTransaction.ofBytes contents
  let body ← Body.ofBytes signed.bodyBytes
  pure
    { ref := .ofContents contents, bodyBytes := signed.bodyBytes, body,
      signatures := signed.signatures }

/-- The message of a refusal of contents. -/
def WireError.contentsMessage (e : WireError) : String :=
  "Malformed transaction contents: " ++ e.message

end Countersign
