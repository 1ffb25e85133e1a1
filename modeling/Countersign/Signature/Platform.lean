import Countersign.Key

/-!
# Platform signatures

A signature that has been matched to its whole public key, together with the message it must
cover, is ready to be verified.  Until then its status is unknown.

## What is here

* `VerificationStatus` and `PlatformSignature`.
* `SignatureMaker` — how a matched signature becomes a platform signature; `SignatureMaker.over`
  makes signatures over one message, the encoded body of the transaction.
-/

set_option autoImplicit false

namespace Countersign

/-- What verification has found out. -/
inductive VerificationStatus where
  | unknown
  | valid
  | invalid
deriving DecidableEq, Inhabited

/-- A signature that is ready to be verified. -/
structure PlatformSignature where
  scheme : Scheme
  publicKey : Bytes
  signature : Bytes
  message : Bytes
  status : VerificationStatus := .unknown
deriving DecidableEq, Inhabited

/-- How a scheme, a public key and a signature become a platform signature. -/
abbrev SignatureMaker := Scheme → Bytes → Bytes → PlatformSignature

/-- Platform signatures over one message. -/
def SignatureMaker.over (message : Bytes) : SignatureMaker := fun scheme publicKey signature =>
  { scheme, publicKey, signature, message }

def VerificationStatus.name : VerificationStatus → String
  | unknown => "Unknown"
  | valid => "Valid"
  | invalid => "Invalid"

namespace PlatformSignature

def isValid (s : PlatformSignature) : Bool :=
  s.status == .valid

/-- The text of a platform signature in diagnostics: the first six octets of the key, and lengths
in place of the signature and the message. -/
def debugText (s : PlatformSignature) : String :=
  "PlatformSignature \x7b key_type: " ++ s.scheme.text
    ++ ", public_key: \"0x" ++ Bytes.hex (s.publicKey.take 6)
    ++ "..\", signature_len: " ++ toString s.signature.length
    ++ ", message_len: " ++ toString s.message.length
    ++ ", status: " ++ s.status.name ++ " \x7d"

end PlatformSignature

end Countersign
