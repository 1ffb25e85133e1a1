import Countersign.ByteSet
import Countersign.Signature.Platform

/-!
# Rationalized signature metadata

What an expansion hands on comes in three shapes: nothing, the key and signatures of the payer
alone, or those of the payer and of all other parties.  Who receives it may go on to revoke public
keys, whose signatures then count as absent.

## What is here

* `SigMeta` with its shapes `SigMeta.noneAvailable`, `SigMeta.payerOnly`, `SigMeta.complete`.
* `SigMetaError` — the answer to a request for a part that is not there.
* `SigMeta.verifiedSigOf?` — the valid signature of a public key, unless the key is revoked.
* `SigMeta.revoking` — the same metadata with every public key of a key revoked.
-/

set_option autoImplicit false

namespace Countersign

/-- Which part of the metadata is missing. -/
inductive SigMetaError where
  | payerUnavailable
  | othersUnavailable
  | sigsUnavailable
deriving DecidableEq, Inhabited

def SigMetaError.message : SigMetaError → String
  | payerUnavailable => "Payer required signing keys could not be rationalized"
  | othersUnavailable => "Other-party required signing keys could not be rationalized"
  | sigsUnavailable => "Verified signatures could not be rationalized"

/-- What an expansion hands on. -/
structure SigMeta where
  payerKey? : Option Key
  otherKeys? : Option (List Key)
  signatures? : Option (List PlatformSignature)
  revoked : ByteSet := .empty
deriving DecidableEq, Inhabited

namespace SigMeta

/-! ## Shapes -/

def noneAvailable : SigMeta where
  payerKey? := none
  otherKeys? := none
  signatures? := none

def payerOnly (payerKey : Key) (signatures : List PlatformSignature) : SigMeta where
  payerKey? := some payerKey
  otherKeys? := none
  signatures? := some signatures

def complete (payerKey : Key) (otherKeys : List Key) (signatures : List PlatformSignature) :
    SigMeta where
  payerKey? := some payerKey
  otherKeys? := some otherKeys
  signatures? := some signatures

/-! ## Parts -/

def couldRationalizePayer (m : SigMeta) : Bool := m.payerKey?.isSome

def couldRationalizeOthers (m : SigMeta) : Bool := m.otherKeys?.isSome

def payerKey (m : SigMeta) : Except SigMetaError Key :=
  match m.payerKey? with
  | some key => .ok key
  | none => .error .payerUnavailable

def otherKeys (m : SigMeta) : Except SigMetaError (List Key) :=
  match m.otherKeys? with
  | some keys => .ok keys
  | none => .error .othersUnavailable

def signatures (m : SigMeta) : Except SigMetaError (List PlatformSignature) :=
  match m.signatures? with
  | some signatures => .ok signatures
  | none => .error .sigsUnavailable

/-- The metadata with its signatures replaced by what `f` makes of them. -/
def mapSignatures (m : SigMeta) (f : List PlatformSignature → List PlatformSignature) : SigMeta :=
  { m with signatures? := m.signatures?.map f }

/-! ## Verified signatures and revocation -/

/-- The first valid signature of a public key, unless the key is revoked. -/
def verifiedSigOf? (m : SigMeta) (publicKey : Bytes) : Option PlatformSignature :=
  if publicKey ∈ m.revoked then none
  else m.signatures?.bind fun sigs => sigs.find? fun s => s.publicKey == publicKey && s.isValid

/-- The metadata with every public key of `key` revoked. -/
def revoking (m : SigMeta) (key : Key) : SigMeta :=
  { m with revoked := m.revoked.insertAll (key.primitives.map Prod.snd) }

end SigMeta

end Countersign
