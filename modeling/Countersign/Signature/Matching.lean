import Countersign.Signature.Platform
import Countersign.Signature.Supply

/-!
# Matching signatures to required keys

The required keys are trees.  A public key is satisfied by a signature that came along, a list by
the satisfaction of all its children, a threshold by that of as many as it asks for, and the number
of a contract needs no signature.  Matching looks at prefixes only: whether a signature is right is
for a verifier to find out.

## What is here

* `SignatureMap.satisfy` — the signatures that satisfy a key, or what stands in the way.
* `matchKeys` — platform signatures for a list of keys, in order.  A signature that has been used
  before, for this list or an earlier one, is not made into a second platform signature.

A child of a threshold that is not satisfied contributes nothing, whatever was found below it.
-/

set_option autoImplicit false

namespace Countersign

/-- A public key of a required key, and the signature found for it. -/
structure Matched where
  scheme : Scheme
  publicKey : Bytes
  found : Found
deriving DecidableEq, Inhabited

/-- What became of the children of a threshold: how many are satisfied, what was found for those,
and why the first of the others is not. -/
structure Tally where
  satisfied : Nat := 0
  matched : List Matched := []
  firstMissing : Option MatchError := none
deriving DecidableEq, Inhabited

namespace SignatureMap

/-! ## One key -/

/-- The signature for a public key, which has to be there. -/
def satisfyLeaf (m : SignatureMap) (scheme : Scheme) (publicKey : Bytes) :
    Except MatchError (List Matched) :=
  match m.find scheme publicKey with
  | .error e => .error e
  | .ok none => .error (.missingSignature scheme publicKey)
  | .ok (some found) => .ok [{ scheme, publicKey, found }]

/-- The error of a threshold that asks for more children than there are although all are
satisfied.  It names the first public key below the threshold. -/
def oversized (keys : List Key) : MatchError :=
  match Key.primitivesOfAll keys with
  | [] => .missingSignature .ed25519 []
  | (scheme, publicKey) :: _ => .missingSignature scheme publicKey

/-- Whether a threshold is reached, given what became of its children. -/
def reach (required : UInt32) (keys : List Key) (t : Tally) : Except MatchError (List Matched) :=
  if required.toNat ≤ t.satisfied then .ok t.matched
  else .error (t.firstMissing.getD (oversized keys))

mutual

/-- The signatures that satisfy a key, depth first in order of declaration. -/
def satisfy (m : SignatureMap) : Key → Except MatchError (List Matched)
  | .ed25519 pk => satisfyLeaf m .ed25519 pk
  | .ecdsaSecp256k1 pk => satisfyLeaf m .ecdsaSecp256k1 pk
  | .contractId _ => .ok []
  | .delegatableContractId _ => .ok []
  | .threshold required ks =>
    match tally m ks with
    | .error e => .error e
    | .ok t => reach required ks t
  | .keyList ks => satisfyAll m ks

/-- The signatures that satisfy every key of a list. -/
def satisfyAll (m : SignatureMap) : List Key → Except MatchError (List Matched)
  | [] => .ok []
  | k :: ks =>
    match satisfy m k with
    | .error e => .error e
    | .ok found =>
      match satisfyAll m ks with
      | .error e => .error e
      | .ok more => .ok (found ++ more)

/-- What becomes of the children of a threshold.  Prefixes that contradict each other put an end to
it at once. -/
def tally (m : SignatureMap) : List Key → Except MatchError Tally
  | [] => .ok {}
  | k :: ks =>
    match satisfy m k with
    | .error (.keyPrefixMismatch pk) => .error (.keyPrefixMismatch pk)
    | .error (.missingSignature scheme pk) =>
      match tally m ks with
      | .error e => .error e
      | .ok t => .ok { t with firstMissing := some (.missingSignature scheme pk) }
    | .ok found =>
      match tally m ks with
      | .error e => .error e
      | .ok t => .ok { t with satisfied := t.satisfied + 1, matched := found ++ t.matched }

end

end SignatureMap

/-! ## A list of keys -/

/-- Platform signatures for those of the matches whose signature has not been used. -/
def consume (make : SignatureMaker) : List Matched → Supply → List PlatformSignature × Supply
  | [], s => ([], s)
  | m :: ms, s =>
    let (fresh, s) := s.markUsed m.found.index
    let (sigs, s) := consume make ms s
    (if fresh then make m.scheme m.publicKey m.found.signature :: sigs else sigs, s)

/-- Platform signatures for every key of a list, in order.  The first key that is not satisfied ends
the pass without any; what earlier keys have used up stays used. -/
def matchKeys (make : SignatureMaker) :
    List Key → Supply → Except MatchError (List PlatformSignature) × Supply
  | [], s => (.ok [], s)
  | k :: ks, s =>
    match s.map.satisfy k with
    | .error e => (.error e, s)
    | .ok found =>
      let (sigs, s) := consume make found s
      match matchKeys make ks s with
      | (.error e, s) => (.error e, s)
      | (.ok more, s) => (.ok (sigs ++ more), s)

/-- Platform signatures for the unused pairs with a complete prefix, all of which are used up. -/
def sweepUnused (make : SignatureMaker) (s : Supply) : List PlatformSignature × Supply :=
  let (pairs, s) := s.sweep
  (pairs.map fun p => make p.scheme p.keyPrefix p.signature, s)

end Countersign
