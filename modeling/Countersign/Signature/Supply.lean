import Countersign.Status
import Countersign.Transaction.Signed

/-!
# The supply of signatures

The signatures that came with a transaction are used up one by one: each may enter the result once.
A required public key is looked up by the prefixes that came along.

## What is here

* `Supply` — the signature pairs in order, each with a flag that tells whether it has been used.
* `MatchError` — why a public key gets no signature.
* `SignatureMap.find` — the signature for a public key.  A complete prefix decides.  Otherwise all
  incomplete prefixes that fit must carry the same signature, and the longest, or the first of the
  longest, is taken.
* `Supply.markUsed`, `Supply.sweep`, `Supply.reset` — using one signature up; using up all that have
  a complete prefix; forgetting all use.
-/

set_option autoImplicit false

namespace Countersign

/-- Why a public key gets no signature: nothing fits it, or several prefixes fit it that carry
different signatures. -/
inductive MatchError where
  | missingSignature (scheme : Scheme) (publicKey : Bytes)
  | keyPrefixMismatch (publicKey : Bytes)
deriving DecidableEq, Inhabited

namespace MatchError

def publicKey : MatchError → Bytes
  | missingSignature _ pk => pk
  | keyPrefixMismatch pk => pk

/-- The message names the first four octets of the key. -/
def message : MatchError → String
  | missingSignature scheme pk =>
    "No signature supplied for " ++ scheme.text ++ " key 0x" ++ Bytes.hex (pk.take 4)
  | keyPrefixMismatch pk => "Ambiguous signature prefixes for key 0x" ++ Bytes.hex (pk.take 4)

/-- The status that reports the error. -/
def status : MatchError → Status
  | missingSignature _ _ => .invalidSignature
  | keyPrefixMismatch _ => .keyPrefixMismatch

theorem isMatchingFailure_status (e : MatchError) : e.status.isMatchingFailure = true := by
  cases e <;> rfl

end MatchError

/-! ## Looking a public key up -/

/-- The signature pairs that came with a transaction, in order. -/
abbrev SignatureMap := List SignaturePair

/-- A signature that was found, and its position. -/
structure Found where
  index : Nat
  signature : Bytes
deriving DecidableEq, Inhabited

namespace SignaturePair

/-- Whether the pair names exactly this public key. -/
def names (p : SignaturePair) (scheme : Scheme) (publicKey : Bytes) : Bool :=
  p.scheme == scheme && p.hasFullPrefix && p.keyPrefix == publicKey

/-- Whether the pair has an incomplete prefix that fits this public key. -/
def hints (p : SignaturePair) (scheme : Scheme) (publicKey : Bytes) : Bool :=
  p.scheme == scheme && !p.hasFullPrefix && p.keyPrefix.isPrefixOf publicKey

end SignaturePair

namespace SignatureMap

/-- The first of the longest among candidates, provided that all carry the same signature.  `best`
is the choice among those already looked at. -/
def longest? (best : SignaturePair × Nat) :
    List (SignaturePair × Nat) → Option (SignaturePair × Nat)
  | [] => some best
  | c :: cs =>
    if best.1.signature ≠ c.1.signature then none
    else if c.1.keyPrefix.length ≤ best.1.keyPrefix.length then longest? best cs
    else longest? c cs

/-- The signature for a public key, if there is one. -/
def find (m : SignatureMap) (scheme : Scheme) (publicKey : Bytes) :
    Except MatchError (Option Found) :=
  match m.zipIdx.find? fun c => c.1.names scheme publicKey with
  | some (pair, index) => .ok (some ⟨index, pair.signature⟩)
  | none =>
    match m.zipIdx.filter fun c => c.1.hints scheme publicKey with
    | [] => .ok none
    | c :: cs =>
      match longest? c cs with
      | some (pair, index) => .ok (some ⟨index, pair.signature⟩)
      | none => .error (.keyPrefixMismatch publicKey)

end SignatureMap

/-! ## Using signatures up -/

/-- A signature pair, and whether it has been used. -/
structure SuppliedPair where
  pair : SignaturePair
  used : Bool := false
deriving DecidableEq, Inhabited

/-- The signature pairs of a transaction, each with its flag. -/
structure Supply where
  entries : List SuppliedPair
deriving DecidableEq, Inhabited

namespace Supply

/-- The supply in which nothing has been used. -/
def ofMap (m : SignatureMap) : Supply where
  entries := m.map fun pair => { pair }

/-- The pairs of the supply, used or not. -/
def map (s : Supply) : SignatureMap :=
  s.entries.map (·.pair)

/-- The flags of the supply. -/
def flags (s : Supply) : List Bool :=
  s.entries.map (·.used)

def unusedCount (s : Supply) : Nat :=
  s.entries.countP fun e => !e.used

/-- Uses up the pair at a position, and says whether it was there and unused. -/
def markUsed (s : Supply) (index : Nat) : Bool × Supply :=
  match s.entries[index]? with
  | some e =>
    if e.used then (false, s) else (true, ⟨s.entries.set index { e with used := true }⟩)
  | none => (false, s)

/-- Whether the pair is unused and has a complete prefix. -/
def isSweepable (e : SuppliedPair) : Bool :=
  !e.used && e.pair.hasFullPrefix

def hasSweepable (s : Supply) : Bool :=
  s.entries.any isSweepable

/-- The unused pairs with a complete prefix, in order; all of them are used up. -/
def sweep (s : Supply) : List SignaturePair × Supply :=
  ((s.entries.filter isSweepable).map (·.pair),
    ⟨s.entries.map fun e => if isSweepable e then { e with used := true } else e⟩)

/-- The supply with every pair unused again. -/
def reset (s : Supply) : Supply where
  entries := s.entries.map fun e => { e with used := false }

@[simp] theorem map_ofMap (m : SignatureMap) : (ofMap m).map = m := by
  simp [ofMap, map, Function.comp_def]

@[simp] theorem map_reset (s : Supply) : s.reset.map = s.map := by
  simp [reset, map, Function.comp_def]

theorem reset_eq (s : Supply) : s.reset = ofMap s.map := by
  simp [reset, ofMap, map, Function.comp_def]

end Supply

end Countersign
