import Countersign.Bytes
import Countersign.Curve.Residue

/-!
# ECDSA on secp256k1

Signatures on the curve `y² = x³ + 7` over the residues of `2 ^ 256 - 2 ^ 32 - 977`.  A signature
is a pair of numbers `r` and `s` modulo the order of the base point; it is valid for a public key
and a digest when the point found from the digest, `s` and the key has `r` as its first coordinate.

Of the two spellings `s` and `-s` of a signature only the smaller is accepted.

## What is here

* `Secp256k1.Point` — points in projective coordinates; `add` and `multiple` are complete.
* `Secp256k1.Point.ofOctets?` — public keys: compressed in 33 octets, uncompressed in 65, or the
  first coordinate alone behind a tag.
* `Secp256k1.verify` — verification of a signature over a digest.
-/

set_option autoImplicit false

namespace Countersign.Secp256k1

open Residue

/-! ## The field and the curve -/

/-- The order of the field. -/
def p : Nat := 0xfffffffffffffffffffffffffffffffffffffffffffffffffffffffefffffc2f

/-- The order of the base point. -/
def groupOrder : Nat :=
  0xfffffffffffffffffffffffffffffffebaaedce6af48a03bbfd25e8cd0364141

/-- A point `(x / z, y / z)` of the curve, or the neutral element when `z` is zero. -/
structure Point where
  x : Nat
  y : Nat
  z : Nat
deriving DecidableEq, Inhabited

namespace Point

/-- The neutral element. -/
def zero : Point := ⟨0, 1, 0⟩

/-- The base point. -/
def base : Point where
  x := 0x79be667ef9dcbbac55a06295ce870b07029bfcdb2dce28d959f2815b16f81798
  y := 0x483ada7726a3c4655da4fbfc0e1108a8fd17b448a68554199c47d08ffb10d4b8
  z := 1

def add (a b : Point) : Point :=
  let xx := a.x * b.x % p
  let yy := a.y * b.y % p
  let zz := 21 * a.z * b.z % p
  let xy := (a.x * b.y + b.x * a.y) % p
  let yz := (a.y * b.z + b.y * a.z) % p
  let xz := 21 * (a.x * b.z + b.x * a.z) % p
  let low := sub p yy zz
  let high := (yy + zz) % p
  { x := sub p (xy * low) (yz * xz)
    y := (high * low + 3 * xx * xz) % p
    z := (yz * high + 3 * xx * xy) % p }

/-- The multiple of a point by a number below `2 ^ 256`. -/
def multiple (n : Nat) (a : Point) : Point :=
  (bits 256 n).foldl (fun acc bit => let twice := acc.add acc; if bit then twice.add a else twice)
    zero

/-! ## Public keys -/

/-- The second coordinate of the given parity that belongs to a first one, if there is one. -/
def lift? (x : Nat) (odd : Bool) : Option Nat :=
  if p ≤ x then none
  else
    let w := (x * x % p * x + 7) % p
    let y := pow p w ((p + 1) / 4)
    if y * y % p = w then some (if (y % 2 == 1) == odd then y else sub p 0 y) else none

/-- The point that the octets of a public key stand for. -/
def ofOctets? : Bytes → Option Point
  | [] => none
  | tag :: rest =>
    let x := Bytes.toNatBig (rest.take 32)
    if rest.length = 32 then
      if tag = 2 || tag = 5 then (lift? x false).map fun y => ⟨x, y, 1⟩
      else if tag = 3 then (lift? x true).map fun y => ⟨x, y, 1⟩
      else none
    else if rest.length = 64 && tag = 4 then
      let y := Bytes.toNatBig (rest.drop 32)
      if lift? x (y % 2 == 1) = some y then some ⟨x, y, 1⟩ else none
    else none

end Point

/-! ## Verification -/

/-- Whether the signature is that of the digest under the public key. -/
def verify (publicKey signature digest : Bytes) : Bool :=
  signature.length == 64 &&
    let r := Bytes.toNatBig (signature.take 32)
    let s := Bytes.toNatBig (signature.drop 32)
    let z := digest.toNatBig % groupOrder
    match Point.ofOctets? publicKey with
    | none => false
    | some q =>
      decide (0 < r) && decide (r < groupOrder) && decide (0 < s) &&
        decide (s ≤ groupOrder / 2) &&
        let w := inverse groupOrder s
        let point :=
          (Point.base.multiple (z * w % groupOrder)).add (q.multiple (r * w % groupOrder))
        point.x * inverse p point.z % p % groupOrder == r

end Countersign.Secp256k1
