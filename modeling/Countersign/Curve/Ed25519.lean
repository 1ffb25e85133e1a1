import Countersign.Bytes
import Countersign.Curve.Residue
import Countersign.Digest.Sha2

/-!
# Ed25519

Signatures on the twisted Edwards curve `-x² + y² = 1 + d x² y²` over the residues of
`2 ^ 255 - 19`.  A signature is a point `R` and a number `S`; it is valid for the public key `A`
and the message when `R` is the point `S B - k A`, where `B` is the base point and `k` comes from
the SHA-512 digest of `R`, `A` and the message.

Verification is strict: `S` must be reduced, neither `A` nor `R` may be of small order, and the
octets of the computed point must be those of `R`, so that no point is accepted in a second
spelling.

## What is here

* `Ed25519.Point` — points in extended coordinates; `add` and `multiple` are complete.
* `Ed25519.Point.ofOctets?`, `Ed25519.Point.toOctets` — the compressed form of a point.
* `Ed25519.verify` — strict verification.
-/

set_option autoImplicit false

namespace Countersign.Ed25519

open Residue

/-! ## The field and the curve -/

/-- The order of the field. -/
def p : Nat := 0x7fffffffffffffffffffffffffffffffffffffffffffffffffffffffffffffed

/-- The order of the base point. -/
def groupOrder : Nat := 0x1000000000000000000000000000000014def9dea2f79cd65812631a5cf5d3ed

/-- The coefficient of the curve. -/
def d : Nat := 37095705934669439343138083508754565189542113879843219016388785533085940283555

/-- A square root of `-1`. -/
def rootOfMinusOne : Nat :=
  19681161376707505956807079304988542015446066515923890162744021073123829784752

/-- A point `(x / z, y / z)` of the curve, with `t / z` the product of its coordinates. -/
structure Point where
  x : Nat
  y : Nat
  z : Nat
  t : Nat
deriving DecidableEq, Inhabited

namespace Point

/-- The point with the given affine coordinates. -/
def ofAffine (x y : Nat) : Point := ⟨x, y, 1, x * y % p⟩

/-- The neutral element. -/
def zero : Point := ofAffine 0 1

/-- The base point. -/
def base : Point :=
  ofAffine 15112221349535400772501151409588531511454012693041857206046113283949847762202
    46316835694926478169428394003475163141307993866256225615783033603165251855960

def add (a b : Point) : Point :=
  let u := sub p a.y a.x * sub p b.y b.x % p
  let v := (a.y + a.x) * (b.y + b.x) % p
  let c := 2 * d * a.t * b.t % p
  let w := 2 * a.z * b.z % p
  let e := sub p v u
  let f := sub p w c
  let g := w + c
  let h := v + u
  ⟨e * f % p, g * h % p, f * g % p, e * h % p⟩

def negate (a : Point) : Point := ⟨sub p 0 a.x, a.y, a.z, sub p 0 a.t⟩

/-- The multiple of a point by a number below `2 ^ 256`. -/
def multiple (n : Nat) (a : Point) : Point :=
  (bits 256 n).foldl (fun acc bit => let twice := acc.add acc; if bit then twice.add a else twice)
    zero

def isZero (a : Point) : Bool :=
  a.x == 0 && a.y == a.z

/-- Whether eight times the point is the neutral element. -/
def isSmallOrder (a : Point) : Bool :=
  (a.multiple 8).isZero

/-! ## Compressed points -/

/-- A root of `u / v` that is even as a residue, if there is one. -/
def rootOfRatio? (u v : Nat) : Option Nat :=
  let v3 := v * v % p * v % p
  let r := u * v3 % p * pow p (u * v3 % p * v3 % p * v % p) ((p - 5) / 8) % p
  let check := v * r % p * r % p
  let even (r : Nat) : Nat := if r % 2 = 1 then p - r else r
  if check = u then some (even r)
  else if check = sub p 0 u then some (even (r * rootOfMinusOne % p))
  else none

/-- The weight of the last bit of 32 octets, which holds the sign of the first coordinate. -/
def signWeight : Nat := 1 <<< 255

/-- The point that 32 octets stand for: `y` in the low 255 bits, which need not be reduced, and the
sign of `x` in the last bit. -/
def ofOctets? (bs : Bytes) : Option Point :=
  let n := bs.toNat
  let y := n % signWeight % p
  let yy := y * y % p
  match rootOfRatio? (sub p yy 1) ((d * yy + 1) % p) with
  | none => none
  | some x => some (ofAffine (if n.testBit 255 then sub p 0 x else x) y)

/-- The 32 octets of a point. -/
def toOctets (a : Point) : Bytes :=
  let w := inverse p a.z
  let x := a.x * w % p
  let y := a.y * w % p
  Bytes.ofNat 32 (y + x % 2 * signWeight)

end Point

/-! ## Verification -/

/-- Whether the signature is that of the message under the public key. -/
def verify (publicKey signature message : Bytes) : Bool :=
  publicKey.length == 32 && signature.length == 64 &&
    let front := signature.take 32
    let s := Bytes.toNat (signature.drop 32)
    match Point.ofOctets? publicKey, Point.ofOctets? front with
    | some a, some r =>
      let k := (Sha2.sha512 (front ++ publicKey ++ message)).toNat % groupOrder
      decide (s < groupOrder) && !a.isSmallOrder && !r.isSmallOrder &&
        ((Point.base.multiple s).add (a.negate.multiple k)).toOctets == front
    | _, _ => false

end Countersign.Ed25519
