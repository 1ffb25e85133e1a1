/-!
# Arithmetic modulo a number

Both signature schemes calculate with the residues of a prime, kept as natural numbers below it.

## What is here

* `Residue.sub`, `pow`, `inverse` — the operations that are not simply a remainder.
* `Residue.bits` — the binary digits of a number, most significant first, along which powers and
  multiples are formed.
-/

set_option autoImplicit false

namespace Countersign.Residue

/-- The last `k` binary digits of a number, most significant first. -/
def bits (k n : Nat) : List Bool :=
  (List.range k).reverse.map n.testBit

/-- The difference of two residues. -/
def sub (m a b : Nat) : Nat :=
  (a + (m - b % m)) % m

/-- `b ^ e` modulo `m`, for an exponent below `2 ^ 256`. -/
def pow (m b e : Nat) : Nat :=
  (bits 256 e).foldl (fun acc bit => let sq := acc * acc % m; if bit then sq * b % m else sq) 1

/-- The inverse of a residue modulo the prime `m`; the inverse of zero is zero. -/
def inverse (m a : Nat) : Nat :=
  pow m a (m - 2)

end Countersign.Residue
