/-!
# Byte strings

Keys, signatures, aliases and encoded transactions are all finite sequences of octets, kept here
as lists so that "begins with", "followed by" and "split off" are the list operations of the
standard library and their lemmas.

## What is here

* `Bytes` — the type of byte strings.
* `Bytes.hex` — the lower-case hexadecimal text of a byte string, two digits for each octet.
* `Bytes.toNat`, `Bytes.toNatBig` — the number that octets spell, with the least or the most
  significant one first; `Bytes.ofNat` writes a number the first way.
* `Bytes.toNat_ofNat`, `Bytes.ofNat_toNat` — writing and reading undo each other, as long as there is
  `Bytes.room` for the number.
-/

set_option autoImplicit false

namespace Countersign

/-- A finite sequence of octets. -/
abbrev Bytes := List UInt8

/-! ## Hexadecimal text -/

/-- The lower-case hexadecimal digit of a number below sixteen. -/
def hexDigit (n : Nat) : Char :=
  if n < 10 then Char.ofNat ('0'.toNat + n) else Char.ofNat ('a'.toNat + (n - 10))

/-- The two hexadecimal digits of an octet, the high one first. -/
def hexOctet (b : UInt8) : List Char :=
  [hexDigit (b.toNat / 16), hexDigit (b.toNat % 16)]

namespace Bytes

/-- The text of a byte string: two lower-case hexadecimal digits for each octet. -/
def hex (bs : Bytes) : String :=
  String.ofList (bs.flatMap hexOctet)

/-! ## Numbers -/

/-- How many numbers `k` octets can spell. -/
def room : Nat → Nat
  | 0 => 1
  | k + 1 => 256 * room k

/-- The last `k` octets of a number, least significant first. -/
def ofNat : Nat → Nat → Bytes
  | 0, _ => []
  | k + 1, n => UInt8.ofNat (n % 256) :: ofNat k (n / 256)

/-- The number that octets spell, least significant first. -/
def toNat : Bytes → Nat
  | [] => 0
  | b :: bs => b.toNat + 256 * toNat bs

/-- The number that octets spell, most significant first. -/
def toNatBig (bs : Bytes) : Nat :=
  bs.foldl (fun n b => 256 * n + b.toNat) 0

@[simp] theorem length_ofNat (k n : Nat) : (ofNat k n).length = k := by
  induction k generalizing n with
  | zero => rfl
  | succ k ih => simp [ofNat, ih]

theorem toNat_ofNat {k n : Nat} (h : n < room k) : (ofNat k n).toNat = n := by
  induction k generalizing n with
  | zero =>
    have : n = 0 := by simpa [room] using h
    simp [ofNat, toNat, this]
  | succ k ih =>
    have hn : n / 256 < room k := Nat.div_lt_of_lt_mul h
    simp only [ofNat, toNat, ih hn, UInt8.toNat_ofNat']
    omega

theorem toNat_lt_room (bs : Bytes) : bs.toNat < room bs.length := by
  induction bs with
  | nil => simp [toNat, room]
  | cons b bs ih =>
    have := b.toNat_lt
    simp only [toNat, List.length_cons, room]
    omega

theorem ofNat_toNat (bs : Bytes) : ofNat bs.length bs.toNat = bs := by
  induction bs with
  | nil => rfl
  | cons b bs ih =>
    have := b.toNat_lt
    have low : (b.toNat + 256 * toNat bs) % 256 = b.toNat := by omega
    have high : (b.toNat + 256 * toNat bs) / 256 = toNat bs := by omega
    simp [ofNat, toNat, low, high, ih]

end Bytes

end Countersign
