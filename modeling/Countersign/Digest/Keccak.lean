import Countersign.Bytes
import Countersign.Digest.Chunks

/-!
# Keccak-256

Signatures on secp256k1 cover the Keccak-256 digest of the message.  The sponge has twenty-five lanes of
sixty-four bits, laid out in rows of five; it takes in 136 octets at a time and gives out 32.

## What is here

* `Keccak.keccak256` — the digest.
* `Keccak.permute` — the permutation of the lanes, in twenty-four rounds.
* `Keccak.pad` — the message filled up to whole blocks: a one bit, zeros, and a last one bit.
-/

set_option autoImplicit false

namespace Countersign.Keccak

/-! ## The permutation -/

/-- The constants of the rounds. -/
def roundConstants : List UInt64 :=
  [
    0x0000000000000001, 0x0000000000008082, 0x800000000000808a, 0x8000000080008000,
    0x000000000000808b, 0x0000000080000001, 0x8000000080008081, 0x8000000000008009,
    0x000000000000008a, 0x0000000000000088, 0x0000000080008009, 0x000000008000000a,
    0x000000008000808b, 0x800000000000008b, 0x8000000000008089, 0x8000000000008003,
    0x8000000000008002, 0x8000000000000080, 0x000000000000800a, 0x800000008000000a,
    0x8000000080008081, 0x8000000000008080, 0x0000000080000001, 0x8000000080008008]

/-- How far each lane is rotated. -/
def offsets : Array UInt64 :=
  #[0, 1, 62, 28, 27, 36, 44, 6, 55, 20, 3, 10, 43,
    25, 39, 41, 45, 15, 21, 8, 18, 2, 61, 56, 14]

def rotateLeft (x n : UInt64) : UInt64 :=
  if n = 0 then x else (x <<< n) ||| (x >>> (64 - n))

/-- The lane in column `x` of row `y`, both taken modulo five. -/
def lane (s : Array UInt64) (x y : Nat) : UInt64 :=
  s[x % 5 + 5 * (y % 5)]!

/-- The lanes given by column and row. -/
def tabulate (f : Nat → Nat → UInt64) : Array UInt64 :=
  Array.ofFn fun i : Fin 25 => f (i.val % 5) (i.val / 5)

/-- Adds to every lane the parities of two columns beside it. -/
def theta (s : Array UInt64) : Array UInt64 :=
  let parity := (Array.range 5).map fun x =>
    lane s x 0 ^^^ lane s x 1 ^^^ lane s x 2 ^^^ lane s x 3 ^^^ lane s x 4
  let effect := (Array.range 5).map fun x =>
    parity[(x + 4) % 5]! ^^^ rotateLeft parity[(x + 1) % 5]! 1
  tabulate fun x y => lane s x y ^^^ effect[x]!

/-- Rotates every lane and moves it to its new place. -/
def rhoPi (s : Array UInt64) : Array UInt64 :=
  tabulate fun x y =>
    let column := x + 3 * y
    rotateLeft (lane s column x) (lane offsets column x)

/-- Combines every lane with the next two of its row. -/
def chi (s : Array UInt64) : Array UInt64 :=
  tabulate fun x y => lane s x y ^^^ (~~~lane s (x + 1) y &&& lane s (x + 2) y)

/-- Adds the constant of the round to the first lane. -/
def iota (s : Array UInt64) (k : UInt64) : Array UInt64 :=
  s.modify 0 (k ^^^ ·)

def permute (s : Array UInt64) : Array UInt64 :=
  roundConstants.foldl (fun s k => iota (chi (rhoPi (theta s))) k) s

/-! ## The sponge -/

/-- The number of octets taken in at a time. -/
def rate : Nat := 136

/-- The message, a one bit, zeros, and a one bit at the end of the last block. -/
def pad (message : Bytes) : Bytes :=
  let gap := rate - message.length % rate
  if gap = 1 then message ++ [0x81]
  else message ++ 0x01 :: List.replicate (gap - 2) 0 ++ [0x80]

/-- The word that octets spell, least significant first. -/
def wordOf (bs : Bytes) : UInt64 :=
  bs.foldr (fun b w => (w <<< 8) ||| b.toUInt64) 0

/-- Adds a block to the front lanes and permutes. -/
def absorb (s : Array UInt64) (block : List UInt64) : Array UInt64 :=
  permute (s.zipWith (· ^^^ ·) (block ++ List.replicate (25 - block.length) 0).toArray)

/-- The blocks of a padded message, of seventeen words each. -/
def blocks (padded : Bytes) : List (List UInt64) :=
  let words := (chunks 8 (padded.length / 8) padded).map wordOf
  chunks (rate / 8) (padded.length / rate) words

/-- The eight octets of a word, least significant first. -/
def octetsOf (w : UInt64) : Bytes :=
  [0, 8, 16, 24, 32, 40, 48, 56].map fun n : UInt64 => (w >>> n).toUInt8

/-- The Keccak-256 digest of a message. -/
def keccak256 (message : Bytes) : Bytes :=
  let s := (blocks (pad message)).foldl absorb (Array.replicate 25 0)
  (s.toList.take 4).flatMap octetsOf

end Countersign.Keccak
