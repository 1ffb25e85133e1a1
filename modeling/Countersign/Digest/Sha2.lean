import Countersign.Bytes
import Countersign.Digest.Chunks

/-!
# SHA-2 with words of sixty-four bits

The identity of a transaction is the SHA-384 digest of its contents, and Ed25519 signatures rest on
SHA-512.  Both run the same compression over blocks of 128 octets; they differ in the words they
start from and in how many of the final words they keep.

## What is here

* `Sha2.sha384`, `Sha2.sha512` — the digests.
* `Sha2.pad` — the message filled up to whole blocks: a one bit, zeros, and the length in bits.
* `Sha2.compress` — one block taken into the state.
-/

set_option autoImplicit false

namespace Countersign.Sha2

/-! ## Words -/

/-- The eight words of the state. -/
structure State where
  a : UInt64
  b : UInt64
  c : UInt64
  d : UInt64
  e : UInt64
  f : UInt64
  g : UInt64
  h : UInt64
deriving DecidableEq, Inhabited

def rotateRight (x : UInt64) (n : UInt64) : UInt64 :=
  (x >>> n) ||| (x <<< (64 - n))

/-- The word that eight octets spell, most significant first. -/
def wordOf (bs : Bytes) : UInt64 :=
  bs.foldl (fun w b => (w <<< 8) ||| b.toUInt64) 0

/-- The eight octets of a word, most significant first. -/
def octetsOf (w : UInt64) : Bytes :=
  [56, 48, 40, 32, 24, 16, 8, 0].map fun n : UInt64 => (w >>> n).toUInt8

/-- The first bits of the fractional parts of the cube roots of the first eighty primes. -/
def roundConstants : List UInt64 :=
  [
    0x428a2f98d728ae22, 0x7137449123ef65cd, 0xb5c0fbcfec4d3b2f, 0xe9b5dba58189dbbc,
    0x3956c25bf348b538, 0x59f111f1b605d019, 0x923f82a4af194f9b, 0xab1c5ed5da6d8118,
    0xd807aa98a3030242, 0x12835b0145706fbe, 0x243185be4ee4b28c, 0x550c7dc3d5ffb4e2,
    0x72be5d74f27b896f, 0x80deb1fe3b1696b1, 0x9bdc06a725c71235, 0xc19bf174cf692694,
    0xe49b69c19ef14ad2, 0xefbe4786384f25e3, 0x0fc19dc68b8cd5b5, 0x240ca1cc77ac9c65,
    0x2de92c6f592b0275, 0x4a7484aa6ea6e483, 0x5cb0a9dcbd41fbd4, 0x76f988da831153b5,
    0x983e5152ee66dfab, 0xa831c66d2db43210, 0xb00327c898fb213f, 0xbf597fc7beef0ee4,
    0xc6e00bf33da88fc2, 0xd5a79147930aa725, 0x06ca6351e003826f, 0x142929670a0e6e70,
    0x27b70a8546d22ffc, 0x2e1b21385c26c926, 0x4d2c6dfc5ac42aed, 0x53380d139d95b3df,
    0x650a73548baf63de, 0x766a0abb3c77b2a8, 0x81c2c92e47edaee6, 0x92722c851482353b,
    0xa2bfe8a14cf10364, 0xa81a664bbc423001, 0xc24b8b70d0f89791, 0xc76c51a30654be30,
    0xd192e819d6ef5218, 0xd69906245565a910, 0xf40e35855771202a, 0x106aa07032bbd1b8,
    0x19a4c116b8d2d0c8, 0x1e376c085141ab53, 0x2748774cdf8eeb99, 0x34b0bcb5e19b48a8,
    0x391c0cb3c5c95a63, 0x4ed8aa4ae3418acb, 0x5b9cca4f7763e373, 0x682e6ff3d6b2b8a3,
    0x748f82ee5defb2fc, 0x78a5636f43172f60, 0x84c87814a1f0ab72, 0x8cc702081a6439ec,
    0x90befffa23631e28, 0xa4506cebde82bde9, 0xbef9a3f7b2c67915, 0xc67178f2e372532b,
    0xca273eceea26619c, 0xd186b8c721c0c207, 0xeada7dd6cde0eb1e, 0xf57d4f7fee6ed178,
    0x06f067aa72176fba, 0x0a637dc5a2c898a6, 0x113f9804bef90dae, 0x1b710b35131c471b,
    0x28db77f523047d84, 0x32caab7b40c72493, 0x3c9ebe0a15c9bebc, 0x431d67c49c100d4c,
    0x4cc5d4becb3e42b6, 0x597f299cfc657e2a, 0x5fcb6fab3ad6faec, 0x6c44198c4a475817]

/-- The first bits of the fractional parts of the square roots of the first eight primes. -/
def start512 : State :=
  ⟨0x6a09e667f3bcc908, 0xbb67ae8584caa73b, 0x3c6ef372fe94f82b, 0xa54ff53a5f1d36f1,
    0x510e527fade682d1, 0x9b05688c2b3e6c1f, 0x1f83d9abfb41bd6b, 0x5be0cd19137e2179⟩

/-- The first bits of the fractional parts of the square roots of the next eight primes. -/
def start384 : State :=
  ⟨0xcbbb9d5dc1059ed8, 0x629a292a367cd507, 0x9159015a3070dd17, 0x152fecd8f70e5939,
    0x67332667ffc00b31, 0x8eb44a8768581511, 0xdb0c2e0d64f98fa7, 0x47b5481dbefa4fa4⟩

/-! ## One block -/

/-- The word of the schedule that follows sixteen others. -/
def nextWord (window : Array UInt64) : UInt64 :=
  let x := window[14]!
  let y := window[1]!
  let s1 := rotateRight x 19 ^^^ rotateRight x 61 ^^^ (x >>> 6)
  let s0 := rotateRight y 1 ^^^ rotateRight y 8 ^^^ (y >>> 7)
  s1 + window[9]! + s0 + window[0]!

/-- One round, with its constant and its word of the schedule. -/
def round (s : State) (k w : UInt64) : State :=
  let s1 := rotateRight s.e 14 ^^^ rotateRight s.e 18 ^^^ rotateRight s.e 41
  let choice := (s.e &&& s.f) ^^^ (~~~s.e &&& s.g)
  let t1 := s.h + s1 + choice + k + w
  let s0 := rotateRight s.a 28 ^^^ rotateRight s.a 34 ^^^ rotateRight s.a 39
  let majority := (s.a &&& s.b) ^^^ (s.a &&& s.c) ^^^ (s.b &&& s.c)
  { a := t1 + (s0 + majority), b := s.a, c := s.b, d := s.c, e := s.d + t1, f := s.e, g := s.f,
    h := s.g }

/-- All rounds.  The window holds the next sixteen words of the schedule. -/
def rounds (s : State) (window : Array UInt64) : List UInt64 → State
  | [] => s
  | k :: ks =>
    rounds (round s k window[0]!) ((window.push (nextWord window)).extract 1 17) ks

/-- Takes one block of sixteen words into the state. -/
def compress (s : State) (block : Array UInt64) : State :=
  let t := rounds s block roundConstants
  { a := s.a + t.a, b := s.b + t.b, c := s.c + t.c, d := s.d + t.d, e := s.e + t.e, f := s.f + t.f,
    g := s.g + t.g, h := s.h + t.h }

/-! ## Whole messages -/

/-- The message, a one bit, zeros up to the next multiple of 128 octets less sixteen, and the length
in bits as a number of sixteen octets. -/
def pad (message : Bytes) : Bytes :=
  let n := message.length
  let bits := 8 * n
  message ++ (0x80 : UInt8) :: List.replicate ((239 - n % 128) % 128) 0
    ++ octetsOf (UInt64.ofNat (bits >>> 64)) ++ octetsOf (UInt64.ofNat bits)

/-- The blocks of a padded message, of sixteen words each. -/
def blocks (padded : Bytes) : List (Array UInt64) :=
  let words := (chunks 8 (padded.length / 8) padded).map wordOf
  (chunks 16 (padded.length / 128) words).map List.toArray

/-- The state after a whole message. -/
def digest (start : State) (message : Bytes) : State :=
  (blocks (pad message)).foldl compress start

/-- The SHA-512 digest: all eight words of the final state. -/
def sha512 (message : Bytes) : Bytes :=
  let s := digest start512 message
  [s.a, s.b, s.c, s.d, s.e, s.f, s.g, s.h].flatMap octetsOf

/-- The SHA-384 digest: the first six words of the final state. -/
def sha384 (message : Bytes) : Bytes :=
  let s := digest start384 message
  [s.a, s.b, s.c, s.d, s.e, s.f].flatMap octetsOf

end Countersign.Sha2
