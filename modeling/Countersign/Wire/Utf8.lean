import Countersign.Bytes

/-!
# UTF-8

Text travels as UTF-8.  A byte string that is no text is refused with the place where it stops
being one, so the decoder keeps count of the octets it has accepted.

## What is here

* `Utf8.encode` — the octets of a list of characters.
* `Utf8.decode` — the characters of a byte string, or a `Utf8.Error`.
* `Utf8.Error` — how many octets were well formed, and how many after them can never begin a
  character; or that the byte string ends inside one.
-/

set_option autoImplicit false

namespace Countersign.Utf8

/-! ## Encoding -/

/-- The octets of one character: seven bits alone, or a lead octet and one, two or three more that
carry six bits each. -/
def encodeChar (c : Char) : Bytes :=
  let n := c.toNat
  if n < 0x80 then [UInt8.ofNat n]
  else if n < 0x800 then [UInt8.ofNat (0xC0 + n / 64), UInt8.ofNat (0x80 + n % 64)]
  else if n < 0x10000 then
    [UInt8.ofNat (0xE0 + n / 4096), UInt8.ofNat (0x80 + n / 64 % 64), UInt8.ofNat (0x80 + n % 64)]
  else
    [UInt8.ofNat (0xF0 + n / 262144), UInt8.ofNat (0x80 + n / 4096 % 64),
      UInt8.ofNat (0x80 + n / 64 % 64), UInt8.ofNat (0x80 + n % 64)]

def encode (cs : List Char) : Bytes :=
  cs.flatMap encodeChar

/-! ## Decoding -/

/-- Where a byte string stops being text.  `length` counts the octets that can never begin a
character; it is missing when the byte string ends inside one. -/
structure Error where
  index : Nat
  length : Option Nat
deriving DecidableEq, Inhabited

def Error.text (e : Error) : String :=
  match e.length with
  | some n => s!"invalid utf-8 sequence of {n} bytes from index {e.index}"
  | none => s!"incomplete utf-8 byte sequence from index {e.index}"

/-- An octet that carries six more bits of a character. -/
def isContinuation (b : UInt8) : Bool :=
  0x80 ≤ b && b < 0xC0

/-- An octet that begins a character of more than one octet. -/
def isLead (b : UInt8) : Bool :=
  0xC2 ≤ b && b < 0xF5

/-- Whether `second` may follow `lead`.  Four lead octets allow a part of the continuation octets
only: the rest would spell a shorter character, a surrogate or a number past the last character. -/
def mayFollow (lead second : UInt8) : Bool :=
  if lead = 0xE0 then 0xA0 ≤ second && second < 0xC0
  else if lead = 0xED then 0x80 ≤ second && second < 0xA0
  else if lead = 0xF0 then 0x90 ≤ second && second < 0xC0
  else if lead = 0xF4 then 0x80 ≤ second && second < 0x90
  else isContinuation second

/-- The bits that a continuation octet carries. -/
def bits (b : UInt8) : Nat :=
  b.toNat - 0x80

/-- Decodes what follows `index` accepted octets. -/
def decodeAt (index : Nat) : Bytes → Except Error (List Char)
  | [] => .ok []
  | a :: rest =>
    if a < 0x80 then
      (decodeAt (index + 1) rest).map (Char.ofNat a.toNat :: ·)
    else if !isLead a then .error ⟨index, some 1⟩
    else match rest with
      | [] => .error ⟨index, none⟩
      | b :: rest =>
        if !mayFollow a b then .error ⟨index, some 1⟩
        else if a < 0xE0 then
          (decodeAt (index + 2) rest).map (Char.ofNat ((a.toNat - 0xC0) * 64 + bits b) :: ·)
        else match rest with
          | [] => .error ⟨index, none⟩
          | c :: rest =>
            if !isContinuation c then .error ⟨index, some 2⟩
            else if a < 0xF0 then
              (decodeAt (index + 3) rest).map
                (Char.ofNat ((a.toNat - 0xE0) * 4096 + bits b * 64 + bits c) :: ·)
            else match rest with
              | [] => .error ⟨index, none⟩
              | d :: rest =>
                if !isContinuation d then .error ⟨index, some 3⟩
                else
                  (decodeAt (index + 4) rest).map
                    (Char.ofNat
                      ((a.toNat - 0xF0) * 262144 + bits b * 4096 + bits c * 64 + bits d) :: ·)

/-- The characters of a byte string. -/
def decode (bs : Bytes) : Except Error (List Char) :=
  decodeAt 0 bs

end Countersign.Utf8
