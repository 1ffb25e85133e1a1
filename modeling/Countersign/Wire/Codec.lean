import Countersign.Wire.Utf8

/-!
# The wire format

Transactions travel in a binary format without field names.  Numbers have a fixed width and come
least significant octet first; a sequence is its length, as a number of eight octets, and then its
elements; a choice is its position among the alternatives, as a number of four octets, and then
what it carries; a truth value and the presence of an optional value take one octet, `0` or `1`.

## What is here

* `WireError` — why a byte string is refused, with the text of each reason.
* `Codec α` — how values of `α` are written and read.  Reading consumes the front of a byte string
  and leaves the rest; `fits` says which values the format has room for, since no length reaches
  `2 ^ 64`.
* `Codec.uint32`, `uint64`, `int64`, `bool`, `octets`, `text`, `option`, `list`, `pair`,
  `variant` — the codecs of which all others are composed.
-/

set_option autoImplicit false

namespace Countersign

/-- Why a byte string is refused. -/
inductive WireError where
  | endOfInput
  | textTooLong
  | invalidBool (found : UInt8)
  | invalidOptionTag (found : UInt8)
  | unknownVariant (found count : Nat)
  | invalidText (error : Utf8.Error)
deriving DecidableEq, Inhabited

namespace WireError

def reason : WireError → String
  | endOfInput => "io error: unexpected end of file"
  | textTooLong => "io error: "
  | invalidBool found =>
    "invalid u8 while decoding bool, expected 0 or 1, found " ++ toString found.toNat
  | invalidOptionTag found => "tag for enum is not valid, found " ++ toString found.toNat
  | unknownVariant found count =>
    "invalid value: integer `" ++ toString found ++ "`, expected variant index 0 <= i < "
      ++ toString count
  | invalidText error => "string is not valid utf8: " ++ error.text

/-- The message of a refusal. -/
def message (e : WireError) : String :=
  "Failed to decode: " ++ e.reason

end WireError

/-- How values of a type are written and read. -/
structure Codec (α : Type) where
  encode : α → Bytes
  decode : Bytes → Except WireError (α × Bytes)
  fits : α → Prop

namespace Codec

variable {α β π : Type}

/-! ## Numbers -/

/-- The first `n` octets and the rest. -/
def splitOff (n : Nat) (bs : Bytes) : Except WireError (Bytes × Bytes) :=
  let front := bs.take n
  if front.length = n then .ok (front, bs.drop n) else .error .endOfInput

/-- Numbers in `k` octets. -/
def word (k : Nat) : Codec Nat where
  encode n := Bytes.ofNat k n
  decode bs := do
    let (front, rest) ← splitOff k bs
    pure (front.toNat, rest)
  fits n := n < Bytes.room k

/-- The codec of a type whose values are those of another under different names. -/
def iso (c : Codec α) (build : α → β) (parts : β → α) : Codec β where
  encode x := c.encode (parts x)
  decode bs := do
    let (x, rest) ← c.decode bs
    pure (build x, rest)
  fits x := c.fits (parts x)

def uint32 : Codec UInt32 := (word 4).iso UInt32.ofNat UInt32.toNat

def uint64 : Codec UInt64 := (word 8).iso UInt64.ofNat UInt64.toNat

/-- Signed numbers, in two's complement. -/
def int64 : Codec Int64 := uint64.iso UInt64.toInt64 Int64.toUInt64

/-- The number of elements of a sequence. -/
def length : Codec Nat := word 8

/-! ## Truth values and octets -/

def bool : Codec Bool where
  encode b := [if b then 1 else 0]
  decode
    | [] => .error .endOfInput
    | b :: rest =>
      if b = 0 then .ok (false, rest)
      else if b = 1 then .ok (true, rest)
      else .error (.invalidBool b)
  fits _ := True

/-- A byte string behind its length. -/
def octets : Codec Bytes where
  encode bs := length.encode bs.length ++ bs
  decode bs := do
    let (n, rest) ← length.decode bs
    splitOff n rest
  fits bs := length.fits bs.length

/-- Text behind its length in octets.  A length that exceeds the rest is refused before the text is
looked at. -/
def text : Codec String where
  encode s := octets.encode (Utf8.encode s.toList)
  decode bs := do
    let (n, rest) ← length.decode bs
    match splitOff n rest with
    | .error _ => .error .textTooLong
    | .ok (front, rest) =>
      match Utf8.decode front with
      | .error e => .error (.invalidText e)
      | .ok cs => .ok (String.ofList cs, rest)
  fits s := octets.fits (Utf8.encode s.toList)

/-! ## Composition -/

/-- The codec of a type with one value, which takes no room. -/
def unit : Codec Unit where
  encode _ := []
  decode bs := .ok ((), bs)
  fits _ := True

/-- One value behind another. -/
def pair (a : Codec α) (b : Codec β) : Codec (α × β) where
  encode x := a.encode x.1 ++ b.encode x.2
  decode bs := do
    let (x, rest) ← a.decode bs
    let (y, rest) ← b.decode rest
    pure ((x, y), rest)
  fits x := a.fits x.1 ∧ b.fits x.2

/-- A value that may be missing, behind an octet that says whether it is there. -/
def option (c : Codec α) : Codec (Option α) where
  encode
    | none => [0]
    | some x => 1 :: c.encode x
  decode
    | [] => .error .endOfInput
    | b :: rest =>
      if b = 0 then .ok (none, rest)
      else if b = 1 then do
        let (x, rest) ← c.decode rest
        pure (some x, rest)
      else .error (.invalidOptionTag b)
  fits x := ∀ y, x = some y → c.fits y

/-- Reads `n` values, one behind the other. -/
def decodeMany (decode : Bytes → Except WireError (α × Bytes)) :
    Nat → Bytes → Except WireError (List α × Bytes)
  | 0, bs => .ok ([], bs)
  | n + 1, bs => do
    let (x, rest) ← decode bs
    let (xs, rest) ← decodeMany decode n rest
    pure (x :: xs, rest)

/-- Values behind their number. -/
def list (c : Codec α) : Codec (List α) where
  encode xs := length.encode xs.length ++ xs.flatMap c.encode
  decode bs := do
    let (n, rest) ← length.decode bs
    decodeMany c.decode n rest
  fits xs := length.fits xs.length ∧ ∀ x ∈ xs, c.fits x

/-! ## Choices -/

/-- One alternative of a choice: the values that `build` makes of what the alternative carries, and
that `parts?` takes apart. -/
def alternative (c : Codec π) (build : π → α) (parts? : α → Option π) : Codec α where
  encode x := (parts? x).elim [] c.encode
  decode bs := do
    let (p, rest) ← c.decode bs
    pure (build p, rest)
  fits x := ∃ p, parts? x = some p ∧ c.fits p

/-- A choice among alternatives, written as the position of the alternative and what it carries.
`position` is the position of the alternative that a value belongs to. -/
def variant (alternatives : List (Codec α)) (position : α → Nat) : Codec α where
  encode x := (alternatives[position x]?).elim [] fun c =>
    (word 4).encode (position x) ++ c.encode x
  decode bs := do
    let (found, rest) ← (word 4).decode bs
    match alternatives[found]? with
    | some c => c.decode rest
    | none => .error (.unknownVariant found alternatives.length)
  fits x := ∃ c, alternatives[position x]? = some c ∧ c.fits x

/-- An alternative that carries nothing. -/
def constant [DecidableEq α] (x : α) : Codec α :=
  unit.alternative (fun _ => x) fun y => if y = x then some () else none

/-- A choice among values, written as the position of the value. -/
def enumeration [DecidableEq α] (values : List α) : Codec α :=
  variant (values.map constant) fun x => values.idxOf x

end Codec

end Countersign
