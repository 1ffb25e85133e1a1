import Countersign.Proofs.Text
import Countersign.Wire.Codec
import Mathlib.Data.List.Nodup

/-!
# Lawful codecs

A codec is lawful when it reads what it writes and nothing else: what it takes off the front of a byte
string is the encoding of a value that fits.  All codecs of the wire format are composed, so it is
enough to look at what they are composed of.

A value that does not fit has a sequence with more elements than a length can say.  No byte string that
is shorter than the greatest length holds such a value, which is what it means for a codec to be roomy.

## What is here

* `Codec.Lawful` and `Codec.Roomy` — the two properties.
* `Codec.Lawful.iso`, `Codec.Roomy.iso` — values under different names, and with that numbers.
* `Codec.decodeMany_eq_ok_iff` — elements one behind the other.
* `Codec.fits_alternative_iff`, `Codec.fits_variant_iff` — which values a choice has room for.
* `Codec.Choice` — alternatives in their positions; `Codec.Choice.lawful` and `Codec.Roomy.variant`
  say that choices are lawful and roomy.
-/

set_option autoImplicit false

namespace Countersign

namespace Codec

variable {α β π : Type}

/-- The codec takes the encoding of a value that fits off the front of a byte string, and nothing
else. -/
class Lawful (c : Codec α) : Prop where
  decode_eq_ok_iff : ∀ {bs : Bytes} {x : α} {rest : Bytes},
    c.decode bs = .ok (x, rest) ↔ c.fits x ∧ bs = c.encode x ++ rest

/-- A value fits if its encoding is not too long, and no encoding is empty. -/
class Roomy (c : Codec α) : Prop where
  encode_ne_nil : ∀ x, c.encode x ≠ []
  fits_of_length_lt : ∀ {x}, (c.encode x).length < Bytes.room 8 → c.fits x

export Lawful (decode_eq_ok_iff)
export Roomy (encode_ne_nil fits_of_length_lt)

/-! ## Numbers -/

theorem splitOff_eq_ok_iff {n : Nat} {bs front rest : Bytes} :
    splitOff n bs = .ok (front, rest) ↔ front.length = n ∧ bs = front ++ rest := by
  rw [splitOff]
  constructor
  · intro h
    split at h
    · next hlen =>
      obtain ⟨rfl, rfl⟩ := Prod.mk.inj (Except.ok.inj h)
      exact ⟨hlen, (List.take_append_drop n bs).symm⟩
    · cases h
  · rintro ⟨rfl, rfl⟩
    simp

instance lawful_word (k : Nat) : Lawful (word k) where
  decode_eq_ok_iff {bs n rest} := by
    simp only [word, bind_eq_ok_iff, Prod.exists, splitOff_eq_ok_iff]
    constructor
    · rintro ⟨front, rest', ⟨rfl, rfl⟩, h⟩
      obtain ⟨rfl, rfl⟩ := Prod.mk.inj (Except.ok.inj h)
      exact ⟨front.toNat_lt_room, by rw [front.ofNat_toNat]⟩
    · rintro ⟨hn, rfl⟩
      exact ⟨Bytes.ofNat k n, rest, ⟨Bytes.length_ofNat k n, rfl⟩, by rw [Bytes.toNat_ofNat hn]; rfl⟩

/-- Values under different names. -/
theorem Lawful.iso {c : Codec α} [Lawful c] {build : α → β} {parts : β → α}
    (hparts : ∀ x, c.fits x → parts (build x) = x) (hbuild : ∀ y, build (parts y) = y) :
    Lawful (c.iso build parts) where
  decode_eq_ok_iff {bs y rest} := by
    simp only [Codec.iso, bind_eq_ok_iff, Prod.exists, decode_eq_ok_iff]
    constructor
    · rintro ⟨x, rest', ⟨hx, rfl⟩, h⟩
      obtain ⟨rfl, rfl⟩ := Prod.mk.inj (Except.ok.inj h)
      rw [hparts x hx]
      exact ⟨hx, rfl⟩
    · rintro ⟨hy, rfl⟩
      exact ⟨parts y, rest, ⟨hy, rfl⟩, by rw [hbuild]; rfl⟩

theorem Roomy.iso {c : Codec α} [Roomy c] (build : α → β) (parts : β → α) :
    Roomy (c.iso build parts) where
  encode_ne_nil y := encode_ne_nil (parts y)
  fits_of_length_lt h := fits_of_length_lt (c := c) h

theorem room_four : Bytes.room 4 = UInt32.size := rfl

theorem room_eight : Bytes.room 8 = UInt64.size := rfl

theorem fits_uint32 (x : UInt32) : uint32.fits x :=
  Nat.lt_of_lt_of_eq x.toNat_lt_size room_four.symm

theorem fits_uint64 (x : UInt64) : uint64.fits x :=
  Nat.lt_of_lt_of_eq x.toNat_lt_size room_eight.symm

instance lawful_uint32 : Lawful uint32 :=
  .iso (fun _ hn => UInt32.toNat_ofNat_of_lt' (room_four ▸ hn)) fun _ => UInt32.ofNat_toNat

instance roomy_uint32 : Roomy uint32 where
  encode_ne_nil _ := List.cons_ne_nil _ _
  fits_of_length_lt _ := fits_uint32 _

instance lawful_uint64 : Lawful uint64 :=
  .iso (fun _ hn => UInt64.toNat_ofNat_of_lt' (room_eight ▸ hn)) fun _ => UInt64.ofNat_toNat

instance roomy_uint64 : Roomy uint64 where
  encode_ne_nil _ := List.cons_ne_nil _ _
  fits_of_length_lt _ := fits_uint64 _

instance lawful_int64 : Lawful int64 :=
  .iso (fun x _ => x.toUInt64_toInt64) Int64.toInt64_toUInt64

instance roomy_int64 : Roomy int64 := .iso _ _

instance lawful_length : Lawful length := lawful_word 8

/-! ## Truth values and octets -/

instance lawful_bool : Lawful bool where
  decode_eq_ok_iff {bs x rest} := by
    rcases bs with - | ⟨b, bs⟩
    · simp [bool]
    · rcases x with _ | _ <;> by_cases h0 : b = 0 <;> by_cases h1 : b = 1 <;>
        simp_all [bool]

instance roomy_bool : Roomy bool where
  encode_ne_nil _ := List.cons_ne_nil _ _
  fits_of_length_lt _ := trivial

instance lawful_octets : Lawful octets where
  decode_eq_ok_iff {bs x rest} := by
    simp only [octets, bind_eq_ok_iff, Prod.exists, decode_eq_ok_iff, splitOff_eq_ok_iff]
    constructor
    · rintro ⟨n, rest', ⟨hn, rfl⟩, rfl, rfl⟩
      exact ⟨hn, (List.append_assoc _ _ _).symm⟩
    · rintro ⟨hx, rfl⟩
      exact ⟨x.length, x ++ rest, ⟨hx, List.append_assoc _ _ _⟩, rfl, rfl⟩

theorem length_encode_octets (bs : Bytes) : (octets.encode bs).length = 8 + bs.length := by
  rw [octets, List.length_append]
  rfl

instance roomy_octets : Roomy octets where
  encode_ne_nil _ := List.cons_ne_nil _ _
  fits_of_length_lt {bs} h := by
    rw [length_encode_octets] at h
    exact Nat.lt_of_le_of_lt (Nat.le_add_left _ _) h

/-- Reading text is reading octets and decoding them. -/
theorem decode_text_eq_ok_iff {bs : Bytes} {x : String} {rest : Bytes} :
    text.decode bs = .ok (x, rest) ↔ octets.decode bs = .ok (Utf8.encode x.toList, rest) := by
  simp only [text, octets, bind_eq_ok_iff, Prod.exists]
  refine exists_congr fun n => exists_congr fun rest' => and_congr_right fun _ => ?_
  rcases splitOff n rest' with e | ⟨front, rest''⟩
  · simp
  rcases hd : Utf8.decode front with e | cs
  · have hne : front ≠ Utf8.encode x.toList := fun h => by
      rw [Utf8.decode_eq_ok_iff.2 h] at hd
      cases hd
    simp [hd, hne]
  · obtain rfl := Utf8.decode_eq_ok_iff.1 hd
    have hx : String.ofList cs = x ↔ Utf8.encode cs = Utf8.encode x.toList := by
      rw [Utf8.encode_injective.eq_iff]
      exact ⟨fun h => by rw [← h, String.toList_ofList], fun h => by rw [h, String.ofList_toList]⟩
    simp [hd, hx]

instance lawful_text : Lawful text where
  decode_eq_ok_iff := by
    intro bs x rest
    rw [decode_text_eq_ok_iff, decode_eq_ok_iff]
    rfl

instance roomy_text : Roomy text where
  encode_ne_nil _ := encode_ne_nil (c := octets) _
  fits_of_length_lt h := fits_of_length_lt (c := octets) h

/-! ## Composition -/

instance lawful_unit : Lawful unit where
  decode_eq_ok_iff {bs x rest} := by simp [unit, eq_comm]

instance lawful_pair {a : Codec α} {b : Codec β} [Lawful a] [Lawful b] : Lawful (pair a b) where
  decode_eq_ok_iff {bs x rest} := by
    simp only [pair, bind_eq_ok_iff, Prod.exists, decode_eq_ok_iff]
    constructor
    · rintro ⟨y, rest', ⟨hy, rfl⟩, z, rest'', ⟨hz, rfl⟩, h⟩
      obtain ⟨rfl, rfl⟩ := Prod.mk.inj (Except.ok.inj h)
      exact ⟨⟨hy, hz⟩, (List.append_assoc _ _ _).symm⟩
    · rintro ⟨⟨hy, hz⟩, rfl⟩
      exact ⟨x.1, _, ⟨hy, List.append_assoc _ _ _⟩, x.2, rest, ⟨hz, rfl⟩, rfl⟩

instance roomy_pair {a : Codec α} {b : Codec β} [Roomy a] [Roomy b] : Roomy (pair a b) where
  encode_ne_nil x := List.append_ne_nil_of_left_ne_nil (encode_ne_nil x.1) _
  fits_of_length_lt {x} h := by
    rw [pair, List.length_append] at h
    exact ⟨fits_of_length_lt (by omega), fits_of_length_lt (by omega)⟩

instance lawful_option {c : Codec α} [Lawful c] : Lawful (option c) where
  decode_eq_ok_iff {bs x rest} := by
    rcases bs with - | ⟨b, bs⟩
    · rcases x with - | y <;> simp [option]
    by_cases h0 : b = 0
    · rcases x with - | y <;> simp [option, h0, eq_comm]
    by_cases h1 : b = 1
    · have hdecode : (option c).decode (1 :: bs) =
          c.decode bs >>= fun p => pure (some p.1, p.2) := rfl
      rw [h1, hdecode]
      simp only [bind_eq_ok_iff, Prod.exists, decode_eq_ok_iff]
      constructor
      · rintro ⟨y, rest', ⟨hy, rfl⟩, h⟩
        obtain ⟨rfl, rfl⟩ := Prod.mk.inj (Except.ok.inj h)
        exact ⟨fun z hz => Option.some.inj hz ▸ hy, rfl⟩
      · rintro ⟨hfits, h⟩
        rcases x with - | y
        · simp [option] at h
        · obtain ⟨-, rfl⟩ := List.cons.inj h
          exact ⟨y, rest, ⟨hfits y rfl, rfl⟩, rfl⟩
    · rcases x with - | y <;> simp [option, h0, h1]

instance roomy_option {c : Codec α} [Roomy c] : Roomy (option c) where
  encode_ne_nil x := by rcases x with - | y <;> exact List.cons_ne_nil _ _
  fits_of_length_lt h y hy := by
    subst hy
    exact fits_of_length_lt (Nat.lt_of_succ_lt h)

/-- Elements one behind the other. -/
theorem decodeMany_eq_ok_iff {c : Codec α} [Lawful c] {n : Nat} {bs : Bytes} {xs : List α}
    {rest : Bytes} :
    decodeMany c.decode n bs = .ok (xs, rest) ↔
      xs.length = n ∧ (∀ x ∈ xs, c.fits x) ∧ bs = xs.flatMap c.encode ++ rest := by
  induction n generalizing bs xs rest with
  | zero =>
    rw [decodeMany]
    constructor
    · intro h
      obtain ⟨rfl, rfl⟩ := Prod.mk.inj (Except.ok.inj h)
      simp
    · rintro ⟨hlen, -, rfl⟩
      obtain rfl := List.eq_nil_of_length_eq_zero hlen
      rfl
  | succ n ih =>
    simp only [decodeMany, bind_eq_ok_iff, Prod.exists, decode_eq_ok_iff, ih]
    constructor
    · rintro ⟨y, _, ⟨hy, rfl⟩, ys, _, ⟨rfl, hys, rfl⟩, h⟩
      obtain ⟨rfl, rfl⟩ := Prod.mk.inj (Except.ok.inj h)
      exact ⟨rfl, List.forall_mem_cons.2 ⟨hy, hys⟩, by simp⟩
    · rintro ⟨hlen, hxs, rfl⟩
      rcases xs with - | ⟨y, ys⟩
      · cases hlen
      · obtain ⟨hy, hys⟩ := List.forall_mem_cons.1 hxs
        exact ⟨y, ys.flatMap c.encode ++ rest, ⟨hy, by simp⟩, ys, rest,
          ⟨Nat.succ.inj hlen, hys, rfl⟩, rfl⟩

instance lawful_list {c : Codec α} [Lawful c] : Lawful (list c) where
  decode_eq_ok_iff {bs xs rest} := by
    simp only [list, bind_eq_ok_iff, Prod.exists, decode_eq_ok_iff, decodeMany_eq_ok_iff]
    constructor
    · rintro ⟨n, _, ⟨hn, rfl⟩, rfl, hxs, rfl⟩
      exact ⟨⟨hn, hxs⟩, (List.append_assoc _ _ _).symm⟩
    · rintro ⟨⟨hn, hxs⟩, rfl⟩
      exact ⟨xs.length, _, ⟨hn, List.append_assoc _ _ _⟩, rfl, hxs, rfl⟩

theorem length_le_length_flatMap {f : α → Bytes} (hf : ∀ x, f x ≠ []) (xs : List α) :
    xs.length ≤ (xs.flatMap f).length := by
  induction xs with
  | nil => simp
  | cons x xs ih =>
    have hpos := List.length_pos_iff.2 (hf x)
    rw [List.flatMap_cons, List.length_append, List.length_cons]
    omega

theorem length_le_length_flatMap_of_mem {f : α → Bytes} {x : α} {xs : List α} (h : x ∈ xs) :
    (f x).length ≤ (xs.flatMap f).length := by
  obtain ⟨before, after, rfl⟩ := List.append_of_mem h
  rw [List.flatMap_append, List.flatMap_cons, List.length_append, List.length_append]
  omega

instance roomy_list {c : Codec α} [Roomy c] : Roomy (list c) where
  encode_ne_nil _ := List.cons_ne_nil _ _
  fits_of_length_lt {xs} h := by
    rw [list, List.length_append] at h
    have hlen := length_le_length_flatMap (encode_ne_nil (c := c)) xs
    refine ⟨Nat.lt_of_le_of_lt (by omega) h, fun x hx => fits_of_length_lt ?_⟩
    have hmem := length_le_length_flatMap_of_mem (f := c.encode) hx
    omega

/-! ## Choices -/

theorem encode_alternative {c : Codec π} {build : π → α} {parts? : α → Option π} {x : α} {p : π}
    (hp : parts? x = some p) : (c.alternative build parts?).encode x = c.encode p := by
  simp only [alternative, hp, Option.elim_some]

theorem fits_alternative_iff {c : Codec π} {build : π → α} {parts? : α → Option π} {x : α} {p : π}
    (hp : parts? x = some p) : (c.alternative build parts?).fits x ↔ c.fits p := by
  simp only [alternative, hp, Option.some.injEq, exists_eq_left']

theorem fits_variant_iff {alternatives : List (Codec α)} {position : α → Nat} {x : α} {c : Codec α}
    (hc : alternatives[position x]? = some c) :
    (variant alternatives position).fits x ↔ c.fits x := by
  simp only [variant, hc, Option.some.injEq, exists_eq_left']

theorem encode_variant {alternatives : List (Codec α)} {position : α → Nat} {x : α} {c : Codec α}
    (hc : alternatives[position x]? = some c) :
    (variant alternatives position).encode x =
      (word 4).encode (position x) ++ c.encode x := by
  simp only [variant, hc, Option.elim_some]

theorem decode_variant (alternatives : List (Codec α)) (position : α → Nat) (bs : Bytes) :
    (variant alternatives position).decode bs =
      (word 4).decode bs >>= fun p =>
        match alternatives[p.1]? with
        | some c => c.decode p.2
        | none => .error (.unknownVariant p.1 alternatives.length) := rfl

/-- An alternative, given that its values are taken apart as they are built. -/
theorem Lawful.alternative {c : Codec π} [Lawful c] {build : π → α} {parts? : α → Option π}
    (hparts : ∀ x p, parts? x = some p ↔ build p = x) : Lawful (c.alternative build parts?) where
  decode_eq_ok_iff {bs x rest} := by
    constructor
    · intro hdecode
      simp only [Codec.alternative, bind_eq_ok_iff, Prod.exists, decode_eq_ok_iff] at hdecode
      obtain ⟨p, _, ⟨hp, rfl⟩, h⟩ := hdecode
      obtain ⟨hbuild, rfl⟩ := Prod.mk.inj (Except.ok.inj h)
      have hx := (hparts x p).2 hbuild
      exact ⟨⟨p, hx, hp⟩, by rw [encode_alternative hx]⟩
    · rintro ⟨⟨p, hx, hp⟩, rfl⟩
      rw [encode_alternative hx]
      simp only [Codec.alternative, bind_eq_ok_iff, Prod.exists, decode_eq_ok_iff]
      exact ⟨p, rest, ⟨hp, rfl⟩, by rw [(hparts x p).1 hx]; rfl⟩

theorem fits_alternative {c : Codec π} [Roomy c] {build : π → α} {parts? : α → Option π} {x : α}
    {p : π} (hp : parts? x = some p)
    (h : ((c.alternative build parts?).encode x).length < Bytes.room 8) :
    (c.alternative build parts?).fits x := by
  rw [encode_alternative hp] at h
  exact (fits_alternative_iff hp).2 (fits_of_length_lt h)

/-- The alternatives stand in the positions from `i` on: each is lawful, and the values that it has
room for belong in its position. -/
def Choice (position : α → Nat) (i : Nat) (alternatives : List (Codec α)) : Prop :=
  ∀ j c, alternatives[j]? = some c → Lawful c ∧ ∀ x, c.fits x → position x = i + j

section Choice

variable {position : α → Nat} {i : Nat} {alternatives : List (Codec α)}

theorem Choice.nil : Choice position i [] := by
  intro j c h
  simp at h

/-- An alternative whose values are taken apart as they are built comes before the others. -/
theorem Choice.cons {c : Codec π} [Lawful c] {build : π → α} {parts? : α → Option π}
    (hbuild : ∀ p, parts? (build p) = some p) (hparts : ∀ x p, parts? x = some p → build p = x)
    (hposition : ∀ p, position (build p) = i) (h : Choice position (i + 1) alternatives) :
    Choice position i (c.alternative build parts? :: alternatives) := by
  intro j d hd
  rcases j with - | j
  · obtain rfl := Option.some.inj hd
    refine ⟨.alternative fun x p => ⟨hparts x p, fun hx => hx ▸ hbuild p⟩, fun x hx => ?_⟩
    obtain ⟨p, hp, -⟩ := hx
    rw [← hparts x p hp, hposition, Nat.add_zero]
  · obtain ⟨hlawful, hpos⟩ := h j d hd
    refine ⟨hlawful, fun x hx => ?_⟩
    rw [hpos x hx]
    omega

/-- A choice is lawful if its alternatives are. -/
theorem Choice.lawful (h : Choice position 0 alternatives)
    (hlength : alternatives.length ≤ Bytes.room 4) : Lawful (variant alternatives position) where
  decode_eq_ok_iff {bs x rest} := by
    constructor
    · intro hdecode
      simp only [variant, bind_eq_ok_iff, Prod.exists, decode_eq_ok_iff] at hdecode
      obtain ⟨found, _, ⟨-, rfl⟩, hrest⟩ := hdecode
      rcases hc : alternatives[found]? with - | c
      · simp [hc] at hrest
      · obtain ⟨hlawful, hpos⟩ := h found c hc
        simp only [hc, decode_eq_ok_iff] at hrest
        obtain ⟨hx, rfl⟩ := hrest
        obtain rfl : position x = found := by rw [hpos x hx, Nat.zero_add]
        exact ⟨⟨c, hc, hx⟩, by rw [encode_variant hc, List.append_assoc]⟩
    · rintro ⟨⟨c, hc, hx⟩, rfl⟩
      obtain ⟨hlawful, -⟩ := h _ c hc
      have hlt : position x < alternatives.length := (List.getElem?_eq_some_iff.1 hc).1
      rw [encode_variant hc, List.append_assoc]
      simp only [variant, bind_eq_ok_iff, Prod.exists, decode_eq_ok_iff]
      refine ⟨position x, c.encode x ++ rest, ⟨Nat.lt_of_lt_of_le hlt hlength, rfl⟩, ?_⟩
      simp only [hc, decode_eq_ok_iff]
      exact ⟨hx, trivial⟩

theorem Roomy.variant (h : ∀ x, ∃ c, alternatives[position x]? = some c ∧
    ((c.encode x).length < Bytes.room 8 → c.fits x)) : Roomy (variant alternatives position) where
  encode_ne_nil x := by
    obtain ⟨c, hc, -⟩ := h x
    rw [encode_variant hc]
    exact List.cons_ne_nil _ _
  fits_of_length_lt {x} hx := by
    obtain ⟨c, hc, hfits⟩ := h x
    rw [encode_variant hc, List.length_append] at hx
    exact (fits_variant_iff hc).2 (hfits (Nat.lt_of_le_of_lt (Nat.le_add_left _ _) hx))

end Choice

section enumeration

variable [DecidableEq α] {values : List α}

theorem lawful_constant (x : α) : Lawful (constant x) :=
  .alternative fun y _ => by
    by_cases h : y = x
    · simp [h]
    · simp [h, Ne.symm h]

theorem lawful_enumeration (hnodup : values.Nodup) (hlength : values.length ≤ Bytes.room 4) :
    Lawful (enumeration values) := by
  refine Choice.lawful (fun i c hc => ?_) (by rwa [List.length_map])
  rw [List.getElem?_map, Option.map_eq_some_iff] at hc
  obtain ⟨v, hv, rfl⟩ := hc
  refine ⟨lawful_constant v, fun x hx => ?_⟩
  obtain ⟨p, hp, -⟩ := hx
  have hxv : x = v := Classical.byContradiction fun hne => by simp [hne] at hp
  obtain ⟨hi, rfl⟩ := List.getElem?_eq_some_iff.1 hv
  rw [hxv, Nat.zero_add]
  exact List.Nodup.idxOf_getElem hnodup i hi

theorem roomy_enumeration (hall : ∀ x, x ∈ values) : Roomy (enumeration values) :=
  .variant fun x => by
    refine ⟨constant x, ?_, fun _ => ⟨(), by simp, trivial⟩⟩
    rw [List.getElem?_map, List.getElem?_idxOf (hall x)]
    rfl

end enumeration

end Codec

end Countersign
