import Countersign.Wire.Utf8
import Mathlib.Tactic.SplitIfs

/-!
# Text and its octets

Writing text as UTF-8 and reading it undo each other: every text is read back, and what is read is
written in no other way.

## What is here

* `isLead_iff`, `isContinuation_iff`, `mayFollow_iff` — the classes of octets, as ranges of numbers.
* `Utf8.Spells` — octets that spell a character, by the number of octets that its lead octet announces.
* `Utf8.spells_iff` — a character is spelled by its encoding alone.
* `Utf8.decodeAt_append`, `Utf8.decodeAt_eq_ok` — the decoder takes a character off the front.
* `Utf8.decode_eq_ok_iff` — the decoder accepts encodings and nothing else.
-/

set_option autoImplicit false

namespace Countersign

/-! ## Results -/

section results

variable {ε α β : Type} {x : Except ε α} {b : β}

theorem map_eq_ok_iff {f : α → β} : x.map f = .ok b ↔ ∃ a, x = .ok a ∧ f a = b := by
  cases x <;> simp [Except.map]

theorem bind_eq_ok_iff {f : α → Except ε β} : x >>= f = .ok b ↔ ∃ a, x = .ok a ∧ f a = .ok b := by
  cases x <;> simp [bind, Except.bind]

end results

namespace Utf8

/-! ## Classes of octets -/

theorem isContinuation_iff {b : UInt8} : isContinuation b = true ↔ 0x80 ≤ b.toNat ∧ b.toNat < 0xC0 := by
  simp [isContinuation, UInt8.le_iff_toNat_le, UInt8.lt_iff_toNat_lt]

theorem isLead_iff {a : UInt8} : isLead a = true ↔ 0xC2 ≤ a.toNat ∧ a.toNat < 0xF5 := by
  simp [isLead, UInt8.le_iff_toNat_le, UInt8.lt_iff_toNat_lt]

/-- What may follow a lead octet is a continuation octet, with four restrictions. -/
theorem mayFollow_iff {a b : UInt8} :
    mayFollow a b = true ↔
      (0x80 ≤ b.toNat ∧ b.toNat < 0xC0) ∧ (a.toNat = 0xE0 → 0xA0 ≤ b.toNat) ∧
        (a.toNat = 0xED → b.toNat < 0xA0) ∧ (a.toNat = 0xF0 → 0x90 ≤ b.toNat) ∧
        (a.toNat = 0xF4 → b.toNat < 0x90) := by
  simp only [mayFollow, ← UInt8.toNat_inj]
  split_ifs <;>
    simp_all [isContinuation, UInt8.le_iff_toNat_le, UInt8.lt_iff_toNat_lt] <;> omega

/-! ## Characters -/

/-- The octets spell the character: one octet, or a lead octet and as many more as it announces. -/
inductive Spells : Bytes → Char → Prop
  | one {a : UInt8} (ha : a < 0x80) : Spells [a] (Char.ofNat a.toNat)
  | two {a b : UInt8} (ha : isLead a = true) (hb : mayFollow a b = true) (hlt : a < 0xE0) :
      Spells [a, b] (Char.ofNat ((a.toNat - 0xC0) * 64 + bits b))
  | three {a b c : UInt8} (ha : isLead a = true) (hb : mayFollow a b = true) (hge : ¬ a < 0xE0)
      (hc : isContinuation c = true) (hlt : a < 0xF0) :
      Spells [a, b, c] (Char.ofNat ((a.toNat - 0xE0) * 4096 + bits b * 64 + bits c))
  | four {a b c d : UInt8} (ha : isLead a = true) (hb : mayFollow a b = true) (hge : ¬ a < 0xF0)
      (hc : isContinuation c = true) (hd : isContinuation d = true) :
      Spells [a, b, c, d]
        (Char.ofNat ((a.toNat - 0xF0) * 262144 + bits b * 4096 + bits c * 64 + bits d))

theorem toNat_charOfNat {n : Nat} (h : n.isValidChar) : (Char.ofNat n).toNat = n := by
  rw [Char.ofNat, dif_pos h]
  rfl

theorem ofNat_eq_of_toNat {n : Nat} {a : UInt8} (h : n = a.toNat) : UInt8.ofNat n = a := by
  rw [h, UInt8.ofNat_toNat]

theorem toNat_octet {n : Nat} (h : n < 256) : (UInt8.ofNat n).toNat = n := by
  rw [UInt8.toNat_ofNat', Nat.mod_eq_of_lt h]

theorem bits_eq (b : UInt8) : bits b = b.toNat - 0x80 := rfl

section encodeChar

variable {c : Char}

theorem encodeChar_of_one (h : c.toNat < 0x80) : encodeChar c = [UInt8.ofNat c.toNat] := by
  simp only [encodeChar, h, if_true]

theorem encodeChar_of_two (h : ¬ c.toNat < 0x80) (h' : c.toNat < 0x800) :
    encodeChar c = [UInt8.ofNat (0xC0 + c.toNat / 64), UInt8.ofNat (0x80 + c.toNat % 64)] := by
  simp only [encodeChar, h, h', if_true, if_false]

theorem encodeChar_of_three (h : ¬ c.toNat < 0x800) (h' : c.toNat < 0x10000) :
    encodeChar c =
      [UInt8.ofNat (0xE0 + c.toNat / 4096), UInt8.ofNat (0x80 + c.toNat / 64 % 64),
        UInt8.ofNat (0x80 + c.toNat % 64)] := by
  have h0 : ¬ c.toNat < 0x80 := by omega
  simp only [encodeChar, h0, h, h', if_true, if_false]

theorem encodeChar_of_four (h : ¬ c.toNat < 0x10000) :
    encodeChar c =
      [UInt8.ofNat (0xF0 + c.toNat / 262144), UInt8.ofNat (0x80 + c.toNat / 4096 % 64),
        UInt8.ofNat (0x80 + c.toNat / 64 % 64), UInt8.ofNat (0x80 + c.toNat % 64)] := by
  have h0 : ¬ c.toNat < 0x80 := by omega
  have h1 : ¬ c.toNat < 0x800 := by omega
  simp only [encodeChar, h0, h1, h, if_false]

end encodeChar

/-- Octets that spell a character are its encoding. -/
theorem Spells.eq_encodeChar {bs : Bytes} {ch : Char} (h : Spells bs ch) : bs = encodeChar ch := by
  -- the character is replaced by a variable before its number is compared with anything
  cases h with
  | @one a ha =>
    have hlt : a.toNat < 0x80 := by simpa [UInt8.lt_iff_toNat_lt] using ha
    have hch := toNat_charOfNat (n := a.toNat) (.inl (by omega))
    generalize Char.ofNat a.toNat = ch at hch ⊢
    rw [encodeChar_of_one (by omega), hch, UInt8.ofNat_toNat]
  | @two a b ha hb hlt =>
    have ha := isLead_iff.1 ha
    have hb := mayFollow_iff.1 hb
    have hlt : a.toNat < 0xE0 := by simpa [UInt8.lt_iff_toNat_lt] using hlt
    have hbits := bits_eq b
    have hch := toNat_charOfNat (n := (a.toNat - 0xC0) * 64 + bits b) (.inl (by omega))
    generalize Char.ofNat ((a.toNat - 0xC0) * 64 + bits b) = ch at hch ⊢
    rw [encodeChar_of_two (by omega) (by omega), ofNat_eq_of_toNat (a := a) (by omega),
      ofNat_eq_of_toNat (a := b) (by omega)]
  | @three a b c ha hb hge hc hlt =>
    have ha := isLead_iff.1 ha
    have hb := mayFollow_iff.1 hb
    have hc := isContinuation_iff.1 hc
    have hge : ¬ a.toNat < 0xE0 := by simpa [UInt8.lt_iff_toNat_lt] using hge
    have hlt : a.toNat < 0xF0 := by simpa [UInt8.lt_iff_toNat_lt] using hlt
    have hbits := bits_eq b
    have hbits' := bits_eq c
    have hvalid : ((a.toNat - 0xE0) * 4096 + bits b * 64 + bits c).isValidChar := by
      unfold Nat.isValidChar
      omega
    have hch := toNat_charOfNat hvalid
    generalize Char.ofNat ((a.toNat - 0xE0) * 4096 + bits b * 64 + bits c) = ch at hch ⊢
    rw [encodeChar_of_three (by omega) (by omega), ofNat_eq_of_toNat (a := a) (by omega),
      ofNat_eq_of_toNat (a := b) (by omega), ofNat_eq_of_toNat (a := c) (by omega)]
  | @four a b c d ha hb hge hc hd =>
    have ha := isLead_iff.1 ha
    have hb := mayFollow_iff.1 hb
    have hc := isContinuation_iff.1 hc
    have hd := isContinuation_iff.1 hd
    have hge : ¬ a.toNat < 0xF0 := by simpa [UInt8.lt_iff_toNat_lt] using hge
    have hbits := bits_eq b
    have hbits' := bits_eq c
    have hbits'' := bits_eq d
    have hvalid :
        ((a.toNat - 0xF0) * 262144 + bits b * 4096 + bits c * 64 + bits d).isValidChar := by
      unfold Nat.isValidChar
      omega
    have hch := toNat_charOfNat hvalid
    generalize Char.ofNat ((a.toNat - 0xF0) * 262144 + bits b * 4096 + bits c * 64 + bits d) = ch
      at hch ⊢
    rw [encodeChar_of_four (by omega), ofNat_eq_of_toNat (a := a) (by omega),
      ofNat_eq_of_toNat (a := b) (by omega), ofNat_eq_of_toNat (a := c) (by omega),
      ofNat_eq_of_toNat (a := d) (by omega)]

/-- The encoding of a character spells it. -/
theorem spells_encodeChar (ch : Char) : Spells (encodeChar ch) ch := by
  have hvalid : ch.toNat < 0xD800 ∨ 0xDFFF < ch.toNat ∧ ch.toNat < 0x110000 := ch.valid
  by_cases h1 : ch.toNat < 0x80
  · rw [encodeChar_of_one h1]
    have ha := toNat_octet (n := ch.toNat) (by omega)
    generalize UInt8.ofNat ch.toNat = a at ha ⊢
    have hspell := Spells.one (a := a) (by simpa [UInt8.lt_iff_toNat_lt, ha] using h1)
    rwa [ha, Char.ofNat_toNat] at hspell
  by_cases h2 : ch.toNat < 0x800
  · rw [encodeChar_of_two h1 h2]
    have ha := toNat_octet (n := 0xC0 + ch.toNat / 64) (by omega)
    have hb := toNat_octet (n := 0x80 + ch.toNat % 64) (by omega)
    generalize UInt8.ofNat (0xC0 + ch.toNat / 64) = a at ha ⊢
    generalize UInt8.ofNat (0x80 + ch.toNat % 64) = b at hb ⊢
    have hbits := bits_eq b
    have hch : (a.toNat - 0xC0) * 64 + bits b = ch.toNat := by omega
    have hlt : a.toNat < 0xE0 := by omega
    have hspell := Spells.two (b := b) (isLead_iff.2 (by omega)) (mayFollow_iff.2 (by omega))
      (UInt8.lt_iff_toNat_lt.2 hlt)
    rwa [hch, Char.ofNat_toNat] at hspell
  by_cases h3 : ch.toNat < 0x10000
  · rw [encodeChar_of_three h2 h3]
    have ha := toNat_octet (n := 0xE0 + ch.toNat / 4096) (by omega)
    have hb := toNat_octet (n := 0x80 + ch.toNat / 64 % 64) (by omega)
    have hc := toNat_octet (n := 0x80 + ch.toNat % 64) (by omega)
    generalize UInt8.ofNat (0xE0 + ch.toNat / 4096) = a at ha ⊢
    generalize UInt8.ofNat (0x80 + ch.toNat / 64 % 64) = b at hb ⊢
    generalize UInt8.ofNat (0x80 + ch.toNat % 64) = c at hc ⊢
    have hbits := bits_eq b
    have hbits' := bits_eq c
    have hch : (a.toNat - 0xE0) * 4096 + bits b * 64 + bits c = ch.toNat := by omega
    have hge : ¬ a.toNat < 0xE0 := by omega
    have hlt : a.toNat < 0xF0 := by omega
    have hspell := Spells.three (b := b) (c := c) (isLead_iff.2 (by omega))
      (mayFollow_iff.2 (by omega)) (mt UInt8.lt_iff_toNat_lt.1 hge) (isContinuation_iff.2 (by omega))
      (UInt8.lt_iff_toNat_lt.2 hlt)
    rwa [hch, Char.ofNat_toNat] at hspell
  · rw [encodeChar_of_four h3]
    have ha := toNat_octet (n := 0xF0 + ch.toNat / 262144) (by omega)
    have hb := toNat_octet (n := 0x80 + ch.toNat / 4096 % 64) (by omega)
    have hc := toNat_octet (n := 0x80 + ch.toNat / 64 % 64) (by omega)
    have hd := toNat_octet (n := 0x80 + ch.toNat % 64) (by omega)
    generalize UInt8.ofNat (0xF0 + ch.toNat / 262144) = a at ha ⊢
    generalize UInt8.ofNat (0x80 + ch.toNat / 4096 % 64) = b at hb ⊢
    generalize UInt8.ofNat (0x80 + ch.toNat / 64 % 64) = c at hc ⊢
    generalize UInt8.ofNat (0x80 + ch.toNat % 64) = d at hd ⊢
    have hbits := bits_eq b
    have hbits' := bits_eq c
    have hbits'' := bits_eq d
    have hch : (a.toNat - 0xF0) * 262144 + bits b * 4096 + bits c * 64 + bits d = ch.toNat := by
      omega
    have hge : ¬ a.toNat < 0xF0 := by omega
    have hspell := Spells.four (b := b) (c := c) (d := d) (isLead_iff.2 (by omega))
      (mayFollow_iff.2 (by omega)) (mt UInt8.lt_iff_toNat_lt.1 hge) (isContinuation_iff.2 (by omega))
      (isContinuation_iff.2 (by omega))
    rwa [hch, Char.ofNat_toNat] at hspell

theorem spells_iff {bs : Bytes} {ch : Char} : Spells bs ch ↔ bs = encodeChar ch :=
  ⟨Spells.eq_encodeChar, fun h => h ▸ spells_encodeChar ch⟩

/-! ## Text -/

theorem not_lt_of_isLead {a : UInt8} (ha : isLead a = true) : ¬ a < 0x80 := by
  have hlead := isLead_iff.1 ha
  have hge : ¬ a.toNat < 0x80 := by omega
  simpa [UInt8.lt_iff_toNat_lt] using hge

/-- A character that is spelled is taken off the front. -/
theorem decodeAt_append {front : Bytes} {ch : Char} (h : Spells front ch) (index : Nat)
    (rest : Bytes) :
    decodeAt index (front ++ rest) = (decodeAt (index + front.length) rest).map (ch :: ·) := by
  cases h with
  | @one a ha =>
    rw [List.cons_append, decodeAt.eq_def]
    simp only [ha, if_true]
    rfl
  | @two a b ha hb hlt =>
    rw [List.cons_append, List.cons_append, decodeAt.eq_def]
    simp only [not_lt_of_isLead ha, ha, hb, hlt, Bool.not_true, Bool.false_eq_true, if_true,
      if_false]
    rfl
  | @three a b c ha hb hge hc hlt =>
    rw [List.cons_append, List.cons_append, List.cons_append, decodeAt.eq_def]
    simp only [not_lt_of_isLead ha, ha, hb, hge, hc, hlt, Bool.not_true, Bool.false_eq_true,
      if_true, if_false]
    rfl
  | @four a b c d ha hb hge hc hd =>
    have hge' : ¬ a < 0xE0 := fun hlt => hge (UInt8.lt_trans hlt (by decide))
    rw [List.cons_append, List.cons_append, List.cons_append, List.cons_append, decodeAt.eq_def]
    simp only [not_lt_of_isLead ha, ha, hb, hge', hge, hc, hd, Bool.not_true, Bool.false_eq_true,
      if_false]
    rfl

/-- What is accepted begins with a character that is spelled. -/
theorem decodeAt_eq_ok {index : Nat} {bs : Bytes} {cs : List Char}
    (h : decodeAt index bs = .ok cs) :
    bs = [] ∧ cs = [] ∨
      ∃ front ch rest more, Spells front ch ∧ bs = front ++ rest ∧ cs = ch :: more ∧
        decodeAt (index + front.length) rest = .ok more := by
  rw [decodeAt.eq_def] at h
  split at h
  · exact .inl ⟨rfl, (Except.ok.inj h).symm⟩
  -- the refusals go away one by one, and a character is left at each of the four lengths
  next a rest =>
  split at h
  · next ha =>
    obtain ⟨more, hmore, rfl⟩ := map_eq_ok_iff.1 h
    exact .inr ⟨[a], _, rest, more, .one ha, rfl, rfl, hmore⟩
  split at h
  · cases h
  next ha =>
  have ha : isLead a = true := by simpa using ha
  split at h
  · cases h
  next b rest =>
  split at h
  · cases h
  next hb =>
  have hb : mayFollow a b = true := by simpa using hb
  split at h
  · next hlt =>
    obtain ⟨more, hmore, rfl⟩ := map_eq_ok_iff.1 h
    exact .inr ⟨[a, b], _, rest, more, .two ha hb hlt, rfl, rfl, hmore⟩
  next hge =>
  split at h
  · cases h
  next c rest =>
  split at h
  · cases h
  next hc =>
  have hc : isContinuation c = true := by simpa using hc
  split at h
  · next hlt =>
    obtain ⟨more, hmore, rfl⟩ := map_eq_ok_iff.1 h
    exact .inr ⟨[a, b, c], _, rest, more, .three ha hb hge hc hlt, rfl, rfl, hmore⟩
  next hge =>
  split at h
  · cases h
  next d rest =>
  split at h
  · cases h
  next hd =>
  have hd : isContinuation d = true := by simpa using hd
  obtain ⟨more, hmore, rfl⟩ := map_eq_ok_iff.1 h
  exact .inr ⟨[a, b, c, d], _, rest, more, .four ha hb hge hc hd, rfl, rfl, hmore⟩

theorem encode_cons (ch : Char) (cs : List Char) : encode (ch :: cs) = encodeChar ch ++ encode cs :=
  List.flatMap_cons

theorem decodeAt_eq_ok_iff {index : Nat} {bs : Bytes} {cs : List Char} :
    decodeAt index bs = .ok cs ↔ bs = encode cs := by
  induction cs generalizing index bs with
  | nil =>
    refine ⟨fun h => ?_, fun h => ?_⟩
    · rcases decodeAt_eq_ok h with ⟨rfl, -⟩ | ⟨front, ch, rest, more, -, -, hcs, -⟩
      · rfl
      · cases hcs
    · rw [h]
      rfl
  | cons ch cs ih =>
    rw [encode_cons]
    refine ⟨fun h => ?_, fun h => ?_⟩
    · rcases decodeAt_eq_ok h with ⟨-, hcs⟩ | ⟨front, ch', rest, more, hfront, rfl, hcs, hmore⟩
      · cases hcs
      · obtain ⟨rfl, rfl⟩ := List.cons.inj hcs
        rw [spells_iff.1 hfront, ih.1 hmore]
    · rw [h, decodeAt_append (spells_encodeChar ch), ih.2 rfl]
      rfl

/-- **The decoder accepts the encodings of texts and nothing else**, and of each text it accepts one
encoding. -/
theorem decode_eq_ok_iff {bs : Bytes} {cs : List Char} : decode bs = .ok cs ↔ bs = encode cs :=
  decodeAt_eq_ok_iff

theorem encode_injective : Function.Injective encode := by
  intro cs ds h
  have hcs : decode (encode cs) = .ok cs := decode_eq_ok_iff.2 rfl
  have hds : decode (encode cs) = .ok ds := decode_eq_ok_iff.2 h
  exact Except.ok.inj (hcs.symm.trans hds)

end Utf8

end Countersign
