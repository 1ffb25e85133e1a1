import Countersign.Proofs.Matching
import Mathlib.Order.Bounds.Basic

/-!
# What a search finds

A pair can do two things for a public key: identify it, by a prefix that is the whole of it, or
abbreviate it, by a prefix that is not as long as public keys of its scheme are.  Which signature a
public key gets can be read off these two, with the positions of the pairs as the tie-breaker: the
first that identifies it, or else the first of the longest that abbreviate it, unless two of those
disagree.  Pairs of the other scheme play no part, and neither does what has been used.

## What is here

* `SignaturePair.Identifies`, `SignaturePair.Abbreviates` — what a pair can do for a public key.
* `SignatureMap.Identified`, `SignatureMap.Contested`, `SignatureMap.Longest` — what that makes of a
  map.
* `SignatureMap.IsFirst` — a found signature is that of the first pair with a property.
* `SignatureMap.find_eq_some_iff`, `find_eq_error_iff`, `find_eq_none_iff` — the ways in which a
  search ends, each with its exact condition.
* `SignatureMap.find_specified` — all of this together.
-/

set_option autoImplicit false

namespace Countersign

/-! ## Pairs -/

namespace SignaturePair

/-- The prefix of the pair is a complete public key, and this one. -/
structure Identifies (p : SignaturePair) (scheme : Scheme) (publicKey : Bytes) : Prop where
  scheme_eq : p.scheme = scheme
  complete : p.keyPrefix.length = scheme.publicKeyLength
  keyPrefix_eq : p.keyPrefix = publicKey

/-- The prefix of the pair is not a complete public key, and this one begins with it. -/
structure Abbreviates (p : SignaturePair) (scheme : Scheme) (publicKey : Bytes) : Prop where
  scheme_eq : p.scheme = scheme
  incomplete : p.keyPrefix.length ≠ scheme.publicKeyLength
  isPrefix : p.keyPrefix <+: publicKey

variable {p : SignaturePair} {scheme : Scheme} {publicKey : Bytes}

theorem names_iff : p.names scheme publicKey = true ↔ p.Identifies scheme publicKey := by
  simp only [names, hasFullPrefix, Bool.and_eq_true, beq_iff_eq]
  constructor
  · rintro ⟨⟨rfl, hlen⟩, hkey⟩
    exact ⟨rfl, hlen, hkey⟩
  · rintro ⟨rfl, hlen, hkey⟩
    exact ⟨⟨rfl, hlen⟩, hkey⟩

theorem hints_iff : p.hints scheme publicKey = true ↔ p.Abbreviates scheme publicKey := by
  simp only [hints, hasFullPrefix, Bool.and_eq_true, beq_iff_eq, Bool.not_eq_true',
    beq_eq_false_iff_ne, List.isPrefixOf_iff_prefix]
  constructor
  · rintro ⟨⟨rfl, hlen⟩, hkey⟩
    exact ⟨rfl, hlen, hkey⟩
  · rintro ⟨rfl, hlen, hkey⟩
    exact ⟨⟨rfl, hlen⟩, hkey⟩

theorem names_eq_false_iff :
    p.names scheme publicKey = false ↔ ¬ p.Identifies scheme publicKey := by
  rw [← names_iff, Bool.not_eq_true]

theorem hints_eq_false_iff :
    p.hints scheme publicKey = false ↔ ¬ p.Abbreviates scheme publicKey := by
  rw [← hints_iff, Bool.not_eq_true]

end SignaturePair

namespace SignatureMap

variable {m m' : SignatureMap} {scheme : Scheme} {publicKey : Bytes} {f g : Found}
  {P : SignaturePair → Prop}

/-! ## Maps -/

/-- Some pair identifies the public key. -/
def Identified (m : SignatureMap) (scheme : Scheme) (publicKey : Bytes) : Prop :=
  ∃ p ∈ m, p.Identifies scheme publicKey

/-- Two pairs that abbreviate the public key carry different signatures. -/
def Contested (m : SignatureMap) (scheme : Scheme) (publicKey : Bytes) : Prop :=
  ∃ p ∈ m, ∃ q ∈ m, p.Abbreviates scheme publicKey ∧ q.Abbreviates scheme publicKey ∧
    p.signature ≠ q.signature

/-- The pair abbreviates the public key, and no pair of the map does so by more of it. -/
structure Longest (m : SignatureMap) (scheme : Scheme) (publicKey : Bytes) (p : SignaturePair) :
    Prop where
  abbreviates : p.Abbreviates scheme publicKey
  longest : ∀ q ∈ m, q.Abbreviates scheme publicKey → q.keyPrefix.length ≤ p.keyPrefix.length

/-- What is found is the signature of the pair with the least index among those with a property. -/
structure IsFirst (m : SignatureMap) (P : SignaturePair → Prop) (f : Found) : Prop where
  least : IsLeast {i | ∃ p, m[i]? = some p ∧ P p} f.index
  signature_eq : m[f.index]?.map (·.signature) = some f.signature

theorem isFirst_of_split {before after : List SignaturePair} {p : SignaturePair}
    (hm : m = before ++ p :: after) (hp : P p) (hbefore : ∀ q ∈ before, ¬ P q) :
    m.IsFirst P ⟨before.length, p.signature⟩ := by
  have hget : m[before.length]? = some p := by simp [hm]
  refine ⟨⟨⟨p, hget, hp⟩, ?_⟩, by simp [hget]⟩
  rintro j ⟨q, hq, hP⟩
  refine Nat.le_of_not_lt fun hlt => hbefore q ?_ hP
  rw [hm, List.getElem?_append_left hlt] at hq
  exact List.mem_of_getElem? hq

theorem IsFirst.exists_mem (h : m.IsFirst P f) : ∃ p ∈ m, P p := by
  obtain ⟨⟨p, hp, hP⟩, -⟩ := h.least
  exact ⟨p, List.mem_of_getElem? hp, hP⟩

/-- There is only one first pair. -/
theorem IsFirst.unique (h : m.IsFirst P f) (h' : m.IsFirst P g) : f = g := by
  have hindex : f.index = g.index := h.least.unique h'.least
  have hsig : f.signature = g.signature := by
    have := h.signature_eq.symm.trans (hindex ▸ h'.signature_eq)
    exact Option.some.inj this
  cases f
  cases g
  simp_all

/-! ## How a search ends -/

/-- The first pair that identifies the public key is found, if there is one. -/
theorem find_of_identified (h : m.Identified scheme publicKey) :
    ∃ f, m.find scheme publicKey = .ok (some f) ∧ m.IsFirst (·.Identifies scheme publicKey) f := by
  obtain ⟨p, hp, hident⟩ := h
  have hnames := SignaturePair.names_iff.2 hident
  have hchoice := m.choice_find scheme publicKey
  generalize m.find scheme publicKey = r at hchoice ⊢
  cases hchoice with
  | @named before after q hm hq hbefore =>
    exact ⟨_, rfl, isFirst_of_split hm (SignaturePair.names_iff.1 hq) fun q hq =>
      SignaturePair.names_eq_false_iff.1 (hbefore q hq)⟩
  | hinted hnone | ambiguous hnone | absent hnone =>
    rw [hnone p hp] at hnames
    cases hnames

/-- If nothing identifies the public key then it depends on those that abbreviate it. -/
theorem find_of_not_identified (h : ¬ m.Identified scheme publicKey) :
    m.find scheme publicKey = .error (.keyPrefixMismatch publicKey) ∧ m.Contested scheme publicKey ∨
      (∃ f, m.find scheme publicKey = .ok (some f) ∧ ¬ m.Contested scheme publicKey ∧
        m.IsFirst (m.Longest scheme publicKey) f) ∨
      m.find scheme publicKey = .ok none ∧ ∀ p ∈ m, ¬ p.Abbreviates scheme publicKey := by
  have hchoice := m.choice_find scheme publicKey
  generalize m.find scheme publicKey = r at hchoice ⊢
  cases hchoice with
  | @named before after p hm hp hbefore =>
    exact absurd ⟨p, by simp [hm], SignaturePair.names_iff.1 hp⟩ h
  | @hinted before after p hnone hm hp hbefore hafter hsame =>
    have hle : ∀ q ∈ m, q.Abbreviates scheme publicKey →
        q.keyPrefix.length ≤ p.keyPrefix.length := by
      intro q hq habbr
      have hh := SignaturePair.hints_iff.2 habbr
      rw [hm] at hq
      rcases List.mem_append.1 hq with hq | hq
      · exact Nat.le_of_lt (hbefore q hq hh)
      · rcases List.mem_cons.1 hq with rfl | hq
        · exact Nat.le_refl _
        · exact hafter q hq hh
    refine .inr (.inl ⟨_, rfl, ?_, ?_⟩)
    · rintro ⟨q, hq, q', hq', hh, hh', hne⟩
      exact hne ((hsame q hq (SignaturePair.hints_iff.2 hh)).trans
        (hsame q' hq' (SignaturePair.hints_iff.2 hh')).symm)
    · refine isFirst_of_split hm ⟨SignaturePair.hints_iff.1 hp, hle⟩ ?_
      -- a pair before the choice abbreviates the public key by less
      rintro q hq ⟨habbr, hlongest⟩
      have hlt := hbefore q hq (SignaturePair.hints_iff.2 habbr)
      exact Nat.not_le_of_lt hlt (hlongest p (by simp [hm]) (SignaturePair.hints_iff.1 hp))
  | @ambiguous p q hnone hpm hqm hp hq hne =>
    exact .inl ⟨rfl, p, hpm, q, hqm, SignaturePair.hints_iff.1 hp, SignaturePair.hints_iff.1 hq,
      hne⟩
  | absent hnone hno =>
    exact .inr (.inr ⟨rfl, fun p hp => SignaturePair.hints_eq_false_iff.1 (hno p hp)⟩)

theorem find_eq_some_iff :
    m.find scheme publicKey = .ok (some f) ↔
      m.IsFirst (·.Identifies scheme publicKey) f ∨
        ¬ m.Identified scheme publicKey ∧ ¬ m.Contested scheme publicKey ∧
          m.IsFirst (m.Longest scheme publicKey) f := by
  by_cases hid : m.Identified scheme publicKey
  · obtain ⟨g, hg, hfirst⟩ := find_of_identified hid
    rw [hg]
    constructor
    · rintro ⟨⟩
      exact .inl hfirst
    · rintro (h | ⟨hnot, -⟩)
      · rw [hfirst.unique h]
      · exact absurd hid hnot
  · have hnot : ¬ m.IsFirst (·.Identifies scheme publicKey) f := fun h => hid h.exists_mem
    rcases find_of_not_identified hid with ⟨hr, hcon⟩ | ⟨g, hr, hcon, hfirst⟩ | ⟨hr, hno⟩
    · rw [hr]
      refine iff_of_false (by simp) ?_
      rintro (h | ⟨-, hnone, -⟩)
      · exact hnot h
      · exact hnone hcon
    · rw [hr]
      constructor
      · rintro ⟨⟩
        exact .inr ⟨hid, hcon, hfirst⟩
      · rintro (h | ⟨-, -, h⟩)
        · exact absurd h hnot
        · rw [hfirst.unique h]
    · rw [hr]
      refine iff_of_false (by simp) ?_
      rintro (h | ⟨-, -, h⟩)
      · exact hnot h
      · obtain ⟨p, hp, hlong⟩ := h.exists_mem
        exact hno p hp hlong.abbreviates

theorem find_eq_error_iff {e : MatchError} :
    m.find scheme publicKey = .error e ↔
      e = .keyPrefixMismatch publicKey ∧ ¬ m.Identified scheme publicKey ∧
        m.Contested scheme publicKey := by
  by_cases hid : m.Identified scheme publicKey
  · obtain ⟨g, hg, -⟩ := find_of_identified hid
    simp [hg, hid]
  · rcases find_of_not_identified hid with ⟨hr, hcon⟩ | ⟨g, hr, hcon, -⟩ | ⟨hr, hno⟩
    · simp [hr, hid, hcon, eq_comm]
    · simp [hr, hcon]
    · have hcon : ¬ m.Contested scheme publicKey := fun ⟨p, hp, _, _, habbr, _⟩ => hno p hp habbr
      simp [hr, hcon]

theorem find_eq_none_iff :
    m.find scheme publicKey = .ok none ↔
      ∀ p ∈ m, ¬ p.Identifies scheme publicKey ∧ ¬ p.Abbreviates scheme publicKey := by
  by_cases hid : m.Identified scheme publicKey
  · obtain ⟨g, hg, -⟩ := find_of_identified hid
    obtain ⟨p, hp, hident⟩ := hid
    rw [hg]
    exact iff_of_false (by simp) fun h => (h p hp).1 hident
  · have hident : ∀ p ∈ m, ¬ p.Identifies scheme publicKey := fun p hp h => hid ⟨p, hp, h⟩
    rcases find_of_not_identified hid with
      ⟨hr, p, hp, -, -, habbr, -⟩ | ⟨g, hr, -, hfirst⟩ | ⟨hr, hno⟩
    · rw [hr]
      exact iff_of_false (by simp) fun h => (h p hp).2 habbr
    · obtain ⟨p, hp, hlong⟩ := hfirst.exists_mem
      rw [hr]
      exact iff_of_false (by simp) fun h => (h p hp).2 hlong.abbreviates
    · exact iff_of_true hr fun p hp => ⟨hident p hp, hno p hp⟩

/-! ## Pairs of one scheme -/

/-- Two maps have the same pairs of a scheme, at the same positions. -/
def AlikeIn (scheme : Scheme) (m m' : SignatureMap) : Prop :=
  ∀ (i : Nat) (p : SignaturePair), p.scheme = scheme → (m[i]? = some p ↔ m'[i]? = some p)

section AlikeIn

variable (h : AlikeIn scheme m m')

include h

theorem AlikeIn.symm : AlikeIn scheme m' m :=
  fun i p hp => (h i p hp).symm

theorem AlikeIn.mem {p : SignaturePair} (hp : p.scheme = scheme) (hm : p ∈ m) : p ∈ m' := by
  obtain ⟨i, hi⟩ := List.mem_iff_getElem?.1 hm
  exact List.mem_of_getElem? ((h i p hp).1 hi)

theorem AlikeIn.identified (hid : m.Identified scheme publicKey) :
    m'.Identified scheme publicKey := by
  obtain ⟨p, hp, hident⟩ := hid
  exact ⟨p, h.mem hident.scheme_eq hp, hident⟩

theorem AlikeIn.contested (hcon : m.Contested scheme publicKey) :
    m'.Contested scheme publicKey := by
  obtain ⟨p, hp, q, hq, habbr, habbr', hne⟩ := hcon
  exact ⟨p, h.mem habbr.scheme_eq hp, q, h.mem habbr'.scheme_eq hq, habbr, habbr', hne⟩

theorem AlikeIn.longest {p : SignaturePair} (hlong : m.Longest scheme publicKey p) :
    m'.Longest scheme publicKey p :=
  ⟨hlong.abbreviates, fun q hq habbr => hlong.longest q (h.symm.mem habbr.scheme_eq hq) habbr⟩

theorem AlikeIn.isFirst {Q : SignaturePair → Prop} (hPQ : ∀ p, P p ↔ Q p)
    (hP : ∀ p, P p → p.scheme = scheme) (hf : m.IsFirst P f) : m'.IsFirst Q f := by
  have hset : {i : Nat | ∃ p, m'[i]? = some p ∧ Q p} = {i : Nat | ∃ p, m[i]? = some p ∧ P p} := by
    ext i
    constructor
    · rintro ⟨p, hp, hQ⟩
      exact ⟨p, (h i p (hP p ((hPQ p).2 hQ))).2 hp, (hPQ p).2 hQ⟩
    · rintro ⟨p, hp, hp'⟩
      exact ⟨p, (h i p (hP p hp')).1 hp, (hPQ p).1 hp'⟩
  obtain ⟨p, hp, hp'⟩ := hf.least.1
  refine ⟨hset ▸ hf.least, ?_⟩
  rw [(h _ p (hP p hp')).1 hp, ← hf.signature_eq, hp]

/-- **Pairs of the other scheme play no part.** -/
theorem AlikeIn.find_eq (publicKey : Bytes) :
    m'.find scheme publicKey = m.find scheme publicKey := by
  rcases hr : m.find scheme publicKey with e | - | f
  · obtain ⟨rfl, hid, hcon⟩ := find_eq_error_iff.1 hr
    exact find_eq_error_iff.2 ⟨rfl, fun hid' => hid (h.symm.identified hid'), h.contested hcon⟩
  · refine find_eq_none_iff.2 fun p hp => ?_
    have hnone := find_eq_none_iff.1 hr
    exact ⟨fun hident => (hnone p (h.symm.mem hident.scheme_eq hp)).1 hident,
      fun habbr => (hnone p (h.symm.mem habbr.scheme_eq hp)).2 habbr⟩
  · rcases find_eq_some_iff.1 hr with hfirst | ⟨hid, hcon, hfirst⟩
    · have hfirst := h.isFirst (fun _ => Iff.rfl) (fun _ hp => hp.scheme_eq) hfirst
      exact find_eq_some_iff.2 (.inl hfirst)
    · refine find_eq_some_iff.2 (.inr ⟨fun hid' => hid (h.symm.identified hid'),
        fun hcon' => hcon (h.symm.contested hcon'), ?_⟩)
      exact h.isFirst (fun _ => ⟨h.longest, h.symm.longest⟩)
        (fun _ hp => hp.abbreviates.scheme_eq) hfirst

end AlikeIn

/-! ## The specification -/

/-- **What a search finds.**  It finds the first pair that identifies the public key.  If there is
none and two pairs that abbreviate it disagree, then it fails and names the public key.  Otherwise
it finds the first of the pairs that abbreviate it by the most, and if there is none of these either
then it finds nothing.  Pairs of the other scheme do not matter, and neither does what has been
used. -/
theorem find_specified (m : SignatureMap) (scheme : Scheme) (publicKey : Bytes) :
    (∀ f, m.find scheme publicKey = .ok (some f) ↔
      m.IsFirst (·.Identifies scheme publicKey) f ∨
        ¬ m.Identified scheme publicKey ∧ ¬ m.Contested scheme publicKey ∧
          m.IsFirst (m.Longest scheme publicKey) f) ∧
      (∀ e, m.find scheme publicKey = .error e ↔
        e = .keyPrefixMismatch publicKey ∧ ¬ m.Identified scheme publicKey ∧
          m.Contested scheme publicKey) ∧
      (m.find scheme publicKey = .ok none ↔
        ∀ p ∈ m, ¬ p.Identifies scheme publicKey ∧ ¬ p.Abbreviates scheme publicKey) ∧
      (∀ m', AlikeIn scheme m m' → m'.find scheme publicKey = m.find scheme publicKey) ∧
      ∀ s : Supply, s.map = m →
        (∀ i, (s.markUsed i).2.map.find scheme publicKey = m.find scheme publicKey) ∧
        (∀ make ks, (matchKeys make ks s).2.map.find scheme publicKey = m.find scheme publicKey) ∧
        s.sweep.2.map.find scheme publicKey = m.find scheme publicKey ∧
        s.reset.map.find scheme publicKey = m.find scheme publicKey := by
  refine ⟨fun f => find_eq_some_iff, fun e => find_eq_error_iff, find_eq_none_iff,
    fun m' h => h.find_eq publicKey, ?_⟩
  rintro s rfl
  simp

/-- The longest prefix decides, and the first of two that are equally long; a complete prefix of
another public key is no prefix of this one. -/
example :
    let m : SignatureMap :=
      [⟨[7], .ed25519, [1]⟩, ⟨[7, 7], .ecdsaSecp256k1, [2]⟩, ⟨[7, 7], .ed25519, [1]⟩,
        ⟨.replicate 32 7, .ed25519, [3]⟩, ⟨[7, 7], .ed25519, [1]⟩]
    m.find .ed25519 (.replicate 33 7) = .ok (some ⟨2, [1]⟩) ∧
      m.find .ed25519 (.replicate 32 7) = .ok (some ⟨3, [3]⟩) := by
  decide

end SignatureMap

end Countersign
