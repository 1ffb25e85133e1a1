import Countersign.Signature.Supply

/-!
# Which pair is chosen

The pair that is taken for a public key can be described without the search for it: it is the first
that names the public key, and if there is none, the first of the longest among those that hint at
it, provided that all of these carry the same signature.

## What is here

* `SignatureMap.Choice` — the four ways in which a lookup ends, each with what the map must look like.
* `SignatureMap.split_of_longest?`, `SignatureMap.exists_ne_of_longest?` — the choice among the pairs
  that hint, and why there may be none.
* `SignatureMap.choice_find` — a lookup ends in one of the four ways.
-/

set_option autoImplicit false

namespace Countersign

namespace SignatureMap

/-- How a lookup of a public key ends, by what the pairs of the map look like. -/
inductive Choice (m : SignatureMap) (scheme : Scheme) (publicKey : Bytes) :
    Except MatchError (Option Found) → Prop
  /-- The first pair that names the public key is chosen. -/
  | named {before after : List SignaturePair} {p : SignaturePair}
      (hm : m = before ++ p :: after) (hp : p.names scheme publicKey = true)
      (hbefore : ∀ q ∈ before, q.names scheme publicKey = false) :
      Choice m scheme publicKey (.ok (some ⟨before.length, p.signature⟩))
  /-- No pair names it, and the first of the longest that hint at it is chosen. -/
  | hinted {before after : List SignaturePair} {p : SignaturePair}
      (hnone : ∀ q ∈ m, q.names scheme publicKey = false)
      (hm : m = before ++ p :: after) (hp : p.hints scheme publicKey = true)
      (hbefore : ∀ q ∈ before, q.hints scheme publicKey = true →
        q.keyPrefix.length < p.keyPrefix.length)
      (hafter : ∀ q ∈ after, q.hints scheme publicKey = true →
        q.keyPrefix.length ≤ p.keyPrefix.length)
      (hsame : ∀ q ∈ m, q.hints scheme publicKey = true → q.signature = p.signature) :
      Choice m scheme publicKey (.ok (some ⟨before.length, p.signature⟩))
  /-- No pair names it, and two that hint at it disagree. -/
  | ambiguous {p q : SignaturePair} (hnone : ∀ q ∈ m, q.names scheme publicKey = false)
      (hpm : p ∈ m) (hqm : q ∈ m) (hp : p.hints scheme publicKey = true)
      (hq : q.hints scheme publicKey = true) (hne : p.signature ≠ q.signature) :
      Choice m scheme publicKey (.error (.keyPrefixMismatch publicKey))
  /-- No pair names it, and none hints at it. -/
  | absent (hnone : ∀ q ∈ m, q.names scheme publicKey = false)
      (hno : ∀ q ∈ m, q.hints scheme publicKey = false) : Choice m scheme publicKey (.ok none)

/-! ## Among candidates -/

/-- What is chosen is longer than all that stand before it, no shorter than those behind it, and
carries the signature of all. -/
theorem split_of_longest? {best c : SignaturePair × Nat} {cs : List (SignaturePair × Nat)}
    (h : longest? best cs = some c) :
    ∃ before after, best :: cs = before ++ c :: after ∧
      (∀ d ∈ before, d.1.keyPrefix.length < c.1.keyPrefix.length) ∧
      (∀ d ∈ after, d.1.keyPrefix.length ≤ c.1.keyPrefix.length) ∧
      ∀ d ∈ best :: cs, d.1.signature = c.1.signature := by
  induction cs generalizing best with
  | nil =>
    obtain rfl : best = c := by simpa [longest?] using h
    exact ⟨[], [], rfl, by simp, by simp, by simp⟩
  | cons d cs ih =>
    rw [longest?] at h
    split at h
    · simp at h
    next hsame =>
    have hsame : best.1.signature = d.1.signature := by simpa using hsame
    split at h
    · next hle =>
      -- `d` is passed over: it stands behind `best`, whether or not `best` is the choice
      obtain ⟨before, after, hsplit, hbefore, hafter, hsigs⟩ := ih h
      have hbest := hsigs best List.mem_cons_self
      have hall : ∀ e ∈ best :: d :: cs, e.1.signature = c.1.signature :=
        List.forall_mem_cons.2 ⟨hbest, List.forall_mem_cons.2
          ⟨hsame ▸ hbest, fun e he => hsigs e (List.mem_cons_of_mem _ he)⟩⟩
      rcases List.cons_eq_append_iff.1 hsplit with ⟨rfl, heq⟩ | ⟨rest, rfl, rfl⟩
      · obtain ⟨rfl, rfl⟩ := List.cons.inj heq
        exact ⟨[], _, rfl, by simp, List.forall_mem_cons.2 ⟨hle, hafter⟩, hall⟩
      · obtain ⟨hlt, hrest⟩ := List.forall_mem_cons.1 hbefore
        exact ⟨best :: d :: rest, after, rfl,
          List.forall_mem_cons.2 ⟨hlt, List.forall_mem_cons.2 ⟨Nat.lt_of_le_of_lt hle hlt, hrest⟩⟩,
          hafter, hall⟩
    · next hlt =>
      obtain ⟨before, after, hsplit, hbefore, hafter, hsigs⟩ := ih h
      have hle : d.1.keyPrefix.length ≤ c.1.keyPrefix.length := by
        have hd : d ∈ before ++ c :: after := hsplit ▸ List.mem_cons_self
        rcases List.mem_append.1 hd with hd | hd
        · exact Nat.le_of_lt (hbefore d hd)
        · rcases List.mem_cons.1 hd with rfl | hd
          · exact Nat.le_refl _
          · exact hafter d hd
      exact ⟨best :: before, after, congrArg _ hsplit,
        List.forall_mem_cons.2 ⟨Nat.lt_of_lt_of_le (Nat.lt_of_not_le hlt) hle, hbefore⟩, hafter,
        List.forall_mem_cons.2 ⟨hsame.trans (hsigs d List.mem_cons_self), hsigs⟩⟩

/-- If nothing is chosen then one of the candidates disagrees with the first. -/
theorem exists_ne_of_longest? {best : SignaturePair × Nat} {cs : List (SignaturePair × Nat)}
    (h : longest? best cs = none) : ∃ d ∈ cs, best.1.signature ≠ d.1.signature := by
  induction cs generalizing best with
  | nil => simp [longest?] at h
  | cons d cs ih =>
    rw [longest?] at h
    split at h
    · next hne => exact ⟨d, List.mem_cons_self, hne⟩
    next hsame =>
    have hsame : best.1.signature = d.1.signature := by simpa using hsame
    split at h
    · obtain ⟨e, he, hne⟩ := ih h
      exact ⟨e, List.mem_cons_of_mem _ he, hne⟩
    · obtain ⟨e, he, hne⟩ := ih h
      exact ⟨e, List.mem_cons_of_mem _ he, hsame ▸ hne⟩

/-! ## In a map -/

variable {m : SignatureMap} {scheme : Scheme} {publicKey : Bytes}

/-- A numbered element stands behind as many others as its number says. -/
theorem split_of_zipIdx {α : Type} {l : List α} {before after : List (α × Nat)} {a : α} {i : Nat}
    (h : l.zipIdx = before ++ (a, i) :: after) :
    l = before.map Prod.fst ++ a :: after.map Prod.fst ∧ i = (before.map Prod.fst).length := by
  constructor
  · rw [← List.zipIdx_map_fst 0 l, h, List.map_append, List.map_cons]
  · have hget : l.zipIdx[before.length]? = some (a, i) := by rw [h]; simp
    rw [List.getElem?_zipIdx] at hget
    obtain ⟨b, -, hb⟩ := Option.map_eq_some_iff.1 hget
    rw [List.length_map]
    simpa using (congrArg Prod.snd hb).symm

/-- **A lookup ends in one of the four ways.** -/
theorem choice_find (m : SignatureMap) (scheme : Scheme) (publicKey : Bytes) :
    m.Choice scheme publicKey (m.find scheme publicKey) := by
  rw [find]
  split
  · next p i hfirst =>
    obtain ⟨hp, before, after, hsplit, hbefore⟩ := List.find?_eq_some_iff_append.1 hfirst
    obtain ⟨hm, rfl⟩ := split_of_zipIdx hsplit
    exact .named hm hp (List.forall_mem_map.2 fun c hc => by simpa using hbefore c hc)
  · next hnone =>
    have hnone : ∀ q ∈ m, q.names scheme publicKey = false := by
      intro q hq
      obtain ⟨i, hi, rfl⟩ := List.getElem_of_mem hq
      have hmem : (m[i], i) ∈ m.zipIdx :=
        List.mem_zipIdx_iff_getElem?.2 (List.getElem?_eq_getElem hi)
      simpa using List.find?_eq_none.1 hnone _ hmem
    have hmem {q : SignaturePair} (hq : q ∈ m) (hh : q.hints scheme publicKey = true) :
        ∃ i, (q, i) ∈ m.zipIdx.filter fun c => c.1.hints scheme publicKey := by
      obtain ⟨i, hi, rfl⟩ := List.getElem_of_mem hq
      exact ⟨i, List.mem_filter.2
        ⟨List.mem_zipIdx_iff_getElem?.2 (List.getElem?_eq_getElem hi), hh⟩⟩
    split
    · next hnil =>
      refine .absent hnone fun q hq => Bool.eq_false_iff.2 fun hh => ?_
      obtain ⟨i, hi⟩ := hmem hq hh
      rw [hnil] at hi
      cases hi
    · next c cs hcs =>
      rw [hcs] at hmem
      split
      · next p i hlong =>
        obtain ⟨before, after, hsplit, hbefore, hafter, hsigs⟩ := split_of_longest? hlong
        -- the candidates before the choice are those among the pairs before it
        obtain ⟨l₁, l₂, hl, rfl, hrest⟩ := List.filter_eq_append_iff.1 (hcs.trans hsplit)
        obtain ⟨l₃, l₄, rfl, hno, hp, rfl⟩ := List.filter_eq_cons_iff.1 hrest
        rw [← List.append_assoc] at hl
        obtain ⟨hm, rfl⟩ := split_of_zipIdx hl
        refine .hinted hnone hm hp (List.forall_mem_map.2 fun d hd hh => ?_)
          (List.forall_mem_map.2 fun d hd hh => hafter d (List.mem_filter.2 ⟨hd, hh⟩))
          fun q hq hh => ?_
        · rcases List.mem_append.1 hd with hd | hd
          · exact hbefore d (List.mem_filter.2 ⟨hd, hh⟩)
          · exact absurd hh (hno d hd)
        · obtain ⟨j, hj⟩ := hmem hq hh
          exact hsigs (q, j) hj
      · next hlong =>
        obtain ⟨d, hd, hne⟩ := exists_ne_of_longest? hlong
        have of_candidate {e : SignaturePair × Nat} (he : e ∈ c :: cs) :
            e.1 ∈ m ∧ e.1.hints scheme publicKey = true := by
          rw [← hcs] at he
          exact (List.mem_filter.1 he).imp_left List.fst_mem_of_mem_zipIdx
        obtain ⟨hcm, hc⟩ := of_candidate List.mem_cons_self
        obtain ⟨hdm, hd⟩ := of_candidate (List.mem_cons_of_mem _ hd)
        exact .ambiguous hnone hcm hdm hc hd hne

end SignatureMap

end Countersign
