import Countersign.Proofs.Lookups

/-!
# Asking once more

A reference that is linked already is not linked again, and a key whose signatures have been used
yields none when it is required again.  So a pass comes to the same if it asks once more for what the
run has had before.

## What is here

* `Drops` — one list is another with some occurrences of an element dropped.
* `LinkedRefs.linkEach_of_drops` — linking a reference more often than once.
* `LinkedRefs.only` — some of the linked references, with `LinkedRefs.only_linkEach`.
* `Supply.Spent` — the pairs found for a key have been used; `spent_of_matchKeys` says that a matching
  of the key brings this about.
* `matchKeys_eq_of_drops` — matching a key whose pairs have been used.
-/

set_option autoImplicit false

namespace Countersign

/-! ## Dropping an element -/

/-- The second list is the first with some occurrences of `a` dropped. -/
inductive Drops {α : Type} (a : α) : List α → List α → Prop
  | nil : Drops a [] []
  | keep {l l' : List α} (b : α) (h : Drops a l l') : Drops a (b :: l) (b :: l')
  | drop {l l' : List α} (h : Drops a l l') : Drops a (a :: l) l'

namespace Drops

variable {α : Type} {a : α}

theorem refl (l : List α) : Drops a l l := by
  induction l with
  | nil => exact .nil
  | cons b l ih => exact .keep b ih

theorem append_left (m : List α) {l l' : List α} (h : Drops a l l') : Drops a (m ++ l) (m ++ l') := by
  induction m with
  | nil => exact h
  | cons b m ih => exact .keep b ih

end Drops

/-! ## Linked references -/

namespace LinkedRefs

variable {v : View} {p : EntityRef → Bool}

/-- The linked references that `p` accepts. -/
def only (l : LinkedRefs) (p : EntityRef → Bool) : LinkedRefs :=
  ⟨l.refs.filter fun e => p e.1⟩

theorem contains_only {l : LinkedRefs} {ref : EntityRef} (h : p ref = true) :
    (l.only p).contains ref = l.contains ref := by
  rw [contains, only, List.any_filter, contains]
  refine congrArg (List.any l.refs) (funext fun e => ?_)
  by_cases he : e.1 = ref
  · simp [he, h]
  · simp [beq_eq_false_iff_ne.2 he]

theorem only_link (l : LinkedRefs) (ref : EntityRef) (version : Version) :
    (l.link ref version).only p = if p ref then (l.only p).link ref version else l.only p := by
  cases hp : p ref with
  | false =>
    rw [link]
    split
    · simp
    · simp [only, hp]
  | true =>
    rw [if_pos rfl, link, link, contains_only hp]
    split
    · rfl
    · simp [only, hp]

/-- Linking and then selecting is selecting and then linking. -/
theorem only_linkEach (refs : List EntityRef) (l : LinkedRefs) :
    (linkEach v refs l).only p = linkEach v (refs.filter p) (l.only p) := by
  induction refs generalizing l with
  | nil => rfl
  | cons ref refs ih =>
    change (linkEach v refs (l.link ref (v.marker ref))).only p = _
    rw [ih, only_link]
    cases hp : p ref with
    | false => rw [if_neg (by simp), List.filter_cons_of_neg (by simp [hp])]
    | true => rw [if_pos rfl, List.filter_cons_of_pos hp]; rfl

/-- Linking a reference once more changes nothing. -/
theorem linkEach_of_drops {l : LinkedRefs} {ref : EntityRef} {refs refs' : List EntityRef}
    (h : Drops ref refs refs') (hl : ref ∈ l.entities) : linkEach v refs l = linkEach v refs' l := by
  induction h generalizing l with
  | nil => rfl
  | keep b h ih => exact ih (entities_subset (l.prefix_link b _) hl)
  | drop h ih =>
    rw [← ih hl]
    change linkEach v _ (l.link ref _) = _
    rw [link, if_pos (contains_iff.2 hl)]

end LinkedRefs

/-! ## Matching a key once more -/

section matching

variable {make : SignatureMaker} {key : Key} {s s' : Supply} {sigs : List PlatformSignature}

/-- The pairs that are found for a key have been used. -/
def Supply.Spent (s : Supply) (key : Key) : Prop :=
  ∃ found, s.map.satisfy key = .ok found ∧ ∀ x ∈ found, s.flags[x.found.index]? = some true

theorem spent_of_matchKeys (hm : matchKeys make [key] s = (.ok sigs, s')) : s'.Spent key := by
  obtain ⟨found, hfound, hcons⟩ := matchKeys_eq_ok_iff.1 hm
  have hstands := SignatureMap.stands_of_satisfyAll [key] hfound
  have hmap := map_eq_of_matchKeys hm
  rw [SignatureMap.satisfyAll_singleton] at hfound
  refine ⟨found, by rw [hmap, hfound], fun x hx => ?_⟩
  have hused := (Supply.used_consume_iff make fun x hx => (hstands x hx).1).2 (.inr ⟨x, hx, rfl⟩)
  rwa [hcons] at hused

theorem Supply.Spent.consume (h : s.Spent key) {found : List Matched}
    (hfound : ∀ x ∈ found, x.Stands s.map) : (Countersign.consume make found s).2.Spent key := by
  obtain ⟨spent, hspent, hused⟩ := h
  refine ⟨spent, by rw [map_consume, hspent], fun x hx => ?_⟩
  exact (Supply.used_consume_iff make hfound).2 (.inl (hused x hx))

theorem Supply.markUsed_of_used {i : Nat} (h : s.flags[i]? = some true) :
    s.markUsed i = (false, s) := by
  rw [flags, List.getElem?_map] at h
  obtain ⟨e, he, hused⟩ := Option.map_eq_some_iff.1 h
  rw [markUsed, he]
  exact if_pos hused

/-- Used pairs yield no signatures. -/
theorem consume_of_used {found : List Matched}
    (hused : ∀ x ∈ found, s.flags[x.found.index]? = some true) : consume make found s = ([], s) := by
  induction found with
  | nil => rfl
  | cons x found ih =>
    rw [List.forall_mem_cons] at hused
    rw [consume_cons, Supply.markUsed_of_used hused.1, ih hused.2]
    rfl

/-- **A key whose pairs have been used can be required any number of times more.** -/
theorem matchKeys_eq_of_drops {ks ks' : List Key} (h : Drops key ks ks') (hs : s.Spent key) :
    matchKeys make ks s = matchKeys make ks' s := by
  induction h generalizing s with
  | nil => rfl
  | keep k h ih =>
    rw [matchKeys, matchKeys]
    cases hk : s.map.satisfy k with
    | error e => rfl
    | ok found =>
      have hstands := fun x hx => (SignatureMap.stands_of_satisfy k hk x hx).1
      simp only [ih (hs.consume hstands)]
  | drop h ih =>
    obtain ⟨found, hfound, hused⟩ := hs
    rw [matchKeys, hfound]
    simp only [consume_of_used hused, ih ⟨found, hfound, hused⟩]
    rcases matchKeys make _ s with ⟨e | more, s'⟩ <;> rfl

end matching

end Countersign
