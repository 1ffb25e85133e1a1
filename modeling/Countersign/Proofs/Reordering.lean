import Countersign.Ledger.Store
import Countersign.Proofs.Matching
import Countersign.Proofs.Runs
import Mathlib.Data.List.Forall2

/-!
# Signatures in another order

The order in which signatures come along does not matter.  Matching goes by positions, and in another
order it may well take another pair for the same public key; but then both pairs name that key in
full, and the sweep takes in the one that was not matched.  A pair with an incomplete prefix is always
the same, and is used at the same time.

## What is here

* `Matched.Alike` — matches over two maps that a run cannot tell apart, in the sense above.
* `SignatureMap.satisfy_perm` — a key gets the same verdict over both maps, with matches that are
  alike.
* `Supply.Aligned` — two supplies with the same pairs, the incomplete ones used alike.
* `Supply.Spends` — the signatures that come on the way from one state of a supply to another, apart
  from what a sweep would have brought anyway; `Supply.aligned_consume_one` is one step of a matching,
  and `Supply.aligned_consume` and `Supply.aligned_matchKeys` are whole ones.
* `Expansion.executeGuarded_reorder` — an expansion.
-/

set_option autoImplicit false

namespace Countersign

/-! ## Matches that are alike -/

/-- The match takes the pair `p` of a map, which stands behind the pairs `before`. -/
structure Matched.Takes (x : Matched) (m before : SignatureMap) (p : SignaturePair) : Prop where
  split : ∃ after, m = before ++ p :: after
  found_eq : x.found = ⟨before.length, p.signature⟩

/-- Two matches over two maps are alike: they are for the same public key, and both take a pair that
names it, or both take the first occurrence of one incomplete pair. -/
inductive Matched.Alike (m m' : SignatureMap) (x x' : Matched) : Prop
  | named {before before' : SignatureMap} {p p' : SignaturePair} (hscheme : x.scheme = x'.scheme)
      (hkey : x.publicKey = x'.publicKey) (hx : x.Takes m before p) (hx' : x'.Takes m' before' p')
      (hp : p.names x.scheme x.publicKey = true) (hp' : p'.names x'.scheme x'.publicKey = true)
  | hinted {before before' : SignatureMap} {p : SignaturePair} (hscheme : x.scheme = x'.scheme)
      (hkey : x.publicKey = x'.publicKey) (hx : x.Takes m before p) (hx' : x'.Takes m' before' p)
      (hp : p.hasFullPrefix = false) (hbefore : p ∉ before) (hbefore' : p ∉ before')

/-- Two tallies are alike: they count the same and miss the same, and their matches are alike. -/
structure Tally.Alike (m m' : SignatureMap) (t t' : Tally) : Prop where
  satisfied_eq : t.satisfied = t'.satisfied
  firstMissing_eq : t.firstMissing = t'.firstMissing
  matched : List.Forall₂ (Matched.Alike m m') t.matched t'.matched

/-! ## Pairs that are longest -/

namespace SignaturePair

variable {p q : SignaturePair} {scheme : Scheme} {publicKey : Bytes}

theorem hasFullPrefix_of_hints (h : p.hints scheme publicKey = true) : p.hasFullPrefix = false := by
  simp only [hints, Bool.and_eq_true, Bool.not_eq_true'] at h
  exact h.1.2

/-- Two pairs that hint at a public key are the same if they are equally long and carry the same
signature. -/
theorem eq_of_hints (hp : p.hints scheme publicKey = true) (hq : q.hints scheme publicKey = true)
    (hlen : p.keyPrefix.length = q.keyPrefix.length) (hsig : p.signature = q.signature) : p = q := by
  have hpf := fits_of_hints hp
  have hqf := fits_of_hints hq
  have hprefix : p.keyPrefix = q.keyPrefix :=
    (List.prefix_of_prefix_length_le hpf.isPrefix hqf.isPrefix (Nat.le_of_eq hlen)).eq_of_length hlen
  have hscheme : p.scheme = q.scheme := hpf.scheme_eq.trans hqf.scheme_eq.symm
  cases p
  cases q
  simp_all

end SignaturePair

/-! ## The verdict on a key -/

namespace SignatureMap

variable {m m' : SignatureMap}

/-- What is longer than all before it and no shorter than those behind it is the longest. -/
theorem length_le_of_split {scheme : Scheme} {publicKey : Bytes} {before after : SignatureMap}
    {p q : SignaturePair} (hm : m = before ++ p :: after) (hq : q ∈ m)
    (hbefore : ∀ r ∈ before, r.hints scheme publicKey = true →
      r.keyPrefix.length < p.keyPrefix.length)
    (hafter : ∀ r ∈ after, r.hints scheme publicKey = true →
      r.keyPrefix.length ≤ p.keyPrefix.length)
    (hh : q.hints scheme publicKey = true) : q.keyPrefix.length ≤ p.keyPrefix.length := by
  rw [hm, List.mem_append, List.mem_cons] at hq
  rcases hq with hq | rfl | hq
  · exact Nat.le_of_lt (hbefore q hq hh)
  · exact Nat.le_refl _
  · exact hafter q hq hh

/-- **One public key** gets the same verdict. -/
theorem satisfyLeaf_perm (h : m.Perm m') (scheme : Scheme) (publicKey : Bytes) :
    Except.Agree (List.Forall₂ (Matched.Alike m m')) (m.satisfyLeaf scheme publicKey)
      (m'.satisfyLeaf scheme publicKey) := by
  have mem_iff (q : SignaturePair) : q ∈ m ↔ q ∈ m' := h.mem_iff
  have hc := m.choice_find scheme publicKey
  have hc' := m'.choice_find scheme publicKey
  rw [satisfyLeaf, satisfyLeaf]
  generalize m.find scheme publicKey = r at hc ⊢
  generalize m'.find scheme publicKey = r' at hc' ⊢
  cases hc with
  | named hm hp =>
    cases hc' with
    | named hm' hp' =>
      exact .ok (.cons (.named rfl rfl ⟨⟨_, hm⟩, rfl⟩ ⟨⟨_, hm'⟩, rfl⟩ hp hp') .nil)
    | hinted hnone | ambiguous hnone | absent hnone =>
      rw [hnone _ ((mem_iff _).1 (by rw [hm]; simp))] at hp
      cases hp
  | @hinted before after p hnone hm hp hbefore hafter hsame =>
    have hpm : p ∈ m' := (mem_iff p).1 (by rw [hm]; simp)
    cases hc' with
    | named hm' hp' =>
      rw [hnone _ ((mem_iff _).2 (by rw [hm']; simp))] at hp'
      cases hp'
    | @hinted before' after' p' hnone' hm' hp' hbefore' hafter' hsame' =>
      have hpm' : p' ∈ m := (mem_iff p').2 (by rw [hm']; simp)
      have hlen : p.keyPrefix.length = p'.keyPrefix.length :=
        Nat.le_antisymm (length_le_of_split hm' hpm hbefore' hafter' hp)
          (length_le_of_split hm hpm' hbefore hafter hp')
      obtain rfl : p = p' := SignaturePair.eq_of_hints hp hp' hlen (hsame' p hpm hp)
      exact .ok (.cons (.hinted rfl rfl ⟨⟨_, hm⟩, rfl⟩ ⟨⟨_, hm'⟩, rfl⟩
        (SignaturePair.hasFullPrefix_of_hints hp) (fun hin => Nat.lt_irrefl _ (hbefore p hin hp))
        (fun hin => Nat.lt_irrefl _ (hbefore' p hin hp))) .nil)
    | ambiguous hnone' hqm hrm hq hr hne =>
      exact absurd ((hsame _ ((mem_iff _).2 hqm) hq).trans (hsame _ ((mem_iff _).2 hrm) hr).symm) hne
    | absent hnone' hno =>
      rw [hno p hpm] at hp
      cases hp
  | ambiguous hnone hqm hrm hq hr hne =>
    cases hc' with
    | named hm' hp' =>
      rw [hnone _ ((mem_iff _).2 (by rw [hm']; simp))] at hp'
      cases hp'
    | hinted hnone' hm' hp' hbefore' hafter' hsame' =>
      exact absurd
        ((hsame' _ ((mem_iff _).1 hqm) hq).trans (hsame' _ ((mem_iff _).1 hrm) hr).symm) hne
    | ambiguous => exact .error _
    | absent hnone' hno =>
      rw [hno _ ((mem_iff _).1 hqm)] at hq
      cases hq
  | absent hnone hno =>
    cases hc' with
    | named hm' hp' =>
      rw [hnone _ ((mem_iff _).2 (by rw [hm']; simp))] at hp'
      cases hp'
    | hinted hnone' hm' hp' =>
      rw [hno _ ((mem_iff _).2 (by rw [hm']; simp))] at hp'
      cases hp'
    | ambiguous hnone' hqm hrm hq =>
      rw [hno _ ((mem_iff _).2 hqm)] at hq
      cases hq
    | absent => exact .error _

theorem reach_agree {required : UInt32} {ks : List Key} {t t' : Tally} (h : t.Alike m m' t') :
    Except.Agree (List.Forall₂ (Matched.Alike m m')) (reach required ks t)
      (reach required ks t') := by
  rw [reach, reach, h.satisfied_eq, h.firstMissing_eq]
  split
  · exact .ok h.matched
  · exact .error _

mutual

/-- **A key gets the same verdict over a map in another order**, with matches that are alike. -/
theorem satisfy_perm (h : m.Perm m') : ∀ k : Key,
    Except.Agree (List.Forall₂ (Matched.Alike m m')) (m.satisfy k) (m'.satisfy k)
  | .ed25519 pk => satisfyLeaf_perm h .ed25519 pk
  | .ecdsaSecp256k1 pk => satisfyLeaf_perm h .ecdsaSecp256k1 pk
  | .contractId _ => .ok .nil
  | .delegatableContractId _ => .ok .nil
  | .threshold required ks => by
    have hks := tally_perm h ks
    rw [satisfy, satisfy]
    generalize m.tally ks = r at hks ⊢
    generalize m'.tally ks = r' at hks ⊢
    cases hks with
    | error e => exact .error e
    | ok ht => exact reach_agree ht
  | .keyList ks => satisfyAll_perm h ks

theorem satisfyAll_perm (h : m.Perm m') : ∀ ks : List Key,
    Except.Agree (List.Forall₂ (Matched.Alike m m')) (m.satisfyAll ks) (m'.satisfyAll ks)
  | [] => .ok .nil
  | k :: ks => by
    have hk := satisfy_perm h k
    have hks := satisfyAll_perm h ks
    rw [satisfyAll, satisfyAll]
    generalize m.satisfy k = r at hk ⊢
    generalize m'.satisfy k = r' at hk ⊢
    cases hk with
    | error e => exact .error e
    | ok hfound =>
      generalize m.satisfyAll ks = r at hks ⊢
      generalize m'.satisfyAll ks = r' at hks ⊢
      cases hks with
      | error e => exact .error e
      | ok hmore => exact .ok (List.rel_append hfound hmore)

theorem tally_perm (h : m.Perm m') : ∀ ks : List Key,
    Except.Agree (Tally.Alike m m') (m.tally ks) (m'.tally ks)
  | [] => .ok ⟨rfl, rfl, .nil⟩
  | k :: ks => by
    have hk := satisfy_perm h k
    have hks := tally_perm h ks
    rw [tally, tally]
    generalize m.satisfy k = r at hk ⊢
    generalize m'.satisfy k = r' at hk ⊢
    cases hk with
    | error e =>
      cases e with
      | keyPrefixMismatch pk => exact .error _
      | missingSignature scheme pk =>
        generalize m.tally ks = r at hks ⊢
        generalize m'.tally ks = r' at hks ⊢
        cases hks with
        | error e => exact .error e
        | ok ht => exact .ok ⟨ht.satisfied_eq, rfl, ht.matched⟩
    | ok hfound =>
      generalize m.tally ks = r at hks ⊢
      generalize m'.tally ks = r' at hks ⊢
      cases hks with
      | error e => exact .error e
      | ok ht =>
        exact .ok ⟨congrArg (· + 1) ht.satisfied_eq, ht.firstMissing_eq,
          List.rel_append hfound ht.matched⟩

end

end SignatureMap

/-! ## Supplies that are used alike -/

namespace Supply

/-- Whether the first occurrence of a pair has been used, if the pair is there. -/
def usedFirst? (s : Supply) (p : SignaturePair) : Option Bool :=
  (s.entries.find? fun e => e.pair == p).map (·.used)

/-- Two supplies hold the same pairs, and of each incomplete pair the first occurrence is used in both
or in neither. -/
structure Aligned (s s' : Supply) : Prop where
  perm : s.map.Perm s'.map
  usedFirst_eq : ∀ p : SignaturePair, p.hasFullPrefix = false → s.usedFirst? p = s'.usedFirst? p

/-- The signatures that come on the way from one state of a supply to another are `drawn`, up to order
and apart from those that a sweep would have brought before and no longer brings. -/
def Spends (make : SignatureMaker) (s s' : Supply) (sigs drawn : List PlatformSignature) : Prop :=
  (sigs ++ (sweepUnused make s').1).Perm (drawn ++ (sweepUnused make s).1)

theorem usedFirst?_ofMap (m : SignatureMap) (p : SignaturePair) :
    (ofMap m).usedFirst? p = if p ∈ m then some false else none := by
  induction m with
  | nil => rfl
  | cons q m ih =>
    rw [usedFirst?, ofMap, List.map_cons, List.find?_cons]
    by_cases h : q = p
    · simp [h]
    · rw [beq_eq_false_iff_ne.2 h]
      refine ih.trans (if_congr ?_ rfl rfl)
      rw [List.mem_cons, eq_comm (a := p), or_iff_right h]

theorem aligned_ofMap {m m' : SignatureMap} (h : m.Perm m') : (ofMap m).Aligned (ofMap m') where
  perm := by simpa using h
  usedFirst_eq p _ := by rw [usedFirst?_ofMap, usedFirst?_ofMap, if_congr h.mem_iff rfl rfl]

/-- A sweep brings the same signatures, up to order. -/
theorem perm_sweepUnused_ofMap (make : SignatureMaker) {m m' : SignatureMap} (h : m.Perm m') :
    (sweepUnused make (ofMap m)).1.Perm (sweepUnused make (ofMap m')).1 :=
  (((h.map _).filter _).map _).map _

variable {make : SignatureMaker} {s s' s'' : Supply}

theorem Spends.trans {sigs more drawn others : List PlatformSignature}
    (h : Spends make s s' sigs drawn) (h' : Spends make s' s'' more others) :
    Spends make s s'' (sigs ++ more) (drawn ++ others) := by
  rw [Spends, List.append_assoc, List.append_assoc]
  calc sigs ++ (more ++ (sweepUnused make s'').1)
      _ |>.Perm (sigs ++ (others ++ (sweepUnused make s').1)) := h'.append_left sigs
      _ |>.Perm (others ++ (sigs ++ (sweepUnused make s').1)) := List.perm_append_comm_assoc ..
      _ |>.Perm (others ++ (drawn ++ (sweepUnused make s).1)) := h.append_left others
      _ |>.Perm (drawn ++ (others ++ (sweepUnused make s).1)) := List.perm_append_comm_assoc ..

/-! ### One pair is used up -/

section split

variable {l₁ l₂ : List SuppliedPair} {p q : SignaturePair} {used : Bool}

theorem markUsed_split :
    (⟨l₁ ++ ⟨p, used⟩ :: l₂⟩ : Supply).markUsed l₁.length = (!used, ⟨l₁ ++ ⟨p, true⟩ :: l₂⟩) := by
  cases used <;> simp [markUsed]

/-- Another pair is used as before. -/
theorem usedFirst?_split_of_ne (h : p ≠ q) :
    (⟨l₁ ++ ⟨p, true⟩ :: l₂⟩ : Supply).usedFirst? q =
      (⟨l₁ ++ ⟨p, used⟩ :: l₂⟩ : Supply).usedFirst? q := by
  simp [usedFirst?, h]

theorem usedFirst?_split_self (h : p ∉ l₁.map (·.pair)) :
    (⟨l₁ ++ ⟨p, used⟩ :: l₂⟩ : Supply).usedFirst? p = some used := by
  have hnone : l₁.find? (fun e => e.pair == p) = none :=
    List.find?_eq_none.2 fun e he heq => h (List.mem_map.2 ⟨e, he, beq_iff_eq.1 heq⟩)
  simp [usedFirst?, hnone]

/-- Whether it comes from a match or from a sweep, the signature of a complete pair is the same. -/
theorem spends_full (h : p.hasFullPrefix = true) :
    Spends make ⟨l₁ ++ ⟨p, used⟩ :: l₂⟩ ⟨l₁ ++ ⟨p, true⟩ :: l₂⟩
      (if used then [] else [make p.scheme p.keyPrefix p.signature]) [] := by
  cases used
  · simpa [Spends, sweepUnused, sweep, isSweepable, h] using List.perm_middle.symm
  · simp [Spends]

/-- A sweep does not look at an incomplete pair. -/
theorem spends_partial (h : p.hasFullPrefix = false) (sigs : List PlatformSignature) :
    Spends make ⟨l₁ ++ ⟨p, used⟩ :: l₂⟩ ⟨l₁ ++ ⟨p, true⟩ :: l₂⟩ sigs sigs := by
  simp [Spends, sweepUnused, sweep, isSweepable, h]

/-- Using a match up splits the supply at its pair. -/
theorem consume_of_takes (make : SignatureMaker) {x : Matched} {before : SignatureMap}
    (hx : x.Takes s.map before p) :
    ∃ l₁ used l₂, s = ⟨l₁ ++ ⟨p, used⟩ :: l₂⟩ ∧ l₁.map (·.pair) = before ∧
      consume make [x] s =
        (if used then [] else [make x.scheme x.publicKey p.signature],
          ⟨l₁ ++ ⟨p, true⟩ :: l₂⟩) := by
  obtain ⟨⟨after, hsplit⟩, hfound⟩ := hx
  obtain ⟨l₁, rest, hs, rfl, hrest⟩ := List.map_eq_append_iff.1 hsplit
  obtain ⟨⟨pair, used⟩, l₂, rfl, rfl, -⟩ := List.map_eq_cons_iff.1 hrest
  obtain rfl : s = ⟨l₁ ++ ⟨pair, used⟩ :: l₂⟩ := congrArg Supply.mk hs
  refine ⟨l₁, used, l₂, rfl, rfl, ?_⟩
  rw [consume_cons, hfound, List.length_map, markUsed_split]
  cases used <;> rfl

/-- A match that takes a pair which names its public key spends nothing. -/
theorem spends_of_named (make : SignatureMaker) {x : Matched} {before : SignatureMap}
    (hx : x.Takes s.map before p) (hp : p.names x.scheme x.publicKey = true) :
    Spends make s (consume make [x] s).2 (consume make [x] s).1 [] ∧
      ∀ q : SignaturePair, q.hasFullPrefix = false →
        (consume make [x] s).2.usedFirst? q = s.usedFirst? q := by
  obtain ⟨l₁, used, l₂, rfl, -, hcons⟩ := consume_of_takes make hx
  obtain ⟨⟨hscheme, hfull⟩, hkey⟩ : (p.scheme = x.scheme ∧ p.hasFullPrefix = true) ∧
      p.keyPrefix = x.publicKey := by
    simpa [SignaturePair.names] using hp
  rw [hcons]
  refine ⟨?_, fun q hq => usedFirst?_split_of_ne fun heq => ?_⟩
  · rw [← hscheme, ← hkey]
    exact spends_full hfull
  · simp [← heq, hfull] at hq

end split

/-- **One match is used up.**  What it draws from an incomplete pair is the same in both supplies. -/
theorem aligned_consume_one (make : SignatureMaker) (h : s.Aligned s') {x x' : Matched}
    (hx : x.Alike s.map s'.map x') :
    (consume make [x] s).2.Aligned (consume make [x'] s').2 ∧
      ∃ drawn, Spends make s (consume make [x] s).2 (consume make [x] s).1 drawn ∧
        Spends make s' (consume make [x'] s').2 (consume make [x'] s').1 drawn := by
  have hperm : (consume make [x] s).2.map.Perm (consume make [x'] s').2.map := by
    rw [map_consume, map_consume]
    exact h.perm
  cases hx with
  | named _ _ hx hx' hp hp' =>
    obtain ⟨hspends, hsame⟩ := spends_of_named make hx hp
    obtain ⟨hspends', hsame'⟩ := spends_of_named make hx' hp'
    refine ⟨⟨hperm, fun q hq => ?_⟩, [], hspends, hspends'⟩
    rw [hsame q hq, hsame' q hq, h.usedFirst_eq q hq]
  | @hinted before before' p hscheme hkey hx hx' hp hbefore hbefore' =>
    obtain ⟨l₁, used, l₂, rfl, rfl, hcons⟩ := consume_of_takes make hx
    obtain ⟨l₁', used', l₂', rfl, rfl, hcons'⟩ := consume_of_takes make hx'
    -- the first occurrence of the pair has been used in both or in neither
    have hused : used = used' := by
      have heq := h.usedFirst_eq p hp
      rw [usedFirst?_split_self hbefore, usedFirst?_split_self hbefore'] at heq
      exact Option.some.inj heq
    rw [hcons, hcons'] at hperm ⊢
    refine ⟨⟨hperm, fun q hq => ?_⟩, _, spends_partial hp _, ?_⟩
    · by_cases hne : p = q
      · subst hne
        exact (usedFirst?_split_self hbefore).trans (usedFirst?_split_self hbefore').symm
      · exact (usedFirst?_split_of_ne hne).trans
          ((h.usedFirst_eq q hq).trans (usedFirst?_split_of_ne hne).symm)
    · rw [hused, hscheme, hkey]
      exact spends_partial hp _

/-- **Matches are used up one by one.** -/
theorem aligned_consume (make : SignatureMaker) (h : s.Aligned s') {found found' : List Matched}
    (hfound : List.Forall₂ (Matched.Alike s.map s'.map) found found') :
    (consume make found s).2.Aligned (consume make found' s').2 ∧
      ∃ drawn, Spends make s (consume make found s).2 (consume make found s).1 drawn ∧
        Spends make s' (consume make found' s').2 (consume make found' s').1 drawn := by
  induction found generalizing found' s s' with
  | nil =>
    cases hfound
    exact ⟨h, [], .rfl, .rfl⟩
  | cons x found ih =>
    obtain ⟨x', found', hx, hrest, rfl⟩ := List.forall₂_cons_left_iff.1 hfound
    obtain ⟨hstep, drawn, hd, hd'⟩ := aligned_consume_one make h hx
    obtain ⟨hall, others, ho, ho'⟩ := ih hstep (by simpa using hrest)
    have hsplit : consume make (x :: found) s = _ := consume_append [x] found s
    have hsplit' : consume make (x' :: found') s' = _ := consume_append [x'] found' s'
    rw [hsplit, hsplit']
    exact ⟨hall, _, hd.trans ho, hd'.trans ho'⟩

/-! ### A list of keys -/

/-- A list of keys that is not matched is not matched in another order either, for the same reason. -/
theorem aligned_matchKeys_error (h : s.Aligned s') {ks : List Key} {e : MatchError} {t : Supply}
    (hm : matchKeys make ks s = (.error e, t)) : ∃ t', matchKeys make ks s' = (.error e, t') := by
  have hagree := SignatureMap.satisfyAll_perm h.perm ks
  rw [matchKeys_fst_eq_error_iff.1 (congrArg Prod.fst hm)] at hagree
  generalize hr : s'.map.satisfyAll ks = r at hagree
  cases hagree with
  | error => exact ⟨_, Prod.ext (matchKeys_fst_eq_error_iff.2 hr) rfl⟩

/-- **A list of keys that is matched** is matched in another order as well, with signatures that are
the same apart from what a sweep makes good. -/
theorem aligned_matchKeys (h : s.Aligned s') {ks : List Key} {sigs : List PlatformSignature}
    {t : Supply} (hm : matchKeys make ks s = (.ok sigs, t)) :
    ∃ sigs' drawn t', matchKeys make ks s' = (.ok sigs', t') ∧ t.Aligned t' ∧
      Spends make s t sigs drawn ∧ Spends make s' t' sigs' drawn := by
  obtain ⟨found, hfound, hcons⟩ := matchKeys_eq_ok_iff.1 hm
  have hagree := SignatureMap.satisfyAll_perm h.perm ks
  rw [hfound] at hagree
  generalize hr : s'.map.satisfyAll ks = r at hagree
  cases hagree with
  | ok hfound =>
    obtain ⟨hal, drawn, hd, hd'⟩ := aligned_consume make h hfound
    rw [hcons] at hal hd
    exact ⟨_, drawn, _, matchKeys_eq_ok_iff.2 ⟨_, hr, rfl⟩, hal, hd, hd'⟩

end Supply

/-! ## An expansion -/

namespace Expansion

/-- **The order of the signatures does not matter.**  An expansion over the same pairs in another
order has the same outcome, apart from the signatures it hands on; and if it is finalized with a
sweep then these are the same up to order. -/
theorem executeGuarded_reorder (x : Expansion) {m m' : SignatureMap} (h : m.Perm m') :
    (x.executeGuarded (.ofMap m)).mapSignatures (fun _ => []) =
        (x.executeGuarded (.ofMap m')).mapSignatures (fun _ => []) ∧
      ((x.executeGuarded (.ofMap m)).stage = .finalized → x.sweep = true →
        ∃ sigs sigs', (x.executeGuarded (.ofMap m)).sigMeta.signatures? = some sigs ∧
          (x.executeGuarded (.ofMap m')).sigMeta.signatures? = some sigs' ∧ sigs.Perm sigs') := by
  have hal := Supply.aligned_ofMap h
  have hr := x.runs_run (.ofMap m)
  rw [executeGuarded, executeGuarded]
  generalize x.run (.ofMap m) = r at hr ⊢
  cases hr with
  | payerInterrupted hp =>
    rw [Runs.run_eq (.payerInterrupted hp)]
    exact ⟨rfl, nofun⟩
  | payerUnordered hp =>
    rw [Runs.run_eq (.payerUnordered hp)]
    exact ⟨rfl, nofun⟩
  | payerUnmatched hp hm =>
    obtain ⟨_, hm'⟩ := Supply.aligned_matchKeys_error hal hm
    rw [Runs.run_eq (.payerUnmatched hp hm')]
    exact ⟨rfl, nofun⟩
  | othersInterrupted hp hm ho =>
    obtain ⟨_, _, _, hm', -⟩ := Supply.aligned_matchKeys hal hm
    rw [Runs.run_eq (.othersInterrupted hp hm' ho)]
    exact ⟨rfl, nofun⟩
  | othersUnordered hp hm ho =>
    obtain ⟨_, _, _, hm', -⟩ := Supply.aligned_matchKeys hal hm
    rw [Runs.run_eq (.othersUnordered hp hm' ho)]
    exact ⟨rfl, nofun⟩
  | othersUnmatched hp hm ho hk =>
    obtain ⟨_, _, _, hm', hal', -⟩ := Supply.aligned_matchKeys hal hm
    obtain ⟨_, hk'⟩ := Supply.aligned_matchKeys_error hal' hk
    rw [Runs.run_eq (.othersUnmatched hp hm' ho hk')]
    exact ⟨rfl, nofun⟩
  | finalized hp hm ho hk =>
    obtain ⟨_, _, _, hm', hal', hd, hd'⟩ := Supply.aligned_matchKeys hal hm
    obtain ⟨_, _, _, hk', -, hd₂, hd₂'⟩ := Supply.aligned_matchKeys hal' hk
    rw [Runs.run_eq (.finalized hp hm' ho hk')]
    refine ⟨rfl, fun _ hsweep => ⟨_, _, rfl, rfl, ?_⟩⟩
    -- both are what was drawn from incomplete pairs, and what a sweep would have brought at first
    rw [swept, swept, if_pos hsweep, if_pos hsweep]
    have hswept := Supply.perm_sweepUnused_ofMap x.make h
    exact List.Perm.trans (hd.trans hd₂) ((hswept.append_left _).trans (hd'.trans hd₂').symm)

/-- Two pairs name the payer in full and disagree, and a third, which comes twice, only hints.  In
reverse order another of the disagreeing pairs is matched. -/
theorem executeGuarded_reorder_of_conflict :
    let key : Key := .keyList [.ed25519 (.replicate 32 7), .ed25519 (.replicate 32 8)]
    let x : Expansion :=
      { source := { view := (Store.fresh.run [.putAccount ⟨0, 0, 1001⟩ { key }]).view fun _ => false }
        body :=
          { payer := ⟨0, 0, 1001⟩, validStart := 1000, nodeAccount := ⟨0, 0, 3⟩, memo := ""
            operation := .cryptoTransfer [] [] }
        make := .over [] }
    let m : SignatureMap :=
      [⟨.replicate 32 7, .ed25519, [1]⟩, ⟨.replicate 32 7, .ed25519, [2]⟩, ⟨[8], .ed25519, [3]⟩,
        ⟨[8], .ed25519, [3]⟩]
    m.Perm m.reverse ∧ (x.executeGuarded (.ofMap m)).stage = .finalized ∧
      (x.executeGuarded (.ofMap m)).sigMeta.signatures? ≠
        (x.executeGuarded (.ofMap m.reverse)).sigMeta.signatures? ∧
      ∃ sigs sigs', (x.executeGuarded (.ofMap m)).sigMeta.signatures? = some sigs ∧
        (x.executeGuarded (.ofMap m.reverse)).sigMeta.signatures? = some sigs' ∧
          sigs.Perm sigs' := by
  intro key x m
  have hperm : m.Perm m.reverse := (List.reverse_perm m).symm
  have hstage : (x.executeGuarded (.ofMap m)).stage = .finalized := by decide
  exact ⟨hperm, hstage, by decide, (executeGuarded_reorder x hperm).2 hstage rfl⟩

end Expansion

end Countersign
