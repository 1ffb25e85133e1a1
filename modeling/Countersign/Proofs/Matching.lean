import Countersign.Proofs.Choice
import Countersign.Signature.Matching

/-!
# What matching finds

A match pairs a public key of the required key with a supplied signature, and the pair it stands for
either names that public key or has an incomplete prefix that fits it.  Matching a list of keys is
matching all of them first and using up the signatures found afterwards: what is found does not
depend on what has been used.

## What is here

* `SignaturePair.Fits` — the pair names the public key or has an incomplete prefix that fits it.
* `SignatureMap.exists_pair_of_find` — the signature that is found belongs to a pair that fits.
* `Matched.Stands` — a match is what the map finds for its public key.
* `SignatureMap.stands_of_satisfy` — so is every match for a key, and its public key is one of the
  key.
* `matchKeys_eq_ok_iff`, `matchKeys_fst_eq_error_iff` — a list of keys is matched in two steps.
* `Supply.used_markUsed_iff`, `Supply.used_consume_iff` — which pairs are used afterwards.
-/

set_option autoImplicit false

namespace Countersign

/-! ## Pairs that fit a public key -/

namespace SignaturePair

/-- The pair names the public key, or has an incomplete prefix that fits it. -/
structure Fits (p : SignaturePair) (scheme : Scheme) (publicKey : Bytes) : Prop where
  scheme_eq : p.scheme = scheme
  isPrefix : p.keyPrefix <+: publicKey
  eq_of_full : p.hasFullPrefix = true → p.keyPrefix = publicKey

variable {p : SignaturePair} {scheme : Scheme} {publicKey : Bytes}

theorem fits_of_names (h : p.names scheme publicKey = true) : p.Fits scheme publicKey := by
  simp only [names, Bool.and_eq_true, beq_iff_eq] at h
  obtain ⟨⟨hs, -⟩, hk⟩ := h
  exact ⟨hs, hk ▸ List.prefix_rfl, fun _ => hk⟩

theorem fits_of_hints (h : p.hints scheme publicKey = true) : p.Fits scheme publicKey := by
  simp only [hints, Bool.and_eq_true, beq_iff_eq, Bool.not_eq_true', List.isPrefixOf_iff_prefix] at h
  obtain ⟨⟨hs, hfull⟩, hk⟩ := h
  exact ⟨hs, hk, fun hf => absurd hf (by simp [hfull])⟩

end SignaturePair

namespace SignatureMap

variable {m : SignatureMap}

/-- **What is found is the signature of a pair that fits.** -/
theorem exists_pair_of_find {scheme : Scheme} {publicKey : Bytes} {f : Found}
    (h : m.find scheme publicKey = .ok (some f)) :
    ∃ p, m[f.index]? = some p ∧ p.signature = f.signature ∧ p.Fits scheme publicKey := by
  have hchoice := m.choice_find scheme publicKey
  rw [h] at hchoice
  cases hchoice with
  | @named before after p hm hp => exact ⟨p, by simp [hm], rfl, SignaturePair.fits_of_names hp⟩
  | @hinted before after p _ hm hp => exact ⟨p, by simp [hm], rfl, SignaturePair.fits_of_hints hp⟩

end SignatureMap

/-! ## Matches for a key -/

/-- The match is what a map finds for its public key. -/
def Matched.Stands (x : Matched) (m : SignatureMap) : Prop :=
  m.find x.scheme x.publicKey = .ok (some x.found)

namespace SignatureMap

variable {m : SignatureMap}

theorem satisfyLeaf_eq_ok_iff {scheme : Scheme} {pk : Bytes} {found : List Matched} :
    m.satisfyLeaf scheme pk = .ok found ↔
      ∃ f, m.find scheme pk = .ok (some f) ∧ found = [⟨scheme, pk, f⟩] := by
  rw [satisfyLeaf]
  rcases m.find scheme pk with e | - | f <;> simp [eq_comm]

theorem reach_eq_ok_iff {required : UInt32} {ks : List Key} {t : Tally} {found : List Matched} :
    reach required ks t = .ok found ↔ required.toNat ≤ t.satisfied ∧ found = t.matched := by
  rw [reach]
  split
  · next h => simp [h, eq_comm]
  · next h => simp [h]

theorem satisfy_threshold_eq_ok_iff {required : UInt32} {ks : List Key} {found : List Matched} :
    m.satisfy (.threshold required ks) = .ok found ↔
      ∃ t, m.tally ks = .ok t ∧ required.toNat ≤ t.satisfied ∧ found = t.matched := by
  rw [satisfy]
  rcases m.tally ks with e | t <;> simp [reach_eq_ok_iff]

theorem satisfyAll_cons_eq_ok_iff {k : Key} {ks : List Key} {found : List Matched} :
    m.satisfyAll (k :: ks) = .ok found ↔
      ∃ here more, m.satisfy k = .ok here ∧ m.satisfyAll ks = .ok more ∧ found = here ++ more := by
  rw [satisfyAll]
  rcases m.satisfy k with e | here
  · simp
  · rcases m.satisfyAll ks with e | more <;> simp [eq_comm]

@[simp] theorem satisfyAll_singleton (m : SignatureMap) (k : Key) :
    m.satisfyAll [k] = m.satisfy k := by
  rw [satisfyAll]
  rcases m.satisfy k with e | here <;> simp [satisfyAll]

/-- A list is tallied child by child: a satisfied one is counted with what was found for it, and one
that lacks a signature leaves its error. -/
theorem tally_cons_eq_ok {k : Key} {ks : List Key} {t : Tally} (h : m.tally (k :: ks) = .ok t) :
    ∃ rest, m.tally ks = .ok rest ∧
      ((∃ here, m.satisfy k = .ok here ∧
          t = { rest with satisfied := rest.satisfied + 1, matched := here ++ rest.matched }) ∨
        ∃ scheme pk, m.satisfy k = .error (.missingSignature scheme pk) ∧
          t = { rest with firstMissing := some (.missingSignature scheme pk) }) := by
  rw [tally] at h
  rcases hk : m.satisfy k with (⟨scheme, pk⟩ | pk) | here <;> rw [hk] at h
  · rcases hr : m.tally ks with e | rest <;> rw [hr] at h
    · simp at h
    · exact ⟨rest, rfl, .inr ⟨scheme, pk, rfl, (Except.ok.inj h).symm⟩⟩
  · simp at h
  · rcases hr : m.tally ks with e | rest <;> rw [hr] at h
    · simp at h
    · exact ⟨rest, rfl, .inl ⟨here, rfl, (Except.ok.inj h).symm⟩⟩

/-- The error of a tally is that of the child, if prefixes contradict each other there, or that of the
tally of the others. -/
theorem tally_cons_eq_error {k : Key} {ks : List Key} {e : MatchError}
    (h : m.tally (k :: ks) = .error e) :
    (∃ pk, e = .keyPrefixMismatch pk ∧ m.satisfy k = .error (.keyPrefixMismatch pk)) ∨
      m.tally ks = .error e := by
  rw [tally] at h
  rcases hk : m.satisfy k with (⟨scheme, pk⟩ | pk) | here <;> rw [hk] at h
  · rcases hr : m.tally ks with e' | rest <;> rw [hr] at h
    · exact .inr h
    · simp at h
  · exact .inl ⟨pk, (Except.error.inj h).symm, rfl⟩
  · rcases hr : m.tally ks with e' | rest <;> rw [hr] at h
    · exact .inr h
    · simp at h

mutual

/-- Every match for a key is what the map finds for one of the key's public keys. -/
theorem stands_of_satisfy : ∀ (k : Key) {found : List Matched}, m.satisfy k = .ok found →
    ∀ x ∈ found, x.Stands m ∧ (x.scheme, x.publicKey) ∈ k.primitives
  | .ed25519 pk, found, h => by
    obtain ⟨f, hf, rfl⟩ := satisfyLeaf_eq_ok_iff.1 h
    simpa [Key.primitives, Matched.Stands] using hf
  | .ecdsaSecp256k1 pk, found, h => by
    obtain ⟨f, hf, rfl⟩ := satisfyLeaf_eq_ok_iff.1 h
    simpa [Key.primitives, Matched.Stands] using hf
  | .contractId _, found, h => by
    obtain rfl := Except.ok.inj h
    simp
  | .delegatableContractId _, found, h => by
    obtain rfl := Except.ok.inj h
    simp
  | .threshold _ ks, found, h => by
    obtain ⟨t, ht, -, rfl⟩ := satisfy_threshold_eq_ok_iff.1 h
    exact stands_of_tally ks ht
  | .keyList ks, found, h => stands_of_satisfyAll ks h

theorem stands_of_satisfyAll : ∀ (ks : List Key) {found : List Matched},
    m.satisfyAll ks = .ok found →
    ∀ x ∈ found, x.Stands m ∧ (x.scheme, x.publicKey) ∈ Key.primitivesOfAll ks
  | [], found, h => by
    obtain rfl := Except.ok.inj h
    simp
  | k :: ks, found, h => by
    obtain ⟨here, more, hk, hks, rfl⟩ := satisfyAll_cons_eq_ok_iff.1 h
    intro x hx
    rw [Key.primitivesOfAll]
    rcases List.mem_append.1 hx with hx | hx
    · exact (stands_of_satisfy k hk x hx).imp_right (List.mem_append_left _)
    · exact (stands_of_satisfyAll ks hks x hx).imp_right (List.mem_append_right _)

theorem stands_of_tally : ∀ (ks : List Key) {t : Tally}, m.tally ks = .ok t →
    ∀ x ∈ t.matched, x.Stands m ∧ (x.scheme, x.publicKey) ∈ Key.primitivesOfAll ks
  | [], t, h => by
    obtain rfl := Except.ok.inj h
    simp
  | k :: ks, t, h => by
    obtain ⟨rest, hr, ⟨here, hk, rfl⟩ | ⟨-, -, -, rfl⟩⟩ := tally_cons_eq_ok h
    · intro x hx
      rw [Key.primitivesOfAll]
      rcases List.mem_append.1 hx with hx | hx
      · exact (stands_of_satisfy k hk x hx).imp_right (List.mem_append_left _)
      · exact (stands_of_tally ks hr x hx).imp_right (List.mem_append_right _)
    · intro x hx
      rw [Key.primitivesOfAll]
      exact (stands_of_tally ks hr x hx).imp_right (List.mem_append_right _)

end

end SignatureMap

/-! ## A list of keys -/

namespace Supply

variable {s : Supply}

/-- Using a signature up does not change the pairs. -/
@[simp] theorem map_markUsed (s : Supply) (i : Nat) : (s.markUsed i).2.map = s.map := by
  rw [markUsed]
  split
  · next e he =>
    split
    · rfl
    · refine List.ext_getElem? fun j => ?_
      simp only [map, List.getElem?_map, List.getElem?_set]
      split
      · next h => subst h; split <;> simp_all
      · rfl
  · rfl

@[simp] theorem map_sweep (s : Supply) : s.sweep.2.map = s.map := by
  rw [sweep, map, map, List.map_map]
  refine List.map_congr_left fun e _ => ?_
  rw [Function.comp_apply]
  split <;> rfl

end Supply

variable {make : SignatureMaker}

@[simp] theorem map_consume (make : SignatureMaker) (found : List Matched) (s : Supply) :
    (consume make found s).2.map = s.map := by
  induction found generalizing s with
  | nil => rfl
  | cons x found ih =>
    rw [consume]
    exact (ih _).trans (s.map_markUsed _)

/-- One match yields one signature, or none if its pair has been used. -/
theorem consume_cons (x : Matched) (found : List Matched) (s : Supply) :
    consume make (x :: found) s =
      ((if (s.markUsed x.found.index).1 then
          [make x.scheme x.publicKey x.found.signature] else []) ++
          (consume make found (s.markUsed x.found.index).2).1,
        (consume make found (s.markUsed x.found.index).2).2) := by
  rw [consume]
  rcases s.markUsed x.found.index with ⟨_ | _, s'⟩ <;> rfl

theorem consume_append (found more : List Matched) (s : Supply) :
    consume make (found ++ more) s =
      ((consume make found s).1 ++ (consume make more (consume make found s).2).1,
        (consume make more (consume make found s).2).2) := by
  induction found generalizing s with
  | nil => rfl
  | cons x found ih =>
    rw [List.cons_append, consume_cons, consume_cons, ih, List.append_assoc]

@[simp] theorem map_matchKeys (make : SignatureMaker) (ks : List Key) (s : Supply) :
    (matchKeys make ks s).2.map = s.map := by
  induction ks generalizing s with
  | nil => rfl
  | cons k ks ih =>
    rw [matchKeys]
    split
    · rfl
    · next found _ =>
      have h := (ih (consume make found s).2).trans (map_consume make found s)
      dsimp only
      split <;> next heq => rwa [heq] at h

theorem map_eq_of_matchKeys {ks : List Key} {s s' : Supply}
    {result : Except MatchError (List PlatformSignature)} (h : matchKeys make ks s = (result, s')) :
    s'.map = s.map := by
  rw [← map_matchKeys make ks s, h]

/-- **A list of keys is matched in two steps**: all of them are satisfied by the pairs, used or not,
and then the signatures found are used up. -/
theorem matchKeys_eq_ok_iff {ks : List Key} {s s' : Supply} {sigs : List PlatformSignature} :
    matchKeys make ks s = (.ok sigs, s') ↔
      ∃ found, s.map.satisfyAll ks = .ok found ∧ consume make found s = (sigs, s') := by
  induction ks generalizing s sigs s' with
  | nil => simp [matchKeys, SignatureMap.satisfyAll, consume]
  | cons k ks ih =>
    rw [matchKeys]
    simp only [SignatureMap.satisfyAll_cons_eq_ok_iff]
    rcases s.map.satisfy k with e | here
    · simp
    · simp only [Except.ok.injEq]
      have ih' : ∀ {more s''}, matchKeys make ks (consume make here s).2 = (.ok more, s'') ↔
          ∃ found, s.map.satisfyAll ks = .ok found ∧
            consume make found (consume make here s).2 = (more, s'') := by
        intro more s''
        rw [ih, map_consume]
      constructor
      · intro h
        rcases hrest : matchKeys make ks (consume make here s).2 with ⟨e | more, s''⟩
        · simp [hrest] at h
        · obtain ⟨found, hfound, hcons⟩ := ih'.1 hrest
          simp only [hrest, Prod.mk.injEq, Except.ok.injEq] at h
          obtain ⟨rfl, rfl⟩ := h
          exact ⟨_, ⟨here, found, rfl, hfound, rfl⟩, by rw [consume_append, hcons]⟩
      · rintro ⟨_, ⟨_, more, rfl, hmore, rfl⟩, h⟩
        rw [consume_append] at h
        obtain ⟨rfl, rfl⟩ := Prod.mk.inj h
        simp only [ih'.2 ⟨more, hmore, rfl⟩]

/-- **A list of keys is not matched if it is not satisfied**, whatever has been used. -/
theorem matchKeys_fst_eq_error_iff {ks : List Key} {s : Supply} {e : MatchError} :
    (matchKeys make ks s).1 = .error e ↔ s.map.satisfyAll ks = .error e := by
  induction ks generalizing s with
  | nil => simp [matchKeys, SignatureMap.satisfyAll]
  | cons k ks ih =>
    rw [matchKeys, SignatureMap.satisfyAll]
    rcases s.map.satisfy k with e' | here
    · simp
    · have hrest := ih (s := (consume make here s).2)
      rw [map_consume] at hrest
      rcases hm : matchKeys make ks (consume make here s).2 with ⟨e' | more, s''⟩ <;>
        rcases hs : s.map.satisfyAll ks with e'' | found <;> simp_all

section one

variable {key : Key} {s s' : Supply}

theorem exists_satisfy_of_matchKeys {sigs : List PlatformSignature}
    (hm : matchKeys make [key] s = (.ok sigs, s')) : ∃ found, s.map.satisfy key = .ok found := by
  obtain ⟨found, hfound, -⟩ := matchKeys_eq_ok_iff.1 hm
  exact ⟨found, by rwa [SignatureMap.satisfyAll_singleton] at hfound⟩

theorem satisfy_eq_error_of_matchKeys {e : MatchError}
    (hm : matchKeys make [key] s = (.error e, s')) : s.map.satisfy key = .error e := by
  rw [← SignatureMap.satisfyAll_singleton]
  exact matchKeys_fst_eq_error_iff.1 (by rw [hm])

end one

/-! ## Flags -/

namespace Supply

theorem length_flags (s : Supply) : s.flags.length = s.map.length := by
  simp [flags, map]

@[simp] theorem flags_markUsed (s : Supply) (i : Nat) :
    (s.markUsed i).2.flags = s.flags.set i true := by
  have flags_get (j : Nat) : s.flags[j]? = s.entries[j]?.map (·.used) := List.getElem?_map
  rw [markUsed]
  split
  · next e he =>
    split
    · next hused =>
      -- setting a flag that is set already changes nothing
      refine List.ext_getElem? fun j => ?_
      rw [List.getElem?_set]
      split
      · next h =>
        subst h
        have hlt : i < s.flags.length := by
          have := (List.getElem?_eq_some_iff.1 he).1
          simpa [flags] using this
        rw [if_pos hlt, flags_get, he, Option.map_some, hused]
      · rfl
    · simp [flags, List.map_set]
  · next he =>
    rw [List.set_eq_of_length_le]
    rw [flags, List.length_map]
    exact List.getElem?_eq_none_iff.1 he

/-- A pair counts as used up now if it is there and has not been used before. -/
theorem markUsed_fst (s : Supply) (i : Nat) :
    (s.markUsed i).1 = true ↔ s.flags[i]? = some false := by
  rw [markUsed, flags, List.getElem?_map]
  rcases s.entries[i]? with - | e
  · simp
  · cases hused : e.used <;> simp [hused]

variable {s : Supply}

theorem used_markUsed_iff {i j : Nat} (hi : i < s.flags.length) :
    (s.markUsed i).2.flags[j]? = some true ↔ s.flags[j]? = some true ∨ i = j := by
  rw [flags_markUsed, List.getElem?_set]
  by_cases h : i = j
  · subst h
    simp [hi]
  · simp [h]

theorem lt_length_of_stands {x : Matched} (hx : x.Stands s.map) :
    x.found.index < s.flags.length := by
  obtain ⟨p, hp, -⟩ := SignatureMap.exists_pair_of_find hx
  rw [length_flags]
  exact (List.getElem?_eq_some_iff.1 hp).1

/-- A pair that is there and is not used up now has been used before. -/
theorem used_of_not_fresh {i : Nat} (hi : i < s.flags.length) (h : ¬ (s.markUsed i).1 = true) :
    s.flags[i]? = some true := by
  rw [markUsed_fst, List.getElem?_eq_getElem hi] at h
  rw [List.getElem?_eq_getElem hi]
  simpa using h

/-- **What is used after a matching** was used before or has been matched. -/
theorem used_consume_iff (make : SignatureMaker) {found : List Matched}
    (hfound : ∀ x ∈ found, x.Stands s.map) {i : Nat} :
    (consume make found s).2.flags[i]? = some true ↔
      s.flags[i]? = some true ∨ ∃ x ∈ found, x.found.index = i := by
  induction found generalizing s with
  | nil => simp [consume]
  | cons x found ih =>
    rw [List.forall_mem_cons] at hfound
    rw [consume_cons, ih (by simpa using hfound.2),
      used_markUsed_iff (lt_length_of_stands hfound.1), or_assoc]
    simp

end Supply

end Countersign
