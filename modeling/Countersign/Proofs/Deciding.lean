import Countersign.Proofs.Precedence
import Countersign.Proofs.Satisfaction

/-!
# What matching decides

A public key has a signature among those supplied, or it lacks one, or the prefixes that fit it
dispute which signature it has.  A key that is matched is satisfied by the public keys that have a
signature, and a key that is refused because one is lacking is not satisfied.  Only a dispute leaves
this open: it ends the matching even where enough other children would satisfy a threshold.

## What is here

* `SignatureMap.Finds`, `SignatureMap.Disputes` — a public key has a signature, or it is disputed.
* `SignatureMap.satisfiedBy_finds` — a key that is matched is satisfied.
* `SignatureMap.Refusal` — what the error of a key that is not matched tells about the key, with one
  lemma a kind of key.
* `exists_matchKeys_iff`, `agree_matchKeys` — the verdict on a list of keys, which does not depend on
  what has been used.
* `matchKeys_decides` — matching decides whether a list of keys is satisfied.
-/

set_option autoImplicit false

namespace Countersign

namespace SignatureMap

variable {m : SignatureMap} {scheme : Scheme} {pk : Bytes} {e : MatchError}

/-! ## Public keys -/

/-- There is a signature for the public key. -/
def Finds (m : SignatureMap) (scheme : Scheme) (publicKey : Bytes) : Prop :=
  ∃ f, m.find scheme publicKey = .ok (some f)

/-- The prefixes that fit the public key carry different signatures. -/
def Disputes (m : SignatureMap) (scheme : Scheme) (publicKey : Bytes) : Prop :=
  m.find scheme publicKey = .error (.keyPrefixMismatch publicKey)

/-- The search for a public key fails in one way only, and names the public key. -/
theorem eq_of_find_eq_error (h : m.find scheme pk = .error e) : e = .keyPrefixMismatch pk := by
  have hchoice := m.choice_find scheme pk
  rw [h] at hchoice
  cases hchoice
  rfl

/-! ## Keys that are matched -/

/-- **A key that is matched is satisfied** by the public keys that have a signature. -/
theorem satisfiedBy_finds {k : Key} {found : List Matched} (h : m.satisfy k = .ok found) :
    k.SatisfiedBy m.Finds := by
  refine (satisfiedBy_of_satisfy k h).imp fun p _ hp => ?_
  obtain ⟨f, hf⟩ := hp
  exact ⟨f, (stands_of_satisfy k h _ hf).1⟩

/-! ## Keys that are not -/

/-- What the error of a key tells that has these public keys and is not matched: one of them is
disputed, or else the key is not satisfied. -/
inductive Refusal (m : SignatureMap) (leaves : List (Scheme × Bytes)) (satisfied : Prop) :
    MatchError → Prop
  | lacking (scheme : Scheme) (pk : Bytes) (h : ¬ satisfied) :
      Refusal m leaves satisfied (.missingSignature scheme pk)
  | disputed {scheme : Scheme} {pk : Bytes} (hmem : (scheme, pk) ∈ leaves)
      (h : m.Disputes scheme pk) : Refusal m leaves satisfied (.keyPrefixMismatch pk)

theorem Refusal.imp {leaves leaves' : List (Scheme × Bytes)} {satisfied satisfied' : Prop}
    (h : m.Refusal leaves satisfied e) (hsub : leaves ⊆ leaves') (himp : satisfied' → satisfied) :
    m.Refusal leaves' satisfied' e := by
  cases h with
  | lacking scheme pk hnot => exact .lacking scheme pk fun hsat => hnot (himp hsat)
  | disputed hmem hdis => exact .disputed (hsub hmem) hdis

theorem refusal_of_satisfyLeaf (h : m.satisfyLeaf scheme pk = .error e) :
    m.Refusal [(scheme, pk)] (m.Finds scheme pk) e := by
  rw [satisfyLeaf] at h
  rcases hfind : m.find scheme pk with e' | - | f <;> rw [hfind] at h
  · obtain rfl := Except.error.inj h
    obtain rfl := eq_of_find_eq_error hfind
    exact .disputed List.mem_cons_self hfind
  · obtain rfl := Except.error.inj h
    refine .lacking scheme pk ?_
    rintro ⟨f, hf⟩
    rw [hfind] at hf
    cases hf
  · cases h

/-- The error that a tally keeps is that of a child which lacks a signature. -/
theorem firstMissing_of_tally {ks : List Key} {t : Tally} (h : m.tally ks = .ok t)
    (he : t.firstMissing = some e) : ∃ scheme pk, e = .missingSignature scheme pk := by
  induction ks generalizing t with
  | nil =>
    obtain rfl := Except.ok.inj h
    cases he
  | cons k ks ih =>
    obtain ⟨rest, hr, ⟨here, -, rfl⟩ | ⟨scheme, pk, -, rfl⟩⟩ := tally_cons_eq_ok h
    · exact ih hr he
    · exact ⟨scheme, pk, (Option.some.inj he).symm⟩

/-- A threshold that is not reached lacks a signature, even if it asks for more children than there
are. -/
theorem lacking_of_reach {required : UInt32} {ks : List Key} {t : Tally} (ht : m.tally ks = .ok t)
    (h : reach required ks t = .error e) :
    (∃ scheme pk, e = .missingSignature scheme pk) ∧ t.satisfied < required.toNat := by
  rw [reach] at h
  split at h
  · cases h
  · next hshort =>
    obtain rfl := Except.error.inj h
    refine ⟨?_, Nat.lt_of_not_le hshort⟩
    cases hfirst : t.firstMissing with
    | some e => exact firstMissing_of_tally ht hfirst
    | none =>
      change ∃ scheme pk, oversized ks = .missingSignature scheme pk
      rw [oversized]
      split
      · exact ⟨_, _, rfl⟩
      · exact ⟨_, _, rfl⟩

mutual

/-- **A key that is not matched is not satisfied**, unless one of its public keys is disputed. -/
theorem refusal_of_satisfy : ∀ (k : Key) {e : MatchError}, m.satisfy k = .error e →
    m.Refusal k.primitives (k.SatisfiedBy m.Finds) e
  | .ed25519 _, _, h => refusal_of_satisfyLeaf h
  | .ecdsaSecp256k1 _, _, h => refusal_of_satisfyLeaf h
  | .contractId _, _, h => nomatch h
  | .delegatableContractId _, _, h => nomatch h
  | .threshold required ks, e, h => by
    rw [satisfy] at h
    rcases ht : m.tally ks with e' | t <;> rw [ht] at h
    · obtain rfl := Except.error.inj h
      exact (refusal_of_tally ks ht).imp (List.Subset.refl _) fun _ => trivial
    · obtain ⟨⟨scheme, pk, rfl⟩, hshort⟩ := lacking_of_reach ht h
      refine .lacking scheme pk fun hsat => ?_
      exact Nat.not_le_of_lt hshort (le_satisfied_of_tally ks ht hsat)
  | .keyList ks, _, h => refusal_of_satisfyAll ks h

theorem refusal_of_satisfyAll : ∀ (ks : List Key) {e : MatchError}, m.satisfyAll ks = .error e →
    m.Refusal (Key.primitivesOfAll ks) (Key.AllSatisfiedBy m.Finds ks) e
  | [], _, h => nomatch h
  | k :: ks, e, h => by
    rw [satisfyAll] at h
    rcases hk : m.satisfy k with e' | here <;> rw [hk] at h
    · obtain rfl := Except.error.inj h
      exact (refusal_of_satisfy k hk).imp (List.subset_append_left _ _) And.left
    · rcases hks : m.satisfyAll ks with e' | more <;> rw [hks] at h
      · obtain rfl := Except.error.inj h
        exact (refusal_of_satisfyAll ks hks).imp (List.subset_append_right _ _) And.right
      · cases h

/-- Only a dispute ends a tally. -/
theorem refusal_of_tally : ∀ (ks : List Key) {e : MatchError}, m.tally ks = .error e →
    m.Refusal (Key.primitivesOfAll ks) True e
  | [], _, h => nomatch h
  | k :: ks, _, h => by
    rcases tally_cons_eq_error h with ⟨pk, rfl, hk⟩ | hr
    · cases refusal_of_satisfy k hk with
      | disputed hmem hdis => exact .disputed (List.subset_append_left _ _ hmem) hdis
    · exact (refusal_of_tally ks hr).imp (List.subset_append_right _ _) id

/-- No more children can be satisfied than a tally has counted. -/
theorem le_satisfied_of_tally : ∀ (ks : List Key) {t : Tally} {n : Nat}, m.tally ks = .ok t →
    Key.AtLeastSatisfied m.Finds n ks → n ≤ t.satisfied
  | _, _, 0, _, _ => Nat.zero_le _
  | [], _, _ + 1, _, hn => nomatch hn
  | k :: ks, t, n + 1, h, hn => by
    obtain ⟨rest, hr, ⟨here, -, rfl⟩ | ⟨scheme, pk, hk, rfl⟩⟩ := tally_cons_eq_ok h
    · rcases hn with ⟨-, hn⟩ | hn
      · exact Nat.succ_le_succ (le_satisfied_of_tally ks hr hn)
      · exact Nat.le_succ_of_le (le_satisfied_of_tally ks hr hn)
    · -- a child that lacks a signature is not one of those that are satisfied
      rcases hn with ⟨hsat, -⟩ | hn
      · cases refusal_of_satisfy k hk with
        | lacking _ _ hnot => exact absurd hsat hnot
      · have hle := le_satisfied_of_tally ks hr hn
        exact hle

end

/-- A key that lacks a signature is not satisfied. -/
theorem not_satisfiedBy_of_missing {k : Key} (h : m.satisfy k = .error (.missingSignature scheme pk)) :
    ¬ k.SatisfiedBy m.Finds := by
  cases refusal_of_satisfy k h with
  | lacking _ _ hnot => exact hnot

/-- Where nothing is disputed, the keys that are matched are those that are satisfied. -/
theorem exists_satisfy_iff {k : Key} (h : ∀ p ∈ k.primitives, ¬ m.Disputes p.1 p.2) :
    (∃ found, m.satisfy k = .ok found) ↔ k.SatisfiedBy m.Finds := by
  constructor
  · rintro ⟨found, hfound⟩
    exact satisfiedBy_finds hfound
  · intro hsat
    rcases hk : m.satisfy k with e | found
    · cases refusal_of_satisfy k hk with
      | lacking _ _ hnot => exact absurd hsat hnot
      | disputed hmem hdis => exact absurd hdis (h _ hmem)
    · exact ⟨found, rfl⟩

end SignatureMap

/-! ## A list of keys -/

section matchKeys

variable {make : SignatureMaker} {ks : List Key} {s : Supply}

/-- A list of keys is matched when each of them is. -/
theorem exists_matchKeys_iff :
    (∃ sigs, (matchKeys make ks s).1 = .ok sigs) ↔
      ∀ k ∈ ks, ∃ found, s.map.satisfy k = .ok found := by
  rw [← SignatureMap.exists_satisfyAll_iff]
  constructor
  · rintro ⟨sigs, h⟩
    obtain ⟨found, hfound, -⟩ := matchKeys_eq_ok_iff.1 (Prod.ext h rfl)
    exact ⟨found, hfound⟩
  · rintro ⟨found, hfound⟩
    exact ⟨_, congrArg Prod.fst (matchKeys_eq_ok_iff.2 ⟨found, hfound, rfl⟩)⟩

/-- The verdict goes by the pairs, and not by which of them have been used. -/
theorem agree_matchKeys {make' : SignatureMaker} {s' : Supply} (hmap : s'.map = s.map) :
    Except.Agree (fun _ _ => True) (matchKeys make ks s).1 (matchKeys make' ks s').1 := by
  rcases h : (matchKeys make ks s).1 with e | sigs
  · have h' : (matchKeys make' ks s').1 = .error e := by
      rw [matchKeys_fst_eq_error_iff, hmap]
      exact matchKeys_fst_eq_error_iff.1 h
    rw [h']
    exact .error e
  · have hall := exists_matchKeys_iff.1 ⟨sigs, h⟩
    rw [← hmap] at hall
    obtain ⟨sigs', h'⟩ : ∃ sigs', (matchKeys make' ks s').1 = .ok sigs' :=
      exists_matchKeys_iff.2 hall
    rw [h']
    exact .ok trivial

end matchKeys

/-- **Matching decides whether keys are satisfied.**  If a list of keys is matched then each of them
is satisfied by the public keys that have a signature.  Otherwise the error is that of the first key
that is not matched, and all keys before it are satisfied: either a signature is missing and the key is
not satisfied, or the error names a public key of it that is disputed.  So where nothing is disputed the
list is matched exactly if every key is satisfied.  What has been used does not matter. -/
theorem matchKeys_decides (make : SignatureMaker) (ks : List Key) (s : Supply) :
    (∀ sigs, (matchKeys make ks s).1 = .ok sigs → ∀ k ∈ ks, k.SatisfiedBy s.map.Finds) ∧
      (∀ e, (matchKeys make ks s).1 = .error e →
        ∃ before k after, ks = before ++ k :: after ∧
          (∀ b ∈ before, (∃ found, s.map.satisfy b = .ok found) ∧ b.SatisfiedBy s.map.Finds) ∧
          s.map.satisfy k = .error e ∧
          (e.status = .invalidSignature → ¬ k.SatisfiedBy s.map.Finds) ∧
          (e.status = .keyPrefixMismatch →
            ∃ scheme, (scheme, e.publicKey) ∈ k.primitives ∧ s.map.Disputes scheme e.publicKey)) ∧
      ((∀ k ∈ ks, ∀ p ∈ k.primitives, ¬ s.map.Disputes p.1 p.2) →
        ((∃ sigs, (matchKeys make ks s).1 = .ok sigs) ↔ ∀ k ∈ ks, k.SatisfiedBy s.map.Finds)) ∧
      ∀ (make' : SignatureMaker) (s' : Supply), s'.map = s.map →
        Except.Agree (fun _ _ => True) (matchKeys make ks s).1 (matchKeys make' ks s').1 := by
  refine ⟨fun sigs h k hk => ?_, fun e h => ?_, fun hnone => ?_, fun _ _ => agree_matchKeys⟩
  · obtain ⟨found, hfound⟩ := exists_matchKeys_iff.1 ⟨sigs, h⟩ k hk
    exact SignatureMap.satisfiedBy_finds hfound
  · obtain ⟨before, k, after, hks, hbefore, hk⟩ :=
      SignatureMap.satisfyAll_eq_error_iff.1 (matchKeys_fst_eq_error_iff.1 h)
    refine ⟨before, k, after, hks, fun b hb => ?_, hk, ?_, ?_⟩
    · obtain ⟨found, hfound⟩ := hbefore b hb
      exact ⟨⟨found, hfound⟩, SignatureMap.satisfiedBy_finds hfound⟩
    · intro hstatus
      cases SignatureMap.refusal_of_satisfy k hk with
      | lacking _ _ hnot => exact hnot
      | disputed => cases hstatus
    · intro hstatus
      cases SignatureMap.refusal_of_satisfy k hk with
      | lacking => cases hstatus
      | disputed hmem hdis => exact ⟨_, hmem, hdis⟩
  · rw [exists_matchKeys_iff]
    constructor
    · intro hall k hk
      exact (SignatureMap.exists_satisfy_iff (hnone k hk)).1 (hall k hk)
    · intro hall k hk
      exact (SignatureMap.exists_satisfy_iff (hnone k hk)).2 (hall k hk)

/-- One child is asked for and has a signature, but the other is disputed. -/
example :
    let m : SignatureMap := [⟨[1], .ed25519, [9]⟩, ⟨[2], .ed25519, [8]⟩, ⟨[2, 3], .ed25519, [7]⟩]
    let k : Key := .threshold 1 [.ed25519 [1], .ed25519 [2, 3, 4]]
    m.satisfy k = .error (.keyPrefixMismatch [2, 3, 4]) ∧ k.SatisfiedBy m.Finds :=
  ⟨rfl, .inl ⟨⟨_, rfl⟩, trivial⟩⟩

end Countersign
