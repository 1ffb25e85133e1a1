import Countersign.Proofs.Deciding
import Countersign.Proofs.Seeking

/-!
# How far matching gets

Matching a list looks at its children up to the first that is not satisfied, and matching a
threshold looks at all of its children.  So not every public key of a key is looked at, and only one
that is can end the matching by a dispute.  An additional signature satisfies more, and by that it
lets matching go further: to a disputed public key that it did not come to before.

## What is here

* `Key.Reaches` — matching the key comes to look at a public key.
* `Key.congr_of_reached` — only public keys that are reached matter, for satisfaction and for what
  is reached.
* `SignatureMap.exists_satisfy_iff_reached` — a key is matched if it is satisfied and nothing
  disputed is reached.
* `SignatureMap.finds_insert_iff`, `SignatureMap.disputes_insert_iff` — what one more pair with a
  complete prefix changes for a public key.
* `matched_or_newly_reached_of_insert` — what it changes for a list of keys that is matched without
  it, and `not_forall_matched_of_insert`, that this can be a failure.
-/

set_option autoImplicit false

namespace Countersign

namespace Key

/-! ## What is reached -/

mutual

/-- Matching the key comes to look at this public key, when `leaf` says which public keys are
satisfied. -/
def Reaches (leaf : Scheme → Bytes → Prop) : Key → Scheme → Bytes → Prop
  | ed25519 pk, scheme, pk' => scheme = .ed25519 ∧ pk' = pk
  | ecdsaSecp256k1 pk, scheme, pk' => scheme = .ecdsaSecp256k1 ∧ pk' = pk
  | contractId _, _, _ => False
  | delegatableContractId _, _, _ => False
  | threshold _ ks, scheme, pk => ReachesAmong leaf ks scheme pk
  | keyList ks, scheme, pk => ReachesInTurn leaf ks scheme pk

/-- Each child is looked at. -/
def ReachesAmong (leaf : Scheme → Bytes → Prop) : List Key → Scheme → Bytes → Prop
  | [], _, _ => False
  | k :: ks, scheme, pk => Reaches leaf k scheme pk ∨ ReachesAmong leaf ks scheme pk

/-- A child is looked at if all before it are satisfied. -/
def ReachesInTurn (leaf : Scheme → Bytes → Prop) : List Key → Scheme → Bytes → Prop
  | [], _, _ => False
  | k :: ks, scheme, pk =>
    Reaches leaf k scheme pk ∨ SatisfiedBy leaf k ∧ ReachesInTurn leaf ks scheme pk

end

variable {leaf leaf' : Scheme → Bytes → Prop}

mutual

/-- **Only what is reached matters.**  Two ways to tell which public keys are satisfied come to the
same if they agree on those that are reached by one of them. -/
theorem congr_of_reached : ∀ {k : Key},
    (∀ scheme pk, k.Reaches leaf scheme pk → (leaf scheme pk ↔ leaf' scheme pk)) →
    (k.SatisfiedBy leaf ↔ k.SatisfiedBy leaf') ∧
      ∀ scheme pk, k.Reaches leaf scheme pk ↔ k.Reaches leaf' scheme pk
  | ed25519 _, h => ⟨h _ _ ⟨rfl, rfl⟩, fun _ _ => Iff.rfl⟩
  | ecdsaSecp256k1 _, h => ⟨h _ _ ⟨rfl, rfl⟩, fun _ _ => Iff.rfl⟩
  | contractId _, _ => ⟨Iff.rfl, fun _ _ => Iff.rfl⟩
  | delegatableContractId _, _ => ⟨Iff.rfl, fun _ _ => Iff.rfl⟩
  | threshold required _, h => (congr_of_reachedAmong h).imp_left fun hsat => hsat required.toNat
  | keyList _, h => congr_of_reachedInTurn h

theorem congr_of_reachedAmong : ∀ {ks : List Key},
    (∀ scheme pk, ReachesAmong leaf ks scheme pk → (leaf scheme pk ↔ leaf' scheme pk)) →
    (∀ n, AtLeastSatisfied leaf n ks ↔ AtLeastSatisfied leaf' n ks) ∧
      ∀ scheme pk, ReachesAmong leaf ks scheme pk ↔ ReachesAmong leaf' ks scheme pk
  | [], _ => ⟨fun n => by cases n <;> rfl, fun _ _ => Iff.rfl⟩
  | k :: ks, h => by
    have hks : ∀ scheme pk, ReachesAmong leaf ks scheme pk → (leaf scheme pk ↔ leaf' scheme pk) :=
      fun scheme pk hr => h scheme pk (.inr hr)
    obtain ⟨hsat, hreach⟩ := congr_of_reached (k := k) fun scheme pk hr => h scheme pk (.inl hr)
    obtain ⟨hsat', hreach'⟩ := congr_of_reachedAmong hks
    refine ⟨fun n => ?_, fun scheme pk => or_congr (hreach scheme pk) (hreach' scheme pk)⟩
    cases n with
    | zero => exact iff_of_true (atLeastSatisfied_zero _) (atLeastSatisfied_zero _)
    | succ n => exact or_congr (and_congr hsat (hsat' n)) (hsat' (n + 1))

theorem congr_of_reachedInTurn : ∀ {ks : List Key},
    (∀ scheme pk, ReachesInTurn leaf ks scheme pk → (leaf scheme pk ↔ leaf' scheme pk)) →
    (AllSatisfiedBy leaf ks ↔ AllSatisfiedBy leaf' ks) ∧
      ∀ scheme pk, ReachesInTurn leaf ks scheme pk ↔ ReachesInTurn leaf' ks scheme pk
  | [], _ => ⟨Iff.rfl, fun _ _ => Iff.rfl⟩
  | k :: ks, h => by
    obtain ⟨hsat, hreach⟩ := congr_of_reached (k := k) fun scheme pk hr => h scheme pk (.inl hr)
    by_cases hk : k.SatisfiedBy leaf
    · have hks : ∀ scheme pk, ReachesInTurn leaf ks scheme pk →
          (leaf scheme pk ↔ leaf' scheme pk) :=
        fun scheme pk hr => h scheme pk (.inr ⟨hk, hr⟩)
      obtain ⟨hsat', hreach'⟩ := congr_of_reachedInTurn hks
      exact ⟨and_congr hsat hsat',
        fun scheme pk => or_congr (hreach scheme pk) (and_congr hsat (hreach' scheme pk))⟩
    · -- nothing behind `k` is looked at, either way
      have hk' : ¬ k.SatisfiedBy leaf' := fun hk' => hk (hsat.2 hk')
      refine ⟨iff_of_false (fun hall => hk hall.1) (fun hall => hk' hall.1), fun scheme pk => ?_⟩
      refine or_congr (hreach scheme pk) (iff_of_false ?_ ?_)
      · exact fun hks => hk hks.1
      · exact fun hks => hk' hks.1

end

end Key

/-! ## Disputes that are reached -/

namespace SignatureMap

variable {m m' : SignatureMap} {scheme : Scheme} {pk : Bytes}

mutual

/-- **A dispute that ends the matching has been reached.** -/
theorem reaches_of_mismatch : ∀ (k : Key) {pk : Bytes},
    m.satisfy k = .error (.keyPrefixMismatch pk) →
    ∃ scheme, k.Reaches m.Finds scheme pk ∧ m.Disputes scheme pk
  | .ed25519 _, _, h => by
    cases refusal_of_satisfyLeaf h with
    | disputed hmem hdis =>
      obtain ⟨rfl, rfl⟩ := Prod.mk.inj (List.mem_singleton.1 hmem)
      exact ⟨_, ⟨rfl, rfl⟩, hdis⟩
  | .ecdsaSecp256k1 _, _, h => by
    cases refusal_of_satisfyLeaf h with
    | disputed hmem hdis =>
      obtain ⟨rfl, rfl⟩ := Prod.mk.inj (List.mem_singleton.1 hmem)
      exact ⟨_, ⟨rfl, rfl⟩, hdis⟩
  | .contractId _, _, h => nomatch h
  | .delegatableContractId _, _, h => nomatch h
  | .threshold required ks, _, h => by
    rw [satisfy] at h
    rcases ht : m.tally ks with e | t <;> rw [ht] at h
    · obtain rfl := Except.error.inj h
      exact reachesAmong_of_mismatch ks ht
    · obtain ⟨⟨_, _, he⟩, -⟩ := lacking_of_reach ht h
      cases he
  | .keyList ks, _, h => reachesInTurn_of_mismatch ks h

theorem reachesAmong_of_mismatch : ∀ (ks : List Key) {pk : Bytes},
    m.tally ks = .error (.keyPrefixMismatch pk) →
    ∃ scheme, Key.ReachesAmong m.Finds ks scheme pk ∧ m.Disputes scheme pk
  | [], _, h => nomatch h
  | k :: ks, _, h => by
    rcases tally_cons_eq_error h with ⟨_, he, hk⟩ | hks
    · cases he
      exact (reaches_of_mismatch k hk).imp fun _ hr => hr.imp_left .inl
    · exact (reachesAmong_of_mismatch ks hks).imp fun _ hr => hr.imp_left .inr

theorem reachesInTurn_of_mismatch : ∀ (ks : List Key) {pk : Bytes},
    m.satisfyAll ks = .error (.keyPrefixMismatch pk) →
    ∃ scheme, Key.ReachesInTurn m.Finds ks scheme pk ∧ m.Disputes scheme pk
  | [], _, h => nomatch h
  | k :: ks, _, h => by
    rw [satisfyAll] at h
    rcases hk : m.satisfy k with e | here <;> rw [hk] at h
    · obtain rfl := Except.error.inj h
      exact (reaches_of_mismatch k hk).imp fun _ hr => hr.imp_left .inl
    · rcases hks : m.satisfyAll ks with e | more <;> rw [hks] at h
      · obtain rfl := Except.error.inj h
        exact (reachesInTurn_of_mismatch ks hks).imp fun _ hr =>
          hr.imp_left fun hr => .inr ⟨satisfiedBy_finds hk, hr⟩
      · cases h

end

mutual

/-- **A dispute that is reached ends the matching**, if no other does. -/
theorem mismatch_of_reaches : ∀ (k : Key) {scheme : Scheme} {pk : Bytes},
    k.Reaches m.Finds scheme pk → m.Disputes scheme pk →
    ∃ pk', m.satisfy k = .error (.keyPrefixMismatch pk')
  | .ed25519 _, _, _, ⟨rfl, rfl⟩, hdis => ⟨_, by rw [satisfy, satisfyLeaf, hdis]⟩
  | .ecdsaSecp256k1 _, _, _, ⟨rfl, rfl⟩, hdis => ⟨_, by rw [satisfy, satisfyLeaf, hdis]⟩
  | .threshold _ ks, _, _, hr, hdis => by
    obtain ⟨pk', ht⟩ := mismatch_of_reachesAmong ks hr hdis
    exact ⟨pk', by rw [satisfy, ht]⟩
  | .keyList ks, _, _, hr, hdis => mismatch_of_reachesInTurn ks hr hdis

theorem mismatch_of_reachesAmong : ∀ (ks : List Key) {scheme : Scheme} {pk : Bytes},
    Key.ReachesAmong m.Finds ks scheme pk → m.Disputes scheme pk →
    ∃ pk', m.tally ks = .error (.keyPrefixMismatch pk')
  | k :: ks, _, _, .inl hr, hdis => by
    obtain ⟨pk', hk⟩ := mismatch_of_reaches k hr hdis
    exact ⟨pk', by rw [tally, hk]⟩
  | k :: ks, _, _, .inr hr, hdis => by
    obtain ⟨pk', hks⟩ := mismatch_of_reachesAmong ks hr hdis
    rw [tally, hks]
    rcases m.satisfy k with (⟨_, _⟩ | pk'') | here
    · exact ⟨pk', rfl⟩
    · exact ⟨pk'', rfl⟩
    · exact ⟨pk', rfl⟩

theorem mismatch_of_reachesInTurn : ∀ (ks : List Key) {scheme : Scheme} {pk : Bytes},
    Key.ReachesInTurn m.Finds ks scheme pk → m.Disputes scheme pk →
    ∃ pk', m.satisfyAll ks = .error (.keyPrefixMismatch pk')
  | k :: ks, _, _, .inl hr, hdis => by
    obtain ⟨pk', hk⟩ := mismatch_of_reaches k hr hdis
    exact ⟨pk', by rw [satisfyAll, hk]⟩
  | k :: ks, _, _, .inr ⟨hsat, hr⟩, hdis => by
    obtain ⟨pk', hks⟩ := mismatch_of_reachesInTurn ks hr hdis
    rw [satisfyAll, hks]
    rcases hk : m.satisfy k with (⟨_, _⟩ | pk'') | here
    · exact absurd hsat (not_satisfiedBy_of_missing hk)
    · exact ⟨pk'', rfl⟩
    · exact ⟨pk', rfl⟩

end

/-- **A key is matched exactly if it is satisfied and no dispute is reached.** -/
theorem exists_satisfy_iff_reached {k : Key} :
    (∃ found, m.satisfy k = .ok found) ↔
      k.SatisfiedBy m.Finds ∧
        ∀ scheme pk, k.Reaches m.Finds scheme pk → ¬ m.Disputes scheme pk := by
  constructor
  · rintro ⟨found, hfound⟩
    refine ⟨satisfiedBy_finds hfound, fun scheme pk hr hdis => ?_⟩
    obtain ⟨pk', he⟩ := mismatch_of_reaches k hr hdis
    rw [hfound] at he
    cases he
  · rintro ⟨hsat, hnone⟩
    rcases hk : m.satisfy k with (⟨_, _⟩ | pk) | found
    · exact absurd hsat (not_satisfiedBy_of_missing hk)
    · obtain ⟨scheme, hr, hdis⟩ := reaches_of_mismatch k hk
      exact absurd hdis (hnone scheme pk hr)
    · exact ⟨found, rfl⟩

/-! ## One more pair -/

theorem disputes_iff :
    m.Disputes scheme pk ↔ ¬ m.Identified scheme pk ∧ m.Contested scheme pk := by
  rw [Disputes, find_eq_error_iff, and_iff_right rfl]

theorem finds_iff :
    m.Finds scheme pk ↔ m.Identified scheme pk ∨
      ¬ m.Contested scheme pk ∧ ∃ q ∈ m, q.Abbreviates scheme pk := by
  constructor
  · rintro ⟨f, hf⟩
    rcases find_eq_some_iff.1 hf with hfirst | ⟨-, hcon, hfirst⟩
    · exact .inl hfirst.exists_mem
    · obtain ⟨q, hq, hlong⟩ := hfirst.exists_mem
      exact .inr ⟨hcon, q, hq, hlong.abbreviates⟩
  · rintro (hid | ⟨hcon, q, hq, habbr⟩)
    · obtain ⟨f, hf, -⟩ := find_of_identified hid
      exact ⟨f, hf⟩
    · by_cases hid : m.Identified scheme pk
      · obtain ⟨f, hf, -⟩ := find_of_identified hid
        exact ⟨f, hf⟩
      · rcases find_of_not_identified hid with ⟨-, hcon'⟩ | ⟨f, hf, -⟩ | ⟨-, hno⟩
        · exact absurd hcon' hcon
        · exact ⟨f, hf⟩
        · exact absurd habbr (hno q hq)

section insert

variable {p : SignaturePair} (hp : p.hasFullPrefix = true) (hm : ∀ q, q ∈ m' ↔ q = p ∨ q ∈ m)

include hp in
theorem not_abbreviates_of_hasFullPrefix : ¬ p.Abbreviates scheme pk := by
  rintro ⟨rfl, hlen, -⟩
  exact hlen (beq_iff_eq.1 hp)

include hm in
theorem identified_insert_iff :
    m'.Identified scheme pk ↔ p.Identifies scheme pk ∨ m.Identified scheme pk := by
  constructor
  · rintro ⟨q, hq, hident⟩
    rcases (hm q).1 hq with rfl | hq
    · exact .inl hident
    · exact .inr ⟨q, hq, hident⟩
  · rintro (hident | ⟨q, hq, hident⟩)
    · exact ⟨p, (hm p).2 (.inl rfl), hident⟩
    · exact ⟨q, (hm q).2 (.inr hq), hident⟩

include hp hm

/-- A pair that abbreviates a public key is none with a complete prefix. -/
theorem mem_insert_iff_of_abbreviates {q : SignaturePair} (habbr : q.Abbreviates scheme pk) :
    q ∈ m' ↔ q ∈ m := by
  rw [hm]
  refine or_iff_right ?_
  rintro rfl
  exact not_abbreviates_of_hasFullPrefix hp habbr

theorem contested_insert_iff : m'.Contested scheme pk ↔ m.Contested scheme pk := by
  have hmem {q : SignaturePair} (habbr : q.Abbreviates scheme pk) : q ∈ m' ↔ q ∈ m :=
    mem_insert_iff_of_abbreviates hp hm habbr
  constructor
  · rintro ⟨q, hq, q', hq', habbr, habbr', hne⟩
    exact ⟨q, (hmem habbr).1 hq, q', (hmem habbr').1 hq', habbr, habbr', hne⟩
  · rintro ⟨q, hq, q', hq', habbr, habbr', hne⟩
    exact ⟨q, (hmem habbr).2 hq, q', (hmem habbr').2 hq', habbr, habbr', hne⟩

/-- **One more pair with a complete prefix** provides for the public key that it identifies, and
changes nothing for others. -/
theorem finds_insert_iff :
    m'.Finds scheme pk ↔ p.Identifies scheme pk ∨ m.Finds scheme pk := by
  have habbr : (∃ q ∈ m', q.Abbreviates scheme pk) ↔ ∃ q ∈ m, q.Abbreviates scheme pk :=
    exists_congr fun q => and_congr_left fun habbr => mem_insert_iff_of_abbreviates hp hm habbr
  rw [finds_iff, finds_iff, identified_insert_iff hm, contested_insert_iff hp hm, habbr, or_assoc]

/-- It also settles a dispute about the public key that it identifies. -/
theorem disputes_insert_iff :
    m'.Disputes scheme pk ↔ ¬ p.Identifies scheme pk ∧ m.Disputes scheme pk := by
  rw [disputes_iff, disputes_iff, identified_insert_iff hm, contested_insert_iff hp hm, not_or,
    and_assoc]

/-- What is reached stays the same unless the pair's own public key is reached and has no signature.
-/
theorem reaches_insert_iff {k : Key} (hk : ∃ found, m.satisfy k = .ok found)
    (hown : ¬ (k.Reaches m.Finds p.scheme p.keyPrefix ∧ m.find p.scheme p.keyPrefix = .ok none)) :
    k.Reaches m.Finds scheme pk ↔ k.Reaches m'.Finds scheme pk := by
  obtain ⟨-, hnone⟩ := exists_satisfy_iff_reached.1 hk
  refine (Key.congr_of_reached fun scheme pk hr => ?_).2 scheme pk
  rw [finds_insert_iff hp hm]
  refine ⟨.inr, ?_⟩
  rintro (⟨rfl, -, rfl⟩ | hfinds)
  · rcases hf : m.find p.scheme p.keyPrefix with e | - | f
    · obtain rfl := eq_of_find_eq_error hf
      exact absurd hf (hnone _ _ hr)
    · exact absurd ⟨hr, hf⟩ hown
    · exact ⟨f, hf⟩
  · exact hfinds

end insert

end SignatureMap

/-! ## A list of keys -/

section matchKeys

variable {make : SignatureMaker} {ks : List Key} {before after : SignatureMap} {p : SignaturePair}

/-- **One more pair with a complete prefix seldom hurts.**  If a list of keys is matched without it,
then with it every key is still satisfied, and the list is matched exactly if no dispute is reached.
If one is, then that is the error: it was there without the pair and was not reached, and the pair's
own public key was reached in that key and had no signature. -/
theorem matched_or_newly_reached_of_insert (hp : p.hasFullPrefix = true)
    (h : ∃ sigs, (matchKeys make ks (.ofMap (before ++ after))).1 = .ok sigs) :
    let m : SignatureMap := before ++ after
    let m' : SignatureMap := before ++ p :: after
    (∀ k ∈ ks, k.SatisfiedBy m'.Finds) ∧
      ((∃ sigs, (matchKeys make ks (.ofMap m')).1 = .ok sigs) ↔
        ∀ k ∈ ks, ∀ scheme pk, k.Reaches m'.Finds scheme pk → ¬ m'.Disputes scheme pk) ∧
      ∀ e, (matchKeys make ks (.ofMap m')).1 = .error e →
        ∃ k ∈ ks, ∃ scheme pk, e = .keyPrefixMismatch pk ∧
          (k.Reaches m'.Finds scheme pk ∧ m'.Disputes scheme pk) ∧
          (¬ k.Reaches m.Finds scheme pk ∧ m.Disputes scheme pk) ∧
          k.Reaches m.Finds p.scheme p.keyPrefix ∧ m.find p.scheme p.keyPrefix = .ok none := by
  intro m m'
  have hm : ∀ q, q ∈ m' ↔ q = p ∨ q ∈ m := fun q => by
    simp only [m, m', List.mem_append, List.mem_cons, or_left_comm]
  have hmatched : ∀ k ∈ ks, ∃ found, m.satisfy k = .ok found := by
    simpa using exists_matchKeys_iff.1 h
  have hsat : ∀ k ∈ ks, k.SatisfiedBy m'.Finds := by
    intro k hk
    obtain ⟨found, hfound⟩ := hmatched k hk
    exact (SignatureMap.satisfiedBy_finds hfound).imp fun _ _ hf =>
      (SignatureMap.finds_insert_iff hp hm).2 (.inr hf)
  refine ⟨hsat, ?_, fun e he => ?_⟩
  · rw [exists_matchKeys_iff, Supply.map_ofMap]
    refine forall₂_congr fun k hk => ?_
    rw [SignatureMap.exists_satisfy_iff_reached, and_iff_right (hsat k hk)]
  · rw [matchKeys_fst_eq_error_iff, Supply.map_ofMap, SignatureMap.satisfyAll_eq_error_iff] at he
    obtain ⟨earlier, k, later, hks, -, hk⟩ := he
    have hmem : k ∈ ks := by simp [hks]
    obtain ⟨-, hnone⟩ := SignatureMap.exists_satisfy_iff_reached.1 (hmatched k hmem)
    -- the key is satisfied, so it lacks no signature
    obtain ⟨pk, rfl⟩ : ∃ pk, e = .keyPrefixMismatch pk := by
      cases e with
      | missingSignature scheme pk =>
        exact absurd (hsat k hmem) (SignatureMap.not_satisfiedBy_of_missing hk)
      | keyPrefixMismatch pk => exact ⟨pk, rfl⟩
    obtain ⟨scheme, hr, hdis⟩ := SignatureMap.reaches_of_mismatch k hk
    obtain ⟨-, hdis'⟩ := (SignatureMap.disputes_insert_iff hp hm).1 hdis
    have hnew : ¬ k.Reaches m.Finds scheme pk := fun hr' => hnone scheme pk hr' hdis'
    refine ⟨k, hmem, scheme, pk, rfl, ⟨hr, hdis⟩, ⟨hnew, hdis'⟩, ?_⟩
    by_contra hown
    exact hnew ((SignatureMap.reaches_insert_iff hp hm (hmatched k hmem) hown).2 hr)

end matchKeys

section lost

/-- Two signatures abbreviate the second public key of the list and disagree.  That is not noticed
as long as the first has none, and the other child of the threshold has one. -/
def dividedKey : Key :=
  .threshold 1 [.keyList [.ed25519 (.replicate 32 1), .ed25519 (.replicate 32 2)],
    .ed25519 (.replicate 32 3)]

def dividedMap : SignatureMap :=
  [⟨[2], .ed25519, [8]⟩, ⟨[2, 2], .ed25519, [7]⟩, ⟨.replicate 32 3, .ed25519, [9]⟩]

def firstPair : SignaturePair := ⟨.replicate 32 1, .ed25519, [6]⟩

/-- **One more pair with a complete prefix can hurt**: it lets matching go on to a dispute. -/
theorem not_forall_matched_of_insert :
    ¬ ∀ (make : SignatureMaker) (ks : List Key) (before after : SignatureMap) (p : SignaturePair),
      p.hasFullPrefix = true →
      (∃ sigs, (matchKeys make ks (.ofMap (before ++ after))).1 = .ok sigs) →
      ∃ sigs, (matchKeys make ks (.ofMap (before ++ p :: after))).1 = .ok sigs := by
  intro hall
  obtain ⟨sigs, hsigs⟩ := hall (.over []) [dividedKey] dividedMap [] firstPair (by decide) ⟨_, rfl⟩
  have herror : (matchKeys (.over []) [dividedKey] (.ofMap (dividedMap ++ [firstPair]))).1 =
      .error (.keyPrefixMismatch (.replicate 32 2)) := rfl
  rw [herror] at hsigs
  cases hsigs

/-- There the key stays satisfied, and the dispute about the second public key is newly reached. -/
theorem matched_or_newly_reached_of_insert_of_divided :
    let m' : SignatureMap := dividedMap ++ [firstPair]
    (matchKeys (.over []) [dividedKey] (.ofMap m')).1 =
        .error (.keyPrefixMismatch (.replicate 32 2)) ∧
      dividedKey.SatisfiedBy m'.Finds ∧
      ∃ scheme, dividedKey.Reaches m'.Finds scheme (.replicate 32 2) ∧
        ¬ dividedKey.Reaches (dividedMap ++ []).Finds scheme (.replicate 32 2) := by
  intro m'
  have herror : (matchKeys (.over []) [dividedKey] (.ofMap m')).1 =
      .error (.keyPrefixMismatch (.replicate 32 2)) := rfl
  have h : ∃ sigs, (matchKeys (.over []) [dividedKey] (.ofMap (dividedMap ++ []))).1 = .ok sigs :=
    ⟨_, rfl⟩
  obtain ⟨hsat, -, hlost⟩ := matched_or_newly_reached_of_insert (p := firstPair) (by decide) h
  obtain ⟨k, hk, scheme, pk, heq, ⟨hr, -⟩, ⟨hnew, -⟩, -⟩ := hlost _ herror
  obtain rfl := List.mem_singleton.1 hk
  obtain rfl := MatchError.keyPrefixMismatch.inj heq
  exact ⟨herror, hsat _ hk, scheme, hr, hnew⟩

end lost

end Countersign
