import Countersign.Proofs.Deciding
import Countersign.Proofs.Repeats

/-!
# What a success uses up

Which signatures belong to a key can be said without matching it.  They are those of its public
keys, depth first in order of declaration, apart from what lies below a child of a threshold that is
not itself satisfied.  Matching a list of keys, if it succeeds, uses up the pairs of exactly these
signatures, and makes a platform signature of each pair that was unused, for the public key that
comes first.

## What is here

* `Key.SatisfiedBy` is decided when its leaves are.
* `SignatureMap.gather` — the matches of a key, by which of its children are satisfied.
* `SignatureMap.eq_gather_of_satisfy` — they are what is found for a key that is matched.
* `consume_fst_eq` — the platform signatures made of matches: one for each unused pair, by its first
  match.
* `gathered_of_matchKeys` — what a successful pass yields and what it uses up.
-/

set_option autoImplicit false

namespace Countersign

/-! ## Deciding satisfaction -/

namespace Key

section decidable

variable {leaf : Scheme → Bytes → Prop} [∀ scheme publicKey, Decidable (leaf scheme publicKey)]

mutual

def decidableSatisfiedBy : (k : Key) → Decidable (k.SatisfiedBy leaf)
  | ed25519 pk => inferInstanceAs (Decidable (leaf .ed25519 pk))
  | ecdsaSecp256k1 pk => inferInstanceAs (Decidable (leaf .ecdsaSecp256k1 pk))
  | contractId _ => .isTrue trivial
  | delegatableContractId _ => .isTrue trivial
  | threshold required ks => decidableAtLeastSatisfied required.toNat ks
  | keyList ks => decidableAllSatisfiedBy ks

def decidableAllSatisfiedBy : (ks : List Key) → Decidable (AllSatisfiedBy leaf ks)
  | [] => .isTrue trivial
  | k :: ks =>
    have := decidableSatisfiedBy k
    have := decidableAllSatisfiedBy ks
    inferInstanceAs (Decidable (SatisfiedBy leaf k ∧ AllSatisfiedBy leaf ks))

def decidableAtLeastSatisfied : (n : Nat) → (ks : List Key) → Decidable (AtLeastSatisfied leaf n ks)
  | 0, ks => .isTrue (atLeastSatisfied_zero ks)
  | _ + 1, [] => .isFalse id
  | n + 1, k :: ks =>
    have := decidableSatisfiedBy k
    have := decidableAtLeastSatisfied n ks
    have := decidableAtLeastSatisfied (n + 1) ks
    inferInstanceAs (Decidable (SatisfiedBy leaf k ∧ AtLeastSatisfied leaf n ks ∨
      AtLeastSatisfied leaf (n + 1) ks))

end

instance (k : Key) : Decidable (k.SatisfiedBy leaf) :=
  decidableSatisfiedBy k

end decidable

end Key

namespace SignatureMap

instance (m : SignatureMap) (scheme : Scheme) (publicKey : Bytes) :
    Decidable (m.Finds scheme publicKey) :=
  match h : m.find scheme publicKey with
  | .ok (some f) => .isTrue ⟨f, h⟩
  | .ok none => .isFalse fun ⟨f, hf⟩ => by simp [h] at hf
  | .error _ => .isFalse fun ⟨f, hf⟩ => by simp [h] at hf

/-! ## The matches of a key -/

/-- The match of a public key, if a signature is found for it. -/
def gatherLeaf (m : SignatureMap) (scheme : Scheme) (publicKey : Bytes) : List Matched :=
  match m.find scheme publicKey with
  | .ok (some found) => [{ scheme, publicKey, found }]
  | _ => []

mutual

/-- The matches of the public keys of a key, depth first in order of declaration.  A child of a
threshold counts only if it is itself satisfied. -/
def gather (m : SignatureMap) : Key → List Matched
  | .ed25519 pk => m.gatherLeaf .ed25519 pk
  | .ecdsaSecp256k1 pk => m.gatherLeaf .ecdsaSecp256k1 pk
  | .contractId _ => []
  | .delegatableContractId _ => []
  | .threshold _ ks => m.gatherSatisfied ks
  | .keyList ks => m.gatherAll ks

def gatherAll (m : SignatureMap) : List Key → List Matched
  | [] => []
  | k :: ks => m.gather k ++ m.gatherAll ks

def gatherSatisfied (m : SignatureMap) : List Key → List Matched
  | [] => []
  | k :: ks => (if k.SatisfiedBy m.Finds then m.gather k else []) ++ m.gatherSatisfied ks

end

variable {m : SignatureMap}

theorem gatherAll_eq_flatMap (m : SignatureMap) (ks : List Key) :
    m.gatherAll ks = ks.flatMap m.gather := by
  induction ks with
  | nil => rfl
  | cons k ks ih => rw [gatherAll, ih, List.flatMap_cons]

theorem eq_gatherLeaf_of_satisfyLeaf {scheme : Scheme} {pk : Bytes} {found : List Matched}
    (h : m.satisfyLeaf scheme pk = .ok found) : found = m.gatherLeaf scheme pk := by
  obtain ⟨f, hf, rfl⟩ := satisfyLeaf_eq_ok_iff.1 h
  rw [gatherLeaf, hf]

mutual

/-- **What is found for a key that is matched are the matches of the key.** -/
theorem eq_gather_of_satisfy : ∀ (k : Key) {found : List Matched}, m.satisfy k = .ok found →
    found = m.gather k
  | .ed25519 _, _, h => eq_gatherLeaf_of_satisfyLeaf h
  | .ecdsaSecp256k1 _, _, h => eq_gatherLeaf_of_satisfyLeaf h
  | .contractId _, _, h => (Except.ok.inj h).symm
  | .delegatableContractId _, _, h => (Except.ok.inj h).symm
  | .threshold _ ks, _, h => by
    obtain ⟨t, ht, -, rfl⟩ := satisfy_threshold_eq_ok_iff.1 h
    exact eq_gatherSatisfied_of_tally ks ht
  | .keyList ks, _, h => eq_gatherAll_of_satisfyAll ks h

theorem eq_gatherAll_of_satisfyAll : ∀ (ks : List Key) {found : List Matched},
    m.satisfyAll ks = .ok found → found = m.gatherAll ks
  | [], _, h => (Except.ok.inj h).symm
  | k :: ks, _, h => by
    obtain ⟨here, more, hk, hks, rfl⟩ := satisfyAll_cons_eq_ok_iff.1 h
    rw [gatherAll, eq_gather_of_satisfy k hk, eq_gatherAll_of_satisfyAll ks hks]

theorem eq_gatherSatisfied_of_tally : ∀ (ks : List Key) {t : Tally}, m.tally ks = .ok t →
    t.matched = m.gatherSatisfied ks
  | [], _, h => by
    obtain rfl := Except.ok.inj h
    rfl
  | k :: ks, _, h => by
    obtain ⟨rest, hr, ⟨here, hk, rfl⟩ | ⟨scheme, pk, hk, rfl⟩⟩ := tally_cons_eq_ok h
    · rw [gatherSatisfied, if_pos (satisfiedBy_finds hk), ← eq_gather_of_satisfy k hk,
        ← eq_gatherSatisfied_of_tally ks hr]
    · have hrest := eq_gatherSatisfied_of_tally ks hr
      rw [gatherSatisfied, if_neg (not_satisfiedBy_of_missing hk), List.nil_append]
      exact hrest

end

end SignatureMap

/-! ## Using matches up -/

/-- The two matches stand for the same pair. -/
def Matched.samePair (x y : Matched) : Bool :=
  x.found.index == y.found.index

/-- The pair of a match is there and has not been used. -/
def Supply.isUnused (s : Supply) (x : Matched) : Bool :=
  s.flags[x.found.index]? == some false

/-- The platform signature of a match. -/
def Matched.sign (make : SignatureMaker) (x : Matched) : PlatformSignature :=
  make x.scheme x.publicKey x.found.signature

variable {make : SignatureMaker} {s s' : Supply}

/-- After a pair has been used, the matches of unused pairs are those of the others. -/
theorem Supply.isUnused_markUsed {x y : Matched} (hx : s.isUnused x = true) :
    (s.markUsed x.found.index).2.isUnused y = (decide (y.samePair x = false) && s.isUnused y) := by
  rw [isUnused, beq_iff_eq] at hx
  have hlt : x.found.index < s.flags.length := (List.getElem?_eq_some_iff.1 hx).1
  rw [isUnused, flags_markUsed, List.getElem?_set, isUnused, Matched.samePair]
  by_cases h : x.found.index = y.found.index
  · rw [if_pos h, if_pos hlt]
    simp [h]
  · rw [if_neg h]
    simp [Ne.symm h]

/-- **One platform signature is made of each unused pair**, by the first of its matches. -/
theorem consume_fst_eq {found : List Matched} (hfound : ∀ x ∈ found, x.Stands s.map) :
    (consume make found s).1 =
      ((found.filter s.isUnused).eraseDupsBy Matched.samePair).map (Matched.sign make) := by
  induction found generalizing s with
  | nil => rfl
  | cons x found ih =>
    obtain ⟨hx, hfound⟩ := List.forall_mem_cons.1 hfound
    rw [consume_cons]
    by_cases hunused : s.isUnused x = true
    · have hfresh : (s.markUsed x.found.index).1 = true :=
        (Supply.markUsed_fst _ _).2 (beq_iff_eq.1 hunused)
      have hrest : found.filter (s.markUsed x.found.index).2.isUnused =
          (found.filter s.isUnused).filter fun y => decide (y.samePair x = false) := by
        rw [List.filter_filter]
        exact List.filter_congr fun y _ => Supply.isUnused_markUsed hunused
      rw [if_pos hfresh, List.filter_cons_of_pos hunused, List.eraseDupsBy_cons, List.map_cons,
        ih (by simpa using hfound), hrest]
      rfl
    · have hused : s.flags[x.found.index]? = some true :=
        Supply.used_of_not_fresh (Supply.lt_length_of_stands hx) fun hfresh =>
          hunused (beq_iff_eq.2 ((Supply.markUsed_fst _ _).1 hfresh))
      rw [Supply.markUsed_of_used hused, List.filter_cons_of_neg hunused]
      exact ih hfound

/-! ## A list of keys -/

/-- **What a successful pass yields and uses up.**  The matches of the keys, one key after the
other, are turned into platform signatures, each with the signature of its pair: one for every pair
that was unused, by the first of its matches.  Used are afterwards the pairs that were used before
and those of all these matches. -/
theorem gathered_of_matchKeys {ks : List Key} {sigs : List PlatformSignature}
    (h : matchKeys make ks s = (.ok sigs, s')) :
    sigs = (((ks.flatMap s.map.gather).filter s.isUnused).eraseDupsBy Matched.samePair).map
        (Matched.sign make) ∧
      (∀ x ∈ ks.flatMap s.map.gather,
        s.map[x.found.index]?.map (·.signature) = some x.found.signature) ∧
      s'.map = s.map ∧
      ∀ i, s'.flags[i]? = some true ↔
        s.flags[i]? = some true ∨ ∃ x ∈ ks.flatMap s.map.gather, x.found.index = i := by
  obtain ⟨found, hfound, hcons⟩ := matchKeys_eq_ok_iff.1 h
  have hstands : ∀ x ∈ found, x.Stands s.map := fun x hx =>
    (SignatureMap.stands_of_satisfyAll ks hfound x hx).1
  obtain rfl : found = ks.flatMap s.map.gather := by
    rw [SignatureMap.eq_gatherAll_of_satisfyAll ks hfound, SignatureMap.gatherAll_eq_flatMap]
  refine ⟨?_, fun x hx => ?_, map_eq_of_matchKeys h, fun i => ?_⟩
  · rw [← consume_fst_eq hstands, hcons]
  · obtain ⟨p, hp, hsig, -⟩ := SignatureMap.exists_pair_of_find (hstands x hx)
    rw [hp, Option.map_some, hsig]
  · rw [← Supply.used_consume_iff make hstands, hcons]

/-- A list below the threshold lacks a signature, so the one that it has stays unused; one pair was
used before, and one is found twice. -/
theorem gathered_of_matchKeys_of_missing_signature :
    let make : SignatureMaker := .over []
    let s : Supply :=
      ⟨[⟨⟨[1], .ed25519, [11]⟩, false⟩, ⟨⟨[2], .ed25519, [12]⟩, false⟩,
        ⟨⟨[3], .ed25519, [13]⟩, true⟩, ⟨⟨[5], .ed25519, [15]⟩, false⟩]⟩
    let ks : List Key :=
      [.threshold 1 [.keyList [.ed25519 [1, 0], .ed25519 [4, 0]], .ed25519 [2, 0], .ed25519 [3, 0]],
        .keyList [.ed25519 [2, 1], .ed25519 [5, 7]]]
    ∃ sigs s', matchKeys make ks s = (.ok sigs, s') ∧
      sigs = [make .ed25519 [2, 0] [12], make .ed25519 [5, 7] [15]] ∧
      s'.flags = [false, true, true, true] ∧
      ∀ i, s'.flags[i]? = some true ↔
        s.flags[i]? = some true ∨ ∃ x ∈ ks.flatMap s.map.gather, x.found.index = i := by
  intro make s ks
  have h : matchKeys make ks s = (.ok _, _) := rfl
  obtain ⟨hsigs, -, -, hflags⟩ := gathered_of_matchKeys h
  exact ⟨_, _, h, hsigs.trans rfl, rfl, hflags⟩

end Countersign
