import Countersign.Proofs.Leaves
import Countersign.Proofs.Matching

/-!
# Satisfaction of a key

When a key is satisfied is a matter of which public keys are: a list needs every child, a threshold
at least as many as it asks for, and the number of a contract needs nothing.

## What is here

* `Key.SatisfiedBy` — a key is satisfied, given which of its public keys are.
* `Key.atLeastSatisfied_iff` — a threshold is satisfied by any of the selections of its children that
  are long enough.
* `Key.SatisfiedBy.imp` — the more public keys are satisfied the more keys are.
* `SignatureMap.satisfiedBy_of_satisfy` — a key that is matched is satisfied by its matches.
-/

set_option autoImplicit false

namespace Countersign

namespace Key

/-! ## The reading of a key -/

mutual

/-- The key is satisfied when `leaf` says which public keys are. -/
def SatisfiedBy (leaf : Scheme → Bytes → Prop) : Key → Prop
  | ed25519 pk => leaf .ed25519 pk
  | ecdsaSecp256k1 pk => leaf .ecdsaSecp256k1 pk
  | contractId _ => True
  | delegatableContractId _ => True
  | threshold required ks => AtLeastSatisfied leaf required.toNat ks
  | keyList ks => AllSatisfiedBy leaf ks

/-- Every key of the list is satisfied. -/
def AllSatisfiedBy (leaf : Scheme → Bytes → Prop) : List Key → Prop
  | [] => True
  | k :: ks => SatisfiedBy leaf k ∧ AllSatisfiedBy leaf ks

/-- At least so many keys of the list are satisfied. -/
def AtLeastSatisfied (leaf : Scheme → Bytes → Prop) : Nat → List Key → Prop
  | 0, _ => True
  | _ + 1, [] => False
  | n + 1, k :: ks =>
    SatisfiedBy leaf k ∧ AtLeastSatisfied leaf n ks ∨ AtLeastSatisfied leaf (n + 1) ks

end

variable {leaf leaf' : Scheme → Bytes → Prop}

theorem allSatisfiedBy_iff {ks : List Key} :
    AllSatisfiedBy leaf ks ↔ ∀ k ∈ ks, k.SatisfiedBy leaf := by
  induction ks with
  | nil => simp [AllSatisfiedBy]
  | cons k ks ih => rw [AllSatisfiedBy, ih, List.forall_mem_cons]

theorem atLeastSatisfied_zero (ks : List Key) : AtLeastSatisfied leaf 0 ks := by
  simp [AtLeastSatisfied]

/-- **A threshold is satisfied when enough of its children can be selected that all are.** -/
theorem atLeastSatisfied_iff {n : Nat} {ks : List Key} :
    AtLeastSatisfied leaf n ks ↔
      ∃ chosen : List Key, chosen.Sublist ks ∧ chosen.length = n ∧ ∀ k ∈ chosen, k.SatisfiedBy leaf := by
  induction ks generalizing n with
  | nil => cases n <;> simp [AtLeastSatisfied]
  | cons k ks ih =>
    cases n with
    | zero =>
      exact iff_of_true (atLeastSatisfied_zero _) ⟨[], List.nil_sublist _, rfl, by simp⟩
    | succ n =>
      rw [AtLeastSatisfied, ih, ih]
      constructor
      · rintro (⟨hk, chosen, hsub, hlen, hall⟩ | ⟨chosen, hsub, hlen, hall⟩)
        · exact ⟨k :: chosen, hsub.cons_cons k, by rw [List.length_cons, hlen],
            List.forall_mem_cons.2 ⟨hk, hall⟩⟩
        · exact ⟨chosen, hsub.cons k, hlen, hall⟩
      · rintro ⟨chosen, hsub, hlen, hall⟩
        cases hsub with
        | cons _ hsub => exact .inr ⟨chosen, hsub, hlen, hall⟩
        | cons_cons _ hsub =>
          rw [List.forall_mem_cons] at hall
          exact .inl ⟨hall.1, _, hsub, Nat.succ.inj hlen, hall.2⟩

theorem AtLeastSatisfied.of_le {m n : Nat} {ks : List Key} (h : AtLeastSatisfied leaf n ks)
    (hle : m ≤ n) : AtLeastSatisfied leaf m ks := by
  obtain ⟨chosen, hsub, hlen, hall⟩ := atLeastSatisfied_iff.1 h
  refine atLeastSatisfied_iff.2 ⟨chosen.take m, (List.take_sublist m chosen).trans hsub, ?_,
    fun k hk => hall k (List.mem_of_mem_take hk)⟩
  rw [List.length_take, hlen]
  exact Nat.min_eq_left hle

/-! ## More satisfied public keys -/

mutual

/-- It is enough to look at the public keys of the key. -/
theorem SatisfiedBy.imp : ∀ {k : Key},
    (∀ p ∈ k.primitives, leaf p.1 p.2 → leaf' p.1 p.2) → k.SatisfiedBy leaf → k.SatisfiedBy leaf'
  | ed25519 _, h, hk => h _ List.mem_cons_self hk
  | ecdsaSecp256k1 _, h, hk => h _ List.mem_cons_self hk
  | contractId _, _, _ => trivial
  | delegatableContractId _, _, _ => trivial
  | threshold _ _, h, hk => AtLeastSatisfied.imp h hk
  | keyList _, h, hk => AllSatisfiedBy.imp h hk

theorem AllSatisfiedBy.imp : ∀ {ks : List Key},
    (∀ p ∈ primitivesOfAll ks, leaf p.1 p.2 → leaf' p.1 p.2) →
    AllSatisfiedBy leaf ks → AllSatisfiedBy leaf' ks
  | [], _, _ => trivial
  | _ :: _, h, hk =>
    ⟨SatisfiedBy.imp (fun p hp => h p (List.mem_append_left _ hp)) hk.1,
      AllSatisfiedBy.imp (fun p hp => h p (List.mem_append_right _ hp)) hk.2⟩

theorem AtLeastSatisfied.imp : ∀ {n : Nat} {ks : List Key},
    (∀ p ∈ primitivesOfAll ks, leaf p.1 p.2 → leaf' p.1 p.2) →
    AtLeastSatisfied leaf n ks → AtLeastSatisfied leaf' n ks
  | 0, ks, _, _ => atLeastSatisfied_zero ks
  | _ + 1, _ :: _, h, .inl hk =>
    .inl ⟨SatisfiedBy.imp (fun p hp => h p (List.mem_append_left _ hp)) hk.1,
      AtLeastSatisfied.imp (fun p hp => h p (List.mem_append_right _ hp)) hk.2⟩
  | _ + 1, _ :: _, h, .inr hk =>
    .inr (AtLeastSatisfied.imp (fun p hp => h p (List.mem_append_right _ hp)) hk)

end

end Key

/-! ## Matched keys -/

/-- One of the matches is for this public key. -/
def Matched.Covers (found : List Matched) (scheme : Scheme) (publicKey : Bytes) : Prop :=
  ∃ f, { scheme, publicKey, found := f } ∈ found

theorem Matched.Covers.mono {found more : List Matched} {scheme : Scheme} {publicKey : Bytes}
    (hsub : found ⊆ more) (h : Covers found scheme publicKey) : Covers more scheme publicKey :=
  h.imp fun _ hf => hsub hf

namespace SignatureMap

variable {m : SignatureMap}

mutual

/-- **A key that is matched is satisfied by its matches.** -/
theorem satisfiedBy_of_satisfy : ∀ (k : Key) {found : List Matched}, m.satisfy k = .ok found →
    k.SatisfiedBy (Matched.Covers found)
  | .ed25519 pk, found, h => by
    obtain ⟨f, -, rfl⟩ := satisfyLeaf_eq_ok_iff.1 h
    exact ⟨f, List.mem_cons_self⟩
  | .ecdsaSecp256k1 pk, found, h => by
    obtain ⟨f, -, rfl⟩ := satisfyLeaf_eq_ok_iff.1 h
    exact ⟨f, List.mem_cons_self⟩
  | .contractId _, _, _ => trivial
  | .delegatableContractId _, _, _ => trivial
  | .threshold _ ks, found, h => by
    obtain ⟨t, ht, hle, rfl⟩ := satisfy_threshold_eq_ok_iff.1 h
    exact (atLeastSatisfied_of_tally ks ht).of_le hle
  | .keyList ks, found, h => allSatisfiedBy_of_satisfyAll ks h

theorem allSatisfiedBy_of_satisfyAll : ∀ (ks : List Key) {found : List Matched},
    m.satisfyAll ks = .ok found → Key.AllSatisfiedBy (Matched.Covers found) ks
  | [], _, _ => trivial
  | k :: ks, found, h => by
    obtain ⟨here, more, hk, hks, rfl⟩ := satisfyAll_cons_eq_ok_iff.1 h
    exact ⟨(satisfiedBy_of_satisfy k hk).imp fun _ _ => .mono (List.subset_append_left _ _),
      (allSatisfiedBy_of_satisfyAll ks hks).imp fun _ _ => .mono (List.subset_append_right _ _)⟩

theorem atLeastSatisfied_of_tally : ∀ (ks : List Key) {t : Tally}, m.tally ks = .ok t →
    Key.AtLeastSatisfied (Matched.Covers t.matched) t.satisfied ks
  | [], t, h => by
    obtain rfl := Except.ok.inj h
    trivial
  | k :: ks, t, h => by
    obtain ⟨rest, hr, ⟨here, hk, rfl⟩ | ⟨-, -, -, rfl⟩⟩ := tally_cons_eq_ok h
    · have hrest := atLeastSatisfied_of_tally ks hr
      exact .inl ⟨(satisfiedBy_of_satisfy k hk).imp fun _ _ => .mono (List.subset_append_left _ _),
        hrest.imp fun _ _ => .mono (List.subset_append_right _ _)⟩
    · have hrest := atLeastSatisfied_of_tally ks hr
      change Key.AtLeastSatisfied (Matched.Covers rest.matched) rest.satisfied (k :: ks)
      cases hn : rest.satisfied with
      | zero => exact Key.atLeastSatisfied_zero _
      | succ n => exact .inr (hn ▸ hrest)

end

end SignatureMap

end Countersign
