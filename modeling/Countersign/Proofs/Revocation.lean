import Countersign.Expansion.SigMeta
import Countersign.Proofs.Leaves
import Mathlib.Data.List.Sort

/-!
# Revocation

To revoke a key is to revoke the public keys of its leaves.  These are added to a set, so that neither
the order nor the number of revocations matters, and a lookup of a public key that is not among them is
answered as before.

## What is here

* `ByteSet.ext` — sets with the same members are the same.
* `Key.HasPublicKey` — the public key is that of a leaf, under either scheme.
* `SigMeta.revoking_eq_iff` — when revoking one key is the same as revoking another.
* `SigMeta.foldl_revoking` — a series of revocations is one revocation, of the list of the keys.
* `SigMeta.revoking_specified` — what a revocation changes, and the laws that it obeys.
-/

set_option autoImplicit false

namespace Countersign

namespace ByteSet

/-- Sets with the same members are the same. -/
@[ext] theorem ext {s t : ByteSet} (h : ∀ x, x ∈ s ↔ x ∈ t) : s = t := by
  have hirrefl : Std.Irrefl fun a b : Bytes => compare a b = .lt := ⟨fun a => by simp⟩
  have hantisymm : Std.Antisymm fun a b : Bytes => compare a b = .lt := by
    refine ⟨fun a b hab hba => ?_⟩
    rw [Std.OrientedCmp.gt_of_lt hab] at hba
    cases hba
  obtain ⟨xs, hxs⟩ := s
  obtain ⟨ys, hys⟩ := t
  obtain rfl : xs = ys := hxs.eq_of_mem_iff hys h
  rfl

theorem insertAll_append (s : ByteSet) (xs ys : List Bytes) :
    s.insertAll (xs ++ ys) = (s.insertAll xs).insertAll ys :=
  List.foldl_append

end ByteSet

/-! ## The public keys of a key -/

namespace Key

/-- The public key is that of a leaf of the key, at any depth and under either scheme. -/
def HasPublicKey (k : Key) (pk : Bytes) : Prop :=
  ∃ scheme, k.HasLeaf scheme pk

theorem hasPublicKey_iff {k : Key} {pk : Bytes} :
    k.HasPublicKey pk ↔ ∃ p ∈ k.primitives, p.2 = pk := by
  constructor
  · rintro ⟨scheme, hleaf⟩
    exact ⟨(scheme, pk), mem_primitives_iff.2 hleaf, rfl⟩
  · rintro ⟨⟨scheme, pk⟩, hp, rfl⟩
    exact ⟨scheme, mem_primitives_iff.1 hp⟩

instance (k : Key) (pk : Bytes) : Decidable (k.HasPublicKey pk) :=
  decidable_of_iff _ hasPublicKey_iff.symm

theorem hasPublicKey_keyList_iff {ks : List Key} {pk : Bytes} :
    (keyList ks).HasPublicKey pk ↔ ∃ k ∈ ks, k.HasPublicKey pk := by
  constructor
  · rintro ⟨scheme, h⟩
    rcases hasLeaf_iff.1 h with hp | ⟨k, hk, hleaf⟩
    · cases hp
    · exact ⟨k, hk, scheme, hleaf⟩
  · rintro ⟨k, hk, scheme, hleaf⟩
    exact ⟨scheme, hasLeaf_iff.2 (.inr ⟨k, hk, hleaf⟩)⟩

end Key

/-! ## Revoked keys -/

namespace SigMeta

variable {m : SigMeta} {a b : Key}

theorem mem_revoked_revoking_iff {pk : Bytes} :
    pk ∈ (m.revoking a).revoked ↔ a.HasPublicKey pk ∨ pk ∈ m.revoked := by
  rw [revoking, ByteSet.mem_insertAll, List.mem_map, ← Key.hasPublicKey_iff]

/-- A public key of the key that is revoked has no valid signature any more, and every other is looked
up as before. -/
theorem verifiedSigOf?_revoking (m : SigMeta) (a : Key) (pk : Bytes) :
    (m.revoking a).verifiedSigOf? pk =
      if a.HasPublicKey pk then none else m.verifiedSigOf? pk := by
  by_cases hpk : a.HasPublicKey pk
  · rw [if_pos hpk, verifiedSigOf?, if_pos (mem_revoked_revoking_iff.2 (.inl hpk))]
  · have hiff : pk ∈ (m.revoking a).revoked ↔ pk ∈ m.revoked := by
      rw [mem_revoked_revoking_iff, or_iff_right hpk]
    rw [if_neg hpk, verifiedSigOf?, verifiedSigOf?, if_congr hiff rfl rfl]
    rfl

/-- **What matters of a key that is revoked are its public keys**, and of these the ones that have not
been revoked before. -/
theorem revoking_eq_iff :
    m.revoking a = m.revoking b ↔
      ∀ pk, a.HasPublicKey pk ∨ pk ∈ m.revoked ↔ b.HasPublicKey pk ∨ pk ∈ m.revoked := by
  have hwith (k : Key) : m.revoking k = { m with revoked := (m.revoking k).revoked } := rfl
  simp only [← mem_revoked_revoking_iff, ← ByteSet.ext_iff]
  exact ⟨congrArg revoked, fun h => by rw [hwith a, hwith b, h]⟩

/-! ## A series of revocations -/

/-- **A series of revocations is one revocation**, of the list of the keys. -/
theorem foldl_revoking (m : SigMeta) (ks : List Key) :
    ks.foldl revoking m = m.revoking (.keyList ks) := by
  induction ks generalizing m with
  | nil => rfl
  | cons k ks ih =>
    rw [List.foldl_cons, ih]
    simp only [revoking, Key.primitives, Key.primitivesOfAll, List.map_append,
      ByteSet.insertAll_append]

/-- Two series come to the same if the same public keys are revoked in them, in whichever order and
however often. -/
theorem foldl_revoking_congr (m : SigMeta) {ks ks' : List Key}
    (h : ∀ pk, (∃ k ∈ ks, k.HasPublicKey pk) ↔ ∃ k ∈ ks', k.HasPublicKey pk) :
    ks.foldl revoking m = ks'.foldl revoking m := by
  rw [foldl_revoking, foldl_revoking, revoking_eq_iff]
  intro pk
  rw [Key.hasPublicKey_keyList_iff, Key.hasPublicKey_keyList_iff, h]

/-- **Revocation is the union with a set of public keys.**  A lookup finds nothing for the public keys
of the key that is revoked, and what it found before for all others; the keys and the signatures stay.
Two keys with the same public keys are revoked alike.  Of two revocations either may come first, the
list of the two keys takes the place of both, and a second one of the same key changes nothing. -/
theorem revoking_specified (m : SigMeta) (a b : Key) :
    (∀ pk, (m.revoking a).verifiedSigOf? pk =
        if a.HasPublicKey pk then none else m.verifiedSigOf? pk) ∧
      ((m.revoking a).payerKey = m.payerKey ∧ (m.revoking a).otherKeys = m.otherKeys ∧
        (m.revoking a).signatures = m.signatures) ∧
      (m.revoking a = m.revoking b ↔
        ∀ pk, a.HasPublicKey pk ∨ pk ∈ m.revoked ↔ b.HasPublicKey pk ∨ pk ∈ m.revoked) ∧
      (m.revoking a).revoking b = (m.revoking b).revoking a ∧
      (m.revoking a).revoking b = m.revoking (.keyList [a, b]) ∧
      (m.revoking a).revoking a = m.revoking a := by
  have hcomm : [a, b].foldl revoking m = [b, a].foldl revoking m :=
    foldl_revoking_congr m fun pk => by simp [or_comm]
  have htwice : [a, a].foldl revoking m = [a].foldl revoking m :=
    foldl_revoking_congr m fun pk => by simp
  exact ⟨verifiedSigOf?_revoking m a, ⟨rfl, rfl, rfl⟩, revoking_eq_iff, hcomm,
    foldl_revoking m [a, b], htwice⟩

/-- A public key is revoked at any depth, and whichever scheme it is revoked under. -/
example :
    let sig (pk : Bytes) (status : VerificationStatus) (octet : UInt8) : PlatformSignature :=
      { scheme := .ed25519, publicKey := pk, signature := [octet], message := [], status }
    let m : SigMeta := .payerOnly (.ed25519 [1]) [sig [1] .invalid 7, sig [1] .valid 8, sig [2] .valid 9]
    let k : Key := .threshold 1 [.contractId ⟨0, 0, 5⟩, .keyList [.threshold 2 [.ecdsaSecp256k1 [1]]]]
    m.verifiedSigOf? [1] = some (sig [1] .valid 8) ∧ (m.revoking k).verifiedSigOf? [1] = none ∧
      (m.revoking k).verifiedSigOf? [2] = some (sig [2] .valid 9) := by
  decide

end SigMeta

end Countersign
