import Countersign.Proofs.Deciding

/-!
# Who lacks a signature

A key that lacks a signature is refused with one public key, although there may be many that have no
signature, and some of these may not be needed.  The one that is named is found on the way down: it is
that of the first child which is not matched, and so on.  It ends at a leaf for which nothing was
supplied, or at a threshold that asks for more children than it has.  There all children are matched,
so that no public key is to blame, and the first below the threshold is named in place of one.

## What is here

* `Key.Oversized`, `SignatureMap.Overreaches` — a threshold asks for more children than it has, and
  does so in vain although all of them are satisfied.
* `SignatureMap.Shortfall` — why a single node lacks a signature.
* `SignatureMap.Culprit` — whom the error of a key may name.
* `SignatureMap.culprit_of_satisfy`, `culprit_of_matchKeys` — it names nobody else.
-/

set_option autoImplicit false

namespace Countersign

/-- The key is a threshold that asks for more children than it has. -/
def Key.Oversized : Key → Prop
  | threshold required ks => ks.length < required.toNat
  | _ => False

namespace SignatureMap

variable {m : SignatureMap} {scheme scheme' : Scheme} {pk pk' : Bytes}

/-! ## One node -/

theorem satisfyLeaf_eq_missing_iff :
    m.satisfyLeaf scheme pk = .error (.missingSignature scheme' pk') ↔
      (scheme = scheme' ∧ pk = pk') ∧ m.find scheme pk = .ok none := by
  rw [satisfyLeaf]
  rcases hf : m.find scheme pk with e | - | f
  · obtain rfl := eq_of_find_eq_error hf
    simp
  · simp
  · simp

/-- A tally keeps the error of the first child that is not matched.  If there is no such child then it
has counted all of them. -/
theorem firstMissing_cases {ks : List Key} {t : Tally} (h : m.tally ks = .ok t) :
    (∃ e, t.firstMissing = some e ∧ FailsFirst m.satisfy ks e) ∨
      t.firstMissing = none ∧ t.satisfied = ks.length ∧
        ∀ k ∈ ks, ∃ found, m.satisfy k = .ok found := by
  induction ks generalizing t with
  | nil =>
    obtain rfl := Except.ok.inj h
    exact .inr ⟨rfl, rfl, List.forall_mem_nil _⟩
  | cons k ks ih =>
    obtain ⟨rest, hr, ⟨here, hk, rfl⟩ | ⟨scheme, pk, hk, rfl⟩⟩ := tally_cons_eq_ok h
    · rcases ih hr with ⟨e, he, hfirst⟩ | ⟨hnone, hcount, hall⟩
      · exact .inl ⟨e, he, (failsFirst_cons_of_ok hk).2 hfirst⟩
      · exact .inr ⟨hnone, congrArg Nat.succ hcount, List.forall_mem_cons.2 ⟨⟨here, hk⟩, hall⟩⟩
    · exact .inl ⟨_, rfl, (failsFirst_cons_of_error hk).2 rfl⟩

/-- The threshold asks for more children than it has, although all of them are satisfied. -/
structure Overreaches (m : SignatureMap) (n : Key) : Prop where
  oversized : n.Oversized
  satisfied : ∀ c ∈ n.children, (∃ found, m.satisfy c = .ok found) ∧ c.SatisfiedBy m.Finds

/-- Why a node lacks a signature, for this public key. -/
inductive Shortfall (m : SignatureMap) (k : Key) (scheme : Scheme) (pk : Bytes) : Prop
  /-- It is the public key, and there is no signature for it. -/
  | unsigned (hk : k.primitive? = some (scheme, pk)) (h : m.find scheme pk = .ok none)
  /-- The first of its children that is not matched says so. -/
  | child (h : FailsFirst m.satisfy k.children (.missingSignature scheme pk))
  /-- It asks for too much. -/
  | overreaching (hk : m.Overreaches k)
      (h : SignatureMap.oversized k.children = .missingSignature scheme pk)

theorem shortfall_of_reach {required : UInt32} {ks : List Key} {t : Tally} (ht : m.tally ks = .ok t)
    (h : reach required ks t = .error (.missingSignature scheme pk)) :
    m.Shortfall (.threshold required ks) scheme pk := by
  obtain ⟨-, hshort⟩ := lacking_of_reach ht h
  rw [reach, if_neg (Nat.not_le_of_lt hshort)] at h
  rcases firstMissing_cases ht with ⟨e, he, hfirst⟩ | ⟨hnone, hcount, hall⟩
  · rw [he, Option.getD_some] at h
    exact .child (Except.error.inj h ▸ hfirst)
  · -- all children are matched, and still they are too few
    rw [hnone, Option.getD_none] at h
    have hover : ks.length < required.toNat := hcount ▸ hshort
    refine .overreaching ⟨hover, fun c hc => ⟨hall c hc, ?_⟩⟩ (Except.error.inj h)
    obtain ⟨found, hfound⟩ := hall c hc
    exact satisfiedBy_finds hfound

/-- **A node that lacks a signature falls short in one of three ways.** -/
theorem shortfall_of_satisfy {k : Key} (h : m.satisfy k = .error (.missingSignature scheme pk)) :
    m.Shortfall k scheme pk := by
  cases k with
  | ed25519 pk' =>
    obtain ⟨⟨rfl, rfl⟩, hnone⟩ := satisfyLeaf_eq_missing_iff.1 h
    exact .unsigned rfl hnone
  | ecdsaSecp256k1 pk' =>
    obtain ⟨⟨rfl, rfl⟩, hnone⟩ := satisfyLeaf_eq_missing_iff.1 h
    exact .unsigned rfl hnone
  | contractId | delegatableContractId => cases h
  | threshold required ks =>
    rw [satisfy] at h
    rcases ht : m.tally ks with e | t <;> rw [ht] at h
    · -- a tally ends early at a dispute only
      obtain rfl := Except.error.inj h
      cases refusal_of_tally ks ht with
      | lacking _ _ hnot => exact absurd trivial hnot
    · exact shortfall_of_reach ht h
  | keyList ks => exact .child (satisfyAll_eq_error_iff.1 h)

/-! ## Down to the culprit -/

/-- Whom the error of a key that lacks a signature may name. -/
inductive Culprit (m : SignatureMap) (k : Key) : Scheme → Bytes → Prop
  /-- A leaf for which there is no signature. -/
  | unsigned {scheme : Scheme} {pk : Bytes} (hleaf : k.HasLeaf scheme pk)
      (h : m.find scheme pk = .ok none) : Culprit m k scheme pk
  /-- The first leaf below a threshold that asks for too much. -/
  | beneath {n : Key} {scheme : Scheme} {pk : Bytes} (hn : k.HasNode n) (ho : m.Overreaches n)
      (h : n.FirstLeaf scheme pk) : Culprit m k scheme pk
  /-- Nobody, if there is no leaf below it. -/
  | nobody {n : Key} (hn : k.HasNode n) (ho : m.Overreaches n) (h : n.Leafless) :
      Culprit m k .ed25519 []

theorem Culprit.of_child {k c : Key} (hc : c ∈ k.children) (h : m.Culprit c scheme pk) :
    m.Culprit k scheme pk := by
  cases h with
  | unsigned hleaf h => exact .unsigned (Key.hasLeaf_iff.2 (.inr ⟨c, hc, hleaf⟩)) h
  | beneath hn ho h => exact .beneath (.child hc hn) ho h
  | nobody hn ho h => exact .nobody (.child hc hn) ho h

/-- A threshold that asks for too much names the first leaf below it, if there is one. -/
theorem Overreaches.culprit {n : Key} (ho : m.Overreaches n)
    (h : SignatureMap.oversized n.children = .missingSignature scheme pk) :
    m.Culprit n scheme pk := by
  have hprim : n.primitives = Key.primitivesOfAll n.children := by
    cases n with
    | threshold => rfl
    | _ => exact ho.oversized.elim
  rw [SignatureMap.oversized, ← hprim] at h
  split at h
  · next hnil =>
    obtain ⟨rfl, rfl⟩ := MatchError.missingSignature.inj h
    exact .nobody (.self n) ho (Key.primitives_eq_nil_iff.1 hnil)
  · next hcons =>
    obtain ⟨rfl, rfl⟩ := MatchError.missingSignature.inj h
    exact .beneath (.self n) ho (Key.head?_primitives_iff.1 (by rw [hcons]; rfl))

/-- **The error of a key that lacks a signature names a culprit.** -/
theorem culprit_of_satisfy {k : Key} (h : m.satisfy k = .error (.missingSignature scheme pk)) :
    m.Culprit k scheme pk := by
  induction k using Key.children_induction with
  | step k ih =>
    cases shortfall_of_satisfy h with
    | unsigned hk hnone => exact .unsigned (Key.hasLeaf_iff.2 (.inl hk)) hnone
    | child hfirst =>
      obtain ⟨before, c, after, hks, -, hc⟩ := hfirst
      have hmem : c ∈ k.children := by simp [hks]
      exact .of_child hmem (ih c hmem hc)
    | overreaching ho hover => exact ho.culprit hover

end SignatureMap

/-! ## Matching a key -/

section matchKeys

variable {make : SignatureMaker} {k : Key} {s : Supply} {scheme : Scheme} {pk : Bytes}

/-- **A missing signature is blamed on a culprit**, whatever has been used: on a leaf without a signature,
or on the first leaf below a threshold that asks for more children than it has although all of them are
satisfied.  So if no threshold asks for more than it has then it is a leaf without a signature.  An
Ed25519 key without octets is named only if it is a leaf, or if there is no leaf below such a threshold. -/
theorem culprit_of_matchKeys (h : (matchKeys make [k] s).1 = .error (.missingSignature scheme pk)) :
    s.map.Culprit k scheme pk ∧
      ((∀ n, k.HasNode n → ¬ n.Oversized) →
        k.HasLeaf scheme pk ∧ s.map.find scheme pk = .ok none) ∧
      (scheme = .ed25519 → pk = [] →
        k.HasLeaf .ed25519 [] ∨ ∃ n, k.HasNode n ∧ s.map.Overreaches n ∧ n.Leafless) := by
  have hculprit : s.map.Culprit k scheme pk :=
    SignatureMap.culprit_of_satisfy (satisfy_eq_error_of_matchKeys (Prod.ext h rfl))
  refine ⟨hculprit, fun hnone => ?_, ?_⟩
  · cases hculprit with
    | unsigned hleaf hfind => exact ⟨hleaf, hfind⟩
    | beneath hn ho | nobody hn ho => exact absurd ho.oversized (hnone _ hn)
  · rintro rfl rfl
    cases hculprit with
    | unsigned hleaf => exact .inl hleaf
    | beneath hn _ hfirst => exact .inl (hn.hasLeaf hfirst.hasLeaf)
    | nobody hn ho hleafless => exact .inr ⟨_, hn, ho, hleafless⟩

/-- Both public keys have a signature, and still one of them is named: it is the first below a threshold
that asks for four of its three children. -/
theorem culprit_of_matchKeys_of_overreaching :
    let greedy : Key :=
      .threshold 4 [.contractId ⟨0, 0, 9⟩, .keyList [.ecdsaSecp256k1 [2]], .ed25519 [1]]
    let k : Key := .keyList [.ed25519 [1], .threshold 1 [greedy]]
    let s : Supply :=
      ⟨[{ pair := ⟨[1], .ed25519, [8]⟩, used := true }, { pair := ⟨[2], .ecdsaSecp256k1, [9]⟩ }]⟩
    (matchKeys (.over []) [k] s).1 = .error (.missingSignature .ecdsaSecp256k1 [2]) ∧
      s.map.find .ecdsaSecp256k1 [2] = .ok (some ⟨1, [9]⟩) ∧
      ∃ n, k.HasNode n ∧ s.map.Overreaches n ∧ n.FirstLeaf .ecdsaSecp256k1 [2] := by
  intro greedy k s
  have h : (matchKeys (.over []) [k] s).1 = .error (.missingSignature .ecdsaSecp256k1 [2]) := rfl
  have hfind : s.map.find .ecdsaSecp256k1 [2] = .ok (some ⟨1, [9]⟩) := rfl
  obtain ⟨hculprit, -, -⟩ := culprit_of_matchKeys h
  cases hculprit with
  | unsigned _ hnone => cases hfind.symm.trans hnone
  | beneath hn ho hfirst => exact ⟨h, hfind, _, hn, ho, hfirst⟩

/-- A threshold without children is never reached, and nobody can be named. -/
example : SignatureMap.satisfy [] (.threshold 1 []) = .error (.missingSignature .ed25519 []) :=
  rfl

end matchKeys

end Countersign
