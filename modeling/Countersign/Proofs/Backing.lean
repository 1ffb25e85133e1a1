import Countersign.Proofs.Runs
import Countersign.Proofs.Satisfaction
import Countersign.Ledger.Store

/-!
# What backs a success

An expansion that succeeds hands on a list of platform signatures.  Matching looks at the supplied
pairs, but each pair becomes one platform signature only, that of the public key which used it first.
So a public key is backed by a platform signature of its own, unless its pair had an incomplete
prefix and was used for another public key that the prefix fits as well.

## What is here

* `Supply.Served` — the public key has a pair, and the pair is used.
* `Supply.Accounted` — every used pair has become the platform signature of a required public key.
  `Supply.accounted_consume` carries this through a matching.
* `Expansion.satisfiedBy_of_status_ok` — what the keys of a success are satisfied by.
-/

set_option autoImplicit false

namespace Countersign

/-! ## Public keys that are served -/

namespace Supply

variable {s : Supply}

/-- The public key has a pair, and the pair is used. -/
def Served (s : Supply) (scheme : Scheme) (publicKey : Bytes) : Prop :=
  ∃ f, s.map.find scheme publicKey = .ok (some f) ∧ s.flags[f.index]? = some true

theorem Served.matchKeys {make : SignatureMaker} {s' : Supply} {sigs : List PlatformSignature}
    {ks : List Key} (hm : matchKeys make ks s = (.ok sigs, s')) {scheme : Scheme}
    {publicKey : Bytes} (h : s.Served scheme publicKey) : s'.Served scheme publicKey := by
  obtain ⟨found, hfound, hcons⟩ := matchKeys_eq_ok_iff.1 hm
  obtain ⟨f, hf, hused⟩ := h
  have hstands := SignatureMap.stands_of_satisfyAll ks hfound
  have hused' := (used_consume_iff make fun x hx => (hstands x hx).1).2 (.inl hused)
  have hmap := map_consume make found s
  rw [hcons] at hused' hmap
  exact ⟨f, by rwa [hmap], hused'⟩

/-! ## Used pairs and their platform signatures -/

/-- Every used pair is what is found for one of the required public keys, and the platform signature
made of the two is in the list. -/
def Accounted (make : SignatureMaker) (required : List (Scheme × Bytes))
    (sigs : List PlatformSignature) (s : Supply) : Prop :=
  ∀ i, s.flags[i]? = some true → ∃ x : Matched, x.found.index = i ∧ x.Stands s.map ∧
    (x.scheme, x.publicKey) ∈ required ∧ make x.scheme x.publicKey x.found.signature ∈ sigs

variable {make : SignatureMaker} {required : List (Scheme × Bytes)} {sigs : List PlatformSignature}

theorem accounted_ofMap (m : SignatureMap) : Accounted make required sigs (ofMap m) := by
  intro i hi
  simp [flags, ofMap, List.getElem?_map] at hi

theorem Accounted.mono {more : List PlatformSignature} (h : Accounted make required sigs s)
    (hsub : sigs ⊆ more) : Accounted make required more s := by
  intro i hi
  obtain ⟨x, hx, hstands, hreq, hmem⟩ := h i hi
  exact ⟨x, hx, hstands, hreq, hsub hmem⟩

/-- One match: either its pair is used now, for this very public key, or it was accounted for
before. -/
theorem Accounted.markUsed (h : Accounted make required sigs s) {x : Matched}
    (hstands : x.Stands s.map) (hreq : (x.scheme, x.publicKey) ∈ required) :
    Accounted make required
      (sigs ++ if (s.markUsed x.found.index).1 then
        [make x.scheme x.publicKey x.found.signature] else [])
      (s.markUsed x.found.index).2 := by
  intro i hi
  have hlt := lt_length_of_stands hstands
  rw [used_markUsed_iff hlt] at hi
  rw [map_markUsed]
  by_cases hfresh : (s.markUsed x.found.index).1 = true
  · rw [if_pos hfresh]
    rcases hi with hused | rfl
    · obtain ⟨y, hy, hys, hyr, hym⟩ := h i hused
      exact ⟨y, hy, hys, hyr, List.mem_append_left _ hym⟩
    · exact ⟨x, rfl, hstands, hreq, List.mem_append_right _ List.mem_cons_self⟩
  · rw [if_neg hfresh, List.append_nil]
    rcases hi with hused | rfl
    · exact h i hused
    · exact h _ (used_of_not_fresh hlt hfresh)

/-- **Matching keeps the account.** -/
theorem accounted_consume {found : List Matched} (h : Accounted make required sigs s)
    (hfound : ∀ x ∈ found, x.Stands s.map ∧ (x.scheme, x.publicKey) ∈ required) :
    Accounted make required (sigs ++ (consume make found s).1) (consume make found s).2 := by
  induction found generalizing s sigs with
  | nil => simpa [consume] using h
  | cons x found ih =>
    obtain ⟨⟨hx, hreq⟩, hfound⟩ := List.forall_mem_cons.1 hfound
    rw [consume_cons, ← List.append_assoc]
    exact ih (h.markUsed hx hreq) (by simpa using hfound)

end Supply

/-! ## What a public key is backed by -/

/-- The list has a platform signature of exactly this public key. -/
def Holds (sigs : List PlatformSignature) (scheme : Scheme) (publicKey : Bytes) : Prop :=
  ∃ s ∈ sigs, s.scheme = scheme ∧ s.publicKey = publicKey

instance (sigs : List PlatformSignature) (scheme : Scheme) (publicKey : Bytes) :
    Decidable (Holds sigs scheme publicKey) :=
  inferInstanceAs (Decidable (∃ s ∈ sigs, _))

/-- The pair found for the public key has an incomplete prefix and was found for another required
public key as well, whose platform signature is in the list. -/
def SpentElsewhere (m : SignatureMap) (required : List (Scheme × Bytes))
    (sigs : List PlatformSignature) (scheme : Scheme) (publicKey : Bytes) : Prop :=
  ∃ f p other, m.find scheme publicKey = .ok (some f) ∧ m[f.index]? = some p ∧
    p.hasFullPrefix = false ∧ p.Fits scheme publicKey ∧
    other ≠ publicKey ∧ (scheme, other) ∈ required ∧ m.find scheme other = .ok (some f) ∧
    p.Fits scheme other ∧
    ∃ s ∈ sigs, s.scheme = scheme ∧ s.publicKey = other ∧ s.signature = p.signature

/-- A public key whose pair is used is backed, one way or the other. -/
theorem Supply.Accounted.backs {message : Bytes} {required : List (Scheme × Bytes)} {s : Supply}
    {sigs : List PlatformSignature} (h : s.Accounted (.over message) required sigs)
    {scheme : Scheme} {publicKey : Bytes} (hserved : s.Served scheme publicKey) :
    Holds sigs scheme publicKey ∨ SpentElsewhere s.map required sigs scheme publicKey := by
  obtain ⟨f, hf, hused⟩ := hserved
  obtain ⟨y, hindex, hy, hreq, hmem⟩ := h _ hused
  obtain ⟨p, hp, hsig, hfits⟩ := SignatureMap.exists_pair_of_find hf
  obtain ⟨q, hq, hsig', hfits'⟩ := SignatureMap.exists_pair_of_find hy
  obtain rfl : p = q := by
    rw [hindex, hp] at hq
    exact Option.some.inj hq
  obtain rfl : y.scheme = scheme := hfits'.scheme_eq.symm.trans hfits.scheme_eq
  by_cases hpk : y.publicKey = publicKey
  · exact .inl ⟨_, hmem, rfl, hpk⟩
  · -- a complete prefix fits one public key only
    have hpartial : p.hasFullPrefix = false := Bool.eq_false_iff.2 fun hfull =>
      hpk ((hfits'.eq_of_full hfull).symm.trans (hfits.eq_of_full hfull))
    have hfound : y.found = f := by
      rcases hyf : y.found with ⟨i, b⟩
      simp_all
    exact .inr ⟨f, p, y.publicKey, hf, hp, hpartial, hfits, hpk, hreq, hfound ▸ hy,
      hfits', _, hmem, rfl, rfl, hsig'.symm⟩

/-! ## A whole expansion -/

/-- Matching a list of keys has every one of them satisfied by used pairs. -/
theorem Supply.Accounted.matchKeys {make : SignatureMaker} {required : List (Scheme × Bytes)}
    {s s' : Supply} {sigs more : List PlatformSignature} {ks : List Key}
    (h : s.Accounted make required sigs) (hreq : Key.primitivesOfAll ks ⊆ required)
    (hm : matchKeys make ks s = (.ok more, s')) :
    s'.Accounted make required (sigs ++ more) ∧ Key.AllSatisfiedBy s'.Served ks := by
  obtain ⟨found, hfound, hcons⟩ := matchKeys_eq_ok_iff.1 hm
  have hstands := SignatureMap.stands_of_satisfyAll ks hfound
  have hacc := accounted_consume h fun x hx => (hstands x hx).imp_right (@hreq _)
  rw [hcons] at hacc
  refine ⟨hacc, (SignatureMap.allSatisfiedBy_of_satisfyAll ks hfound).imp ?_⟩
  rintro ⟨scheme, pk⟩ - ⟨f, hf⟩
  have hmap : s'.map = s.map := by rw [← map_matchKeys make ks s, hm]
  have hused := (used_consume_iff make fun x hx => (hstands x hx).1).2 (.inr ⟨_, hf, rfl⟩)
  exact ⟨f, by rw [hmap]; exact (hstands _ hf).1, by rwa [hcons] at hused⟩

namespace Expansion

/-- **What a success is backed by.**  When an expansion of unused signatures ends well, the key of the
payer and the keys of all other parties are satisfied by the platform signatures handed on: each
public key that counts has one of its own, or else its pair came with an incomplete prefix and was
spent on another required public key which the prefix fits too.  If no incomplete prefix fits two
different required public keys, then each has one of its own. -/
theorem satisfiedBy_of_status_ok (source : Source) (body : Body) (message : Bytes) (sweep : Bool)
    (m : SignatureMap)
    (hok : (executeGuarded { source, body, make := .over message, sweep } (.ofMap m)).status = .ok) :
    ∃ key keys sigs,
      (executeGuarded { source, body, make := .over message, sweep } (.ofMap m)).sigMeta =
        .complete key keys sigs ∧
      (∀ k ∈ key :: keys, k.SatisfiedBy fun scheme pk => Holds sigs scheme pk ∨
        SpentElsewhere m (Key.primitivesOfAll (key :: keys)) sigs scheme pk) ∧
      ((∀ p ∈ m, p.hasFullPrefix = false → ∀ scheme pk pk',
          (scheme, pk) ∈ Key.primitivesOfAll (key :: keys) →
          (scheme, pk') ∈ Key.primitivesOfAll (key :: keys) →
          p.Fits scheme pk → p.Fits scheme pk' → pk = pk') →
        ∀ k ∈ key :: keys, k.SatisfiedBy (Holds sigs)) := by
  obtain ⟨key, sigs, s', t, keys, others, s'', t', -, hm, -, hk, hrun⟩ := run_eq_of_status_ok hok
  have hmap : s''.map = m := by
    have h := map_matchKeys (.over message) keys s'
    have h' := map_matchKeys (.over message) [key] (.ofMap m)
    rw [hk] at h
    rw [hm] at h'
    rw [h, h', Supply.map_ofMap]
  -- the account is kept through both matchings, and what the sweep adds does no harm
  have hnone : (Supply.ofMap m).Accounted (.over message) (Key.primitivesOfAll (key :: keys)) [] :=
    Supply.accounted_ofMap m
  obtain ⟨hacc, hpayer, -⟩ := hnone.matchKeys (by simp [Key.primitivesOfAll]) hm
  obtain ⟨hacc, hothers⟩ := hacc.matchKeys (by simp [Key.primitivesOfAll]) hk
  have hserved : Key.AllSatisfiedBy s''.Served (key :: keys) :=
    ⟨hpayer.imp fun _ _ => .matchKeys hk, hothers⟩
  generalize hswept : (swept { source, body, make := .over message, sweep } s'').1 = swept at hrun
  have hacc := hacc.mono (List.subset_append_left _ swept)
  have hbacked : ∀ k ∈ key :: keys, k.SatisfiedBy fun scheme pk =>
      Holds (sigs ++ others ++ swept) scheme pk ∨
        SpentElsewhere m (Key.primitivesOfAll (key :: keys)) (sigs ++ others ++ swept) scheme pk :=
    Key.allSatisfiedBy_iff.1 (hserved.imp fun _ _ h => hmap ▸ hacc.backs h)
  refine ⟨key, keys, sigs ++ others ++ swept, by rw [executeGuarded, hrun]; rfl, hbacked,
    fun huniq k hmem => ?_⟩
  refine (hbacked k hmem).imp ?_
  rintro ⟨scheme, pk⟩ hp (hholds | ⟨f, p, other, -, hget, hpartial, hfits, hne, hreq, -, hfits', -⟩)
  · exact hholds
  · exact absurd (huniq p (List.mem_of_getElem? hget) hpartial scheme other pk hreq
      (Key.primitives_subset_of_mem hmem hp) hfits' hfits) hne

/-- A pair of which only the first octet of the public key is given fits two required public keys. It
becomes the platform signature of the payer, and the other party has none. -/
theorem not_forall_holds_of_status_ok :
    ¬ ∀ (source : Source) (body : Body) (message : Bytes) (sweep : Bool) (m : SignatureMap)
        (key : Key) (keys : List Key) (sigs : List PlatformSignature),
      (executeGuarded { source, body, make := .over message, sweep } (.ofMap m)).status = .ok →
      (executeGuarded { source, body, make := .over message, sweep } (.ofMap m)).sigMeta =
        .complete key keys sigs →
      ∀ k ∈ key :: keys, k.SatisfiedBy (Holds sigs) := by
  intro h
  let owned (octet : UInt8) : Key := .ed25519 (7 :: .replicate 31 octet)
  let store : Store := Store.fresh.run
    [.putAccount ⟨0, 0, 1001⟩ { key := owned 1 }, .putAccount ⟨0, 0, 2002⟩ { key := owned 2 }]
  have hlast := h { view := store.view fun _ => false }
    { payer := ⟨0, 0, 1001⟩, validStart := 1000, nodeAccount := ⟨0, 0, 3⟩, memo := ""
      operation := .cryptoUpdate (.byId ⟨0, 0, 2002⟩) none none }
    [] true [⟨[7], .ed25519, .replicate 64 0xaa⟩] (owned 1) [owned 2]
    [{ scheme := .ed25519, publicKey := 7 :: .replicate 31 1, signature := .replicate 64 0xaa
       message := [] }]
    (by decide) (by decide) (owned 2) (by decide)
  revert hlast
  show ¬ Holds _ _ _
  decide

/-- Two parties whose public keys differ in the first octet, which is all that is given of them. -/
theorem satisfiedBy_of_status_ok_of_two_parties :
    let source : Source :=
      { view := (Store.fresh.run
          [.putAccount ⟨0, 0, 1001⟩ { key := .ed25519 (7 :: .replicate 31 1) },
            .putAccount ⟨0, 0, 2002⟩ { key := .ed25519 (8 :: .replicate 31 2) }]).view
              fun _ => false }
    let body : Body :=
      { payer := ⟨0, 0, 1001⟩, validStart := 1000, nodeAccount := ⟨0, 0, 3⟩, memo := ""
        operation := .cryptoUpdate (.byId ⟨0, 0, 2002⟩) none none }
    let m : SignatureMap :=
      [⟨[7], .ed25519, .replicate 64 0xaa⟩, ⟨[8], .ed25519, .replicate 64 0xbb⟩]
    (executeGuarded { source, body, make := .over [] } (.ofMap m)).status = .ok ∧
      ∃ key keys sigs,
        (executeGuarded { source, body, make := .over [] } (.ofMap m)).sigMeta =
          .complete key keys sigs ∧
        (∀ k ∈ key :: keys, k.SatisfiedBy fun scheme pk => Holds sigs scheme pk ∨
          SpentElsewhere m (Key.primitivesOfAll (key :: keys)) sigs scheme pk) := by
  intro source body m
  have hok : (executeGuarded { source, body, make := .over [] } (.ofMap m)).status = .ok := by
    decide
  obtain ⟨key, keys, sigs, hmeta, hbacked, -⟩ :=
    satisfiedBy_of_status_ok source body [] true m hok
  exact ⟨hok, key, keys, sigs, hmeta, hbacked⟩

end Expansion

end Countersign
