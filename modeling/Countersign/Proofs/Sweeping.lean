import Countersign.Proofs.Reordering
import Mathlib.Data.List.Count

/-!
# What the sweep adds

The sweep comes last, and looks at nothing but the flags that the two matchings have left.  So the
course of an expansion is the same with it as without it, and one that is finalized has the signatures
of the pairs that were left at the end.  If no pair was used at the start then each pair with a complete
prefix is taken once: a matching and the sweep make the same of it.

## What is here

* `Expansion.withSweep` — the same expansion with the sweep on or off.
* `SignaturePair.signed` — what becomes of a pair with a complete prefix; `SignatureMap.Hinted` — what
  becomes of any other.
* `Supply.spends_consume`, `Supply.spends_matchKeys` — a matching draws on incomplete pairs alone, apart
  from what a sweep would have brought anyway.
* `Expansion.run_withSweep` — an expansion without the sweep and with it.
* `Ran.Appends`, `Expansion.appends_withSweep` — what the two have in common, and what is added.
-/

set_option autoImplicit false

namespace Countersign

/-! ## What becomes of a pair -/

/-- The platform signature of a pair, if its prefix is a complete public key. -/
def SignaturePair.signed (make : SignatureMaker) (p : SignaturePair) : PlatformSignature :=
  make p.scheme p.keyPrefix p.signature

/-- A platform signature is that of a pair with an incomplete prefix, made for a public key that no pair
names. -/
inductive SignatureMap.Hinted (make : SignatureMaker) (m : SignatureMap) : PlatformSignature → Prop
  | intro {p : SignaturePair} {publicKey : Bytes} (hp : p ∈ m)
      (hhints : p.hints p.scheme publicKey = true)
      (hnone : ∀ q ∈ m, q.names p.scheme publicKey = false) :
      Hinted make m (make p.scheme publicKey p.signature)

/-- Different schemes, public keys or signatures are made into different platform signatures. -/
def SignatureMaker.Separates (make : SignatureMaker) : Prop :=
  ∀ scheme pk sig scheme' pk' sig', make scheme pk sig = make scheme' pk' sig' →
    scheme = scheme' ∧ pk = pk' ∧ sig = sig'

theorem SignatureMaker.separates_over (message : Bytes) : (SignatureMaker.over message).Separates := by
  intro scheme pk sig scheme' pk' sig' h
  obtain ⟨hscheme, hpk, hsig, -⟩ := PlatformSignature.mk.inj h
  exact ⟨hscheme, hpk, hsig⟩

/-- What is made of pairs that are not complete is not what is made of a complete one. -/
theorem SignatureMap.Hinted.ne_signed {make : SignatureMaker} (hmake : make.Separates)
    {m : SignatureMap} {sig : PlatformSignature} (h : m.Hinted make sig) {p : SignaturePair}
    (hp : p ∈ m) (hfull : p.hasFullPrefix = true) : p.signed make ≠ sig := by
  intro heq
  obtain ⟨hq, -, hnone⟩ := h
  obtain ⟨hscheme, hpk, -⟩ := hmake _ _ _ _ _ _ heq
  have hnot := hnone p hp
  simp [SignaturePair.names, hscheme, hpk, hfull] at hnot

/-- A match takes the pair that names its public key or, if none does, one that hints at it. -/
theorem Matched.Stands.takes {x : Matched} {m : SignatureMap} (h : x.Stands m) :
    ∃ before p, x.Takes m before p ∧
      (p.names x.scheme x.publicKey = true ∨
        p.hints x.scheme x.publicKey = true ∧ ∀ q ∈ m, q.names x.scheme x.publicKey = false) := by
  have hchoice := m.choice_find x.scheme x.publicKey
  rw [h] at hchoice
  generalize hfound : x.found = found at hchoice
  cases hchoice with
  | named hm hp => exact ⟨_, _, ⟨⟨_, hm⟩, hfound⟩, .inl hp⟩
  | hinted hnone hm hp => exact ⟨_, _, ⟨⟨_, hm⟩, hfound⟩, .inr ⟨hp, hnone⟩⟩

namespace Supply

variable {make : SignatureMaker} {s s' : Supply}

/-! ## What a matching draws -/

/-- One match is used up. -/
theorem spends_consume_one (make : SignatureMaker) {x : Matched} (hx : x.Stands s.map) :
    ∃ drawn, Spends make s (consume make [x] s).2 (consume make [x] s).1 drawn ∧
      ∀ sig ∈ drawn, s.map.Hinted make sig := by
  obtain ⟨before, p, htakes, hp | ⟨hp, hnone⟩⟩ := hx.takes
  · exact ⟨[], (spends_of_named make htakes hp).1, by simp⟩
  · obtain ⟨l₁, used, l₂, rfl, -, hcons⟩ := consume_of_takes make htakes
    rw [hcons]
    refine ⟨_, spends_partial (SignaturePair.hasFullPrefix_of_hints hp) _, fun sig hsig => ?_⟩
    have hscheme : p.scheme = x.scheme := (SignaturePair.fits_of_hints hp).scheme_eq
    cases used with
    | true => simp at hsig
    | false =>
      obtain rfl : sig = make x.scheme x.publicKey p.signature := by simpa using hsig
      rw [← hscheme] at hp hnone ⊢
      exact .intro (by simp [map]) hp hnone

/-- **Matches draw on incomplete pairs alone**, apart from what a sweep would have brought anyway. -/
theorem spends_consume (make : SignatureMaker) {found : List Matched}
    (hfound : ∀ x ∈ found, x.Stands s.map) :
    ∃ drawn, Spends make s (consume make found s).2 (consume make found s).1 drawn ∧
      ∀ sig ∈ drawn, s.map.Hinted make sig := by
  induction found generalizing s with
  | nil => exact ⟨[], .rfl, by simp⟩
  | cons x found ih =>
    obtain ⟨hx, hrest⟩ := List.forall_mem_cons.1 hfound
    obtain ⟨drawn, hone, hdrawn⟩ := spends_consume_one make hx
    obtain ⟨others, hothers, hmore⟩ := ih (s := (consume make [x] s).2) (by simpa using hrest)
    have hsplit : consume make (x :: found) s = _ := consume_append [x] found s
    rw [hsplit]
    refine ⟨drawn ++ others, hone.trans hothers, List.forall_mem_append.2 ⟨hdrawn, ?_⟩⟩
    rwa [map_consume] at hmore

theorem spends_matchKeys {ks : List Key} {sigs : List PlatformSignature}
    (h : matchKeys make ks s = (.ok sigs, s')) :
    ∃ drawn, Spends make s s' sigs drawn ∧ ∀ sig ∈ drawn, s.map.Hinted make sig := by
  obtain ⟨found, hfound, hcons⟩ := matchKeys_eq_ok_iff.1 h
  obtain ⟨drawn, hspends, hdrawn⟩ := spends_consume (s := s) make
    fun x hx => (SignatureMap.stands_of_satisfyAll ks hfound x hx).1
  rw [hcons] at hspends
  exact ⟨drawn, hspends, hdrawn⟩

/-! ## What a sweep brings -/

/-- The signatures of the pairs that are swept, in order. -/
theorem sweepUnused_fst (make : SignatureMaker) (s : Supply) :
    (sweepUnused make s).1 =
      (s.entries.filter isSweepable).map fun e => e.pair.signed make := by
  exact List.map_map

/-- On a supply that is not used at all these are the pairs with a complete prefix. -/
theorem sweepUnused_fst_of_unused (make : SignatureMaker) (hs : ∀ e ∈ s.entries, e.used = false) :
    (sweepUnused make s).1 =
      (s.map.filter SignaturePair.hasFullPrefix).map (SignaturePair.signed make) := by
  have hfilter : s.entries.filter isSweepable =
      s.entries.filter fun e => e.pair.hasFullPrefix :=
    List.filter_congr fun e he => by simp [isSweepable, hs e he]
  rw [sweepUnused_fst, hfilter, map, List.filter_map, List.map_map]
  rfl

/-- A sweep uses up every pair with a complete prefix, and leaves the others as they are. -/
theorem flags_sweepUnused (make : SignatureMaker) {i : Nat} {p : SignaturePair}
    (hp : s.map[i]? = some p) :
    (sweepUnused make s).2.flags[i]? = if p.hasFullPrefix then some true else s.flags[i]? := by
  obtain ⟨e, he, rfl⟩ := Option.map_eq_some_iff.1 (List.getElem?_map.symm.trans hp)
  have hflag : s.flags[i]? = some e.used := by rw [flags, List.getElem?_map, he]; rfl
  rw [hflag, sweepUnused, sweep, flags, List.map_map, List.getElem?_map, he]
  cases hused : e.used <;> cases hfull : e.pair.hasFullPrefix <;> simp [isSweepable, hused, hfull]

end Supply

/-! ## An expansion without the sweep and with it -/

namespace Expansion

/-- The same expansion with the sweep on or off. -/
def withSweep (x : Expansion) (enabled : Bool) : Expansion := { x with sweep := enabled }

/-- **The sweep makes no difference before the end.**  With it and without it an expansion takes the
same course; and if it is finalized then it is the sweep that comes last. -/
theorem run_withSweep (x : Expansion) (s : Supply) :
    ((x.withSweep true).run s = (x.withSweep false).run s ∧
        ((x.withSweep false).run s).outcome.stage ≠ .finalized) ∨
      ∃ key keys sigs s' t drawn,
        (x.withSweep false).run s = ⟨.finished (.complete key keys sigs) .ok .finalized, s', t⟩ ∧
        (x.withSweep true).run s =
          ⟨.finished (.complete key keys (sigs ++ (sweepUnused x.make s').1)) .ok .finalized,
            (sweepUnused x.make s').2, t⟩ ∧
        s'.map = s.map ∧ s.Spends x.make s' sigs drawn ∧
        ∀ sig ∈ drawn, s.map.Hinted x.make sig := by
  have hr := (x.withSweep false).runs_run s
  generalize (x.withSweep false).run s = r at hr ⊢
  cases hr with
  | payerInterrupted hp => exact .inl ⟨Runs.run_eq (.payerInterrupted hp), nofun⟩
  | payerUnordered hp => exact .inl ⟨Runs.run_eq (.payerUnordered hp), nofun⟩
  | payerUnmatched hp hm => exact .inl ⟨Runs.run_eq (.payerUnmatched hp hm), nofun⟩
  | othersInterrupted hp hm ho => exact .inl ⟨Runs.run_eq (.othersInterrupted hp hm ho), nofun⟩
  | othersUnordered hp hm ho => exact .inl ⟨Runs.run_eq (.othersUnordered hp hm ho), nofun⟩
  | othersUnmatched hp hm ho hk => exact .inl ⟨Runs.run_eq (.othersUnmatched hp hm ho hk), nofun⟩
  | @finalized key sigs others s' s'' t t' keys hp hm ho hk =>
    have hmap : s'.map = s.map := map_eq_of_matchKeys hm
    obtain ⟨drawn, hd, hdrawn⟩ := Supply.spends_matchKeys hm
    obtain ⟨more, hmore, hmoredrawn⟩ := Supply.spends_matchKeys hk
    refine .inr ⟨key, keys, sigs ++ others, s'', t', drawn ++ more, ?_,
      Runs.run_eq (.finalized (x := x.withSweep true) hp hm ho hk),
      (map_eq_of_matchKeys hk).trans hmap, hd.trans hmore, ?_⟩
    · simp [swept, withSweep]
    · rw [hmap] at hmoredrawn
      exact List.forall_mem_append.2 ⟨hdrawn, hmoredrawn⟩

end Expansion

/-- The run `on` is the run `off` with a sweep at its end, if it gets there.  Both start on the supply
`s`. -/
structure Ran.Appends (make : SignatureMaker) (s : Supply) (off on : Ran) : Prop where
  status : on.outcome.status = off.outcome.status
  stage : on.outcome.stage = off.outcome.stage
  interrupted : on.outcome.interrupted = off.outcome.interrupted
  payerKey : on.outcome.sigMeta.payerKey? = off.outcome.sigMeta.payerKey?
  otherKeys : on.outcome.sigMeta.otherKeys? = off.outcome.sigMeta.otherKeys?
  linked : on.outcome.linked = off.outcome.linked
  /-- The two do not differ at all unless they are finalized. -/
  unfinished : off.outcome.stage ≠ .finalized → on = off
  /-- The unused pairs with a complete prefix come last, in the order of the map. -/
  signatures : off.outcome.stage = .finalized →
    ∃ sigs, off.outcome.sigMeta.signatures? = some sigs ∧
      on.outcome.sigMeta.signatures? = some
        (sigs ++ (off.supply.entries.filter Supply.isSweepable).map fun e => e.pair.signed make)
  flags : off.outcome.stage = .finalized →
    off.supply.map = s.map ∧ on.supply.map = s.map ∧
      ∀ (i : Nat) (p : SignaturePair), s.map[i]? = some p →
        on.supply.flags[i]? = if p.hasFullPrefix then some true else off.supply.flags[i]?
  /-- If no pair was used at the start then every pair with a complete prefix is there once.  What else
  there is comes from incomplete pairs, for public keys that no pair names. -/
  once : off.outcome.stage = .finalized → (∀ e ∈ s.entries, e.used = false) →
    ∃ sigs drawn, on.outcome.sigMeta.signatures? = some sigs ∧
      sigs.Perm ((s.map.filter SignaturePair.hasFullPrefix).map (SignaturePair.signed make) ++ drawn) ∧
      (∀ sig ∈ drawn, s.map.Hinted make sig) ∧
      (make.Separates → ∀ p ∈ s.map, p.hasFullPrefix = true →
        sigs.count (p.signed make) = s.map.count p)

namespace Expansion

/-- As many signatures of a complete pair as there are copies of the pair. -/
theorem count_signed {make : SignatureMaker} (hmake : make.Separates) {m : SignatureMap}
    {sigs drawn : List PlatformSignature}
    (hperm : sigs.Perm
      ((m.filter SignaturePair.hasFullPrefix).map (SignaturePair.signed make) ++ drawn))
    (hdrawn : ∀ sig ∈ drawn, m.Hinted make sig) {p : SignaturePair} (hp : p ∈ m)
    (hfull : p.hasFullPrefix = true) : sigs.count (p.signed make) = m.count p := by
  have hinj : Function.Injective (SignaturePair.signed make) := by
    rintro ⟨pk, scheme, sig⟩ ⟨pk', scheme', sig'⟩ h
    obtain ⟨rfl, rfl, rfl⟩ := hmake _ _ _ _ _ _ h
    rfl
  have hnot : p.signed make ∉ drawn := fun hin => (hdrawn _ hin).ne_signed hmake hp hfull rfl
  rw [hperm.count_eq, List.count_append, List.count_eq_zero_of_not_mem hnot, Nat.add_zero,
    List.count_map_of_injective _ _ hinj, List.count_filter hfull]

/-- **The sweep only appends.**  An expansion with the sweep is the same expansion without it, up to
what comes at the end. -/
theorem appends_withSweep (x : Expansion) (s : Supply) :
    Ran.Appends x.make s ((x.withSweep false).run s) ((x.withSweep true).run s) := by
  rcases x.run_withSweep s with
    ⟨heq, hne⟩ | ⟨key, keys, sigs, s', t, drawn, hoff, hon, hmap, hspends, hdrawn⟩
  · rw [heq]
    exact ⟨rfl, rfl, rfl, rfl, rfl, rfl, fun _ => rfl, fun h => absurd h hne, fun h => absurd h hne,
      fun h => absurd h hne⟩
  · rw [hoff, hon]
    refine ⟨rfl, rfl, rfl, rfl, rfl, rfl, fun hne => absurd rfl hne, fun _ => ?_, fun _ => ?_,
      fun _ hs => ?_⟩
    · exact ⟨sigs, rfl, by rw [← Supply.sweepUnused_fst]; rfl⟩
    · refine ⟨hmap, (s'.map_sweep).trans hmap, fun i p hp => Supply.flags_sweepUnused x.make ?_⟩
      rwa [hmap]
    · have hperm : (sigs ++ (sweepUnused x.make s').1).Perm _ :=
        List.Perm.trans hspends List.perm_append_comm
      rw [Supply.sweepUnused_fst_of_unused x.make hs] at hperm
      exact ⟨_, drawn, rfl, hperm, hdrawn,
        fun hmake p hp hfull => count_signed hmake hperm hdrawn hp hfull⟩

/-- The pair of the payer has come along twice.  One of the two is matched, and so is the incomplete
pair of the account; the other of the two is swept, and a pair that nobody has asked for. -/
theorem appends_withSweep_of_double :
    let owner (pk : Bytes) : AccountRecord := { key := .ed25519 pk }
    let double : SignaturePair := ⟨.replicate 32 7, .ed25519, [1]⟩
    let stray : SignaturePair := ⟨.replicate 32 9, .ed25519, [3]⟩
    let x : Expansion :=
      { source :=
          { view := (Store.fresh.run
              [.putAccount ⟨0, 0, 1001⟩ (owner (.replicate 32 7)),
                .putAccount ⟨0, 0, 1002⟩ (owner (.replicate 32 8))]).view fun _ => false }
        body :=
          { payer := ⟨0, 0, 1001⟩, validStart := 0, nodeAccount := ⟨0, 0, 3⟩, memo := ""
            operation := .tokenAssociate (.byId ⟨0, 0, 1002⟩) [] }
        make := .over [5] }
    let s : Supply := .ofMap [double, ⟨[8], .ed25519, [2]⟩, double, stray]
    ∃ sigs, ((x.withSweep true).run s).outcome.sigMeta.signatures? = some sigs ∧
      sigs.count (double.signed x.make) = 2 ∧ sigs.count (stray.signed x.make) = 1 ∧
      ((x.withSweep false).run s).supply.flags = [true, true, false, false] ∧
      ((x.withSweep false).run s).outcome.stage = .finalized := by
  intro owner double stray x s
  have hstage : ((x.withSweep false).run s).outcome.stage = .finalized := rfl
  obtain ⟨sigs, -, hsigs, -, -, hcount⟩ := (appends_withSweep x s).once hstage (by decide)
  have hmake := SignatureMaker.separates_over [5]
  refine ⟨sigs, hsigs, ?_, ?_, rfl, hstage⟩
  · exact (hcount hmake double (by decide) rfl).trans (by decide)
  · exact (hcount hmake stray (by decide) rfl).trans (by decide)

end Expansion

end Countersign
