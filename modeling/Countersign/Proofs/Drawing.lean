import Countersign.Proofs.Matching
import Countersign.Proofs.Runs
import Mathlib.Data.List.Forall2
import Mathlib.Data.List.Nodup

/-!
# Signatures drawn from a supply

Every platform signature is made of one supplied pair, and that pair is used up by it.  So whatever
goes on between two states of a supply, the signatures that come out of it are drawn from pairs at
different positions, which were unused before and are used after.

## What is here

* `PlatformSignature.DrawnFrom` — the signature is made of a pair.
* `Supply.Draws` — signatures are drawn from positions on the way from one state to another.
  `Supply.Draws.trans` joins two ways.
* `Supply.draws_consume`, `Supply.draws_matchKeys`, `Supply.draws_sweepUnused` — the operations.
* `exists_injective_of_drawn` — the positions as an injection.
* `Expansion.exists_draws_run` — an expansion.
-/

set_option autoImplicit false

namespace Countersign

/-- The platform signature is made of the pair: it has the scheme and the signature of the pair, and
a public key that the pair fits. -/
structure PlatformSignature.DrawnFrom (sig : PlatformSignature) (message : Bytes)
    (p : SignaturePair) : Prop where
  fits : p.Fits sig.scheme sig.publicKey
  signature_eq : sig.signature = p.signature
  message_eq : sig.message = message

namespace Supply

/-! ## Drawing -/

/-- On the way from one state of a supply to another, signatures are drawn from the pairs at the
given positions. -/
structure Draws (s s' : Supply) (message : Bytes) (sigs : List PlatformSignature)
    (drawn : List Nat) : Prop where
  map_eq : s'.map = s.map
  nodup : drawn.Nodup
  fresh : ∀ i ∈ drawn, s.flags[i]? = some false
  used_iff : ∀ i, s'.flags[i]? = some true ↔ s.flags[i]? = some true ∨ i ∈ drawn
  source : List.Forall₂ (fun sig i => ∃ p, s.map[i]? = some p ∧ sig.DrawnFrom message p) sigs drawn
  status : ∀ sig ∈ sigs, sig.status = .unknown

variable {s s' s'' : Supply} {message : Bytes} {sigs more : List PlatformSignature}
  {drawn others : List Nat}

theorem draws_refl (s : Supply) (message : Bytes) : s.Draws s message [] [] where
  map_eq := rfl
  nodup := List.nodup_nil
  fresh := by simp
  used_iff := by simp
  source := .nil
  status := by simp

/-- **Two ways are joined**: what is used on the first way is not drawn from on the second. -/
theorem Draws.trans (h : s.Draws s' message sigs drawn) (h' : s'.Draws s'' message more others) :
    s.Draws s'' message (sigs ++ more) (drawn ++ others) where
  map_eq := h'.map_eq.trans h.map_eq
  nodup := by
    refine List.nodup_append.2 ⟨h.nodup, h'.nodup, ?_⟩
    rintro i hi _ hj rfl
    have hused := (h.used_iff i).2 (.inr hi)
    rw [h'.fresh i hj] at hused
    simp at hused
  fresh := by
    intro i hi
    rcases List.mem_append.1 hi with hi | hi
    · exact h.fresh i hi
    · have hlt : i < s.flags.length := by
        rw [length_flags, ← h.map_eq, ← length_flags]
        exact (List.getElem?_eq_some_iff.1 (h'.fresh i hi)).1
      have hnot : s.flags[i]? ≠ some true := fun hused => by
        have := (h.used_iff i).2 (.inl hused)
        rw [h'.fresh i hi] at this
        simp at this
      rw [List.getElem?_eq_getElem hlt] at hnot ⊢
      simpa using hnot
  used_iff := by
    intro i
    rw [h'.used_iff, h.used_iff, List.mem_append, or_assoc]
  source := List.rel_append h.source (h.map_eq ▸ h'.source)
  status := List.forall_mem_append.2 ⟨h.status, h'.status⟩

/-! ## Matching -/

/-- Using the pair of a match up draws one signature from it, or none if the pair has been used. -/
theorem draws_markUsed {x : Matched} (hx : x.Stands s.map) :
    s.Draws (s.markUsed x.found.index).2 message
      (if (s.markUsed x.found.index).1 then
        [SignatureMaker.over message x.scheme x.publicKey x.found.signature] else [])
      (if (s.markUsed x.found.index).1 then [x.found.index] else []) := by
  obtain ⟨p, hp, hsig, hfits⟩ := SignatureMap.exists_pair_of_find hx
  have hlt := lt_length_of_stands hx
  by_cases hfresh : (s.markUsed x.found.index).1 = true
  · simp only [if_pos hfresh]
    refine ⟨map_markUsed _ _, by simp, ?_, fun i => ?_, ?_, ?_⟩
    · simpa using (markUsed_fst _ _).1 hfresh
    · rw [used_markUsed_iff hlt, List.mem_singleton, eq_comm (a := i)]
    · exact .cons ⟨p, hp, hfits, hsig.symm, rfl⟩ .nil
    · exact List.forall_mem_singleton.2 rfl
  · simp only [if_neg hfresh]
    refine ⟨map_markUsed _ _, List.nodup_nil, by simp, fun i => ?_, .nil, by simp⟩
    rw [used_markUsed_iff hlt]
    have hused : x.found.index = i → s.flags[i]? = some true := by
      rintro rfl
      exact used_of_not_fresh hlt hfresh
    simpa using hused

theorem draws_consume (message : Bytes) {found : List Matched} (hfound : ∀ x ∈ found, x.Stands s.map) :
    ∃ drawn, s.Draws (consume (.over message) found s).2 message
      (consume (.over message) found s).1 drawn := by
  induction found generalizing s with
  | nil => exact ⟨[], s.draws_refl message⟩
  | cons x found ih =>
    rw [List.forall_mem_cons] at hfound
    obtain ⟨others, hothers⟩ := ih (s := (s.markUsed x.found.index).2) (by simpa using hfound.2)
    rw [consume_cons]
    exact ⟨_, (draws_markUsed hfound.1).trans hothers⟩

/-- Matching a list of keys, successful or not. -/
theorem draws_matchKeys {ks : List Key} (hm : matchKeys (.over message) ks s = (.ok sigs, s')) :
    ∃ drawn, s.Draws s' message sigs drawn := by
  obtain ⟨found, hfound, hcons⟩ := matchKeys_eq_ok_iff.1 hm
  have h := draws_consume message fun x hx =>
    (SignatureMap.stands_of_satisfyAll ks hfound x hx).1
  rwa [hcons] at h

/-! ## The sweep -/

/-- The sweep draws from every unused pair with a complete prefix. -/
theorem draws_sweepUnused (s : Supply) (message : Bytes) :
    ∃ drawn, s.Draws (sweepUnused (.over message) s).2 message
      (sweepUnused (.over message) s).1 drawn := by
  -- the pairs that are swept, each with its position
  let taken := s.entries.zipIdx.filter fun e => isSweepable e.1
  have mem_taken {e : SuppliedPair} {i : Nat} :
      (e, i) ∈ taken ↔ s.entries[i]? = some e ∧ isSweepable e := by
    rw [List.mem_filter, List.mem_zipIdx_iff_getElem?]
  have hpairs : s.entries.filter isSweepable = taken.map Prod.fst := by
    conv_lhs => rw [← List.zipIdx_map_fst 0 s.entries, List.filter_map]
    rfl
  have flags_get (i : Nat) : s.flags[i]? = s.entries[i]?.map (·.used) := List.getElem?_map
  refine ⟨taken.map Prod.snd, ?_, ?_, ?_, ?_, ?_, ?_⟩
  · exact s.map_sweep
  · have h := (List.filter_sublist (p := fun e => isSweepable e.1) (l := s.entries.zipIdx)).map
      Prod.snd
    rw [List.zipIdx_map_snd] at h
    exact h.nodup List.nodup_range'
  · intro i hi
    obtain ⟨⟨e, j⟩, he, rfl⟩ := List.mem_map.1 hi
    obtain ⟨he, hsweep⟩ := mem_taken.1 he
    rw [isSweepable, Bool.and_eq_true, Bool.not_eq_true'] at hsweep
    rw [flags_get, he, Option.map_some, hsweep.1]
  · intro i
    have hmem : i ∈ taken.map Prod.snd ↔ ∃ e, s.entries[i]? = some e ∧ isSweepable e := by
      simp [List.mem_map, mem_taken]
    rw [hmem, flags_get, sweepUnused, sweep, flags, List.map_map, List.getElem?_map]
    rcases s.entries[i]? with - | e
    · simp
    · by_cases h : isSweepable e = true <;> simp [h]
  · rw [sweepUnused, sweep]
    simp only [hpairs, List.map_map]
    rw [List.forall₂_map_left_iff, List.forall₂_map_right_iff, List.forall₂_same]
    rintro ⟨e, i⟩ he
    obtain ⟨he, -⟩ := mem_taken.1 he
    exact ⟨e.pair, by rw [map, List.getElem?_map, he]; rfl, ⟨rfl, List.prefix_rfl, fun _ => rfl⟩,
      rfl, rfl⟩
  · rw [sweepUnused, List.forall_mem_map]
    exact fun p _ => rfl

end Supply

/-! ## The positions as an injection -/

/-- **Drawn signatures go back to pairs at different positions.** -/
theorem exists_injective_of_drawn {m : SignatureMap} {message : Bytes}
    {sigs : List PlatformSignature} {drawn : List Nat} (hnodup : drawn.Nodup)
    (h : List.Forall₂ (fun sig i => ∃ p, m[i]? = some p ∧ sig.DrawnFrom message p) sigs drawn) :
    ∃ f : Fin sigs.length → Fin m.length, Function.Injective f ∧
      ∀ i, (sigs.get i).DrawnFrom message (m.get (f i)) := by
  obtain ⟨hlen, hget⟩ := List.forall₂_iff_get.1 h
  have hpair (i : Fin sigs.length) : ∃ p, m[drawn.get (i.cast hlen)]? = some p ∧
      (sigs.get i).DrawnFrom message p :=
    hget i i.isLt (hlen ▸ i.isLt)
  have hlt (i : Fin sigs.length) : drawn.get (i.cast hlen) < m.length := by
    obtain ⟨p, hp, -⟩ := hpair i
    exact (List.getElem?_eq_some_iff.1 hp).1
  refine ⟨fun i => ⟨drawn.get (i.cast hlen), hlt i⟩, fun i j hij => ?_, fun i => ?_⟩
  · have hcast : i.cast hlen = j.cast hlen :=
      List.nodup_iff_injective_get.1 hnodup (Fin.mk.inj hij)
    exact Fin.ext (Fin.mk.inj hcast)
  · obtain ⟨p, hp, hfrom⟩ := hpair i
    obtain ⟨_, rfl⟩ := List.getElem?_eq_some_iff.1 hp
    exact hfrom

/-! ## An expansion -/

/-- **The signatures that an expansion hands on are drawn from its supply.** -/
theorem Expansion.exists_draws_run {x : Expansion} (message : Bytes)
    (hmake : x.make = .over message) {s : Supply} {sigs : List PlatformSignature}
    (h : (x.run s).outcome.sigMeta.signatures? = some sigs) :
    ∃ s' drawn, s.Draws s' message sigs drawn := by
  have hr := x.runs_run s
  generalize x.run s = r at h hr
  cases hr with
  | payerInterrupted | payerUnordered | payerUnmatched | othersInterrupted =>
    exact absurd h.symm (Option.some_ne_none sigs)
  | othersUnordered hp hm | othersUnmatched hp hm =>
    rw [hmake] at hm
    obtain ⟨drawn, hd⟩ := Supply.draws_matchKeys hm
    obtain rfl := Option.some.inj h
    exact ⟨_, drawn, hd⟩
  | @finalized key payerSigs others s' s'' t t' keys hp hm ho hk =>
    rw [hmake] at hm hk
    obtain ⟨drawn, hd⟩ := Supply.draws_matchKeys hm
    obtain ⟨drawn', hd'⟩ := Supply.draws_matchKeys hk
    obtain ⟨swept, hd''⟩ : ∃ drawn, s''.Draws (x.swept s'').2 message (x.swept s'').1 drawn := by
      rw [swept, hmake]
      split
      · exact s''.draws_sweepUnused message
      · exact ⟨[], s''.draws_refl message⟩
    obtain rfl := Option.some.inj h
    exact ⟨_, _, (hd.trans hd').trans hd''⟩

end Countersign
