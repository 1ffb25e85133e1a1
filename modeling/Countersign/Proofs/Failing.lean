import Countersign.Ledger.Store
import Countersign.Proofs.Repeats

/-!
# What a failure leaves behind

Keys are matched one after the other, and the signatures found for one are used up before the next is
looked at.  So a pass that fails at its first key leaves the supply alone, while one that fails later
has used up what it found for the keys before, although it yields no signatures.  The payer's pass is
about a single key.  If the payer's part of an expansion fails then nothing else has been looked at,
and no signature has been used.

## What is here

* `exists_split_of_matchKeys` — a pass that fails stops at a key, with the keys before it matched.
* `used_of_matchKeys_error` — what it has used by then, and `not_forall_unused_of_matchKeys_error`,
  that this can be more than nothing.
* `Source.completes_of_visit`, `trail_of_payerPass` — the one lookup for the payer.
* `Expansion.alike_of_failedAtPayer` — the payer's failure is the same whatever else the transaction
  is about.
-/

set_option autoImplicit false

namespace Countersign

/-! ## A list of keys -/

section matchKeys

variable {make : SignatureMaker} {s s' : Supply} {e : MatchError}

/-- **A pass that fails stops at a key.**  The keys before it are matched, and what was found for them
is used up. -/
theorem exists_split_of_matchKeys {ks : List Key} (h : matchKeys make ks s = (.error e, s')) :
    ∃ before k after found, ks = before ++ k :: after ∧ s.map.satisfyAll before = .ok found ∧
      s.map.satisfy k = .error e ∧ s' = (consume make found s).2 := by
  induction ks generalizing s with
  | nil => simp [matchKeys] at h
  | cons k ks ih =>
    rw [matchKeys] at h
    rcases hk : s.map.satisfy k with e' | here
    · simp only [hk, Prod.mk.injEq, Except.error.injEq] at h
      obtain ⟨rfl, rfl⟩ := h
      exact ⟨[], k, ks, [], rfl, rfl, hk, rfl⟩
    · rcases hrest : matchKeys make ks (consume make here s).2 with ⟨e' | more, s''⟩
      · simp only [hk, hrest, Prod.mk.injEq, Except.error.injEq] at h
        obtain ⟨rfl, rfl⟩ := h
        obtain ⟨before, k', after, found, rfl, hbefore, hk', rfl⟩ := ih hrest
        rw [map_consume] at hbefore hk'
        refine ⟨k :: before, k', after, here ++ found, rfl, ?_, hk', by rw [consume_append]⟩
        exact SignatureMap.satisfyAll_cons_eq_ok_iff.2 ⟨here, found, hk, hbefore, rfl⟩
      · simp [hk, hrest] at h

/-- One key uses nothing up if it is not matched, even if some of its children are. -/
theorem supply_eq_of_matchKeys_singleton {k : Key} (h : matchKeys make [k] s = (.error e, s')) :
    s' = s := by
  obtain ⟨before, k', after, found, hks, hfound, -, rfl⟩ := exists_split_of_matchKeys h
  cases before with
  | nil =>
    obtain rfl := Except.ok.inj hfound
    rfl
  | cons b before => simp at hks

/-- Matches change nothing in a supply exactly if all their pairs have been used before. -/
theorem consume_snd_eq_iff {found : List Matched} (hfound : ∀ x ∈ found, x.Stands s.map) :
    (consume make found s).2 = s ↔ ∀ x ∈ found, s.flags[x.found.index]? = some true := by
  constructor
  · intro heq x hx
    have hused := (Supply.used_consume_iff make hfound).2 (.inr ⟨x, hx, rfl⟩)
    rwa [heq] at hused
  · intro hused
    rw [consume_of_used hused]

/-- **A pass that fails keeps what it has used up.**  It yields no signatures, and used are afterwards
the pairs that were used before and those found for the keys before the one that is not matched.  So
nothing is used up exactly if all of these were used before, as when the first key is not matched. -/
theorem used_of_matchKeys_error {ks : List Key} (h : matchKeys make ks s = (.error e, s')) :
    ∃ before k after found, ks = before ++ k :: after ∧ s.map.satisfyAll before = .ok found ∧
      s.map.satisfy k = .error e ∧ s'.map = s.map ∧
      (∀ i, s'.flags[i]? = some true ↔
        s.flags[i]? = some true ∨ ∃ x ∈ found, x.found.index = i) ∧
      (s' = s ↔ ∀ x ∈ found, s.flags[x.found.index]? = some true) ∧
      (before = [] → s' = s) := by
  obtain ⟨before, k, after, found, hks, hfound, hk, rfl⟩ := exists_split_of_matchKeys h
  have hstands : ∀ x ∈ found, x.Stands s.map := fun x hx =>
    (SignatureMap.stands_of_satisfyAll before hfound x hx).1
  refine ⟨before, k, after, found, hks, hfound, hk, map_consume make found s,
    fun i => Supply.used_consume_iff make hstands, consume_snd_eq_iff hstands, ?_⟩
  rintro rfl
  obtain rfl := Except.ok.inj hfound
  rfl

/-- Of two keys the first is matched and the second is not. -/
theorem used_of_matchKeys_error_of_two :
    let p : SignaturePair := ⟨[1], .ed25519, [9]⟩
    let ks : List Key := [.ed25519 [1, 1], .ed25519 [2, 2]]
    matchKeys (.over []) ks (.ofMap [p]) =
        (.error (.missingSignature .ed25519 [2, 2]), ⟨[{ pair := p, used := true }]⟩) ∧
      ∃ before k after found, ks = before ++ k :: after ∧
        SignatureMap.satisfyAll [p] before = .ok found ∧
        SignatureMap.satisfy [p] k = .error (.missingSignature .ed25519 [2, 2]) := by
  intro p ks
  have h : matchKeys (.over []) ks (.ofMap [p]) =
      (.error (.missingSignature .ed25519 [2, 2]), ⟨[{ pair := p, used := true }]⟩) := rfl
  obtain ⟨before, k, after, found, hks, hfound, hk, -⟩ := used_of_matchKeys_error h
  exact ⟨h, before, k, after, found, hks, hfound, hk⟩

/-- It is not so that every pass that fails leaves the supply as it was: a signature is used up for the
first key, the second has none, and no sweep of the supply sees that signature again. -/
theorem not_forall_unused_of_matchKeys_error :
    ¬ ∀ (make : SignatureMaker) (ks : List Key) (s s' : Supply) (e : MatchError),
      matchKeys make ks s = (.error e, s') → s' = s := by
  intro hall
  have heq := hall (.over []) [.ed25519 (.replicate 32 1), .ed25519 (.replicate 32 2)]
    (.ofMap [⟨.replicate 32 1, .ed25519, .replicate 64 1⟩]) _ _ rfl
  have hused := congrArg Supply.hasSweepable heq
  exact absurd hused (by decide)

end matchKeys

/-! ## The lookup of the payer -/

/-- A lookup that is completed has come to its end. -/
theorem Source.completes_of_visit {src : Source} {ref : EntityRef} {t t' : Trail}
    (h : src.visit ref t = (true, t')) : src.Completes t.calls ref := by
  rcases src.completes_or_cutShort t.calls ref with hdone | ⟨read, hcut⟩
  · exact hdone
  · rw [visit_of_cutShort hcut] at h
    cases h

/-- The payer's pass takes one lookup and links one reference, with its present marker. -/
theorem trail_of_payerPass {src : Source} {b : Body} {result : Except OrderingFailure Key} {t : Trail}
    (hp : payerPass src b {} = (.finished result, t)) :
    t.calls = [.account] ∧
      ∃ version, src.view.versionOf (.account (.byId b.payer)) = .ok version ∧
        t.linked.refs = [(.account (.byId b.payer), version)] := by
  obtain ⟨hv, -⟩ := payerPass_eq_finished_iff.1 hp
  have hdone := Source.completes_of_visit hv
  rw [Source.visit_of_completes hdone] at hv
  obtain ⟨-, rfl⟩ := Prod.mk.inj hv
  refine ⟨rfl, src.view.marker (.account (.byId b.payer)), ?_, rfl⟩
  have hread := hdone.readable (.account (.byId b.payer)) List.mem_cons_self
  rw [View.versionOf, View.read, hread]
  rfl

/-- The payer's pass goes by the payer alone. -/
theorem payerPass_eq_of_payer {b b' : Body} (h : b'.payer = b.payer) (src : Source) (t : Trail) :
    payerPass src b' t = payerPass src b t := by
  rw [payerPass, payerPass, h]

/-! ## An expansion -/

namespace Expansion

section failedAtPayer

variable {x y : Expansion} {s : Supply} {o : Outcome}

/-- Two expansions of one payer end alike if one of them ends with the payer: after a pass for the
payer, with the supply as it was. -/
theorem exists_run_of_failedAtPayer (hsource : y.source = x.source)
    (hpayer : y.body.payer = x.body.payer) (ho : x.execute? s = some o)
    (hstage : o.stage = .failedAtPayer) :
    ∃ result status t, payerPass x.source x.body {} = (.finished result, t) ∧
      x.run s = ⟨.finished .noneAvailable status .failedAtPayer, s, t⟩ ∧ y.run s = x.run s := by
  have hpass : payerPass y.source y.body {} = payerPass x.source x.body {} := by
    rw [hsource]
    exact payerPass_eq_of_payer hpayer x.source {}
  rw [execute?] at ho
  have hr := x.runs_run s
  generalize x.run s = r at ho hr ⊢
  cases hr with
  | payerUnordered hp => exact ⟨_, _, _, hp, rfl, (Runs.payerUnordered (hpass.trans hp)).run_eq⟩
  | @payerUnmatched key e s' t hp hm =>
    obtain rfl := supply_eq_of_matchKeys_singleton hm
    have hm' : matchKeys y.make [key] s' = (.error e, s') := by
      rw [matchKeys, satisfy_eq_error_of_matchKeys hm]
    exact ⟨_, _, _, hp, rfl, (Runs.payerUnmatched (hpass.trans hp) hm').run_eq⟩
  | payerInterrupted | othersInterrupted => cases ho
  | othersUnordered | othersUnmatched | finalized =>
    obtain rfl := Option.some.inj ho
    cases hstage

/-- **A failure of the payer hides everything else.**  If an expansion ends with the payer, then every
expansion of the same payer by the same ledger and the same signatures comes to the same outcome,
whatever the rest of its body and however it makes signatures or sweeps.  Both look up one account and
nothing else, the payer alone is linked, with its present marker, and no signature is used up. -/
theorem alike_of_failedAtPayer (hsource : y.source = x.source)
    (hpayer : y.body.payer = x.body.payer) (ho : x.execute? s = some o)
    (hstage : o.stage = .failedAtPayer) :
    y.execute? s = some o ∧
      (∀ z ∈ [x, y], (z.run s).trail.calls = [.account] ∧ (z.run s).supply = s) ∧
      ∃ version, x.source.view.versionOf (.account (.byId x.body.payer)) = .ok version ∧
        o.linked.refs = [(.account (.byId x.body.payer), version)] := by
  obtain ⟨result, status, t, hp, hx, hy⟩ := exists_run_of_failedAtPayer hsource hpayer ho hstage
  obtain ⟨hcalls, version, hversion, hlinked⟩ := trail_of_payerPass hp
  refine ⟨?_, ?_, version, hversion, ?_⟩
  · rw [← ho, execute?, execute?, hy]
  · have hboth : ∀ z ∈ [x, y], z.run s = x.run s := by
      intro z hz
      rcases List.mem_cons.1 hz with rfl | hz
      · rfl
      · rw [List.mem_singleton.1 hz, hy]
    intro z hz
    rw [hboth z hz, hx]
    exact ⟨hcalls, rfl⟩
  · rw [execute?, hx] at ho
    obtain rfl := Option.some.inj ho
    exact hlinked

end failedAtPayer

/-- The payer holds two keys, and there is a signature for the first only.  One transaction deletes an
account, and the other is about tokens. -/
theorem alike_of_failedAtPayer_of_half_signed :
    let x : Expansion :=
      { source :=
          { view := (Store.fresh.run [.putAccount ⟨0, 0, 1001⟩
              { key := .keyList [.ed25519 [7, 8], .ed25519 [9]] }]).view fun _ => false }
        body :=
          { payer := ⟨0, 0, 1001⟩, validStart := 1000, nodeAccount := ⟨0, 0, 3⟩, memo := ""
            operation := .cryptoDelete (.byId ⟨0, 0, 1001⟩) (.byId ⟨0, 0, 2002⟩) }
        make := .over [5] }
    let y : Expansion :=
      { x with
        body := { x.body with memo := "m", operation := .tokenAssociate (.byId ⟨0, 0, 3003⟩) [] }
        sweep := false }
    let s : Supply := .ofMap [⟨[7], .ed25519, [1]⟩]
    ∃ o, x.execute? s = some o ∧ o.stage = .failedAtPayer ∧ o.status = .invalidSignature ∧
      y.execute? s = some o ∧ (x.run s).supply = s ∧ (y.run s).supply = s := by
  intro x y s
  have ho : x.execute? s = some (x.executeGuarded s) := rfl
  have hstage : (x.executeGuarded s).stage = .failedAtPayer := rfl
  have hsource : y.source = x.source := rfl
  have hpayer : y.body.payer = x.body.payer := rfl
  obtain ⟨hy, hboth, -⟩ := alike_of_failedAtPayer hsource hpayer ho hstage
  exact ⟨_, ho, hstage, rfl, hy, (hboth x (by simp)).2, (hboth y (by simp)).2⟩

end Expansion

end Countersign
