import Countersign.Proofs.Transparency

/-!
# What a rationalization remembers

A rationalization may be given an outcome from earlier, and a supply that earlier runs have drawn from.
Either the outcome still stands, and then it is handed on as it is, or nothing of what was given makes a
difference any more but the pairs themselves.

## What is here

* `Outcome.Stands` — an outcome that may be used again.
* `Renewed` — the reason why one is not, which `renewed_of_not_stands` says there always is.
* `rationalize_renews` — the two cases of a rationalization.
-/

set_option autoImplicit false

namespace Countersign

/-- An outcome still stands on a view: it was not interrupted, and every reference that it has linked
carries the marker that it was linked with. -/
structure Outcome.Stands (o : Outcome) (v : View) : Prop where
  interrupted : o.interrupted = false
  current : ∀ e ∈ o.linked.refs, v.versionOf e.1 = .ok e.2

/-- Why an earlier outcome is not used again: there is none, it was interrupted, or the first of its
references to differ is stale. -/
inductive Renewed (v : View) : Option Outcome → SpanSource → Prop
  | uncached : Renewed v none .uncached
  | interrupted {o : Outcome} (h : o.interrupted = true) : Renewed v (some o) (.reexpanded none)
  | stale {o : Outcome} {ref : EntityRef} (hdone : o.interrupted = false)
      (h : o.linked.FirstDiffers v ref) : Renewed v (some o) (.reexpanded (some ref))

section spanSource

variable {v : View} {earlier : Option Outcome}

theorem spanSource_eq_reused_iff_stands :
    spanSource v earlier = .ok .reused ↔ ∃ o, earlier = some o ∧ o.Stands v := by
  simp only [spanSource_eq_reused_iff, LinkedRefs.firstStale_eq_none_iff]
  exact exists_congr fun o => and_congr_right fun _ => ⟨fun h => ⟨h.1, h.2⟩, fun h => ⟨h.1, h.2⟩⟩

/-- On a view that can be read there is always an answer, and it names the reason. -/
theorem renewed_of_not_stands (hread : v.Readable) (h : ¬ ∃ o, earlier = some o ∧ o.Stands v) :
    ∃ source, spanSource v earlier = .ok source ∧ source ≠ .reused ∧ Renewed v earlier source := by
  rcases earlier with - | o
  · exact ⟨.uncached, rfl, by decide, .uncached⟩
  · cases hint : o.interrupted with
    | true => exact ⟨.reexpanded none, by rw [spanSource, if_pos hint], by decide, .interrupted hint⟩
    | false =>
      obtain ⟨stale, hstale⟩ := o.linked.exists_firstStale hread
      cases stale with
      | none => exact absurd ⟨o, rfl, hint, LinkedRefs.firstStale_eq_none_iff.1 hstale⟩ h
      | some ref =>
        refine ⟨.reexpanded (some ref), ?_, SpanSource.noConfusion,
          .stale hint (LinkedRefs.firstStale_eq_some_iff.1 hstale)⟩
        rw [spanSource, hint, hstale]
        rfl

end spanSource

/-- Without an earlier outcome, on a supply that is not used at all. -/
theorem rationalize_none_ofMap (g : Setting) (t : ParsedTransaction) (m : SignatureMap) :
    rationalize g t none (.ofMap m) =
      .ok
        { span :=
            { outcome := (g.expandAndVerify t (.ofMap m)).outcome, usedSyncVerification := true
              source := .uncached }
          supply := (g.expandAndVerify t (.ofMap m)).supply
          verified := some (g.expandAndVerify t (.ofMap m)) } := by
  have hsource : spanSource g.source.view none = .ok .uncached := rfl
  have hreset : (Supply.ofMap m).reset = .ofMap m := by rw [Supply.reset_eq, Supply.map_ofMap]
  rw [rationalize_of_ne hsource (by decide), hreset]

/-- **A rationalization forgets the past unless it may use it again.**  On a ledger that can be read it
always comes to a result.  It uses an earlier outcome again exactly when there is one that still stands.
Then it hands that on with the supply as it was, and would do the same with any other verifier: nothing
is verified.  Otherwise the outcome, the supply and the batch are those of a rationalization without an
earlier outcome on the same pairs, all unused, and the source tells the reason. -/
theorem rationalize_renews {g : Setting} (hread : g.source.view.Readable) (t : ParsedTransaction)
    (earlier : Option Outcome) (s : Supply) :
    ∃ r fresh, rationalize g t earlier s = .ok r ∧ rationalize g t none (.ofMap s.map) = .ok fresh ∧
      (r.span.source = .reused ↔ ∃ o, earlier = some o ∧ o.Stands g.source.view) ∧
      (∀ o, earlier = some o → o.Stands g.source.view →
        r.span.outcome = o ∧ r.supply = s ∧ r.span.usedSyncVerification = false ∧
          r.verified = none ∧ ∀ verifier, rationalize { g with verifier } t earlier s = .ok r) ∧
      (r.span.source ≠ .reused →
        r.span.outcome = fresh.span.outcome ∧ r.supply = fresh.supply ∧
          r.span.usedSyncVerification = true ∧ r.verified = fresh.verified ∧
          Renewed g.source.view earlier r.span.source) := by
  have hfresh := rationalize_none_ofMap g t s.map
  by_cases hstands : ∃ o, earlier = some o ∧ o.Stands g.source.view
  · obtain ⟨o, rfl, ho⟩ := hstands
    have hsource : spanSource g.source.view (some o) = .ok .reused :=
      spanSource_eq_reused_iff_stands.2 ⟨o, rfl, ho⟩
    refine ⟨_, _, rationalize_of_reused hsource, hfresh, iff_of_true rfl ⟨o, rfl, ho⟩, ?_,
      fun hne => absurd rfl hne⟩
    intro o' heq _
    obtain rfl := Option.some.inj heq
    exact ⟨rfl, rfl, rfl, rfl, fun verifier => rationalize_of_reused (g := { g with verifier }) hsource⟩
  · obtain ⟨source, hsource, hne, hwhy⟩ := renewed_of_not_stands hread hstands
    have hr := rationalize_of_ne (t := t) (s := s) hsource hne
    rw [Supply.reset_eq] at hr
    exact ⟨_, _, hr, hfresh, iff_of_false hne hstands, fun o ho h => absurd ⟨o, ho, h⟩ hstands,
      fun _ => ⟨rfl, rfl, rfl, rfl, hwhy⟩⟩

/-- The payer has been given a new key since an earlier expansion, which has used up the only signature.
The signature is used again, now for the new key. -/
theorem rationalize_renews_of_new_key :
    let holding (keys : List Key) : Setting :=
      { source :=
          { view := (Store.fresh.run
              (keys.map fun key => .putAccount ⟨0, 0, 1001⟩ { key })).view fun _ => false }
        verifier := .ofStatus (fun _ => .valid) true }
    let g := holding [.ed25519 [7, 8], .ed25519 [7, 9]]
    let t : ParsedTransaction :=
      { ref := .ofContents [], bodyBytes := [5], signatures := [⟨[7], .ed25519, [1]⟩]
        body :=
          { payer := ⟨0, 0, 1001⟩, validStart := 1000, nodeAccount := ⟨0, 0, 3⟩, memo := ""
            operation := .tokenAssociate (.byId ⟨0, 0, 1001⟩) [] } }
    let past := (holding [.ed25519 [7, 8]]).expandAndVerify t (.ofMap t.signatures)
    g.source.view.Readable ∧ past.outcome.status = .ok ∧ past.supply.flags = [true] ∧
      ∃ r, rationalize g t (some past.outcome) past.supply = .ok r ∧
        r.span.source = .reexpanded (some (.account (.byId ⟨0, 0, 1001⟩))) ∧
        r.span.outcome.sigMeta.payerKey? = some (.ed25519 [7, 9]) ∧ r.supply.flags = [true] := by
  intro holding g t past
  have hread : g.source.view.Readable := fun _ => rfl
  have hsource : spanSource g.source.view (some past.outcome) =
      .ok (.reexpanded (some (.account (.byId ⟨0, 0, 1001⟩)))) := rfl
  obtain ⟨r, fresh, hr, hfresh, -, -, hrenewed⟩ :=
    rationalize_renews hread t (some past.outcome) past.supply
  have hrsource : r.span.source = .reexpanded (some (.account (.byId ⟨0, 0, 1001⟩))) := by
    rw [Except.ok.inj (hr.symm.trans (rationalize_of_ne hsource (by decide)))]
  obtain ⟨houtcome, hsupply, -⟩ := hrenewed (by rw [hrsource]; decide)
  obtain rfl := Except.ok.inj (hfresh.symm.trans (rationalize_none_ofMap g t past.supply.map))
  refine ⟨hread, rfl, rfl, r, hr, hrsource, ?_, ?_⟩
  · rw [houtcome]
    rfl
  · rw [hsupply]
    rfl

end Countersign
