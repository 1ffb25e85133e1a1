import Countersign.Proofs.Precedence

/-!
# What an interruption leaves

An expansion that is cut short keeps what it has linked by then and nothing else.  How far it got is
measured against the same expansion with everything in order: the lookups are the same, and the
first that is cut short ends it.

## What is here

* `Source.undisturbed_cleared`, `Expansion.lookups_cleared` — the measure.
* `LinkedRefs.linkEach_cleared` — references carry the same markers whether or not they can be read.
* `Expansion.linked_cleared` — what is linked when everything is in order.
* `Expansion.executeGuarded_cases` — an expansion comes out as if everything were in order, or is cut
  short in a lookup.
-/

set_option autoImplicit false

namespace Countersign

/-! ## With everything in order -/

theorem Source.undisturbed_cleared (src : Source) : src.cleared.Undisturbed where
  readable _ := rfl
  in_order _ _ := rfl

namespace View

theorem marker_cleared (v : View) (ref : EntityRef) : v.cleared.marker ref = v.marker ref := by
  rw [marker_eq, marker_eq, denoted_cleared]

theorem payerKey_cleared (v : View) (payer : EntityId) :
    payerKey v.cleared payer = payerKey v payer := by
  rw [payerKey, payerKey, accountMetadata_congr fun ref _ => v.denoted_cleared ref]

theorem judge_cleared (v : View) (r : Requirement) : r.judge v.cleared = r.judge v :=
  Requirement.judge_congr fun _ _ ref _ => v.denoted_cleared ref

theorem itinerary_cleared (v : View) (rs : List Requirement) :
    v.cleared.itinerary rs = v.itinerary rs := by
  induction rs with
  | nil => rfl
  | cons r rs ih => rw [itinerary, itinerary, judge_cleared, ih]

end View

theorem LinkedRefs.linkEach_cleared (v : View) (refs : List EntityRef) (l : LinkedRefs) :
    l.linkEach v.cleared refs = l.linkEach v refs := by
  rw [linkEach, linkEach]
  simp only [View.marker_cleared]

namespace Expansion

theorem lookups_cleared (x : Expansion) (m : SignatureMap) : x.cleared.lookups m = x.lookups m := by
  rw [lookups, lookups]
  simp only [cleared, Source.cleared, View.payerKey_cleared, View.itinerary_cleared]

/-- With everything in order all sightings of all lookups are linked. -/
theorem linked_cleared (x : Expansion) (s : Supply) :
    (x.cleared.executeGuarded s).linked =
      LinkedRefs.linkEach x.source.view ((x.lookups s.map).flatMap x.source.view.sightings) {} := by
  have hx : x.cleared.source.Undisturbed := x.source.undisturbed_cleared
  have hsightings : x.source.view.cleared.sightings = x.source.view.sightings :=
    funext x.source.view.sightings_cleared
  rw [executeGuarded, Ran.linked_outcome, (run_of_undisturbed hx s).2, lookups_cleared]
  simp only [cleared, Source.cleared, LinkedRefs.linkEach_cleared, hsightings]

/-- What comes of an expansion that is cut short in a lookup, `before` being the lookups completed by
then. -/
def cutShort (x : Expansion) (before read : List EntityRef) : Outcome where
  sigMeta := .noneAvailable
  status := .unresolvableRequiredSigners
  linked := LinkedRefs.linkEach x.source.view (before.flatMap x.source.view.sightings ++ read) {}
  stage := if before = [] then .failedAtPayer else .failedAtOthers
  interrupted := true

/-- The expansion is cut short in the lookup of `ref`, once the lookups `before` have been completed
and the references `read` of this one have been linked. -/
structure CutShortAt (x : Expansion) (m : SignatureMap) (before : List EntityRef) (ref : EntityRef)
    (read : List EntityRef) : Prop where
  lookups_eq : ∃ after, x.lookups m = before ++ ref :: after
  completed : ∀ earlier seen later, before = earlier ++ seen :: later →
    x.source.Completes (earlier.map EntityRef.kind) seen
  cut : x.source.CutShort (before.map EntityRef.kind) ref read

variable {x : Expansion} {s : Supply} {before read : List EntityRef} {ref : EntityRef}

/-- The lookup of the payer comes first, so that it is cut short just when no other is completed. -/
theorem CutShortAt.visit_payer {m : SignatureMap} (h : x.CutShortAt m before ref read) :
    (x.source.visit (.account (.byId x.body.payer)) {}).1 = false ↔ before = [] := by
  obtain ⟨after, hlookups⟩ := h.lookups_eq
  rw [lookups] at hlookups
  rcases before with - | ⟨first, before⟩
  · obtain ⟨rfl, -⟩ := List.cons.inj hlookups
    have hvisit := Source.visit_of_cutShort (t := {}) h.cut
    simp [hvisit]
  · obtain ⟨rfl, -⟩ := List.cons.inj hlookups
    have hvisit := Source.visit_of_completes (t := {}) (h.completed [] _ before rfl)
    simp [hvisit]

/-- **An expansion comes out as if everything were in order, or is cut short in a lookup.**  In the
latter case it keeps what has been linked by then, which is the beginning of what would have been
linked otherwise, and nothing else. -/
theorem executeGuarded_cases (x : Expansion) (s : Supply) :
    x.cleared.execute? s = some (x.cleared.executeGuarded s) ∧
      ((∀ before ref after, x.lookups s.map = before ++ ref :: after →
            x.source.Completes (before.map EntityRef.kind) ref) ∧
          x.executeGuarded s = x.cleared.executeGuarded s ∧
          x.execute? s = x.cleared.execute? s ∨
        ∃ before ref read, x.CutShortAt s.map before ref read ∧
          x.execute? s = none ∧ x.executeGuarded s = x.cutShort before read ∧
          (x.executeGuarded s).linked.refs <+: (x.cleared.executeGuarded s).linked.refs ∧
          ∀ r ∈ before.flatMap x.source.view.sightings ++ read,
            r ∈ (x.executeGuarded s).linked.entities) := by
  obtain ⟨hdone, -⟩ := run_of_undisturbed (x := x.cleared) x.source.undisturbed_cleared s
  refine ⟨by rw [execute?, Ran.finished?_eq, hdone]; rfl, ?_⟩
  obtain ⟨hvisits, hending⟩ := x.run_visits s
  rcases x.source.visitAll_cases (x.lookups s.map) {} with
    ⟨hall, hvisit⟩ | ⟨before, ref, after, read, hlookups, hbefore, hcut, hvisit⟩
  · -- every lookup is completed
    obtain ⟨hint, -⟩ := Prod.mk.inj (hvisit.symm.trans hvisits)
    have hrun : x.cleared.run s = x.run s := run_cleared (by simpa using hint.symm)
    exact .inl ⟨by simpa using hall, (congrArg Ran.outcome hrun).symm,
      (congrArg Ran.finished? hrun).symm⟩
  · -- the lookup of `ref` is the first that is not
    obtain ⟨hint, htrail⟩ := Prod.mk.inj (hvisit.symm.trans hvisits)
    have hint : (x.run s).outcome.interrupted = true := by simpa using hint.symm
    have hat : x.CutShortAt s.map before ref read :=
      ⟨⟨after, hlookups⟩, by simpa using hbefore, by simpa using hcut⟩
    have hout : x.executeGuarded s = x.cutShort before read := by
      rw [executeGuarded, Ran.outcome, hending hint, ← htrail, cutShort]
      by_cases hfirst : before = []
      · have hpayer := hat.visit_payer.2 hfirst
        simp [hpayer, hfirst, Outcome.ofInterruption, Stage.interruptedEnd,
          OrderingFailure.status]
      · have hpayer := mt hat.visit_payer.1 hfirst
        simp [hpayer, hfirst, Outcome.ofInterruption, Stage.interruptedEnd,
          OrderingFailure.status]
    refine .inr ⟨before, ref, read, hat, ?_, hout, ?_, ?_⟩
    · rw [execute?, Ran.finished?_eq, if_pos hint]
    · rw [hout, linked_cleared, hlookups, List.flatMap_append, List.flatMap_cons]
      refine LinkedRefs.linkEach_prefix ((List.prefix_append_right_inj _).2 ?_) {}
      exact hcut.prefix_sightings.trans (List.prefix_append _ _)
    · intro r hr
      rw [hout]
      exact LinkedRefs.mem_entities_linkEach hr {}

end Expansion

end Countersign
