import Countersign.Proofs.Denotation
import Countersign.Proofs.Runs
import Countersign.Proofs.Trail

/-!
# The footprint of a pass

What a pass does is determined by the entries that its linked references denote.  On a second view
that has the same entries there, and the same tables to read, it goes the same way step by step.

## What is here

* `Source.on` — a source with another view behind it.
* `Source.visit_congr` — one lookup.  A view that agrees on what the lookup links goes through the
  same references.
* `Source.collect_congr`, `payerPass_congr`, `othersPass_congr` — the passes.
* `Expansion.run_congr`, `Expansion.executeGuarded_on_eq_of_agree` — a whole expansion.
-/

set_option autoImplicit false

namespace Countersign

/-- The same source with another view behind it. -/
def Source.on (src : Source) (w : View) : Source := { src with view := w }

namespace Source

/-! ## One lookup -/

theorem linkAll_congr {v w : View} (hread : w.unreadable = v.unreadable) {refs : List EntityRef}
    {l : LinkedRefs}
    (h : ∀ ref ∈ (linkAll v refs l).2.entities, v.denoted ref = w.denoted ref) :
    linkAll w refs l = linkAll v refs l := by
  induction refs generalizing l with
  | nil => rfl
  | cons ref refs ih =>
    rw [linkAll] at h
    rw [linkAll, linkAll]
    cases hv : v.versionOf ref with
    | error e =>
      have hw : w.versionOf ref = .error e := by
        rw [View.versionOf, View.read] at hv ⊢
        rw [hread]
        split at hv <;> simp_all
      rw [hw]
    | ok version =>
      simp only [hv] at h
      have hmem : ref ∈ (linkAll v refs (l.link ref version)).2.entities :=
        LinkedRefs.entities_subset (prefix_linkAll v refs _) (l.mem_entities_link ref version)
      rw [View.versionOf_congr hread (h ref hmem), hv]
      exact ih h

/-- If the first reference cannot be read then the others do not matter, and if it can then both
views go on to the same others. -/
theorem linkAll_sightings_congr {v w : View} (hread : w.unreadable = v.unreadable)
    {ref : EntityRef} {l : LinkedRefs}
    (h : ∀ s ∈ (linkAll v (v.sightings ref) l).2.entities, v.denoted s = w.denoted s) :
    linkAll w (w.sightings ref) l = linkAll v (v.sightings ref) l := by
  obtain ⟨more, hv⟩ := v.sightings_eq_cons ref
  obtain ⟨more', hw⟩ := w.sightings_eq_cons ref
  cases hu : v.unreadable (View.tableOf ref) with
  | true =>
    rw [hv, hw, linkAll, linkAll, View.versionOf, View.versionOf, View.read, View.read, hread, hu]
    rfl
  | false =>
    have hver : v.versionOf ref = .ok (v.marker ref) := by
      rw [View.versionOf, View.read, hu]
      rfl
    have hmem : ref ∈ (linkAll v (v.sightings ref) l).2.entities := by
      rw [hv, linkAll, hver]
      exact LinkedRefs.entities_subset (prefix_linkAll v more _) (l.mem_entities_link ref _)
    rw [View.sightings_congr (h ref hmem)]
    exact linkAll_congr hread h

variable {src : Source} {w : View}

theorem visit_congr (hread : w.unreadable = src.view.unreadable) {ref : EntityRef} {t : Trail}
    (h : ∀ s ∈ (src.visit ref t).2.linked.entities, src.view.denoted s = w.denoted s) :
    (src.on w).visit ref t = src.visit ref t := by
  by_cases hf : src.faults t.calls ref.kind = some .before
  · rw [visit_of_fault_before hf]
    exact visit_of_fault_before hf
  · rw [visit_eq hf] at h ⊢
    have hw : (src.on w).faults t.calls ref.kind ≠ some .before := hf
    rw [visit_eq hw]
    simp only [on, linkAll_sightings_congr hread h]

/-! ## A list of requirements -/

theorem visitSubject_congr (hread : w.unreadable = src.view.unreadable) {r : Requirement}
    {t : Trail}
    (h : ∀ s ∈ (src.visitSubject r t).2.linked.entities, src.view.denoted s = w.denoted s) :
    (src.on w).visitSubject r t = src.visitSubject r t := by
  rw [visitSubject] at h ⊢
  rw [visitSubject]
  cases hr : r.subject? with
  | none => rfl
  | some ref =>
    rw [hr] at h
    exact visit_congr hread h

/-- A requirement whose subject was visited to the end asks for the same key in both views. -/
theorem judge_eq_of_visitSubject {r : Requirement} {t : Trail}
    (hdone : (src.visitSubject r t).1 = true)
    (h : ∀ s ∈ (src.visitSubject r t).2.linked.entities, src.view.denoted s = w.denoted s) :
    r.judge (src.on w).view = r.judge src.view := by
  refine (Requirement.judge_congr fun subject hr s hs => h s ?_).symm
  rw [visitSubject, hr] at hdone ⊢
  exact mem_entities_of_visit hdone s hs

/-- **Agreement on what a list of requirements links makes them come out the same.**  What the later
requirements link includes what the earlier ones have linked, so the agreement covers every step. -/
theorem collect_congr (hread : w.unreadable = src.view.unreadable) {rs : List Requirement}
    {t : Trail}
    (h : ∀ s ∈ (src.collect rs t).2.linked.entities, src.view.denoted s = w.denoted s) :
    (src.on w).collect rs t = src.collect rs t := by
  induction rs generalizing t with
  | nil => rfl
  | cons r rs ih =>
    rcases hv : src.visitSubject r t with ⟨_ | _, t'⟩
    · rw [collect_cons_of_interrupted hv] at h ⊢
      have hw := visitSubject_congr hread (r := r) (t := t) (by rwa [hv])
      exact collect_cons_of_interrupted (hw.trans hv)
    · cases hj : r.judge src.view with
      | error f =>
        rw [collect_cons_of_error hv hj] at h ⊢
        have hsub : ∀ s ∈ (src.visitSubject r t).2.linked.entities,
            src.view.denoted s = w.denoted s := by rwa [hv]
        exact collect_cons_of_error ((visitSubject_congr hread hsub).trans hv)
          ((judge_eq_of_visitSubject (by rw [hv]) hsub).trans hj)
      | ok key? =>
        rw [collect_cons_of_ok hv hj] at h ⊢
        have hsub : ∀ s ∈ (src.visitSubject r t).2.linked.entities,
            src.view.denoted s = w.denoted s := by
          rw [hv]
          exact fun s hs => h s (LinkedRefs.entities_subset (src.prefix_collect rs t') hs)
        rw [collect_cons_of_ok ((visitSubject_congr hread hsub).trans hv)
          ((judge_eq_of_visitSubject (by rw [hv]) hsub).trans hj), ih h]

end Source

/-! ## The two passes -/

theorem payerPass_congr {src : Source} {w : View} (hread : w.unreadable = src.view.unreadable)
    {b : Body} {t : Trail}
    (h : ∀ s ∈ (payerPass src b t).2.linked.entities, src.view.denoted s = w.denoted s) :
    payerPass (src.on w) b t = payerPass src b t := by
  rw [payerPass_snd] at h
  rw [payerPass, payerPass, Source.visit_congr hread h]
  rcases hv : src.visit (.account (.byId b.payer)) t with ⟨_ | _, t'⟩
  · rfl
  · have hseen := Source.mem_entities_of_visit (show (src.visit _ t).1 = true by rw [hv])
    have hm : src.view.accountMetadata (.byId b.payer) = w.accountMetadata (.byId b.payer) :=
      View.accountMetadata_congr fun ref href => h ref (hseen ref href)
    simp only [payerKey, Source.on, hm]

theorem othersPass_congr {src : Source} {w : View} (hread : w.unreadable = src.view.unreadable)
    {b : Body} {t : Trail}
    (h : ∀ s ∈ (othersPass src b t).2.linked.entities, src.view.denoted s = w.denoted s) :
    othersPass (src.on w) b t = othersPass src b t :=
  Source.collect_congr hread h

/-! ## A whole expansion -/

namespace Expansion

/-- The same expansion with another view behind it. -/
def on (x : Expansion) (w : View) : Expansion := { x with source := x.source.on w }

theorem prefix_run_of_payerPass (x : Expansion) (s : Supply) :
    (payerPass x.source x.body {}).2.linked.refs <+: (x.run s).trail.linked.refs := by
  rcases x.trail_run s with h | h
  · exact h ▸ List.prefix_rfl
  · exact h ▸ x.source.prefix_collect x.body.requirements _

/-- Every reference is linked with the marker that it carries. -/
theorem current_run (x : Expansion) (s : Supply) :
    (x.run s).trail.linked.Current x.source.view :=
  run_preserves (P := fun l => l.Current x.source.view) (fun _ ref h => h.link ref)
    (fun _ he => absurd he List.not_mem_nil) s

/-- A run on a second view that has the same tables to read, and agrees on what is linked on the
first, takes the same course. -/
theorem run_congr {x : Expansion} {w : View} {s : Supply}
    (hread : w.unreadable = x.source.view.unreadable)
    (hagree : ∀ ref ∈ (x.run s).trail.linked.entities, x.source.view.denoted ref = w.denoted ref) :
    (x.on w).run s = x.run s := by
  have hpayer : payerPass (x.source.on w) x.body {} = payerPass x.source x.body {} :=
    payerPass_congr hread fun ref href =>
      hagree ref (LinkedRefs.entities_subset (x.prefix_run_of_payerPass s) href)
  have hothers : ∀ {t : Trail},
      (∀ ref ∈ (othersPass x.source x.body t).2.linked.entities,
        x.source.view.denoted ref = w.denoted ref) →
      othersPass (x.source.on w) x.body t = othersPass x.source x.body t :=
    fun h => othersPass_congr hread h
  have hr := x.runs_run s
  generalize x.run s = r at hagree hr
  refine Runs.run_eq ?_
  cases hr with
  | payerInterrupted hp => exact .payerInterrupted (hpayer.trans hp)
  | payerUnordered hp => exact .payerUnordered (hpayer.trans hp)
  | payerUnmatched hp hm => exact .payerUnmatched (hpayer.trans hp) hm
  | othersInterrupted hp hm ho =>
    exact .othersInterrupted (hpayer.trans hp) hm ((hothers (by rwa [ho])).trans ho)
  | othersUnordered hp hm ho =>
    exact .othersUnordered (hpayer.trans hp) hm ((hothers (by rwa [ho])).trans ho)
  | othersUnmatched hp hm ho hk =>
    exact .othersUnmatched (hpayer.trans hp) hm ((hothers (by rwa [ho])).trans ho) hk
  | finalized hp hm ho hk =>
    exact .finalized (x := x.on w) (hpayer.trans hp) hm ((hothers (by rwa [ho])).trans ho) hk

/-- **The footprint of an expansion is what it links.**  Take two views, neither of which need come
from the other, with the same tables to read.  If they have the same entries at every reference that
is linked on the first, then the expansion comes out the same on the second: the status, the final
stage, the metadata, and the references with their markers in the same order. -/
theorem executeGuarded_on_eq_of_agree (x : Expansion) (w : View) (s : Supply)
    (hread : w.unreadable = x.source.view.unreadable)
    (hagree : ∀ ref ∈ (x.executeGuarded s).linked.entities,
      x.source.view.denoted ref = w.denoted ref) :
    (x.on w).executeGuarded s = x.executeGuarded s ∧ (x.on w).execute? s = x.execute? s := by
  rw [executeGuarded, Ran.linked_outcome] at hagree
  have hrun := run_congr hread hagree
  exact ⟨congrArg Ran.outcome hrun, congrArg Ran.finished? hrun⟩

/-- An account that the transfer does not mention may be given a new key. -/
theorem executeGuarded_on_eq_of_unlinked :
    let owner (pk : Bytes) : AccountRecord := { key := .ed25519 pk, version := ⟨1⟩ }
    let holding (other : Bytes) : View :=
      { account := fun id =>
          if id = ⟨0, 0, 1001⟩ then some (owner (.replicate 32 7))
          else if id = ⟨0, 0, 1002⟩ then some (owner other)
          else none
        token := fun _ => none, topic := fun _ => none, file := fun _ => none
        schedule := fun _ => none, binding := fun _ => none }
    let x : Expansion :=
      { source := { view := holding [1] }
        body :=
          { payer := ⟨0, 0, 1001⟩, validStart := 0, nodeAccount := ⟨0, 0, 3⟩, memo := ""
            operation := .tokenAssociate (.byId ⟨0, 0, 1003⟩) [] }
        make := .over [5] }
    let s : Supply := .ofMap [⟨.replicate 32 7, .ed25519, [9]⟩]
    holding [1] ≠ holding [2] ∧ (x.executeGuarded s).linked.entities.length = 2 ∧
      (x.on (holding [2])).executeGuarded s = x.executeGuarded s ∧
      (x.on (holding [2])).execute? s = x.execute? s := by
  intro owner holding x s
  refine ⟨fun h => ?_, by decide, executeGuarded_on_eq_of_agree x (holding [2]) s rfl (by decide)⟩
  have h2 := congrArg (fun v => v.account ⟨0, 0, 1002⟩) h
  revert h2
  decide

end Expansion

end Countersign
