import Countersign.Proofs.Denotation
import Countersign.Proofs.Runs
import Countersign.Proofs.Trail

/-!
# Runs that are not cut short

Tables that cannot be read and lookups that fail do nothing but cut a run short.  A run that comes to
its end is the run of the same expansion with everything in order.

## What is here

* `View.cleared`, `Source.cleared`, `Expansion.cleared` — the same with every table readable and
  every lookup in order.
* `Source.visit_cleared`, `Source.collect_cleared` — what is not cut short comes out the same.
* `Expansion.run_cleared` — a whole expansion.
-/

set_option autoImplicit false

namespace Countersign

/-- The same view with every table readable. -/
def View.cleared (v : View) : View := { v with unreadable := fun _ => false }

/-- The same source with every table readable and every lookup in order. -/
def Source.cleared (src : Source) : Source where
  view := src.view.cleared
  faults := .none

/-- The same expansion with every table readable and every lookup in order. -/
def Expansion.cleared (x : Expansion) : Expansion := { x with source := x.source.cleared }

namespace View

variable {v : View}

theorem denoted_cleared (v : View) (ref : EntityRef) : v.cleared.denoted ref = v.denoted ref := by
  rcases ref with (a | a) | (a | a) | id | id | id | id <;> rfl

theorem sightings_cleared (v : View) (ref : EntityRef) :
    v.cleared.sightings ref = v.sightings ref :=
  sightings_congr (v.denoted_cleared ref).symm

theorem versionOf_cleared {ref : EntityRef} {version : Version} (h : v.versionOf ref = .ok version) :
    v.cleared.versionOf ref = .ok version := by
  have hmarker : v.cleared.marker ref = v.marker ref := by
    rw [marker_eq, marker_eq, denoted_cleared]
  rw [versionOf, read] at h ⊢
  rw [hmarker]
  split at h
  · simp at h
  · exact h

end View

namespace Source

variable {src : Source}

theorem linkAll_cleared {v : View} {refs : List EntityRef} {l : LinkedRefs}
    (h : (linkAll v refs l).1 = true) : linkAll v.cleared refs l = linkAll v refs l := by
  induction refs generalizing l with
  | nil => rfl
  | cons ref refs ih =>
    rw [linkAll] at h
    rw [linkAll, linkAll]
    rcases hv : v.versionOf ref with e | version
    · simp [hv] at h
    · rw [View.versionOf_cleared hv]
      rw [hv] at h
      exact ih h

/-- A lookup that is completed. -/
theorem visit_cleared {ref : EntityRef} {t : Trail} (h : (src.visit ref t).1 = true) :
    src.cleared.visit ref t = src.visit ref t := by
  by_cases hf : src.faults t.calls ref.kind = some .before
  · rw [visit_of_fault_before hf] at h
    simp at h
  · rw [visit_eq hf] at h ⊢
    rw [Bool.and_eq_true] at h
    have hclear : src.cleared.faults t.calls ref.kind ≠ some .before := by
      simp [cleared, FaultPlan.none]
    rw [visit_eq hclear]
    simp only [cleared, View.sightings_cleared, linkAll_cleared h.1, h.2]
    rfl

theorem visitSubject_cleared {r : Requirement} {t : Trail} (h : (src.visitSubject r t).1 = true) :
    src.cleared.visitSubject r t = src.visitSubject r t := by
  rw [visitSubject] at h ⊢
  rw [visitSubject]
  cases hr : r.subject? with
  | none => rfl
  | some ref =>
    rw [hr] at h
    exact visit_cleared h

/-- A list of requirements that is gone through to its end, or to its first failure. -/
theorem collect_cleared {rs : List Requirement} {t : Trail} {result : Except OrderingFailure (List Key)}
    (h : (src.collect rs t).1 = .finished result) :
    src.cleared.collect rs t = src.collect rs t := by
  induction rs generalizing t result with
  | nil => rfl
  | cons r rs ih =>
    rcases hv : src.visitSubject r t with ⟨_ | _, t'⟩
    · rw [collect_cons_of_interrupted hv] at h
      simp at h
    · have hv' : src.cleared.visitSubject r t = (true, t') := by
        rw [visitSubject_cleared (by rw [hv]), hv]
      have hj' : r.judge src.cleared.view = r.judge src.view :=
        Requirement.judge_congr fun _ _ ref _ => src.view.denoted_cleared ref
      cases hj : r.judge src.view with
      | error f =>
        rw [collect_cons_of_error hv hj]
        exact collect_cons_of_error hv' (hj'.trans hj)
      | ok key? =>
        rw [collect_cons_of_ok hv hj] at h ⊢
        rcases hrest : (src.collect rs t').1 with result' | -
        · rw [collect_cons_of_ok hv' (hj'.trans hj), ih hrest, hrest]
        · rw [hrest] at h
          simp [Pass.map] at h

end Source

theorem payerPass_cleared {src : Source} {b : Body} {t t' : Trail}
    {result : Except OrderingFailure Key} (h : payerPass src b t = (.finished result, t')) :
    payerPass src.cleared b t = (.finished result, t') := by
  rw [← h]
  rw [payerPass] at h ⊢
  rw [payerPass]
  rcases hv : src.visit (.account (.byId b.payer)) t with ⟨_ | _, t''⟩
  · rw [hv] at h
    simp at h
  · rw [Source.visit_cleared (by rw [hv]), hv]
    have hm : src.view.cleared.accountMetadata (.byId b.payer) =
        src.view.accountMetadata (.byId b.payer) :=
      View.accountMetadata_congr fun ref _ => src.view.denoted_cleared ref
    simp only [payerKey, Source.cleared, hm]

theorem othersPass_cleared {src : Source} {b : Body} {t t' : Trail}
    {result : Except OrderingFailure (List Key)}
    (h : othersPass src b t = (.finished result, t')) :
    othersPass src.cleared b t = (.finished result, t') := by
  have hdone : (src.collect b.requirements t).1 = .finished result := congrArg Prod.fst h
  exact (Source.collect_cleared hdone).trans h

/-- **A run that is not cut short** is the run with every table readable and every lookup in order. -/
theorem Expansion.run_cleared {x : Expansion} {s : Supply}
    (h : (x.run s).outcome.interrupted = false) : x.cleared.run s = x.run s := by
  have hr := x.runs_run s
  generalize x.run s = r at h hr
  refine Runs.run_eq ?_
  cases hr with
  | payerInterrupted hp => simp [Ran.outcome, Outcome.ofInterruption] at h
  | payerUnordered hp => exact .payerUnordered (payerPass_cleared hp)
  | payerUnmatched hp hm => exact .payerUnmatched (payerPass_cleared hp) hm
  | othersInterrupted hp hm ho => simp [Ran.outcome, Outcome.ofInterruption] at h
  | othersUnordered hp hm ho =>
    exact .othersUnordered (payerPass_cleared hp) hm (othersPass_cleared ho)
  | othersUnmatched hp hm ho hk =>
    exact .othersUnmatched (payerPass_cleared hp) hm (othersPass_cleared ho) hk
  | finalized hp hm ho hk =>
    exact .finalized (x := x.cleared) (payerPass_cleared hp) hm (othersPass_cleared ho) hk

end Countersign
