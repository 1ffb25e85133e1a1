import Countersign.Expansion.Run
import Countersign.Proofs.Trail

/-!
# The seven courses of an expansion

An expansion can take seven courses: each of its two passes is cut short, or cannot order its keys,
or cannot match them, and otherwise it is finalized.  Whatever holds of every expansion is shown
course by course.

## What is here

* `Except.Agree` — two answers agree on whether there is an error, and which.
* `Expansion.Runs` — the courses, each with what its two passes and its two matchings have answered.
* `Expansion.runs_iff` — the courses are those of `Expansion.run`.
* `Expansion.trail_run` — the trail is that of one of the two passes, and `Expansion.run_preserves`.
* `Expansion.run_eq_of_status_ok` — the only course that ends well.
-/

set_option autoImplicit false

namespace Countersign

/-- Two results are the same error, or are related. -/
inductive Except.Agree {α β ε : Type} (R : α → β → Prop) : Except ε α → Except ε β → Prop
  | error (e : ε) : Agree R (.error e) (.error e)
  | ok {a : α} {b : β} (h : R a b) : Agree R (.ok a) (.ok b)

namespace Expansion

/-- What the last step adds to the signatures, and what it leaves of the supply. -/
def swept (x : Expansion) (s : Supply) : List PlatformSignature × Supply :=
  if x.sweep then sweepUnused x.make s else ([], s)

/-- The courses of an expansion, each with its result. -/
inductive Runs (x : Expansion) (s : Supply) : Ran → Prop
  | payerInterrupted {t : Trail} (hp : payerPass x.source x.body {} = (.interrupted, t)) :
      Runs x s ⟨.interrupted .start, s, t⟩
  | payerUnordered {f : OrderingFailure} {t : Trail}
      (hp : payerPass x.source x.body {} = (.finished (.error f), t)) :
      Runs x s ⟨.finished .noneAvailable f.status .failedAtPayer, s, t⟩
  | payerUnmatched {key : Key} {e : MatchError} {s' : Supply} {t : Trail}
      (hp : payerPass x.source x.body {} = (.finished (.ok key), t))
      (hm : matchKeys x.make [key] s = (.error e, s')) :
      Runs x s ⟨.finished .noneAvailable e.status .failedAtPayer, s', t⟩
  | othersInterrupted {key : Key} {sigs : List PlatformSignature} {s' : Supply} {t t' : Trail}
      (hp : payerPass x.source x.body {} = (.finished (.ok key), t))
      (hm : matchKeys x.make [key] s = (.ok sigs, s'))
      (ho : othersPass x.source x.body t = (.interrupted, t')) :
      Runs x s ⟨.interrupted .payerExpanded, s', t'⟩
  | othersUnordered {key : Key} {sigs : List PlatformSignature} {s' : Supply} {t t' : Trail}
      {f : OrderingFailure}
      (hp : payerPass x.source x.body {} = (.finished (.ok key), t))
      (hm : matchKeys x.make [key] s = (.ok sigs, s'))
      (ho : othersPass x.source x.body t = (.finished (.error f), t')) :
      Runs x s ⟨.finished (.payerOnly key sigs) f.status .failedAtOthers, s', t'⟩
  | othersUnmatched {key : Key} {sigs : List PlatformSignature} {s' s'' : Supply} {t t' : Trail}
      {keys : List Key} {e : MatchError}
      (hp : payerPass x.source x.body {} = (.finished (.ok key), t))
      (hm : matchKeys x.make [key] s = (.ok sigs, s'))
      (ho : othersPass x.source x.body t = (.finished (.ok keys), t'))
      (hk : matchKeys x.make keys s' = (.error e, s'')) :
      Runs x s ⟨.finished (.payerOnly key sigs) e.status .failedAtOthers, s'', t'⟩
  | finalized {key : Key} {sigs others : List PlatformSignature} {s' s'' : Supply} {t t' : Trail}
      {keys : List Key}
      (hp : payerPass x.source x.body {} = (.finished (.ok key), t))
      (hm : matchKeys x.make [key] s = (.ok sigs, s'))
      (ho : othersPass x.source x.body t = (.finished (.ok keys), t'))
      (hk : matchKeys x.make keys s' = (.ok others, s'')) :
      Runs x s ⟨.finished (.complete key keys (sigs ++ others ++ (x.swept s'').1)) .ok .finalized,
        (x.swept s'').2, t'⟩

variable {x : Expansion} {s : Supply} {r : Ran}

theorem Runs.run_eq (h : x.Runs s r) : x.run s = r := by
  cases h with
  | payerInterrupted hp => rw [run, hp]
  | payerUnordered hp => rw [run, hp]
  | payerUnmatched hp hm => simp only [run, hp, hm]
  | othersInterrupted hp hm ho => simp only [run, runOthers, hp, hm, ho]
  | othersUnordered hp hm ho => simp only [run, runOthers, hp, hm, ho]
  | othersUnmatched hp hm ho hk => simp only [run, runOthers, hp, hm, ho, hk]
  | finalized hp hm ho hk => simp only [run, runOthers, hp, hm, ho, hk, swept]

/-- **Every expansion takes one of the courses.** -/
theorem runs_run (x : Expansion) (s : Supply) : x.Runs s (x.run s) := by
  have of_course {r : Ran} (h : x.Runs s r) : x.Runs s (x.run s) := by rwa [h.run_eq]
  rcases hp : payerPass x.source x.body {} with ⟨(f | key) | -, t⟩
  · exact of_course (.payerUnordered hp)
  · rcases hm : matchKeys x.make [key] s with ⟨e | sigs, s'⟩
    · exact of_course (.payerUnmatched hp hm)
    · rcases ho : othersPass x.source x.body t with ⟨(f | keys) | -, t'⟩
      · exact of_course (.othersUnordered hp hm ho)
      · rcases hk : matchKeys x.make keys s' with ⟨e | others, s''⟩
        · exact of_course (.othersUnmatched hp hm ho hk)
        · exact of_course (.finalized hp hm ho hk)
      · exact of_course (.othersInterrupted hp hm ho)
  · exact of_course (.payerInterrupted hp)

/-- The trail ends with the one pass or with the other. -/
theorem trail_run (x : Expansion) (s : Supply) :
    (x.run s).trail = (payerPass x.source x.body {}).2 ∨
      (x.run s).trail = (othersPass x.source x.body (payerPass x.source x.body {}).2).2 := by
  have hr := x.runs_run s
  generalize x.run s = r at hr
  cases hr with
  | payerInterrupted hp | payerUnordered hp | payerUnmatched hp => exact .inl (by rw [hp])
  | othersInterrupted hp _ ho | othersUnordered hp _ ho | othersUnmatched hp _ ho
  | finalized hp _ ho => exact .inr (by rw [hp, ho])

/-- Whatever every link preserves, an expansion establishes if it holds of no references at all. -/
theorem run_preserves {P : LinkedRefs → Prop}
    (hlink : ∀ l ref, P l → P (l.link ref (x.source.view.marker ref))) (h : P {}) (s : Supply) :
    P (x.run s).trail.linked := by
  have hpayer : P (payerPass x.source x.body {}).2.linked := by
    rw [payerPass_snd]
    exact Source.visit_preserves hlink _ h
  rcases x.trail_run s with ht | ht <;> rw [ht]
  · exact hpayer
  · exact Source.collect_preserves hlink _ hpayer

theorem runs_iff : x.Runs s r ↔ x.run s = r :=
  ⟨Runs.run_eq, fun h => h ▸ x.runs_run s⟩

end Expansion

/-! ## Reading off the outcome -/

@[simp] theorem Ran.linked_outcome (r : Ran) : r.outcome.linked = r.trail.linked := by
  rw [Ran.outcome]
  split <;> rfl

/-- A run that is cut short has no outcome but the guarded one. -/
theorem Ran.finished?_eq (r : Ran) :
    r.finished? = if r.outcome.interrupted then none else some r.outcome := by
  rw [finished?, outcome]
  rcases r.ending with ⟨sigMeta, status, stage⟩ | stage <;> rfl

theorem Expansion.execute?_eq_some_iff {x : Expansion} {s : Supply} {o : Outcome} :
    x.execute? s = some o ↔
      (x.run s).outcome.interrupted = false ∧ (x.run s).outcome = o := by
  rw [execute?, Ran.finished?_eq]
  split
  · next hint => simp [hint]
  · next hint => simp [hint]

/-! ## Statuses -/

theorem OrderingFailure.status_ne_ok (f : OrderingFailure) : f.status ≠ .ok := by
  cases f <;> decide

theorem MatchError.status_ne_ok (e : MatchError) : e.status ≠ .ok := by
  cases e <;> simp [status]

namespace Expansion

/-- **Success is reported on one course only**, and then both passes and both matchings have
succeeded. -/
theorem run_eq_of_status_ok {x : Expansion} {s : Supply} (h : (x.run s).outcome.status = .ok) :
    ∃ key sigs s' t keys others s'' t',
      payerPass x.source x.body {} = (.finished (.ok key), t) ∧
      matchKeys x.make [key] s = (.ok sigs, s') ∧
      othersPass x.source x.body t = (.finished (.ok keys), t') ∧
      matchKeys x.make keys s' = (.ok others, s'') ∧
      x.run s = ⟨.finished (.complete key keys (sigs ++ others ++ (x.swept s'').1)) .ok .finalized,
        (x.swept s'').2, t'⟩ := by
  have hr := x.runs_run s
  generalize x.run s = r at h hr
  cases hr with
  | finalized hp hm ho hk => exact ⟨_, _, _, _, _, _, _, _, hp, hm, ho, hk, rfl⟩
  | payerInterrupted | othersInterrupted =>
    exact absurd h (OrderingFailure.status_ne_ok .generalError)
  | payerUnordered | othersUnordered => exact absurd h (OrderingFailure.status_ne_ok _)
  | payerUnmatched | othersUnmatched => exact absurd h (MatchError.status_ne_ok _)

end Expansion

end Countersign
