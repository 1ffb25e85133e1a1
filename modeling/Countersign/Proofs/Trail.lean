import Countersign.Signing.Order

/-!
# What a pass leaves behind

A pass over requirements goes from lookup to lookup along a trail.  The trail only grows, and a
lookup that is completed has linked everything it went through.

## What is here

* `LinkedRefs.entities` — the references alone, without their markers.
* `Source.visit_of_fault_before`, `Source.visit_eq` — one lookup; `Source.collect_cons_of_interrupted`,
  `Source.collect_cons_of_error`, `Source.collect_cons_of_ok` — one requirement.
* `LinkedRefs.Current` — every reference is linked with the marker that it carries.
* `Source.prefix_collect` — linked references are never lost or reordered.
* `Source.collect_preserves` — whatever linking one reference with its marker preserves, a pass
  preserves.
* `LinkedRefs.firstStale_eq_none_iff`, `LinkedRefs.firstStale_eq_some_iff` — when nothing is stale, and
  which reference is.
* `Source.mem_entities_of_visit` — a completed lookup has linked all its sightings.
-/

set_option autoImplicit false

namespace Countersign

/-! ## Linked references -/

namespace LinkedRefs

/-- The references, in the order in which they were first seen. -/
def entities (l : LinkedRefs) : List EntityRef := l.refs.map Prod.fst

theorem entities_subset {l m : LinkedRefs} (h : l.refs <+: m.refs) : l.entities ⊆ m.entities :=
  (h.map Prod.fst).subset

theorem contains_iff {l : LinkedRefs} {ref : EntityRef} :
    l.contains ref = true ↔ ref ∈ l.entities := by
  simp [contains, entities, List.any_eq_true, List.mem_map]

theorem prefix_link (l : LinkedRefs) (ref : EntityRef) (version : Version) :
    l.refs <+: (l.link ref version).refs := by
  rw [link]
  split
  · exact List.prefix_rfl
  · exact List.prefix_append _ _

theorem mem_entities_link (l : LinkedRefs) (ref : EntityRef) (version : Version) :
    ref ∈ (l.link ref version).entities := by
  rw [link]
  split
  · next h => exact contains_iff.1 h
  · simp [entities]

/-- Every reference is linked with the marker that it carries in the view. -/
def Current (l : LinkedRefs) (v : View) : Prop :=
  ∀ e ∈ l.refs, v.marker e.1 = e.2

theorem Current.link {l : LinkedRefs} {v : View} (h : l.Current v) (ref : EntityRef) :
    (l.link ref (v.marker ref)).Current v := by
  rw [LinkedRefs.link]
  split
  · exact h
  · intro e he
    rcases List.mem_append.1 he with he | he
    · exact h e he
    · obtain rfl := List.mem_singleton.1 he
      rfl

/-- Nothing is stale when every reference carries the marker that it was linked with. -/
theorem firstStale_eq_none_iff {l : LinkedRefs} {v : View} :
    l.firstStale v = .ok none ↔ ∀ e ∈ l.refs, v.versionOf e.1 = .ok e.2 := by
  rw [firstStale]
  induction l.refs with
  | nil => simp [firstStaleIn]
  | cons e es ih =>
    obtain ⟨ref, seen⟩ := e
    rw [firstStaleIn, List.forall_mem_cons]
    rcases hv : v.versionOf ref with err | present
    · simp
    · by_cases h : present = seen
      · simp [h, ih]
      · simp [h]

/-- A linked reference carries another marker than the one it was linked with, and is the first that
does. -/
def FirstDiffers (l : LinkedRefs) (v : View) (ref : EntityRef) : Prop :=
  ∃ before seen after present, l.refs = before ++ (ref, seen) :: after ∧
    (∀ e ∈ before, v.versionOf e.1 = .ok e.2) ∧ v.versionOf ref = .ok present ∧ present ≠ seen

/-- What is found stale is the first reference that differs. -/
theorem firstStale_eq_some_iff {l : LinkedRefs} {v : View} {ref : EntityRef} :
    l.firstStale v = .ok (some ref) ↔ l.FirstDiffers v ref := by
  rw [firstStale, FirstDiffers]
  induction l.refs with
  | nil => simp [firstStaleIn]
  | cons e es ih =>
    obtain ⟨first, seen⟩ := e
    rw [firstStaleIn]
    constructor
    · intro h
      rcases hv : v.versionOf first with err | present <;> rw [hv] at h
      · cases h
      · by_cases hne : present = seen
        · simp only [hne, ne_eq, not_true_eq_false, if_false] at h
          obtain ⟨before, seen', after, present', rfl, hbefore, hpresent⟩ := ih.1 h
          exact ⟨(first, seen) :: before, seen', after, present', rfl,
            List.forall_mem_cons.2 ⟨hne ▸ hv, hbefore⟩, hpresent⟩
        · simp only [ne_eq, hne, not_false_eq_true, if_true] at h
          obtain rfl := Option.some.inj (Except.ok.inj h)
          exact ⟨[], seen, es, present, rfl, by simp, hv, hne⟩
    · rintro ⟨_ | ⟨e, before⟩, seen', after, present, heq, hbefore, hpresent, hne⟩
      · obtain ⟨⟨rfl, rfl⟩, -⟩ := by simpa using heq
        simp [hpresent, hne]
      · obtain ⟨rfl, rfl⟩ := List.cons.inj heq
        obtain ⟨hfirst, hbefore⟩ := List.forall_mem_cons.1 hbefore
        simpa [hfirst] using ih.2 ⟨before, seen', after, present, rfl, hbefore, hpresent, hne⟩

end LinkedRefs

/-- What a pass has found, changed by `f`. -/
def Pass.map {α β : Type} (f : α → β) : Pass α → Pass β
  | .finished (.ok a) => .finished (.ok (f a))
  | .finished (.error e) => .finished (.error e)
  | .interrupted => .interrupted

theorem View.eq_marker_of_versionOf {v : View} {ref : EntityRef} {version : Version}
    (h : v.versionOf ref = .ok version) : version = v.marker ref := by
  rw [versionOf, read] at h
  split at h
  · simp at h
  · exact (Except.ok.inj h).symm

namespace Source

/-! ## One lookup -/

theorem visit_of_fault_before {src : Source} {ref : EntityRef} {t : Trail}
    (h : src.faults t.calls ref.kind = some .before) :
    src.visit ref t = (false, { t with calls := t.calls ++ [ref.kind] }) := by
  rw [visit, if_pos h]

theorem visit_eq {src : Source} {ref : EntityRef} {t : Trail}
    (h : src.faults t.calls ref.kind ≠ some .before) :
    src.visit ref t =
      ((linkAll src.view (src.view.sightings ref) t.linked).1
          && (src.faults t.calls ref.kind).isNone,
        { linked := (linkAll src.view (src.view.sightings ref) t.linked).2
          calls := t.calls ++ [ref.kind] }) := by
  rw [visit, if_neg h]

/-! ## One requirement -/

section collect

variable {src : Source} {r : Requirement} {rs : List Requirement} {t t' : Trail}

theorem collect_cons_of_interrupted (hv : src.visitSubject r t = (false, t')) :
    src.collect (r :: rs) t = (.interrupted, t') := by
  rw [collect, hv]

theorem collect_cons_of_error {f : OrderingFailure} (hv : src.visitSubject r t = (true, t'))
    (hj : r.judge src.view = .error f) :
    src.collect (r :: rs) t = (.finished (.error f), t') := by
  rw [collect, hv]
  simp only [hj]

theorem collect_cons_of_ok {key? : Option Key} (hv : src.visitSubject r t = (true, t'))
    (hj : r.judge src.view = .ok key?) :
    src.collect (r :: rs) t =
      ((src.collect rs t').1.map (key?.toList ++ ·), (src.collect rs t').2) := by
  rw [collect, hv]
  simp only [hj]
  rcases src.collect rs t' with ⟨(f | keys) | -, t''⟩ <;> rfl

end collect

/-! ## What every link preserves -/

section preserves

variable {P : LinkedRefs → Prop}

/-- Whatever linking one reference with its marker preserves, linking many preserves. -/
theorem linkAll_preserves {v : View} (hlink : ∀ l ref, P l → P (l.link ref (v.marker ref)))
    (refs : List EntityRef) {l : LinkedRefs} (h : P l) : P (linkAll v refs l).2 := by
  induction refs generalizing l with
  | nil => exact h
  | cons ref refs ih =>
    rw [linkAll]
    split
    · exact h
    · next version hv =>
      rw [View.eq_marker_of_versionOf hv]
      exact ih (hlink l ref h)

variable {src : Source} (hlink : ∀ l ref, P l → P (l.link ref (src.view.marker ref)))
include hlink

theorem visit_preserves (ref : EntityRef) {t : Trail} (h : P t.linked) :
    P (src.visit ref t).2.linked := by
  by_cases hf : src.faults t.calls ref.kind = some .before
  · rw [visit_of_fault_before hf]
    exact h
  · rw [visit_eq hf]
    exact linkAll_preserves hlink _ h

theorem visitSubject_preserves (r : Requirement) {t : Trail} (h : P t.linked) :
    P (src.visitSubject r t).2.linked := by
  rw [visitSubject]
  split
  · exact h
  · exact visit_preserves hlink _ h

/-- **Whatever every link preserves, a list of requirements preserves.** -/
theorem collect_preserves (rs : List Requirement) {t : Trail} (h : P t.linked) :
    P (src.collect rs t).2.linked := by
  induction rs generalizing t with
  | nil => exact h
  | cons r rs ih =>
    have hsub := visitSubject_preserves hlink r h
    rcases hv : src.visitSubject r t with ⟨_ | _, t'⟩
    · rw [collect_cons_of_interrupted hv]
      rwa [hv] at hsub
    · rw [hv] at hsub
      cases hj : r.judge src.view with
      | error f =>
        rw [collect_cons_of_error hv hj]
        exact hsub
      | ok key? =>
        rw [collect_cons_of_ok hv hj]
        exact ih hsub

end preserves

/-! ## What stays linked -/

theorem prefix_linkAll (v : View) (refs : List EntityRef) (l : LinkedRefs) :
    l.refs <+: (linkAll v refs l).2.refs :=
  linkAll_preserves (P := fun m => l.refs <+: m.refs)
    (fun m ref h => h.trans (m.prefix_link ref _)) refs List.prefix_rfl

theorem prefix_collect (src : Source) (rs : List Requirement) (t : Trail) :
    t.linked.refs <+: (src.collect rs t).2.linked.refs :=
  collect_preserves (P := fun m => t.linked.refs <+: m.refs)
    (fun m ref h => h.trans (m.prefix_link ref _)) rs List.prefix_rfl

/-- Linking that comes to its end has linked every reference. -/
theorem mem_entities_of_linkAll {v : View} {refs : List EntityRef} {l : LinkedRefs}
    (h : (linkAll v refs l).1 = true) : ∀ ref ∈ refs, ref ∈ (linkAll v refs l).2.entities := by
  induction refs generalizing l with
  | nil => simp
  | cons r refs ih =>
    rw [linkAll] at h ⊢
    split at h
    · simp at h
    · next version heq =>
      intro ref href
      rcases List.mem_cons.1 href with rfl | href
      · exact LinkedRefs.entities_subset (prefix_linkAll v refs _)
          (l.mem_entities_link ref version)
      · exact ih h ref href

/-- A completed lookup has linked all that it went through. -/
theorem mem_entities_of_visit {src : Source} {ref : EntityRef} {t : Trail}
    (h : (src.visit ref t).1 = true) :
    ∀ s ∈ src.view.sightings ref, s ∈ (src.visit ref t).2.linked.entities := by
  by_cases hf : src.faults t.calls ref.kind = some .before
  · rw [visit_of_fault_before hf] at h
    simp at h
  · rw [visit_eq hf] at h ⊢
    rw [Bool.and_eq_true] at h
    exact mem_entities_of_linkAll h.1

end Source

/-- The payer takes one lookup. -/
theorem payerPass_snd (src : Source) (b : Body) (t : Trail) :
    (payerPass src b t).2 = (src.visit (.account (.byId b.payer)) t).2 := by
  rw [payerPass]
  rcases src.visit (.account (.byId b.payer)) t with ⟨_ | _, t'⟩ <;> rfl

end Countersign
