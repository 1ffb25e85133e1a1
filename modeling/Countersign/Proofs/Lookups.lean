import Countersign.Proofs.Interruption
import Countersign.Proofs.Matching

/-!
# The lookups of an expansion

Which entities an expansion looks up, and in which order, is settled by the view, the body and the
pairs supplied.  What can be disturbed is only how far it gets: the trail of an expansion is that of
its lookups one after the other, up to the first that is cut short.

## What is here

* `View.itinerary`, `Expansion.lookups` — the entities looked up for a list of requirements, and by a
  whole expansion.
* `Source.Completes`, `Source.CutShort` — whether a lookup comes to its end, and if not then what it
  has read by then; `Source.completes_or_cutShort` says that it is one or the other.
* `Source.visitAll` — lookups one after the other, with `Source.visitAll_cases`.
* `Source.collect_eq`, `payerPass_eq_finished_iff`, `othersPass_eq_finished_iff` — a pass is its
  lookups, and an answer of the view.
* `Expansion.run_visits` — an expansion goes through its lookups, and is cut short where they are.
-/

set_option autoImplicit false

namespace Countersign

/-! ## What is looked up -/

/-- The entities that going through a list of requirements looks up, in order.  Nothing is looked up
after the first requirement that fails. -/
def View.itinerary (v : View) : List Requirement → List EntityRef
  | [] => []
  | r :: rs =>
    r.subject?.toList ++
      match r.judge v with
      | .error _ => []
      | .ok _ => v.itinerary rs

/-- The entities that an expansion looks up, in order: the payer, and then those that the other
parties' keys are asked of, provided that the payer's key is there and satisfied. -/
def Expansion.lookups (x : Expansion) (m : SignatureMap) : List EntityRef :=
  .account (.byId x.body.payer) ::
    match payerKey x.source.view x.body.payer with
    | .error _ => []
    | .ok key =>
      match m.satisfy key with
      | .error _ => []
      | .ok _ => x.source.view.itinerary x.body.requirements

/-! ## Linking many references -/

/-- Records references one after the other, each with the marker that it carries. -/
def LinkedRefs.linkEach (v : View) (refs : List EntityRef) (l : LinkedRefs) : LinkedRefs :=
  refs.foldl (fun l ref => l.link ref (v.marker ref)) l

namespace LinkedRefs

variable {v : View}

theorem linkEach_append (refs more : List EntityRef) (l : LinkedRefs) :
    linkEach v (refs ++ more) l = linkEach v more (linkEach v refs l) := by
  rw [linkEach, List.foldl_append, linkEach, linkEach]

theorem prefix_linkEach (refs : List EntityRef) (l : LinkedRefs) :
    l.refs <+: (linkEach v refs l).refs := by
  induction refs generalizing l with
  | nil => exact List.prefix_rfl
  | cons ref refs ih => exact (l.prefix_link ref _).trans (ih _)

/-- Linking fewer references leaves a prefix. -/
theorem linkEach_prefix {refs more : List EntityRef} (h : refs <+: more) (l : LinkedRefs) :
    (linkEach v refs l).refs <+: (linkEach v more l).refs := by
  obtain ⟨rest, rfl⟩ := h
  rw [linkEach_append]
  exact prefix_linkEach rest _

theorem mem_entities_linkEach {refs : List EntityRef} {ref : EntityRef} (h : ref ∈ refs)
    (l : LinkedRefs) : ref ∈ (linkEach v refs l).entities := by
  obtain ⟨before, after, rfl⟩ := List.append_of_mem h
  rw [linkEach_append]
  exact entities_subset (prefix_linkEach after _) (mem_entities_link _ ref _)

end LinkedRefs

namespace Source

variable {src : Source}

/-! ## One lookup -/

/-- After the lookups begun so far the lookup of an entity comes to its end: it does not fail, and
every table on its way can be read. -/
structure Completes (src : Source) (calls : List EntityKind) (ref : EntityRef) : Prop where
  in_order : src.faults calls ref.kind = none
  readable : ∀ s ∈ src.view.sightings ref, src.view.unreadable (View.tableOf s) = false

/-- After the lookups begun so far the lookup of an entity is cut short, and by then has read the given
references: none if it fails at the start, those before the first that cannot be read, or all. -/
inductive CutShort (src : Source) (calls : List EntityKind) (ref : EntityRef) :
    List EntityRef → Prop
  | before (h : src.faults calls ref.kind = some .before) : CutShort src calls ref []
  | within {read rest : List EntityRef} {next : EntityRef}
      (h : src.faults calls ref.kind ≠ some .before)
      (hs : src.view.sightings ref = read ++ next :: rest)
      (hread : ∀ s ∈ read, src.view.unreadable (View.tableOf s) = false)
      (hnext : src.view.unreadable (View.tableOf next) = true) : CutShort src calls ref read
  | after (h : src.faults calls ref.kind = some .after)
      (hread : ∀ s ∈ src.view.sightings ref, src.view.unreadable (View.tableOf s) = false) :
      CutShort src calls ref (src.view.sightings ref)

theorem CutShort.prefix_sightings {calls : List EntityKind} {ref : EntityRef}
    {read : List EntityRef} (h : src.CutShort calls ref read) : read <+: src.view.sightings ref := by
  cases h with
  | before => exact List.nil_prefix
  | within _ hs => exact hs ▸ List.prefix_append _ _
  | after => exact List.prefix_rfl

theorem linkAll_of_readable {v : View} {refs : List EntityRef} (l : LinkedRefs)
    (h : ∀ s ∈ refs, v.unreadable (View.tableOf s) = false) :
    linkAll v refs l = (true, l.linkEach v refs) := by
  induction refs generalizing l with
  | nil => rfl
  | cons ref refs ih =>
    obtain ⟨href, hrefs⟩ := List.forall_mem_cons.1 h
    rw [linkAll, View.versionOf, View.read, href]
    exact ih _ hrefs

theorem linkAll_of_unreadable {v : View} {read rest : List EntityRef} {next : EntityRef}
    (l : LinkedRefs) (h : ∀ s ∈ read, v.unreadable (View.tableOf s) = false)
    (hnext : v.unreadable (View.tableOf next) = true) :
    linkAll v (read ++ next :: rest) l = (false, l.linkEach v read) := by
  induction read generalizing l with
  | nil =>
    rw [List.nil_append, linkAll, View.versionOf, View.read, hnext]
    rfl
  | cons ref read ih =>
    obtain ⟨href, hread⟩ := List.forall_mem_cons.1 h
    rw [List.cons_append, linkAll, View.versionOf, View.read, href]
    exact ih _ hread

theorem visit_of_completes {ref : EntityRef} {t : Trail} (h : src.Completes t.calls ref) :
    src.visit ref t =
      (true,
        { linked := t.linked.linkEach src.view (src.view.sightings ref)
          calls := t.calls ++ [ref.kind] }) := by
  have hf : src.faults t.calls ref.kind ≠ some .before := by simp [h.in_order]
  rw [visit_eq hf, linkAll_of_readable _ h.readable, h.in_order]
  rfl

theorem visit_of_cutShort {ref : EntityRef} {read : List EntityRef} {t : Trail}
    (h : src.CutShort t.calls ref read) :
    src.visit ref t =
      (false,
        { linked := t.linked.linkEach src.view read
          calls := t.calls ++ [ref.kind] }) := by
  cases h with
  | before hf => exact visit_of_fault_before hf
  | within hf hs hread hnext =>
    rw [visit_eq hf, hs, linkAll_of_unreadable _ hread hnext]
    rfl
  | after hf hread =>
    have hnot : src.faults t.calls ref.kind ≠ some .before := by simp [hf]
    rw [visit_eq hnot, linkAll_of_readable _ hread, hf]
    rfl

/-- **A lookup comes to its end or is cut short.** -/
theorem completes_or_cutShort (src : Source) (calls : List EntityKind) (ref : EntityRef) :
    src.Completes calls ref ∨ ∃ read, src.CutShort calls ref read := by
  by_cases hread : ∀ s ∈ src.view.sightings ref, src.view.unreadable (View.tableOf s) = false
  · rcases hf : src.faults calls ref.kind with - | - | -
    · exact .inl ⟨hf, hread⟩
    · exact .inr ⟨_, .before hf⟩
    · exact .inr ⟨_, .after hf hread⟩
  · by_cases hf : src.faults calls ref.kind = some .before
    · exact .inr ⟨_, .before hf⟩
    · -- the first reference that cannot be read ends the lookup
      obtain ⟨next, hnext⟩ : ∃ next, (src.view.sightings ref).find?
          (fun s => src.view.unreadable (View.tableOf s)) = some next := by
        rw [← Option.isSome_iff_exists, List.find?_isSome]
        simpa using hread
      obtain ⟨hu, read, rest, hs, hbefore⟩ := List.find?_eq_some_iff_append.1 hnext
      exact .inr ⟨read, .within hf hs (fun s hmem => by simpa using hbefore s hmem) hu⟩

/-! ## Many lookups -/

/-- Looks entities up one after the other, and says whether all these lookups were completed.  The
first that is not ends it. -/
def visitAll (src : Source) : List EntityRef → Trail → Bool × Trail
  | [], t => (true, t)
  | ref :: refs, t =>
    match src.visit ref t with
    | (false, t) => (false, t)
    | (true, t) => src.visitAll refs t

theorem visitAll_append (src : Source) (refs more : List EntityRef) (t : Trail) :
    src.visitAll (refs ++ more) t =
      if (src.visitAll refs t).1 then src.visitAll more (src.visitAll refs t).2
      else (false, (src.visitAll refs t).2) := by
  induction refs generalizing t with
  | nil => rfl
  | cons ref refs ih =>
    rw [List.cons_append, visitAll, visitAll]
    rcases src.visit ref t with ⟨_ | _, t'⟩
    · rfl
    · exact ih t'

theorem visitAll_subject (src : Source) (r : Requirement) (t : Trail) :
    src.visitAll r.subject?.toList t = src.visitSubject r t := by
  rw [visitSubject]
  rcases r.subject? with - | ref
  · rfl
  · change src.visitAll [ref] t = src.visit ref t
    rw [visitAll]
    rcases src.visit ref t with ⟨_ | _, t'⟩ <;> rfl

/-- **Lookups either all come to their end, or the first that does not ends them.**  Either way it is
known which references have been linked. -/
theorem visitAll_cases (src : Source) (refs : List EntityRef) (t : Trail) :
    ((∀ before ref after, refs = before ++ ref :: after →
          src.Completes (t.calls ++ before.map EntityRef.kind) ref) ∧
        src.visitAll refs t =
          (true,
            { linked := t.linked.linkEach src.view (refs.flatMap src.view.sightings)
              calls := t.calls ++ refs.map EntityRef.kind })) ∨
      ∃ before ref after read, refs = before ++ ref :: after ∧
        (∀ earlier seen later, before = earlier ++ seen :: later →
          src.Completes (t.calls ++ earlier.map EntityRef.kind) seen) ∧
        src.CutShort (t.calls ++ before.map EntityRef.kind) ref read ∧
        src.visitAll refs t =
          (false,
            { linked := t.linked.linkEach src.view (before.flatMap src.view.sightings ++ read)
              calls := t.calls ++ (before ++ [ref]).map EntityRef.kind }) := by
  induction refs generalizing t with
  | nil =>
    refine .inl ⟨by simp, ?_⟩
    simp [visitAll, LinkedRefs.linkEach]
  | cons ref refs ih =>
    rcases src.completes_or_cutShort t.calls ref with hdone | ⟨read, hcut⟩
    · have hstep := visit_of_completes hdone
      rcases ih { linked := t.linked.linkEach src.view (src.view.sightings ref)
                  calls := t.calls ++ [ref.kind] } with
        ⟨hall, hrest⟩ | ⟨before, cut, after, read, rfl, hall, hcut, hrest⟩
      · refine .inl ⟨?_, ?_⟩
        · intro before seen after heq
          rcases before with - | ⟨first, before⟩
          · obtain ⟨rfl, -⟩ := List.cons.inj heq
            simpa using hdone
          · obtain ⟨rfl, hrefs⟩ := List.cons.inj heq
            simpa using hall before seen after hrefs
        · rw [visitAll, hstep]
          simpa [LinkedRefs.linkEach_append] using hrest
      · refine .inr ⟨ref :: before, cut, after, read, rfl, ?_, by simpa using hcut, ?_⟩
        · intro earlier seen later heq
          rcases earlier with - | ⟨first, earlier⟩
          · obtain ⟨rfl, -⟩ := List.cons.inj heq
            simpa using hdone
          · obtain ⟨rfl, hbefore⟩ := List.cons.inj heq
            simpa using hall earlier seen later hbefore
        · rw [visitAll, hstep]
          simpa [LinkedRefs.linkEach_append] using hrest
    · refine .inr ⟨[], ref, refs, read, rfl, by simp, by simpa using hcut, ?_⟩
      rw [visitAll, visit_of_cutShort hcut]
      simp

end Source

/-! ## The two passes -/

/-- **Going through requirements is looking up their itinerary.**  What comes of it is what the view
says, unless it is cut short. -/
theorem Source.collect_eq (src : Source) (rs : List Requirement) (t : Trail) :
    src.collect rs t =
      (if (src.visitAll (src.view.itinerary rs) t).1 then .finished (src.view.keysOf rs)
        else .interrupted,
        (src.visitAll (src.view.itinerary rs) t).2) := by
  induction rs generalizing t with
  | nil => rfl
  | cons r rs ih =>
    rw [View.itinerary, visitAll_append, visitAll_subject, View.keysOf]
    rcases hv : src.visitSubject r t with ⟨_ | _, t'⟩
    · rw [collect_cons_of_interrupted hv]
      rfl
    · rcases hj : r.judge src.view with f | key?
      · rw [collect_cons_of_error hv hj]
        rfl
      · rw [collect_cons_of_ok hv hj, ih]
        rcases src.visitAll (src.view.itinerary rs) t' with ⟨_ | _, t''⟩
        · rfl
        · rcases src.view.keysOf rs with f | keys <;> rfl

section passes

variable {src : Source} {b : Body} {t t' : Trail}

theorem payerPass_eq_interrupted_iff :
    payerPass src b t = (.interrupted, t') ↔
      src.visit (.account (.byId b.payer)) t = (false, t') := by
  rw [payerPass]
  rcases src.visit (.account (.byId b.payer)) t with ⟨_ | _, t''⟩ <;> simp

theorem payerPass_eq_finished_iff {result : Except OrderingFailure Key} :
    payerPass src b t = (.finished result, t') ↔
      src.visit (.account (.byId b.payer)) t = (true, t') ∧
        payerKey src.view b.payer = result := by
  rw [payerPass]
  rcases src.visit (.account (.byId b.payer)) t with ⟨_ | _, t''⟩ <;> simp [and_comm]

theorem othersPass_eq_interrupted_iff :
    othersPass src b t = (.interrupted, t') ↔
      src.visitAll (src.view.itinerary b.requirements) t = (false, t') := by
  rw [othersPass, Source.collect_eq]
  rcases src.visitAll (src.view.itinerary b.requirements) t with ⟨_ | _, t''⟩ <;> simp

theorem othersPass_eq_finished_iff {result : Except OrderingFailure (List Key)} :
    othersPass src b t = (.finished result, t') ↔
      src.visitAll (src.view.itinerary b.requirements) t = (true, t') ∧
        otherKeys src.view b = result := by
  rw [othersPass, Source.collect_eq, otherKeys]
  rcases src.visitAll (src.view.itinerary b.requirements) t with ⟨_ | _, t''⟩ <;> simp [and_comm]

end passes

/-! ## An expansion -/

namespace Expansion

variable {x : Expansion} {s : Supply} {m : SignatureMap} {t : Trail}

/-- The lookup of the payer comes first. -/
theorem visitAll_lookups_of_cut (m : SignatureMap)
    (hv : x.source.visit (.account (.byId x.body.payer)) {} = (false, t)) :
    x.source.visitAll (x.lookups m) {} = (false, t) := by
  rw [lookups, Source.visitAll, hv]

/-- A payer without a key, or whose key is not satisfied, is all that is looked up. -/
theorem lookups_of_payer
    (h : ∀ key, payerKey x.source.view x.body.payer = .ok key → ∃ e, m.satisfy key = .error e) :
    x.lookups m = [.account (.byId x.body.payer)] := by
  rw [lookups]
  rcases hk : payerKey x.source.view x.body.payer with f | key
  · rfl
  · obtain ⟨e, he⟩ := h key hk
    simp only [he]

/-- Once the payer's key is satisfied the other parties are looked up. -/
theorem lookups_of_others {key : Key} {found : List Matched}
    (hk : payerKey x.source.view x.body.payer = .ok key) (hm : m.satisfy key = .ok found) :
    x.lookups m =
      .account (.byId x.body.payer) :: x.source.view.itinerary x.body.requirements := by
  simp only [lookups, hk, hm]

theorem visitAll_lookups_of_payer
    (hv : x.source.visit (.account (.byId x.body.payer)) {} = (true, t))
    (h : ∀ key, payerKey x.source.view x.body.payer = .ok key → ∃ e, m.satisfy key = .error e) :
    x.source.visitAll (x.lookups m) {} = (true, t) := by
  rw [lookups_of_payer h, Source.visitAll, hv]
  rfl

theorem visitAll_lookups_of_others {key : Key} {found : List Matched}
    (hv : x.source.visit (.account (.byId x.body.payer)) {} = (true, t))
    (hk : payerKey x.source.view x.body.payer = .ok key) (hm : m.satisfy key = .ok found) :
    x.source.visitAll (x.lookups m) {} =
      x.source.visitAll (x.source.view.itinerary x.body.requirements) t := by
  rw [lookups_of_others hk hm, Source.visitAll, hv]

/-- **An expansion goes through its lookups**, and is cut short where they are: before the key of the
payer is there, or afterwards. -/
theorem run_visits (x : Expansion) (s : Supply) :
    x.source.visitAll (x.lookups s.map) {} =
        (!(x.run s).outcome.interrupted, (x.run s).trail) ∧
      ((x.run s).outcome.interrupted = true →
        (x.run s).ending = .interrupted
          (if (x.source.visit (.account (.byId x.body.payer)) {}).1 then .payerExpanded
            else .start)) := by
  have hr := x.runs_run s
  generalize x.run s = r at hr
  cases hr with
  | payerInterrupted hp =>
    have hv := payerPass_eq_interrupted_iff.1 hp
    exact ⟨visitAll_lookups_of_cut _ hv, fun _ => by simp [hv]⟩
  | payerUnordered hp =>
    obtain ⟨hv, hk⟩ := payerPass_eq_finished_iff.1 hp
    refine ⟨visitAll_lookups_of_payer hv fun key h => ?_, fun h => ?_⟩
    · rw [hk] at h
      cases h
    · cases h
  | payerUnmatched hp hm =>
    obtain ⟨hv, hk⟩ := payerPass_eq_finished_iff.1 hp
    refine ⟨visitAll_lookups_of_payer hv fun key h => ?_, fun h => ?_⟩
    · rw [hk] at h
      cases h
      exact ⟨_, satisfy_eq_error_of_matchKeys hm⟩
    · cases h
  | othersInterrupted hp hm ho =>
    obtain ⟨hv, hk⟩ := payerPass_eq_finished_iff.1 hp
    obtain ⟨found, hfound⟩ := exists_satisfy_of_matchKeys hm
    refine ⟨?_, fun _ => by simp [hv]⟩
    rw [visitAll_lookups_of_others hv hk hfound, othersPass_eq_interrupted_iff.1 ho]
    rfl
  | othersUnordered hp hm ho | othersUnmatched hp hm ho | finalized hp hm ho =>
    obtain ⟨hv, hk⟩ := payerPass_eq_finished_iff.1 hp
    obtain ⟨found, hfound⟩ := exists_satisfy_of_matchKeys hm
    refine ⟨?_, fun h => by cases h⟩
    rw [visitAll_lookups_of_others hv hk hfound, (othersPass_eq_finished_iff.1 ho).1]
    rfl

end Expansion

end Countersign
