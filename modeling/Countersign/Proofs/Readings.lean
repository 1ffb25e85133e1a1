import Countersign.Proofs.Contributions
import Countersign.Proofs.Footprint
import Countersign.Proofs.Lookups
import Mathlib.Data.List.Nodup

/-!
# What an expansion has read

A lookup reads one entry after another, and each time takes down the reference it has read for, with
the marker of what it has found there.  The ledger can also be asked for the marker of a reference,
without any lookup.  An expansion may be used again for as long as the markers that were taken down
are those that the ledger gives, so right after it the two have to agree.

## What is here

* `LinkedRefs.note` — one read taken down; `View.follow` and `View.inspect` — the reads of a lookup,
  each with the marker it finds.  `View.inspect_eq_linkAll` says that this links what asking the ledger
  for the markers links, and `Source.visit_eq_inspect` that a lookup is its reads.
* `Expansion.LooksUp` — the references that an expansion looks up; `Expansion.mem_lookups_iff`.
* `LinkedRefs.Records` — lookups are recorded, with all that they went through, each reference once and
  with the marker that the ledger gives it.
* `Expansion.records_lookups` — an expansion that is not interrupted records its lookups.
-/

set_option autoImplicit false

namespace Countersign

/-! ## The reads of a lookup -/

/-- Takes one read down, and says whether it was completed: the reference is linked with the marker of
what was found, and with the absent marker if there was nothing. -/
def LinkedRefs.note {α : Type} (l : LinkedRefs) (ref : EntityRef) (version : α → Version) :
    Except ReadError (Option α) → Bool × LinkedRefs
  | .error _ => (false, l)
  | .ok found => (true, l.link ref (View.markerOf (found.map version)))

namespace View

variable {v : View}

/-- Reads the account record that an address leads to, by way of the binding if it is an alias.  An
alias that is not bound leads no further. -/
def follow (v : View) (tag : Address → EntityRef) : Address → LinkedRefs → Bool × LinkedRefs
  | .byId id, l => l.note (tag (.byId id)) AccountRecord.version (v.readAccount id)
  | .byAlias a, l =>
    let binding := v.readBinding a
    let noted := l.note (tag (.byAlias a)) AliasBinding.version binding
    match binding with
    | .ok (some b) => noted.2.note (tag (.byId b.id)) AccountRecord.version (v.readAccount b.id)
    | _ => noted

/-- The reads of a lookup, taken down one by one. -/
def inspect (v : View) : EntityRef → LinkedRefs → Bool × LinkedRefs
  | .account a, l => v.follow .account a l
  | .contract a, l => v.follow .contract a l
  | .token id, l => l.note (.token id) TokenRecord.version (v.readToken id)
  | .topic id, l => l.note (.topic id) TopicRecord.version (v.readTopic id)
  | .file id, l => l.note (.file id) FileRecord.version (v.readFile id)
  | .schedule id, l => l.note (.schedule id) ScheduleRecord.version (v.readSchedule id)

/-- One read links what asking for the marker links, if the marker is that of what the read finds. -/
theorem note_read {α : Type} (ref : EntityRef) (version : α → Version) (found : Option α)
    (hmarker : v.marker ref = markerOf (found.map version)) (l : LinkedRefs) :
    l.note ref version (v.read (tableOf ref) found) = Source.linkAll v [ref] l := by
  rw [Source.linkAll, versionOf, read, read, hmarker]
  cases v.unreadable (tableOf ref) <;> rfl

/-- The path to an account record is read as far as it goes, under either tag. -/
theorem follow_eq_linkAll {tag : Address → EntityRef} (htag : tag = .account ∨ tag = .contract)
    (address : Address) (l : LinkedRefs) :
    v.follow tag address l = Source.linkAll v (v.addressPath tag address) l := by
  have hnumber (id : EntityId) (l : LinkedRefs) :
      l.note (tag (.byId id)) AccountRecord.version (v.readAccount id) =
        Source.linkAll v [tag (.byId id)] l := by
    rcases htag with rfl | rfl <;> exact note_read _ _ (v.account id) rfl l
  cases address with
  | byId id => exact hnumber id l
  | byAlias a =>
    have hversion : v.versionOf (tag (.byAlias a)) =
        v.read .aliases (markerOf ((v.binding a).map AliasBinding.version)) := by
      rcases htag with rfl | rfl <;> rfl
    rw [addressPath, Source.linkAll, hversion, follow, readBinding, read, read]
    cases v.unreadable .aliases with
    | true => rfl
    | false =>
      cases hb : v.binding a with
      | none => rfl
      | some b => exact hnumber b.id _

/-- **Reading and asking agree.**  Whatever a lookup reads, it links what the ledger answers when it is
asked for the markers, and it is cut short where the ledger is. -/
theorem inspect_eq_linkAll (v : View) (ref : EntityRef) (l : LinkedRefs) :
    v.inspect ref l = Source.linkAll v (v.sightings ref) l := by
  cases ref with
  | account a => exact follow_eq_linkAll (.inl rfl) a l
  | contract a => exact follow_eq_linkAll (.inr rfl) a l
  | token id => exact note_read (.token id) TokenRecord.version (v.token id) rfl l
  | topic id => exact note_read (.topic id) TopicRecord.version (v.topic id) rfl l
  | file id => exact note_read (.file id) FileRecord.version (v.file id) rfl l
  | schedule id => exact note_read (.schedule id) ScheduleRecord.version (v.schedule id) rfl l

end View

/-- A lookup that does not fail at its start is its reads. -/
theorem Source.visit_eq_inspect {src : Source} {ref : EntityRef} {t : Trail}
    (h : src.faults t.calls ref.kind ≠ some .before) :
    src.visit ref t =
      ((src.view.inspect ref t.linked).1 && (src.faults t.calls ref.kind).isNone,
        { linked := (src.view.inspect ref t.linked).2, calls := t.calls ++ [ref.kind] }) := by
  rw [visit_eq h, View.inspect_eq_linkAll]

/-! ## What is looked up -/

/-- The subject of a requirement is on the itinerary if all requirements before it pass.  Whether it
passes itself makes no difference. -/
theorem View.mem_itinerary_iff {v : View} {rs : List Requirement} {ref : EntityRef} :
    ref ∈ v.itinerary rs ↔
      ∃ before r after, rs = before ++ r :: after ∧ (∀ q ∈ before, q.Passes v) ∧
        r.subject? = some ref := by
  induction rs with
  | nil => simp [itinerary]
  | cons r rs ih =>
    rw [itinerary, List.mem_append, Option.mem_toList]
    constructor
    · rintro (hr | hrest)
      · exact ⟨[], r, rs, rfl, by simp, hr⟩
      · rcases hj : r.judge v with f | key? <;> rw [hj] at hrest
        · simp at hrest
        · obtain ⟨before, q, after, rfl, hbefore, hq⟩ := ih.1 hrest
          exact ⟨r :: before, q, after, rfl, List.forall_mem_cons.2 ⟨⟨key?, hj⟩, hbefore⟩, hq⟩
    · rintro ⟨_ | ⟨first, before⟩, q, after, heq, hbefore, hq⟩
      · obtain ⟨rfl, -⟩ := List.cons.inj heq
        exact .inl hq
      · obtain ⟨rfl, rfl⟩ := List.cons.inj heq
        obtain ⟨⟨key?, hj⟩, hbefore⟩ := List.forall_mem_cons.1 hbefore
        rw [hj]
        exact .inr (ih.2 ⟨before, q, after, rfl, hbefore, hq⟩)

namespace Expansion

/-- An expansion looks a reference up: the payer, or else the subject of a requirement, if the payer's
key is there and satisfied and all earlier requirements pass.  Nothing is asked of the lookup itself,
which may be the one that fails. -/
inductive LooksUp (x : Expansion) (m : SignatureMap) : EntityRef → Prop
  | payer : LooksUp x m (.account (.byId x.body.payer))
  | party {key : Key} {found : List Matched} {before after : List Requirement} {r : Requirement}
      {ref : EntityRef} (hkey : payerKey x.source.view x.body.payer = .ok key)
      (hfound : m.satisfy key = .ok found) (hr : x.body.requirements = before ++ r :: after)
      (hbefore : ∀ q ∈ before, q.Passes x.source.view) (href : r.subject? = some ref) :
      LooksUp x m ref

theorem mem_lookups_iff {x : Expansion} {m : SignatureMap} {ref : EntityRef} :
    ref ∈ x.lookups m ↔ x.LooksUp m ref := by
  constructor
  · intro h
    rcases List.mem_cons.1 h with rfl | h
    · exact .payer
    · rcases hkey : payerKey x.source.view x.body.payer with f | key <;> rw [hkey] at h
      · simp at h
      · rcases hfound : m.satisfy key with e | found <;> simp only [hfound] at h
        · simp at h
        · obtain ⟨before, r, after, hr, hbefore, hsubject⟩ := View.mem_itinerary_iff.1 h
          exact .party hkey hfound hr hbefore hsubject
  · intro h
    cases h with
    | payer => exact List.mem_cons_self
    | party hkey hfound hr hbefore hsubject =>
      rw [lookups_of_others hkey hfound]
      exact List.mem_cons_of_mem _
        (View.mem_itinerary_iff.2 ⟨_, _, _, hr, hbefore, hsubject⟩)

end Expansion

/-! ## What is recorded -/

namespace LinkedRefs

variable {v : View} {l : LinkedRefs}

/-- Lookups on a view are recorded: each with its subject and, for an alias that is bound, with the
number under the same tag; nothing else is recorded, and nothing twice.  The markers are those that the
ledger gives, which is the absent marker for what is not there. -/
structure Records (l : LinkedRefs) (v : View) (lookups : List EntityRef) : Prop where
  nodup : l.entities.Nodup
  subject : ∀ ref ∈ lookups, ref ∈ l.entities
  number : ∀ tag : Address → EntityRef, tag = .account ∨ tag = .contract →
    ∀ a b, tag (.byAlias a) ∈ lookups → v.binding a = some b → tag (.byId b.id) ∈ l.entities
  only : ∀ ref ∈ l.entities, ∃ subject ∈ lookups, ref ∈ v.sightings subject
  current : ∀ e ∈ l.refs, v.versionOf e.1 = .ok e.2
  absent : ∀ e ∈ l.refs, v.denoted e.1 = none → e.2 = .absent

theorem entities_link (l : LinkedRefs) (ref : EntityRef) (version : Version) :
    (l.link ref version).entities = if ref ∈ l.entities then l.entities else l.entities ++ [ref] := by
  simp only [link, contains_iff]
  split
  · rfl
  · simp [entities]

theorem nodup_link (h : l.entities.Nodup) (ref : EntityRef) (version : Version) :
    (l.link ref version).entities.Nodup := by
  rw [entities_link]
  split
  · exact h
  · next hnew => exact List.nodup_append.2 ⟨h, List.nodup_singleton ref, by grind⟩

theorem mem_entities_linkEach_iff {refs : List EntityRef} {ref : EntityRef} :
    ref ∈ (l.linkEach v refs).entities ↔ ref ∈ l.entities ∨ ref ∈ refs := by
  induction refs generalizing l with
  | nil => simp [linkEach]
  | cons first refs ih =>
    change ref ∈ ((l.link first _).linkEach v refs).entities ↔ _
    rw [ih, entities_link]
    split <;> grind

theorem linkEach_preserves {P : LinkedRefs → Prop}
    (hlink : ∀ l ref, P l → P (l.link ref (v.marker ref))) (refs : List EntityRef) (h : P l) :
    P (l.linkEach v refs) := by
  induction refs generalizing l with
  | nil => exact h
  | cons ref refs ih => exact ih (hlink l ref h)

/-- **Lookups that can be read are recorded.** -/
theorem records_linkEach {lookups : List EntityRef}
    (hread : ∀ ref ∈ lookups, ∀ s ∈ v.sightings ref, v.unreadable (View.tableOf s) = false) :
    Records (linkEach v (lookups.flatMap v.sightings) {}) v lookups := by
  have hmem {ref : EntityRef} : ref ∈ (linkEach v (lookups.flatMap v.sightings) {}).entities ↔
      ∃ subject ∈ lookups, ref ∈ v.sightings subject := by
    rw [mem_entities_linkEach_iff, List.mem_flatMap]
    exact or_iff_right List.not_mem_nil
  have hcurrent : (linkEach v (lookups.flatMap v.sightings) {}).Current v :=
    linkEach_preserves (P := fun l => l.Current v) (fun _ ref h => h.link ref) _
      fun _ he => absurd he List.not_mem_nil
  refine
    { nodup := linkEach_preserves (P := fun l => l.entities.Nodup)
        (fun _ ref h => nodup_link h ref _) _ List.nodup_nil
      subject := fun ref href => ?_
      number := fun tag htag a b ha hb => ?_
      only := fun ref href => hmem.1 href
      current := fun e he => ?_
      absent := fun e he hnone => ?_ }
  · obtain ⟨more, hmore⟩ := v.sightings_eq_cons ref
    exact hmem.2 ⟨ref, href, hmore ▸ List.mem_cons_self⟩
  · refine hmem.2 ⟨_, ha, ?_⟩
    rcases htag with rfl | rfl <;> simp [View.sightings, View.addressPath, hb]
  · obtain ⟨subject, hsubject, hsight⟩ := hmem.1 (List.mem_map_of_mem he)
    rw [View.versionOf, View.read, hread subject hsubject e.1 hsight, hcurrent e he]
    rfl
  · rw [← hcurrent e he, View.marker_eq, hnone]
    rfl

/-- Reading for one lookup after another is asking for the markers of all that they go through. -/
theorem foldl_inspect {lookups : List EntityRef}
    (hread : ∀ ref ∈ lookups, ∀ s ∈ v.sightings ref, v.unreadable (View.tableOf s) = false)
    (l : LinkedRefs) :
    lookups.foldl (fun l ref => (v.inspect ref l).2) l =
      l.linkEach v (lookups.flatMap v.sightings) := by
  induction lookups generalizing l with
  | nil => rfl
  | cons ref lookups ih =>
    obtain ⟨href, hrest⟩ := List.forall_mem_cons.1 hread
    rw [List.foldl_cons, List.flatMap_cons, linkEach_append, View.inspect_eq_linkAll,
      Source.linkAll_of_readable l href]
    exact ih hrest _

end LinkedRefs

/-! ## A whole expansion -/

namespace Expansion

/-- An expansion that is not interrupted has gone through all its lookups, and could read all that they
went through. -/
theorem trail_of_execute? {x : Expansion} {s : Supply} {o : Outcome} (h : x.execute? s = some o) :
    o.linked = (x.run s).trail.linked ∧
      x.source.visitAll (x.lookups s.map) {} = (true, (x.run s).trail) ∧
      (∀ ref ∈ x.lookups s.map, ∀ seen ∈ x.source.view.sightings ref,
        x.source.view.unreadable (View.tableOf seen) = false) ∧
      (x.run s).trail =
        { linked := LinkedRefs.linkEach x.source.view
            ((x.lookups s.map).flatMap x.source.view.sightings) {}
          calls := (x.lookups s.map).map EntityRef.kind } := by
  obtain ⟨hdone, rfl⟩ := execute?_eq_some_iff.1 h
  have hvisits := (x.run_visits s).1
  rw [hdone] at hvisits
  refine ⟨Ran.linked_outcome _, hvisits, ?_⟩
  rcases x.source.visitAll_cases (x.lookups s.map) {} with
    ⟨hall, hrun⟩ | ⟨before, ref, after, read, -, -, -, hrun⟩
  · refine ⟨fun ref href => ?_, ?_⟩
    · obtain ⟨before, after, hsplit⟩ := List.append_of_mem href
      exact (hall before ref after hsplit).readable
    · simpa using (Prod.mk.inj (hvisits.symm.trans hrun)).2
  · cases (Prod.mk.inj (hvisits.symm.trans hrun)).1

/-- **An expansion records what it looks up, as the ledger has it.**  Take an expansion that is not
interrupted.  It goes through its lookups one after the other: those of the payer and of the
requirements it comes to, be it the one that fails.  What it links is what the reads of these lookups
find, taken down one by one; and these are the records of the lookups, without a gap, without a
repetition and with the markers that the ledger gives when it is asked for them.  So nothing is stale
as long as the ledger stays as it is. -/
theorem records_lookups {x : Expansion} {s : Supply} {o : Outcome} (h : x.execute? s = some o) :
    x.source.visitAll (x.lookups s.map) {} = (true, (x.run s).trail) ∧
      (x.run s).trail.calls = (x.lookups s.map).map EntityRef.kind ∧
      (∀ ref, ref ∈ x.lookups s.map ↔ x.LooksUp s.map ref) ∧
      o.linked = (x.lookups s.map).foldl (fun l ref => (x.source.view.inspect ref l).2) {} ∧
      o.linked.Records x.source.view (x.lookups s.map) ∧
      o.linked.firstStale x.source.view = .ok none := by
  obtain ⟨hlinked, hvisits, hread, htrail⟩ := trail_of_execute? h
  refine ⟨hvisits, ?_⟩
  rw [hlinked, htrail]
  have hrecords := LinkedRefs.records_linkEach hread
  exact ⟨rfl, fun _ => mem_lookups_iff, (LinkedRefs.foldl_inspect hread {}).symm, hrecords,
    LinkedRefs.firstStale_eq_none_iff.2 hrecords.current⟩

/-- A token is to be associated with an alias that is bound to a number without an account.  This lookup
fails; the alias and the number are both linked, the number with the absent marker. -/
theorem records_lookups_of_missing_account :
    let owner (pk : Bytes) (n : UInt64) : AccountRecord := { key := .ed25519 pk, version := ⟨n⟩ }
    let x : Expansion :=
      { source :=
          { view :=
              { account := fun id =>
                  if id = ⟨0, 0, 1001⟩ then some (owner (.replicate 32 7) 4) else none
                token := fun _ => none, topic := fun _ => none, file := fun _ => none
                schedule := fun _ => none
                binding := fun a => if a = ⟨[1]⟩ then some ⟨⟨0, 0, 1003⟩, ⟨5⟩⟩ else none } }
        body :=
          { payer := ⟨0, 0, 1001⟩, validStart := 0, nodeAccount := ⟨0, 0, 3⟩, memo := ""
            operation := .tokenAssociate (.byAlias ⟨[1]⟩) [] }
        make := .over [5] }
    let s : Supply := .ofMap [⟨.replicate 32 7, .ed25519, [9]⟩]
    ∃ o, x.execute? s = some o ∧ o.status ≠ .ok ∧
      o.linked.refs =
        [(.account (.byId ⟨0, 0, 1001⟩), ⟨4⟩), (.account (.byAlias ⟨[1]⟩), ⟨5⟩),
          (.account (.byId ⟨0, 0, 1003⟩), .absent)] ∧
      o.linked.firstStale x.source.view = .ok none := by
  intro owner x s
  have ho : x.execute? s = some (x.executeGuarded s) := rfl
  obtain ⟨-, -, -, -, -, hstale⟩ := records_lookups ho
  exact ⟨_, ho, by decide, by decide, hstale⟩

end Expansion

end Countersign
