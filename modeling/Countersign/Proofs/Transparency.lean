import Countersign.Proofs.Footprint
import Countersign.Proofs.History
import Countersign.Proofs.Interruption
import Countersign.Proofs.Markers
import Countersign.Proofs.Provenance

/-!
# The cache cannot be noticed

A transaction is answered from what was found out about it when it arrived, if that still stands, and
from a new expansion otherwise.  Either way the answer is that of a service which has seen nothing of
it before: what was found out was not cut short, its markers still stand, equal markers tell equal
entries, and an expansion goes by nothing but the entries it has linked.

## What is here

* `Expansion.run_eq_of_not_stale` — an expansion on an earlier store that still stands is the
  expansion on the later one.
* `Node.expanded_eq_of_not_stale` — the same for two moments of one node.
* `Node.scratch` — the answer of an expansion from scratch.
* `Node.answer_eq_renewed` — the answer of a node and that of a new service, after any history.
-/

set_option autoImplicit false

namespace Countersign

/-! ## What still stands -/

/-- **An expansion that still stands comes out the same now.**  It was made on an earlier store and not
cut short, and all tables can be read now. -/
theorem Expansion.run_eq_of_not_stale {earlier later : Store} {count : Nat}
    (hfollows : later.Follows earlier) (hdated : earlier.Dated count)
    {unreadable now : Table → Bool} (hread : (later.view now).Readable) {x : Expansion}
    (hview : x.source.view = earlier.view unreadable) {s : Supply}
    (hdone : (x.run s).outcome.interrupted = false)
    (hstale : (x.run s).outcome.linked.firstStale (later.view now) = .ok none) :
    (x.cleared.on (later.view now)).run s = x.run s := by
  have hcleared := run_cleared hdone
  rw [Ran.linked_outcome, LinkedRefs.firstStale_eq_none_iff] at hstale
  have hagree : ∀ ref ∈ (x.run s).trail.linked.entities,
      x.cleared.source.view.denoted ref = (later.view now).denoted ref := by
    intro ref href
    obtain ⟨e, he, rfl⟩ := List.mem_map.1 href
    have hthen : earlier.marker e.1 = e.2 := by
      rw [← x.current_run s e he, hview, Store.marker_view]
    have hnow : later.marker e.1 = e.2 := by
      have h := hstale e he
      rw [hread.versionOf_eq, Store.marker_view] at h
      exact Except.ok.inj h
    have hentry := hfollows.entry_eq_of_marker_eq hdated (hnow.trans hthen.symm)
    have hclear : x.cleared.source.view.denoted e.1 = x.source.view.denoted e.1 :=
      View.denoted_cleared _ _
    rw [hclear, hview, Store.denoted_view, Store.denoted_view, hentry]
  rw [← hcleared] at hagree ⊢
  exact run_congr (funext hread) hagree

theorem LinkedRefs.exists_firstStale {v : View} (hread : v.Readable) (l : LinkedRefs) :
    ∃ r, l.firstStale v = .ok r := by
  rw [firstStale]
  induction l.refs with
  | nil => exact ⟨none, rfl⟩
  | cons e es ih =>
    obtain ⟨ref, seen⟩ := e
    rw [firstStaleIn, hread.versionOf_eq]
    dsimp only
    split
    · exact ⟨_, rfl⟩
    · exact ih

/-- As long as the ledger can be read there is an answer. -/
theorem Service.exists_answer {v : View} (hread : v.Readable) (s : Service) (t : ParsedTransaction)
    (earlier : Option Outcome) : ∃ a, s.answer v t earlier = .ok a := by
  have hsource : ∃ source, spanSource v earlier = .ok source := by
    rcases earlier with - | o
    · exact ⟨_, rfl⟩
    · obtain ⟨r, hr⟩ := o.linked.exists_firstStale hread
      rw [spanSource, hr]
      split
      · exact ⟨_, rfl⟩
      · exact ⟨_, rfl⟩
  obtain ⟨source, hsource⟩ := hsource
  rw [answer]
  by_cases hreused : source = .reused
  · subst hreused
    obtain ⟨o, rfl, -⟩ := spanSource_eq_reused_iff.1 hsource
    rw [rationalize_of_reused (g := s.setting v) hsource]
    exact ⟨_, rfl⟩
  · rw [rationalize_of_ne (g := s.setting v) hsource hreused]
    exact ⟨_, rfl⟩

/-- What an answer says of the transaction: what it is and what its expansion has come to. -/
def Handled.result (a : Handled) : ParsedTransaction × Outcome :=
  (a.transaction, a.span.outcome)

namespace Node

/-- The outcome of an expansion at an earlier moment is that of an expansion now, as long as nothing it
has linked is stale. -/
theorem expanded_eq_of_not_stale {past now : Node} {count : Nat}
    (hconfig : now.service.config = past.service.config)
    (hverifier : now.service.verifier = past.service.verifier)
    (hfollows : now.store.Follows past.store) (hdated : past.store.Dated count)
    (hread : now.view.Readable) {t : ParsedTransaction}
    (hdone : (past.expanded t).interrupted = false)
    (hstale : (past.expanded t).linked.firstStale now.view = .ok none) :
    past.expanded t = now.expanded t := by
  have hrun := Expansion.run_eq_of_not_stale hfollows hdated hread
    (x := { source := { view := past.view }, body := t.body, make := .over t.bodyBytes
            sweep := past.service.config.sweep }) rfl hdone hstale
  have hsetting := Service.setting_congr hconfig hverifier
  rw [expanded, expanded, Service.expanded, Service.expanded, hsetting]
  exact congrArg (fun r => r.outcome.mapSignatures past.service.verifier.verify) hrun.symm

/-! ## Answers from scratch -/

/-- The answer of an expansion from scratch. -/
def scratch (n : Node) (contents : Bytes) : Except HandleError (ParsedTransaction × Outcome) :=
  match ParsedTransaction.ofContents contents with
  | .error e => .error (.malformed e)
  | .ok t => .ok (t, n.expanded t)

/-- Without a span that waits the answer is that of an expansion from scratch. -/
theorem answer_of_none {n : Node} (hread : n.view.Readable) {contents : Bytes}
    (h : n.service.cache.spans.find? (.ofContents contents) = none) :
    (n.answer contents).map Handled.result = n.scratch contents := by
  rw [answer_eq, h, scratch]
  dsimp only
  rcases ParsedTransaction.ofContents contents with e | t
  · rfl
  · obtain ⟨a, ha⟩ := n.service.exists_answer hread t none
    obtain ⟨ht, ⟨o, ho, -⟩ | hout⟩ := Service.answer_eq_ok ha
    · simp at ho
    · dsimp only
      rw [ha, Except.map, Handled.result, ht, hout]
      rfl

/-- Nor does a span make a difference that holds the outcome of an expansion from scratch, or one that
does not stand any more. -/
theorem answer_of_some {n : Node} (hread : n.view.Readable) {contents : Bytes}
    {span : Span (ParsedTransaction × Outcome)}
    (h : n.service.cache.spans.find? (.ofContents contents) = some span)
    (hparse : ParsedTransaction.ofContents contents = .ok span.value.1)
    (hstands : span.value.2.interrupted = false → span.value.2.linked.firstStale n.view = .ok none →
      span.value.2 = n.expanded span.value.1) :
    (n.answer contents).map Handled.result = n.scratch contents := by
  rw [answer_eq, h, scratch, hparse]
  obtain ⟨a, ha⟩ := n.service.exists_answer hread span.value.1 (some span.value.2)
  dsimp only
  rw [ha, Except.map, Handled.result]
  obtain ⟨ht, ⟨o, ho, hdone, hstale, hout⟩ | hout⟩ := Service.answer_eq_ok ha
  · obtain rfl := Option.some.inj ho
    rw [ht, hout, hstands hdone hstale]
  · rw [ht, hout]
    rfl

theorem scratch_ne_interrupted (n : Node) (contents : Bytes) (e : ReadError) :
    n.scratch contents ≠ .error (.interrupted e) := by
  rw [scratch]
  split <;> simp

/-! ## Any history -/

/-- The ledger of a node hands out no more markers than there are changes. -/
theorem dated_run (config : ServiceConfig) (verifier : Verifier) {events : List Event}
    (hcount : (events.filterMap Event.mutation?).length < UInt64.size) :
    ((new config verifier).run events).store.Dated (events.filterMap Event.mutation?).length := by
  rw [store_run, ← Nat.zero_add (events.filterMap _).length]
  exact Store.dated_fresh.run (by omega)

/-- The ledger of a node follows what it was at any earlier moment. -/
theorem follows_run (config : ServiceConfig) (verifier : Verifier) {past rest : List Event}
    (hcount : ((past ++ rest).filterMap Event.mutation?).length < UInt64.size) :
    ((new config verifier).run (past ++ rest)).store.Follows
      ((new config verifier).run past).store := by
  rw [List.filterMap_append, List.length_append] at hcount
  rw [run_append, store_run ((new config verifier).run past)]
  exact (Store.follows_refl _).run (dated_run config verifier (by omega)) hcount

/-- The same node with a service that has just been created. -/
def renewed (n : Node) : Node :=
  { n with service := .new n.service.config n.service.verifier }

theorem scratch_renewed (n : Node) (contents : Bytes) :
    n.renewed.scratch contents = n.scratch contents := rfl

/-- **The cache cannot be noticed.**  Whatever has happened to a node, in any order, with tables that
could not be read in the meantime or not: when all tables can be read, a transaction is answered as a
service would answer that has just been created on the same ledger, and the answer is not that the
ledger could not be read.  Markers must not have run out, and no other transaction that has arrived
may have the same digest. -/
theorem answer_eq_renewed {config : ServiceConfig} {verifier : Verifier} {events : List Event}
    {contents : Bytes} (hcount : (events.filterMap Event.mutation?).length < UInt64.size - 1)
    (hdigest : ∀ c, .track c ∈ events → TxnRef.ofContents c = .ofContents contents → c = contents)
    (hread : ((new config verifier).run events).view.Readable) :
    (((new config verifier).run events).answer contents).map Handled.result =
        (((new config verifier).run events).renewed.answer contents).map Handled.result ∧
      ∀ e, ((new config verifier).run events).answer contents ≠ .error (.interrupted e) := by
  have hscratch : (((new config verifier).run events).answer contents).map Handled.result =
      ((new config verifier).run events).scratch contents := by
    rcases hwait : ((new config verifier).run events).service.cache.spans.find?
      (.ofContents contents) with - | span
    · exact answer_of_none hread hwait
    · rcases exists_track_of_find? hwait with hnew | ⟨past, c, rest, t, hev, hk, hc, hvalue⟩
      · simp [new, Service.new, SpanCache.new] at hnew
      · obtain rfl : c = contents := hdigest c (by rw [hev]; simp) hk.symm
        refine answer_of_some hread hwait (by rw [hvalue, hc]) ?_
        rw [hvalue]
        intro hdone hstale
        obtain ⟨hconfig, hverifier⟩ := core_run (new config verifier) past
        obtain ⟨hconfig', hverifier'⟩ := core_run (new config verifier) events
        have hpast : (past.filterMap Event.mutation?).length < UInt64.size := by
          rw [hev, List.filterMap_append, List.length_append] at hcount
          omega
        have hfollows : ((new config verifier).run events).store.Follows
            ((new config verifier).run past).store := by
          rw [hev] at hcount ⊢
          exact follows_run config verifier (by omega)
        exact expanded_eq_of_not_stale (hconfig'.trans hconfig.symm)
          (hverifier'.trans hverifier.symm) hfollows (dated_run config verifier hpast) hread
          hdone hstale
  have hrenewed : (((new config verifier).run events).renewed.answer contents).map
      Handled.result = ((new config verifier).run events).scratch contents := by
    rw [← scratch_renewed]
    exact answer_of_none (n := ((new config verifier).run events).renewed) hread rfl
  refine ⟨hscratch.trans hrenewed.symm, fun e he => ?_⟩
  rw [he] at hscratch
  exact scratch_ne_interrupted _ contents e hscratch.symm

open Specimen in
/-- The specimen arrives, then another account changes while one of the tables cannot be read, and
the specimen is handled in the end. -/
theorem answer_eq_renewed_specimen :
    let history : List Event :=
      events ++ [.track contents, .setUnreadable [.tokens], .setClock 5,
        .mutate (.putAccount ⟨0, 0, 2002⟩ { key := .ed25519 [9] }), .purge, .setUnreadable []]
    let n : Node := (new {} verifier).run history
    (∀ c, .track c ∈ history → TxnRef.ofContents c = .ofContents contents → c = contents) ∧
      n.view.Readable ∧
      (n.answer contents).map Handled.result = (n.renewed.answer contents).map Handled.result := by
  intro history n
  have hdigest : ∀ c, .track c ∈ history → TxnRef.ofContents c = .ofContents contents →
      c = contents := by
    intro c hc _
    simpa [history, events] using hc
  have hread : n.view.Readable := fun _ => rfl
  exact ⟨hdigest, hread, (answer_eq_renewed (by decide) hdigest hread).1⟩

end Node

end Countersign
