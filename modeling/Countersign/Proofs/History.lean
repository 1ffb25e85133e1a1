import Countersign.Proofs.Answers
import Countersign.Service.Node

/-!
# The history of a node

What a node answers depends on the spans that wait in its cache.  Each of them goes back to the
arrival of a transaction, and holds the outcome that an expansion from scratch had at that moment.

## What is here

* `Node.expanded` — the outcome of an expansion from scratch.
* `Node.answer` — the answer to a transaction that is handled, and `Node.answer_eq`, what it goes by.
* `Node.find?_step` — one event: a span that waits did so before, or it has just arrived.
* `Node.exists_track_of_find?` — a sequence of events.
* `Node.exists_past_of_handle` — every answer is the outcome of an expansion from scratch, at that
  moment or at the arrival.
-/

set_option autoImplicit false

namespace Countersign

theorem ParsedTransaction.ref_eq {contents : Bytes} {t : ParsedTransaction}
    (h : ParsedTransaction.ofContents contents = .ok t) : t.ref = .ofContents contents := by
  simp only [ofContents, bind, Except.bind, pure, Except.pure] at h
  split at h
  · simp at h
  · split at h
    · simp at h
    · rw [← Except.ok.inj h]

/-- The change of the ledger that an event is, if it is one. -/
def Event.mutation? : Event → Option Mutation
  | .mutate m => some m
  | _ => none

namespace Node

/-- The outcome of expanding a transaction from scratch. -/
def expanded (n : Node) (t : ParsedTransaction) : Outcome :=
  n.service.expanded n.view t

/-- The answer to a transaction that is handled. -/
def answer (n : Node) (contents : Bytes) : Except HandleError Handled :=
  (n.service.handle n.view contents).1

/-! ## One event -/

theorem step_handle_fst (n : Node) (contents : Bytes) :
    (n.step (.handle contents)).1 = .handled (n.answer contents) := rfl

/-- The answer goes by the span that waits, and if none does then by the contents. -/
theorem answer_eq (n : Node) (contents : Bytes) :
    n.answer contents =
      match n.service.cache.spans.find? (.ofContents contents) with
      | some span => n.service.answer n.view span.value.1 (some span.value.2)
      | none =>
        match ParsedTransaction.ofContents contents with
        | .error e => .error (.malformed e)
        | .ok t => n.service.answer n.view t none := by
  rw [answer, Service.handle_fst, Service.fetch_fst]
  rcases n.service.cache.spans.find? (.ofContents contents) with - | span
  · rcases ParsedTransaction.ofContents contents with e | t <;> rfl
  · rfl

theorem core_step (n : Node) (e : Event) :
    (n.step e).2.service.config = n.service.config ∧
      (n.step e).2.service.verifier = n.service.verifier := by
  have of_core {s : Service} {c : SpanCache TxnRef (ParsedTransaction × Outcome)}
      (h : s.core = (n.service.config, n.service.verifier, c)) :
      s.config = n.service.config ∧ s.verifier = n.service.verifier := by
    simp only [Service.core, Prod.mk.injEq] at h
    exact ⟨h.1, h.2.1⟩
  cases e with
  | mutate | setUnreadable | setClock => exact ⟨rfl, rfl⟩
  | track contents => exact of_core (n.service.core_track n.view n.now contents)
  | handle contents => exact of_core (n.service.core_handle n.view contents)
  | purge => exact of_core (n.service.core_purgeExpired n.now)

/-- A span that waits after an event did so before, or it has just arrived. -/
theorem find?_step {n : Node} {e : Event} {k : TxnRef} {span : Span (ParsedTransaction × Outcome)}
    (h : (n.step e).2.service.cache.spans.find? k = some span) :
    n.service.cache.spans.find? k = some span ∨
      ∃ c t, e = .track c ∧ k = .ofContents c ∧ ParsedTransaction.ofContents c = .ok t ∧
        span.value = (t, n.expanded t) := by
  have cache_of {s : Service} {x} (h : s.core = x) : s.cache = x.2.2 := congrArg (·.2.2) h
  cases e with
  | mutate | setUnreadable | setClock => exact .inl h
  | track c =>
    have hcache := cache_of (n.service.core_track n.view n.now c)
    change (n.service.track n.view n.now c).2.cache.spans.find? k = some span at h
    rw [hcache] at h
    rcases hc : ParsedTransaction.ofContents c with e | t <;> rw [hc] at h
    · exact .inl h
    · rcases SpanCache.find?_insert h with h | ⟨rfl, rfl⟩
      · exact .inl h
      · exact .inr ⟨c, t, rfl, ParsedTransaction.ref_eq hc, hc, rfl⟩
  | handle c =>
    have hcache := cache_of (n.service.core_handle n.view c)
    change (n.service.handle n.view c).2.cache.spans.find? k = some span at h
    rw [hcache, SpanCache.find?_take] at h
    split at h
    · simp at h
    · exact .inl h
  | purge =>
    have hcache := cache_of (n.service.core_purgeExpired n.now)
    change (n.service.purgeExpired n.now).2.cache.spans.find? k = some span at h
    rw [hcache, SpanCache.find?_purge] at h
    exact .inl (Option.eq_some_of_filter_eq_some h)

/-! ## A sequence of events -/

theorem run_append (n : Node) (events more : List Event) :
    n.run (events ++ more) = (n.run events).run more := by
  rw [run, run, run, List.foldl_append]

/-- The ledger goes through the changes among the events. -/
theorem store_run (n : Node) (events : List Event) :
    (n.run events).store = n.store.run (events.filterMap Event.mutation?) := by
  induction events generalizing n with
  | nil => rfl
  | cons e events ih =>
    cases e <;> exact ih _

theorem core_run (n : Node) (events : List Event) :
    (n.run events).service.config = n.service.config ∧
      (n.run events).service.verifier = n.service.verifier := by
  induction events generalizing n with
  | nil => exact ⟨rfl, rfl⟩
  | cons e events ih =>
    obtain ⟨hconfig, hverifier⟩ := ih (n.step e).2
    exact ⟨hconfig.trans (n.core_step e).1, hverifier.trans (n.core_step e).2⟩

/-- **A span that waits goes back to an arrival**, unless it has waited from the beginning.  It holds
the outcome of expanding the transaction at the moment when it arrived. -/
theorem exists_track_of_find? {n : Node} {events : List Event} {k : TxnRef}
    {span : Span (ParsedTransaction × Outcome)}
    (h : (n.run events).service.cache.spans.find? k = some span) :
    n.service.cache.spans.find? k = some span ∨
      ∃ past c rest t, events = past ++ .track c :: rest ∧ k = .ofContents c ∧
        ParsedTransaction.ofContents c = .ok t ∧ span.value = (t, (n.run past).expanded t) := by
  induction events generalizing n with
  | nil => exact .inl h
  | cons e events ih =>
    rcases ih (n := (n.step e).2) h with h | ⟨past, c, rest, t, rfl, hk, hc, hspan⟩
    · rcases find?_step h with h | ⟨c, t, rfl, hk, hc, hspan⟩
      · exact .inl h
      · exact .inr ⟨[], c, events, t, rfl, hk, hc, hspan⟩
    · exact .inr ⟨e :: past, c, rest, t, rfl, hk, hc, hspan⟩

/-- **Every answer goes back to a moment in the history of the node**: it is the outcome that an
expansion from scratch had at that moment, of a transaction with the identity asked for that is being
handled or has arrived. -/
theorem exists_past_of_handle {config : ServiceConfig} {verifier : Verifier}
    {events : List Event} {contents : Bytes} {a : Handled}
    (h : ((new config verifier).run events).answer contents = .ok a) :
    ∃ (past : List Event) (carried : Bytes), past <+: events ∧
      (carried = contents ∨
        .track carried ∈ events ∧ TxnRef.ofContents carried = .ofContents contents) ∧
      ParsedTransaction.ofContents carried = .ok a.transaction ∧
      a.span.outcome = ((new config verifier).run past).expanded a.transaction := by
  rw [answer_eq] at h
  split at h
  · next span hspan =>
    rcases exists_track_of_find? hspan with hnew | ⟨past, c, rest, t, hev, hk, hc, hvalue⟩
    · simp [new, Service.new, SpanCache.new] at hnew
    · have hmem : .track c ∈ events := by rw [hev]; simp
      rw [hvalue] at h
      obtain ⟨rfl, ⟨o, ho, -, -, hout⟩ | hout⟩ := Service.answer_eq_ok h
      · rw [← Option.some.inj ho] at hout
        exact ⟨past, c, hev ▸ List.prefix_append _ _, .inr ⟨hmem, hk.symm⟩, hc, hout⟩
      · exact ⟨events, c, List.prefix_rfl, .inr ⟨hmem, hk.symm⟩, hc, hout⟩
  · split at h
    · simp at h
    · next t hc =>
      obtain ⟨rfl, ⟨o, ho, -⟩ | hout⟩ := Service.answer_eq_ok h
      · simp at ho
      · exact ⟨events, contents, List.prefix_rfl, .inl rfl, hc, hout⟩

/-- Every answer is the outcome of an expansion from scratch by a node with the same configuration and
verifier. -/
theorem exists_expanded_of_handle {config : ServiceConfig} {verifier : Verifier}
    {events : List Event} {contents : Bytes} {a : Handled}
    (h : ((new config verifier).run events).answer contents = .ok a) :
    ∃ (n : Node) (carried : Bytes), n.service.config = config ∧ n.service.verifier = verifier ∧
      (carried = contents ∨
        .track carried ∈ events ∧ TxnRef.ofContents carried = .ofContents contents) ∧
      ParsedTransaction.ofContents carried = .ok a.transaction ∧
      a.span.outcome = n.expanded a.transaction := by
  obtain ⟨past, carried, -, hcarried, hparse, hout⟩ := exists_past_of_handle h
  obtain ⟨hconfig, hverifier⟩ := core_run (new config verifier) past
  exact ⟨_, carried, hconfig, hverifier, hcarried, hparse, hout⟩

end Node

end Countersign
