import Countersign.Proofs.Accounting
import Countersign.Proofs.Provenance

/-!
# What the answer to an insertion tells

An insertion reserves a place before it looks whether the transaction is there already.  So a cache
that is full gives the same answer to a transaction that it holds as to one that it does not.  A
rejection does not tell whether the transaction waits to be handled; it only leaves that as it was.

## What is here

* `SpanCache.insert_fst_eq_atCapacity_iff`, `SpanCache.insert_fst_eq_duplicate_iff` — when an insertion
  is turned away, and with which answer.
* `SpanCache.Tells` — the answer tells what the cache holds; `SpanCache.Balanced.tells_iff` says when.
* `Node.cache_step`, `Node.exists_cache_run` — the cache of a node goes through the operations of a
  cache.
* `Node.waits_or_purged` — a transaction that nothing happens to waits on, unless it is purged.
* `Service.source_of_answer` — what the source of an answer tells of the span that waited.
* `insertion_tells` — the answers of a cache, and what a rejection means for the transaction.
-/

set_option autoImplicit false

namespace Countersign

/-! ## The three answers -/

namespace SpanCache

variable {κ α : Type} [DecidableEq κ] {c : SpanCache κ α} {k : κ} {s : Span α}

theorem insert_fst_eq_atCapacity_iff :
    (c.insert k s).1 = .atCapacity ↔ c.capacity ≤ c.occupied := by
  rw [insert]
  split
  · next hfull => simp [hfull]
  · next hroom => split <;> simp [hroom]

theorem insert_fst_eq_duplicate_iff :
    (c.insert k s).1 = .duplicate ↔ c.contains k = true ∧ c.occupied < c.capacity := by
  rw [insert]
  split
  · next hfull => simp [Nat.not_lt.2 hfull]
  · next hroom =>
    have hlt : c.occupied < c.capacity := Nat.lt_of_not_le hroom
    split <;> next hk => simp [hk, hlt]

/-- The answers of a cache that keeps its counts: full or not, and if not then whether the transaction
is there. -/
theorem Balanced.insert_fst (h : c.Balanced) (k : κ) (s : Span α) :
    ((c.insert k s).1 = .atCapacity ↔ c.size = c.capacity) ∧
      ((c.insert k s).1 = .duplicate ↔ c.contains k = true ∧ c.size < c.capacity) ∧
      ((c.insert k s).1 = .inserted ↔ c.contains k = false ∧ c.size < c.capacity) := by
  have hle := h.size_le
  refine ⟨?_, ?_, ?_⟩
  · rw [insert_fst_eq_atCapacity_iff, h.occupied_eq]
    omega
  · rw [insert_fst_eq_duplicate_iff, h.occupied_eq]
  · rw [insert_fst_eq_inserted_iff, h.occupied_eq, contains, Assoc.contains,
      Option.isSome_eq_false_iff, Option.isNone_iff_eq_none]
    exact and_comm

/-- The answer to an insertion tells whether the transaction is there and, if it is not, whether there
is room for it. -/
structure Tells (c : SpanCache κ α) (k : κ) (s : Span α) : Prop where
  duplicate : (c.insert k s).1 = .duplicate ↔ c.contains k = true
  atCapacity : (c.insert k s).1 = .atCapacity ↔ c.contains k = false ∧ c.size = c.capacity
  inserted : (c.insert k s).1 = .inserted ↔ c.contains k = false ∧ c.size < c.capacity

/-- It does unless the transaction is in a cache that is full. -/
theorem Balanced.tells_iff (h : c.Balanced) (k : κ) (s : Span α) :
    c.Tells k s ↔ (c.contains k = true → c.size < c.capacity) := by
  obtain ⟨hfull, hduplicate, hinserted⟩ := h.insert_fst k s
  constructor
  · intro htells hk
    exact (hduplicate.1 (htells.duplicate.2 hk)).2
  · intro hroom
    refine ⟨hduplicate.trans (and_iff_left_of_imp hroom), hfull.trans ?_, hinserted⟩
    have hle := h.size_le
    cases hk : c.contains k with
    | false => simp
    | true =>
      have hlt := hroom hk
      simp only [Bool.true_eq_false, false_and, iff_false]
      omega

end SpanCache

/-! ## The cache of a node -/

/-- The event is the arrival of a transaction with this identity, or its handling. -/
def Event.Concerns (ref : TxnRef) : Event → Prop
  | .track contents => TxnRef.ofContents contents = ref
  | .handle contents => TxnRef.ofContents contents = ref
  | _ => False

namespace Node

variable {n : Node} {ref : TxnRef}

/-- The span that waits for a transaction to be handled. -/
def waiting? (n : Node) (ref : TxnRef) : Option (Span (ParsedTransaction × Outcome)) :=
  n.service.cache.spans.find? ref

/-- How many spans have been turned away. -/
def rejections (n : Node) : Nat :=
  n.service.metrics.cacheEvents.get .rejected

/-- What an event does to the cache. -/
def cacheCall? (n : Node) : Event → Option (SpanCache.Call TxnRef (ParsedTransaction × Outcome))
  | .track contents =>
    match ParsedTransaction.ofContents contents with
    | .error _ => none
    | .ok t => some (.insert t.ref ⟨(t, n.expanded t), n.now⟩)
  | .handle contents => some (.take (.ofContents contents))
  | .purge => some (.purge n.now)
  | _ => none

theorem cache_step (n : Node) (e : Event) :
    (n.step e).2.service.cache = n.service.cache.run (n.cacheCall? e).toList := by
  cases e with
  | mutate | setUnreadable | setClock => rfl
  | track contents =>
    refine (congrArg (·.2.2) (n.service.core_track n.view n.now contents)).trans ?_
    rw [cacheCall?]
    rcases ParsedTransaction.ofContents contents with e | t <;> rfl
  | handle contents => exact congrArg (·.2.2) (n.service.core_handle n.view contents)
  | purge => exact congrArg (·.2.2) (n.service.core_purgeExpired n.now)

/-- The cache of a node is one that the operations of a cache lead to. -/
theorem exists_cache_run (n : Node) (events : List Event) :
    ∃ calls, (n.run events).service.cache = n.service.cache.run calls := by
  induction events generalizing n with
  | nil => exact ⟨[], rfl⟩
  | cons e events ih =>
    obtain ⟨calls, hcalls⟩ := ih (n.step e).2
    refine ⟨(n.cacheCall? e).toList ++ calls, hcalls.trans ?_⟩
    rw [cache_step, SpanCache.run, SpanCache.run, SpanCache.run, List.foldl_append]

/-- The cache of a node keeps its counts, and the limits of the configuration. -/
theorem cache_run (config : ServiceConfig) (verifier : Verifier) (events : List Event) :
    ((new config verifier).run events).service.cache.Balanced ∧
      ((new config verifier).run events).service.cache.capacity = config.capacity ∧
      ((new config verifier).run events).service.cache.ttl = config.ttl := by
  obtain ⟨calls, hcalls⟩ := exists_cache_run (new config verifier) events
  rw [hcalls]
  exact ⟨(SpanCache.balanced_new config.capacity config.ttl).run calls,
    SpanCache.limits_run (.new config.capacity config.ttl) calls⟩

/-- What happens to other transactions leaves a span there, unless a purge finds that it has waited too
long. -/
theorem waiting?_step {e : Event} (he : ¬ e.Concerns ref) :
    (n.step e).2.waiting? ref =
      if e = .purge then
        (n.waiting? ref).filter fun s => !SpanCache.isExpired n.service.cache.ttl n.now s
      else n.waiting? ref := by
  rw [waiting?, cache_step]
  cases e with
  | mutate | setUnreadable | setClock => rfl
  | track contents =>
    rw [cacheCall?, if_neg nofun]
    rcases hparse : ParsedTransaction.ofContents contents with e | t
    · rfl
    · have hne : ref ≠ t.ref := fun h => he (h ▸ (ParsedTransaction.ref_eq hparse).symm)
      refine (SpanCache.find?_insert_eq _ _ _ _).trans (if_neg fun h => hne h.1)
  | handle contents =>
    rw [if_neg nofun]
    exact (SpanCache.find?_take _ _ _).trans (if_neg (Ne.symm he))
  | purge => exact SpanCache.find?_purge _ _ _

/-- **A transaction that nothing happens to waits on**, unless a purge finds that it has waited too
long. -/
theorem waits_or_purged {events : List Event} (h : ∀ e ∈ events, ¬ e.Concerns ref) :
    (n.run events).waiting? ref = n.waiting? ref ∨
      (n.run events).waiting? ref = none ∧
        ∃ past rest span, events = past ++ .purge :: rest ∧ n.waiting? ref = some span ∧
          SpanCache.isExpired n.service.cache.ttl (n.run past).now span = true := by
  induction events generalizing n with
  | nil => exact .inl rfl
  | cons e events ih =>
    obtain ⟨he, hevents⟩ := List.forall_mem_cons.1 h
    have hstep := waiting?_step (n := n) he
    have httl : (n.step e).2.service.cache.ttl = n.service.cache.ttl := by
      rw [cache_step]
      exact (SpanCache.limits_run _ _).2
    by_cases hsame : (n.step e).2.waiting? ref = n.waiting? ref
    · rcases ih (n := (n.step e).2) hevents with hrest | ⟨hgone, past, rest, span, rfl, hspan, hold⟩
      · exact .inl (hrest.trans hsame)
      · exact .inr ⟨hgone, e :: past, rest, span, rfl, hsame ▸ hspan, httl ▸ hold⟩
    · -- only a purge that removes the span makes a difference
      have hpurge : e = .purge := by
        by_contra hne
        exact hsame (by rw [hstep, if_neg hne])
      rw [hstep, if_pos hpurge] at hsame
      rcases hspan : n.waiting? ref with - | span
      · exact absurd (by rw [hspan]; rfl) hsame
      · have hold : SpanCache.isExpired n.service.cache.ttl n.now span = true := by
          rw [hspan, Option.filter_some] at hsame
          simpa using hsame
        have hnone : (n.step e).2.waiting? ref = none := by
          rw [hstep, if_pos hpurge, hspan, Option.filter_some, hold]
          rfl
        have hgone : (n.run (e :: events)).waiting? ref = none := by
          rcases ih (n := (n.step e).2) hevents with hrest | ⟨hgone, -⟩
          · exact hrest.trans hnone
          · exact hgone
        exact .inr ⟨hgone, [], events, span, hpurge ▸ rfl, rfl, hold⟩

theorem view_track (n : Node) (contents : Bytes) : (n.step (.track contents)).2.view = n.view := rfl

/-- A rejection is counted for each arrival at a full cache. -/
theorem rejections_track (n : Node) (contents : Bytes) :
    (n.step (.track contents)).2.rejections ≠ n.rejections ↔
      (∃ t, ParsedTransaction.ofContents contents = .ok t) ∧
        n.service.cache.capacity ≤ n.service.cache.occupied := by
  have hbook := n.service.book_track n.view n.now contents
  change (n.service.track n.view n.now contents).2.book.cacheEvents.get .rejected ≠
    n.service.book.cacheEvents.get .rejected ↔ _
  rw [hbook]
  rcases ParsedTransaction.ofContents contents with e | t
  · simp
  · rw [and_iff_right ⟨t, rfl⟩, ← SpanCache.insert_fst_eq_atCapacity_iff (k := t.ref)
      (s := ⟨(t, n.service.expanded n.view t), n.now⟩)]
    change (n.service.book.cacheEvents.add (Service.eventOf _) 1).get .rejected ≠ _ ↔ _
    rw [Counter.get_add]
    cases (n.service.cache.insert t.ref ⟨(t, n.service.expanded n.view t), n.now⟩).1 <;>
      simp [Service.eventOf]

end Node

/-! ## What the source of an answer tells -/

theorem spanSource_eq_uncached_iff {v : View} {earlier : Option Outcome} :
    spanSource v earlier = .ok .uncached ↔ earlier = none := by
  rcases earlier with - | o
  · exact iff_of_true rfl rfl
  · rw [spanSource]
    split
    · simp
    · rcases o.linked.firstStale v with e | - | ref <;> simp [Except.map]

theorem Service.source_of_answer {s : Service} {v : View} {t : ParsedTransaction}
    {earlier : Option Outcome} {a : Handled} (h : s.answer v t earlier = .ok a) :
    spanSource v earlier = .ok a.span.source := by
  rw [answer] at h
  rcases hsource : spanSource v earlier with e | source
  · rw [rationalize_of_error (g := s.setting v) hsource] at h
    cases h
  · by_cases hreused : source = .reused
    · subst hreused
      obtain ⟨o, rfl, -⟩ := spanSource_eq_reused_iff.1 hsource
      rw [rationalize_of_reused (g := s.setting v) hsource] at h
      rw [← Except.ok.inj h]
    · rw [rationalize_of_ne (g := s.setting v) hsource hreused] at h
      rw [← Except.ok.inj h]

namespace Node

variable {n : Node} {contents : Bytes}

/-- A transaction that does not wait is expanded when it is handled. -/
theorem answer_of_not_waiting {t : ParsedTransaction}
    (hparse : ParsedTransaction.ofContents contents = .ok t)
    (h : n.waiting? (.ofContents contents) = none) :
    ∃ a, n.answer contents = .ok a ∧ a.span.source = .uncached := by
  have hanswer : n.answer contents = n.service.answer n.view t none := by
    rw [answer_eq]
    rw [waiting?] at h
    rw [h, hparse]
  have hsource : spanSource (n.service.setting n.view).source.view none = .ok .uncached := rfl
  rw [hanswer, Service.answer, rationalize_of_ne hsource (by decide)]
  exact ⟨_, rfl, rfl⟩

/-- One that waits is answered by its span. -/
theorem answer_of_waiting {span : Span (ParsedTransaction × Outcome)}
    (h : n.waiting? (.ofContents contents) = some span) :
    n.answer contents = n.service.answer n.view span.value.1 (some span.value.2) := by
  rw [waiting?] at h
  rw [answer_eq, h]

/-- And then it is not expanded as if it had never arrived, whatever the ledger looks like by now. -/
theorem source_of_waiting {span : Span (ParsedTransaction × Outcome)} {a : Handled}
    (h : n.waiting? (.ofContents contents) = some span) (ha : n.answer contents = .ok a) :
    a.span.source ≠ .uncached := by
  intro hne
  rw [answer_of_waiting h] at ha
  have hsource := Service.source_of_answer ha
  rw [hne, spanSource_eq_uncached_iff] at hsource
  cases hsource

end Node

/-! ## A rejection -/

/-- A transaction that is turned away leaves the spans as they were. -/
theorem Node.waiting?_of_rejected {n : Node} {contents : Bytes}
    (h : (n.step (.track contents)).2.rejections ≠ n.rejections) (ref : TxnRef) :
    (n.step (.track contents)).2.waiting? ref = n.waiting? ref := by
  obtain ⟨⟨t, hparse⟩, hfull⟩ := (rejections_track n contents).1 h
  have hatCapacity := SpanCache.insert_fst_eq_atCapacity_iff (k := t.ref)
    (s := ⟨(t, n.expanded t), n.now⟩) |>.2 hfull
  rw [waiting?, cache_step, cacheCall?, hparse]
  refine (SpanCache.find?_insert_eq _ _ _ _).trans (if_neg fun hins => ?_)
  rw [hatCapacity] at hins
  cases hins.2

/-- **What the answer to an insertion tells.**  A cache that any operations have led to answers that it
is full exactly when it is, whether it holds the transaction or not, and tells whether it does only if
there is room.  So the answer is as one would expect, except for a transaction in a full cache.

A node that counts a rejection has a full cache, and leaves it as it was.  If the transaction did not
wait then it will be expanded when it is handled, whatever happens to others in between.  But it may
well have waited; then it waits on and is answered by its span, unless a purge has found by then that
it has waited too long. -/
theorem insertion_tells {κ α : Type} [DecidableEq κ] (capacity ttl : Nat)
    (calls : List (SpanCache.Call κ α)) (k : κ) (s : Span α) (config : ServiceConfig)
    (verifier : Verifier) (events : List Event) (contents : Bytes) :
    let c := (SpanCache.new capacity ttl : SpanCache κ α).run calls
    let n := (Node.new config verifier).run events
    let rejected := (n.step (.track contents)).2
    let ref := TxnRef.ofContents contents
    (((c.insert k s).1 = .atCapacity ↔ c.size = capacity) ∧
        ((c.insert k s).1 = .duplicate ↔ c.contains k = true ∧ c.size < capacity) ∧
        ((c.insert k s).1 = .inserted ↔ c.contains k = false ∧ c.size < capacity) ∧
        (c.Tells k s ↔ (c.contains k = true → c.size < capacity))) ∧
      (rejected.rejections ≠ n.rejections →
        n.service.cachedSpans = config.capacity ∧
        (∀ other, rejected.waiting? other = n.waiting? other) ∧
        ∀ between, (∀ e ∈ between, ¬ e.Concerns ref) →
          let later := rejected.run between
          (n.waiting? ref = none →
            ∃ a, later.answer contents = .ok a ∧ a.span.source = .uncached) ∧
          ∀ span, n.waiting? ref = some span →
            (later.waiting? ref = some span ∧
              ∀ a, later.answer contents = .ok a → a.span.source ≠ .uncached) ∨
            (∃ past rest, between = past ++ .purge :: rest ∧
                SpanCache.isExpired config.ttl (rejected.run past).now span = true) ∧
              ∃ a, later.answer contents = .ok a ∧ a.span.source = .uncached) := by
  intro c n rejected ref
  refine ⟨?_, fun hcount => ?_⟩
  · have hbalanced : c.Balanced := (SpanCache.balanced_new capacity ttl).run calls
    have hcapacity : c.capacity = capacity := (SpanCache.limits_run _ calls).1
    obtain ⟨hfull, hduplicate, hinserted⟩ := hbalanced.insert_fst k s
    rw [← hcapacity]
    exact ⟨hfull, hduplicate, hinserted, hbalanced.tells_iff k s⟩
  · obtain ⟨⟨t, hparse⟩, hfull⟩ := (Node.rejections_track n contents).1 hcount
    have hwaiting (other : TxnRef) : rejected.waiting? other = n.waiting? other :=
      Node.waiting?_of_rejected hcount other
    obtain ⟨hbalanced, hcapacity, -⟩ : n.service.cache.Balanced ∧
        n.service.cache.capacity = config.capacity ∧ _ := Node.cache_run config verifier events
    have httl : rejected.service.cache.ttl = config.ttl := by
      obtain ⟨-, -, httl⟩ := Node.cache_run config verifier (events ++ [.track contents])
      rwa [Node.run_append] at httl
    refine ⟨?_, hwaiting, fun between hothers => ⟨fun hnone => ?_, fun span hspan => ?_⟩⟩
    · have hle := hbalanced.size_le
      rw [hbalanced.occupied_eq] at hfull
      exact (Nat.le_antisymm hle hfull).trans hcapacity
    · refine Node.answer_of_not_waiting hparse ?_
      rcases Node.waits_or_purged hothers with hsame | ⟨hgone, -⟩
      · rw [hsame, hwaiting, hnone]
      · exact hgone
    · rcases Node.waits_or_purged hothers with
        hsame | ⟨hgone, past, rest, span', hsplit, hspan', hold⟩
      · have hlater := hsame.trans ((hwaiting ref).trans hspan)
        exact .inl ⟨hlater, fun a ha => Node.source_of_waiting hlater ha⟩
      · rw [hwaiting, hspan] at hspan'
        obtain rfl := Option.some.inj hspan'
        exact .inr ⟨⟨past, rest, hsplit, httl ▸ hold⟩, Node.answer_of_not_waiting hparse hgone⟩

/-! ## A crowded cache -/

namespace Specimen

/-- The cache has one place. -/
def crowded : ServiceConfig where
  capacity := 1

/-- The specimen takes it. -/
def arrival : List Event := events ++ [.track contents]

theorem waiting?_arrival :
    ((Node.new crowded verifier).run arrival).waiting? (.ofContents contents) =
      some ⟨(transaction, ((Node.new crowded verifier).run events).expanded transaction), 0⟩ := by
  rw [arrival, Node.run_append]
  change (Node.step _ _).2.waiting? _ = _
  rw [Node.waiting?, Node.cache_step, Node.cacheCall?, ofContents_contents]
  refine (SpanCache.find?_insert_eq _ _ _ _).trans (if_pos ⟨rfl, ?_⟩)
  exact SpanCache.insert_fst_eq_inserted_iff.2 ⟨by decide, rfl⟩

/-- There is no place for it when it arrives once more. -/
theorem rejections_arrival :
    (((Node.new crowded verifier).run arrival).step (.track contents)).2.rejections ≠
      ((Node.new crowded verifier).run arrival).rejections := by
  refine (Node.rejections_track _ contents).2 ⟨⟨transaction, ofContents_contents⟩, ?_⟩
  obtain ⟨hbalanced, hcapacity, -⟩ := Node.cache_run crowded verifier arrival
  have hsize := SpanCache.size_take_snd waiting?_arrival
  have hone : crowded.capacity = 1 := rfl
  rw [hcapacity, hbalanced.occupied_eq, hone]
  omega

/-- But it waits already, and what waits is used again. -/
theorem answer_arrival :
    ∃ a, (((Node.new crowded verifier).run arrival).step (.track contents)).2.answer contents =
      .ok a ∧ a.span.source = .reused := by
  have hwaiting := (Node.waiting?_of_rejected rejections_arrival (.ofContents contents)).trans
    waiting?_arrival
  have hstands : spanSource ((Node.new crowded verifier).run events).view
      (some (((Node.new crowded verifier).run events).expanded transaction)) = .ok .reused := rfl
  have hview : (((Node.new crowded verifier).run arrival).step (.track contents)).2.view =
      ((Node.new crowded verifier).run events).view := by
    rw [Node.view_track, arrival, Node.run_append]
    exact Node.view_track _ contents
  rw [← hview] at hstands
  rw [Node.answer_of_waiting hwaiting, Service.answer, rationalize_of_reused hstands]
  exact ⟨_, rfl, rfl⟩

end Specimen

open Specimen in
/-- The specimen arrives twice at a cache with one place, and is handled a while later. -/
theorem insertion_tells_of_crowded :
    let n := (Node.new crowded verifier).run arrival
    let rejected := (n.step (.track contents)).2
    let c := (SpanCache.new 1 1000 : SpanCache Nat Nat).run [.insert 0 ⟨0, 0⟩]
    ¬ c.Tells 0 ⟨0, 1⟩ ∧ rejected.rejections ≠ n.rejections ∧ n.service.cachedSpans = 1 ∧
      ∃ span, n.waiting? (.ofContents contents) = some span ∧
        (rejected.run [.setClock 9]).waiting? (.ofContents contents) = some span := by
  intro n rejected c
  have hcount : rejected.rejections ≠ n.rejections := rejections_arrival
  obtain ⟨⟨-, -, -, htells⟩, hrejected⟩ := insertion_tells 1 1000
    ([.insert 0 ⟨0, 0⟩] : List (SpanCache.Call Nat Nat)) 0 ⟨0, 1⟩ crowded verifier arrival contents
  obtain ⟨hsize, -, hlater⟩ := hrejected hcount
  have hother : ∀ e ∈ [Event.setClock 9], ¬ e.Concerns (.ofContents contents) := by
    simp [Event.Concerns]
  refine ⟨fun h => absurd (htells.1 h) (by decide), hcount, hsize, _, waiting?_arrival, ?_⟩
  rcases (hlater [.setClock 9] hother).2 _ waiting?_arrival with
    ⟨hspan, -⟩ | ⟨⟨past, rest, hsplit, -⟩, -⟩
  · exact hspan
  · -- there is no purge among the events
    have hpurge : Event.purge ∈ [Event.setClock 9] := by rw [hsplit]; simp
    simp at hpurge

open Specimen in
/-- The answer does not always tell what the cache holds, and a transaction that is turned away may well
wait and be answered by its span. -/
theorem not_forall_tells_of_insert :
    (¬ ∀ (capacity ttl : Nat) (calls : List (SpanCache.Call Nat Nat)) (k : Nat) (s : Span Nat),
        ((SpanCache.new capacity ttl : SpanCache Nat Nat).run calls).Tells k s) ∧
      ¬ ∀ (config : ServiceConfig) (verifier : Verifier) (events : List Event) (contents : Bytes),
        let n := (Node.new config verifier).run events
        let tracked := (n.step (.track contents)).2
        tracked.rejections ≠ n.rejections →
          tracked.waiting? (.ofContents contents) = none ∧
            ∀ a, tracked.answer contents = .ok a → a.span.source = .uncached := by
  refine ⟨fun h => ?_, fun h => ?_⟩
  · have hduplicate := (h 1 1000 [.insert 0 ⟨0, 0⟩] 0 ⟨0, 1⟩).duplicate.2 (by decide)
    revert hduplicate
    decide
  · obtain ⟨-, huncached⟩ := h crowded verifier arrival contents rejections_arrival
    obtain ⟨a, ha, hreused⟩ := answer_arrival
    have hsource := huncached a ha
    rw [hreused] at hsource
    cases hsource

end Countersign
