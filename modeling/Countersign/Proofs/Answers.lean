import Countersign.Proofs.Waiting
import Countersign.Service.Basic

/-!
# What the service does with its cache, and what it answers

Of all that an operation of the service does, later operations depend on the cache alone: the
configuration and the verifier stay, and the counts are never read.

## What is here

* `spanSource_eq_reused_iff`, `rationalize_of_reused`, `rationalize_of_ne` — when an earlier outcome
  is used again, and what is done otherwise.
* `Service.core` — all of the service but its counts; `Service.core_track`, `core_handle`,
  `core_purgeExpired` say what becomes of it.
* `Service.handle_fst` — the answer to a handled transaction, as a function of the span that waits.
* `Service.expanded` — the outcome of an expansion from scratch.
-/

set_option autoImplicit false

namespace Countersign

/-! ## Rationalization -/

section rationalize

variable {v : View} {g : Setting} {t : ParsedTransaction} {earlier : Option Outcome} {s : Supply}

/-- An earlier outcome is used again when it is not that of an interruption and nothing it has linked
is stale. -/
theorem spanSource_eq_reused_iff :
    spanSource v earlier = .ok .reused ↔
      ∃ o, earlier = some o ∧ o.interrupted = false ∧ o.linked.firstStale v = .ok none := by
  rcases earlier with - | o
  · simp [spanSource]
  · rw [spanSource]
    cases hint : o.interrupted with
    | true => simp [hint]
    | false =>
      rcases hstale : o.linked.firstStale v with e | - | ref <;> simp [Except.map, hint, hstale]

theorem rationalize_of_error {e : ReadError} (h : spanSource g.source.view earlier = .error e) :
    rationalize g t earlier s = .error e := by
  simp only [rationalize, h]

theorem rationalize_of_reused {o : Outcome}
    (h : spanSource g.source.view (some o) = .ok .reused) :
    rationalize g t (some o) s =
      .ok
        { span := { outcome := o, usedSyncVerification := false, source := .reused }
          supply := s
          verified := none } := by
  simp only [rationalize, h]

theorem rationalize_of_ne {source : SpanSource}
    (h : spanSource g.source.view earlier = .ok source) (hne : source ≠ .reused) :
    rationalize g t earlier s =
      .ok
        { span :=
            { outcome := (g.expandAndVerify t s.reset).outcome, usedSyncVerification := true
              source }
          supply := (g.expandAndVerify t s.reset).supply
          verified := some (g.expandAndVerify t s.reset) } := by
  cases source with
  | reused => exact absurd rfl hne
  | reexpanded | uncached => simp only [rationalize, h]

end rationalize

/-! ## The service -/

namespace Service

variable {s : Service} {v : View}

/-- What the service goes by: everything but its counts. -/
def core (s : Service) : ServiceConfig × Verifier × SpanCache TxnRef (ParsedTransaction × Outcome) :=
  (s.config, s.verifier, s.cache)

theorem setting_congr {s' : Service} (hconfig : s.config = s'.config)
    (hverifier : s.verifier = s'.verifier) : s.setting = s'.setting := by
  funext v
  rw [setting, setting, hconfig, hverifier]

@[simp] theorem core_note (s : Service) (f : Metrics → Metrics) : (s.note f).core = s.core := rfl

@[simp] theorem core_noteVerified (s : Service) (r : Verified) :
    (s.noteVerified r).core = s.core := by
  rw [noteVerified]
  split <;> rfl

/-- The outcome of expanding a transaction from scratch. -/
def expanded (s : Service) (v : View) (t : ParsedTransaction) : Outcome :=
  ((s.setting v).expandAndVerify t (.ofMap t.signatures)).outcome

/-! ### Arrival -/

theorem core_track (s : Service) (v : View) (now : Nat) (contents : Bytes) :
    (s.track v now contents).2.core =
      (s.config, s.verifier,
        match ParsedTransaction.ofContents contents with
        | .error _ => s.cache
        | .ok t => (s.cache.insert t.ref ⟨(t, s.expanded v t), now⟩).2) := by
  rw [track]
  rcases ParsedTransaction.ofContents contents with e | t
  · rfl
  · have h := s.core_noteVerified ((s.setting v).expandAndVerify t (.ofMap t.signatures))
    simp only [core, Prod.mk.injEq] at h
    obtain ⟨hconfig, hverifier, hcache⟩ := h
    simp only [core, note, noteEntries, hconfig, hverifier, hcache]
    rfl

/-! ### Handling -/

theorem core_fetch (s : Service) (contents : Bytes) :
    (s.fetch contents).2.core =
      (s.config, s.verifier, (s.cache.take (.ofContents contents)).2) := by
  rw [fetch]
  split
  · next h => rw [h]; rfl
  · next h =>
    have hnone : s.cache.spans.find? (.ofContents contents) = none := by
      rw [← SpanCache.take_fst, h]
    rw [SpanCache.take_snd_of_eq_none hnone]
    split <;> rfl

/-- The transaction and its earlier outcome come from the span that waits, and if none does then the
contents are parsed. -/
theorem fetch_fst (s : Service) (contents : Bytes) :
    (s.fetch contents).1 =
      match s.cache.spans.find? (.ofContents contents) with
      | some span => .ok (span.value.1, some span.value.2)
      | none => (ParsedTransaction.ofContents contents).map (·, none) := by
  rw [fetch, ← SpanCache.take_fst]
  rcases s.cache.take (.ofContents contents) with ⟨- | span, cache⟩
  · dsimp only
    rcases ParsedTransaction.ofContents contents with e | t <;> rfl
  · rfl

/-- What is answered once the transaction and its earlier outcome are there. -/
def answer (s : Service) (v : View) (t : ParsedTransaction) (earlier : Option Outcome) :
    Except HandleError Handled :=
  match rationalize (s.setting v) t earlier (.ofMap t.signatures) with
  | .error e => .error (.interrupted e)
  | .ok r => .ok { transaction := t, span := r.span }

theorem handle_fst (s : Service) (v : View) (contents : Bytes) :
    (s.handle v contents).1 =
      match (s.fetch contents).1 with
      | .error e => .error (.malformed e)
      | .ok (t, earlier) => s.answer v t earlier := by
  have hcore := s.core_fetch contents
  rw [handle]
  rcases hf : s.fetch contents with ⟨e | ⟨t, earlier⟩, s'⟩
  · rfl
  · rw [hf] at hcore
    obtain ⟨hconfig, hverifier, -⟩ : _ ∧ _ ∧ _ := by simpa only [core, Prod.mk.injEq] using hcore
    have hset : (s'.note fun m => m.countDuration .handle).setting = s.setting :=
      setting_congr hconfig hverifier
    simp only [answer, hset]
    rcases rationalize (s.setting v) t earlier (.ofMap t.signatures) with e | r <;> rfl

/-- An answer is an earlier outcome that still stands, or that of an expansion from scratch. -/
theorem answer_eq_ok {t : ParsedTransaction} {earlier : Option Outcome} {a : Handled}
    (h : s.answer v t earlier = .ok a) :
    a.transaction = t ∧
      ((∃ o, earlier = some o ∧ o.interrupted = false ∧ o.linked.firstStale v = .ok none ∧
          a.span.outcome = o) ∨
        a.span.outcome = s.expanded v t) := by
  rw [answer] at h
  rcases hsource : spanSource v earlier with e | source
  · rw [rationalize_of_error (g := s.setting v) hsource] at h
    simp at h
  · by_cases hreused : source = .reused
    · subst hreused
      obtain ⟨o, rfl, hint, hstale⟩ := spanSource_eq_reused_iff.1 hsource
      rw [rationalize_of_reused (g := s.setting v) hsource] at h
      obtain rfl := Except.ok.inj h
      exact ⟨rfl, .inl ⟨o, rfl, hint, hstale, rfl⟩⟩
    · rw [rationalize_of_ne (g := s.setting v) hsource hreused, Supply.reset_eq,
        Supply.map_ofMap] at h
      obtain rfl := Except.ok.inj h
      exact ⟨rfl, .inr rfl⟩

theorem core_handle (s : Service) (v : View) (contents : Bytes) :
    (s.handle v contents).2.core =
      (s.config, s.verifier, (s.cache.take (.ofContents contents)).2) := by
  rw [← core_fetch, handle]
  rcases s.fetch contents with ⟨e | ⟨t, earlier⟩, s'⟩
  · rfl
  · dsimp only
    rcases rationalize _ t earlier _ with e | ⟨span, supply, verified⟩
    · rfl
    · dsimp only
      rw [core_note]
      split <;> split <;> simp

/-! ### Purging -/

theorem core_purgeExpired (s : Service) (now : Nat) :
    (s.purgeExpired now).2.core = (s.config, s.verifier, (s.cache.purge now).2) := by
  rw [purgeExpired]
  dsimp only
  split <;> rfl

end Service

end Countersign
