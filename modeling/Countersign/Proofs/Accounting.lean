import Countersign.Proofs.History

/-!
# The accounts of a service

What a service has counted is never read by the service itself, so nothing keeps the counts right but
the places where they are made, and those are scattered over the operations.  Some come before the
contents turn out to be malformed, or before the ledger turns out to be unreadable, and the count of
cached spans is brought up to date only where it may have changed.  All the same the books balance: at
every moment they account for each span, each call and each answer.

## What is here

* `Metrics.book` — the counts that are balanced; `Service.book_track`, `book_fetch`, `book_handle`,
  `book_purgeExpired` say what an operation writes there.
* `Activity` — how many transactions have arrived and been handled, and how many answers were given.
* `Service.Accounts` — the counts balance, given the activity; every operation keeps it so.
* `Node.accounts_run` — the counts of a node balance after any sequence of events.
-/

set_option autoImplicit false

namespace Countersign

/-! ## The book

The durations, the interruptions and the verdicts of the verifier are counted as well, but nothing has
to balance with them. -/

/-- The counts of the expansions and of the cache alone. -/
def Metrics.book (m : Metrics) : Metrics where
  expansions := m.expansions
  cacheEvents := m.cacheEvents
  cacheEntries := m.cacheEntries

namespace Service

/-- What the service has written in its book. -/
def book (s : Service) : Metrics :=
  s.metrics.book

@[simp] theorem book_noteVerified (s : Service) (r : Verified) :
    (s.noteVerified r).book = s.book := by
  have hinterruption : (s.metrics.countInterruptionIf r.outcome.interrupted).book = s.book := by
    rw [Metrics.countInterruptionIf]
    split <;> rfl
  have hfold (batch : List PlatformSignature) (m : Metrics) :
      (batch.foldl (fun m sig => m.countVerification sig.scheme sig.isValid) m).book = m.book := by
    induction batch generalizing m with
    | nil => rfl
    | cons sig batch ih => exact ih _
  rw [noteVerified]
  split
  · exact hinterruption
  · simp only [book]
    split
    · rw [hfold, hinterruption, book]
    · rw [hinterruption, book]

/-- An arrival is written down once the contents have turned out to be well-formed. -/
theorem book_track (s : Service) (v : View) (now : Nat) (contents : Bytes) :
    (s.track v now contents).2.book =
      match ParsedTransaction.ofContents contents with
      | .error _ => s.book
      | .ok t =>
        let r := s.cache.insert t.ref ⟨(t, s.expanded v t), now⟩
        ((s.book.countExpansion .expand (s.expanded v t).status).countCacheEvent
          (eventOf r.1)).setCacheEntries r.2.size := by
  rw [track]
  rcases ParsedTransaction.ofContents contents with e | t
  · rfl
  · have hcore := s.core_noteVerified ((s.setting v).expandAndVerify t (.ofMap t.signatures))
    have hbook := s.book_noteVerified ((s.setting v).expandAndVerify t (.ofMap t.signatures))
    obtain ⟨-, -, hcache⟩ : _ ∧ _ ∧ _ := by simpa only [core, Prod.mk.injEq] using hcore
    simp only [note, noteEntries, hcache]
    exact congrArg
      (fun m : Metrics => ((m.countExpansion _ _).countCacheEvent _).setCacheEntries _) hbook

/-- Whether a waiting span was there is written down before anything else. -/
theorem book_fetch (s : Service) (contents : Bytes) :
    (s.fetch contents).2.book =
      match s.cache.spans.find? (.ofContents contents) with
      | some _ =>
        (s.book.countCacheEvent .hit).setCacheEntries (s.cache.take (.ofContents contents)).2.size
      | none => s.book.countCacheEvent .miss := by
  rw [fetch, ← SpanCache.take_fst]
  rcases s.cache.take (.ofContents contents) with ⟨- | span, cache⟩
  · dsimp only
    rcases ParsedTransaction.ofContents contents with e | t <;> rfl
  · rfl

end Service

/-- Whether an earlier outcome was there that did not stand any more. -/
def SpanSource.isReexpanded : SpanSource → Bool
  | .reexpanded _ => true
  | _ => false

namespace Service

/-- An answer is written down with its status; nothing is for a call without an answer. -/
theorem book_handle (s : Service) (v : View) (contents : Bytes) :
    (s.handle v contents).2.book =
      match (s.handle v contents).1 with
      | .error _ => (s.fetch contents).2.book
      | .ok a =>
        let m := (s.fetch contents).2.book
        (if a.span.source.isReexpanded then m.countCacheEvent .stale else m).countExpansion
          .handle a.span.outcome.status := by
  rw [handle]
  rcases s.fetch contents with ⟨e | ⟨t, earlier⟩, s'⟩
  · rfl
  · dsimp only
    rcases rationalize _ t earlier _ with e | ⟨⟨outcome, sync, source⟩, supply, verified⟩
    · rfl
    · rcases verified with - | r
      · cases source <;> rfl
      · have hbook := book_noteVerified (s'.note fun m => m.countDuration .handle) r
        cases source with
        | reexpanded =>
          exact congrArg (fun m : Metrics => (m.countCacheEvent _).countExpansion _ _) hbook
        | reused | uncached => exact congrArg (fun m : Metrics => m.countExpansion _ _) hbook

theorem book_purgeExpired (s : Service) (now : Nat) :
    (s.purgeExpired now).2.book =
      if (s.cache.purge now).1 = 0 then s.book
      else
        (s.book.countCacheEvents .expired (s.cache.purge now).1).setCacheEntries
          (s.cache.purge now).2.size := by
  rw [purgeExpired]
  dsimp only
  split <;> rfl

end Service

/-! ## What has happened -/

/-- Whether contents arrive that are well-formed. -/
def Event.isArrival : Event → Bool
  | .track contents => (ParsedTransaction.ofContents contents).isOk
  | _ => false

def Event.isHandling : Event → Bool
  | .handle _ => true
  | _ => false

/-- Whether a transaction was handled and there was an answer. -/
def Reply.isAnswer : Reply → Bool
  | .handled (.ok _) => true
  | _ => false

/-- Whether there was an answer in place of an earlier outcome that did not stand any more. -/
def Reply.isReexpansion : Reply → Bool
  | .handled (.ok a) => a.span.source.isReexpanded
  | _ => false

/-- How many transactions have arrived, how often one was handled, how many of those calls had an
answer, and how many of the answers are in place of an earlier outcome. -/
structure Activity where
  arrivals : Nat := 0
  handlings : Nat := 0
  answers : Nat := 0
  reexpansions : Nat := 0

/-- The activity after one more event and the reply to it. -/
def Activity.after (a : Activity) (e : Event) (r : Reply) : Activity where
  arrivals := a.arrivals + e.isArrival.toNat
  handlings := a.handlings + e.isHandling.toNat
  answers := a.answers + r.isAnswer.toNat
  reexpansions := a.reexpansions + r.isReexpansion.toNat

/-! ## The balance -/

/-- The counts balance, given how many spans wait and what has happened. -/
structure Metrics.Accounts (m : Metrics) (waiting : Nat) (a : Activity) : Prop where
  entries : m.cacheEntries = waiting
  inserted :
    m.cacheEvents.get .inserted = m.cacheEvents.get .hit + m.cacheEvents.get .expired + waiting
  arrivals :
    m.cacheEvents.get .inserted + m.cacheEvents.get .duplicate + m.cacheEvents.get .rejected =
      a.arrivals
  expanded : (m.expansions.total fun label => label.1 = .expand) = a.arrivals
  handlings : m.cacheEvents.get .hit + m.cacheEvents.get .miss = a.handlings
  answers : (m.expansions.total fun label => label.1 = .handle) = a.answers
  reexpansions : m.cacheEvents.get .stale = a.reexpansions

namespace Metrics

variable {m : Metrics} {waiting : Nat} {a : Activity}

theorem accounts_book : m.book.Accounts waiting a ↔ m.Accounts waiting a :=
  ⟨fun ⟨h₁, h₂, h₃, h₄, h₅, h₆, h₇⟩ => ⟨h₁, h₂, h₃, h₄, h₅, h₆, h₇⟩,
    fun ⟨h₁, h₂, h₃, h₄, h₅, h₆, h₇⟩ => ⟨h₁, h₂, h₃, h₄, h₅, h₆, h₇⟩⟩

namespace Accounts

theorem countArrival (h : m.Accounts waiting a) (status : Status) (result : CacheInsert) :
    (((m.countExpansion .expand status).countCacheEvent (Service.eventOf result)).setCacheEntries
      (waiting + if result = .inserted then 1 else 0)).Accounts
        (waiting + if result = .inserted then 1 else 0) { a with arrivals := a.arrivals + 1 } := by
  cases h
  cases result <;> constructor <;>
    simp [countExpansion, countCacheEvent, countCacheEvents, setCacheEntries, Service.eventOf,
      Counter.increment] <;> omega

theorem countHit (h : m.Accounts (waiting + 1) a) :
    ((m.countCacheEvent .hit).setCacheEntries waiting).Accounts waiting
      { a with handlings := a.handlings + 1 } := by
  cases h
  constructor <;> simp [countCacheEvent, countCacheEvents, setCacheEntries] <;> omega

theorem countMiss (h : m.Accounts waiting a) :
    (m.countCacheEvent .miss).Accounts waiting { a with handlings := a.handlings + 1 } := by
  cases h
  constructor <;> simp [countCacheEvent, countCacheEvents] <;> omega

theorem countStale (h : m.Accounts waiting a) :
    (m.countCacheEvent .stale).Accounts waiting { a with reexpansions := a.reexpansions + 1 } := by
  cases h
  constructor <;> simp [countCacheEvent, countCacheEvents] <;> omega

theorem countAnswer (h : m.Accounts waiting a) (status : Status) :
    (m.countExpansion .handle status).Accounts waiting { a with answers := a.answers + 1 } := by
  cases h
  constructor <;> simp [countExpansion, Counter.increment] <;> omega

theorem countExpired {removed : Nat} (h : m.Accounts (removed + waiting) a) :
    ((m.countCacheEvents .expired removed).setCacheEntries waiting).Accounts waiting a := by
  cases h
  constructor <;> simp [countCacheEvents, setCacheEntries] <;> omega

end Accounts

end Metrics

/-- The counts of the service balance, given its activity. -/
def Service.Accounts (s : Service) (a : Activity) : Prop :=
  s.metrics.Accounts s.cachedSpans a

namespace Service

variable {s : Service} {a : Activity}

theorem accounts_iff : s.Accounts a ↔ s.book.Accounts s.cache.size a :=
  Metrics.accounts_book.symm

theorem accounts_new (config : ServiceConfig) (verifier : Verifier) :
    (new config verifier).Accounts {} :=
  ⟨rfl, rfl, rfl, rfl, rfl, rfl, rfl⟩

theorem Accounts.track (h : s.Accounts a) (v : View) (now : Nat) (contents : Bytes) :
    (s.track v now contents).2.Accounts
      { a with arrivals := a.arrivals + (Event.track contents).isArrival.toNat } := by
  have hcache : (s.track v now contents).2.cache = _ :=
    congrArg (·.2.2) (s.core_track v now contents)
  rw [accounts_iff] at h ⊢
  rw [hcache, book_track, Event.isArrival]
  rcases ParsedTransaction.ofContents contents with e | t
  · exact h
  · dsimp only
    rw [SpanCache.size_insert_snd]
    exact h.countArrival _ _

theorem Accounts.fetch (h : s.Accounts a) (contents : Bytes) :
    (s.fetch contents).2.Accounts { a with handlings := a.handlings + 1 } := by
  have hcache : (s.fetch contents).2.cache = _ := congrArg (·.2.2) (s.core_fetch contents)
  rw [accounts_iff] at h ⊢
  rw [hcache, book_fetch]
  rcases hspan : s.cache.spans.find? (.ofContents contents) with - | span
  · rw [SpanCache.take_snd_of_eq_none hspan]
    exact h.countMiss
  · rw [← SpanCache.size_take_snd hspan] at h
    exact h.countHit

theorem Accounts.handle (h : s.Accounts a) (v : View) (contents : Bytes) :
    (s.handle v contents).2.Accounts
      { a with
        handlings := a.handlings + 1
        answers := a.answers + (Reply.handled (s.handle v contents).1).isAnswer.toNat
        reexpansions :=
          a.reexpansions + (Reply.handled (s.handle v contents).1).isReexpansion.toNat } := by
  have hcache : (s.handle v contents).2.cache = (s.fetch contents).2.cache :=
    congrArg (·.2.2) ((s.core_handle v contents).trans (s.core_fetch contents).symm)
  have hfetch := accounts_iff.1 (h.fetch contents)
  rw [accounts_iff, hcache, book_handle]
  rcases (s.handle v contents).1 with e | answer
  · exact hfetch
  · rw [Reply.isReexpansion]
    dsimp only
    cases answer.span.source.isReexpanded with
    | false => exact hfetch.countAnswer _
    | true => exact hfetch.countStale.countAnswer _

theorem Accounts.purgeExpired (h : s.Accounts a) (now : Nat) :
    (s.purgeExpired now).2.Accounts a := by
  have hcache : (s.purgeExpired now).2.cache = _ := congrArg (·.2.2) (s.core_purgeExpired now)
  have hsum := s.cache.purge_fst_add_size now
  rw [accounts_iff] at h ⊢
  rw [hcache, book_purgeExpired]
  split
  · next hnone =>
    -- nothing was purged, so the count of cached spans is still right
    rw [hnone, Nat.zero_add] at hsum
    rwa [hsum]
  · rw [← hsum] at h
    exact h.countExpired

end Service

/-! ## The run of a node -/

namespace Node

/-- One event keeps the balance. -/
theorem accounts_step {n : Node} {a : Activity} (h : n.service.Accounts a) (e : Event) :
    (n.step e).2.service.Accounts (a.after e (n.step e).1) := by
  cases e with
  | mutate | setUnreadable | setClock => exact h
  | track contents => exact h.track n.view n.now contents
  | handle contents => exact h.handle n.view contents
  | purge => exact h.purgeExpired n.now

/-- The replies to a sequence of events. -/
def replies : Node → List Event → List Reply
  | _, [] => []
  | n, e :: events => (n.step e).1 :: (n.step e).2.replies events

/-- The activity of a node during a sequence of events. -/
def activity (n : Node) (events : List Event) : Activity where
  arrivals := events.countP Event.isArrival
  handlings := events.countP Event.isHandling
  answers := (n.replies events).countP Reply.isAnswer
  reexpansions := (n.replies events).countP Reply.isReexpansion

theorem replies_append (n : Node) (events more : List Event) :
    n.replies (events ++ more) = n.replies events ++ (n.run events).replies more := by
  induction events generalizing n with
  | nil => rfl
  | cons e events ih => exact congrArg _ (ih _)

theorem activity_concat (n : Node) (events : List Event) (e : Event) :
    n.activity (events ++ [e]) = (n.activity events).after e ((n.run events).step e).1 := by
  have countP_concat {α : Type} (p : α → Bool) (l : List α) (x : α) :
      (l ++ [x]).countP p = l.countP p + (p x).toNat := by
    rw [List.countP_append, List.countP_singleton]
    cases p x <;> rfl
  simp only [activity, Activity.after, replies_append, replies, countP_concat]

/-- **The counts of a node balance after any sequence of events**, whatever its ledger looks like and
whichever of its tables cannot be read. -/
theorem accounts_run (store : Store) (unreadable : List Table) (now : Nat)
    (config : ServiceConfig) (verifier : Verifier) (events : List Event) :
    let n : Node := { store, unreadable, now, service := .new config verifier }
    (n.run events).service.Accounts (n.activity events) := by
  intro n
  -- from the end, so that the activity grows by the event that is taken in
  induction events using List.reverseRecOn with
  | nil => exact Service.accounts_new config verifier
  | append_singleton past e ih =>
    rw [run_append, activity_concat]
    exact accounts_step ih e

end Node

end Countersign
