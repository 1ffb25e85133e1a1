import Countersign.Rationalization
import Countersign.SpanCache
import Countersign.Service.Config
import Countersign.Service.Metrics

/-!
# The signature expansion service

The service expands transactions when they arrive, keeps the outcomes in its cache, and
rationalizes them when they are handled.  A transaction that was not kept is expanded when it is
handled.

## What is here

* `Service` — the configuration, the verifier, the cache, the counts, and the sizes of the batches
  verified so far.
* `Service.track` — a transaction arrives.
* `Service.handle` — a transaction is handled.  The answer does not depend on whether it ever
  arrived, as long as the ledger can be read.
* `Service.purgeExpired` — drops what has waited too long.
-/

set_option autoImplicit false

namespace Countersign

/-- The service. -/
structure Service where
  config : ServiceConfig
  verifier : Verifier
  cache : SpanCache TxnRef (ParsedTransaction × Outcome)
  metrics : Metrics := {}
  batches : List Nat := []

/-- Why handling a transaction yields nothing: its contents are malformed, or the ledger could not be
read to find out whether an earlier expansion still stands. -/
inductive HandleError where
  | malformed (error : WireError)
  | interrupted (error : ReadError)
deriving DecidableEq, Inhabited

/-- What handling a transaction yields. -/
structure Handled where
  transaction : ParsedTransaction
  span : RationalizedSpan
deriving DecidableEq, Inhabited

namespace Service

/-- A service with an empty cache. -/
def new (config : ServiceConfig) (verifier : Verifier) : Service where
  config := config
  verifier := verifier
  cache := .new config.capacity config.ttl

instance : Inhabited Service := ⟨new {} (.ofStatus (fun _ => .unknown) false)⟩

/-- The number of spans that wait. -/
def cachedSpans (s : Service) : Nat :=
  s.cache.size

def isCached (s : Service) (ref : TxnRef) : Bool :=
  s.cache.contains ref

/-- What expansions go by while the ledger looks as in `v`. -/
def setting (s : Service) (v : View) : Setting where
  source := { view := v }
  verifier := s.verifier
  sweep := s.config.sweep

/-! ## Counting -/

/-- Counts a verified expansion: whether it was interrupted, its batch, and the verdicts of a verifier
that counts them. -/
def noteVerified (s : Service) (r : Verified) : Service :=
  let metrics := s.metrics.countInterruptionIf r.outcome.interrupted
  match r.batch with
  | none => { s with metrics }
  | some batch =>
    { s with
      batches := s.batches ++ [batch.length]
      metrics :=
        if s.verifier.counted then
          batch.foldl (fun m sig => m.countVerification sig.scheme sig.isValid) metrics
        else metrics }

/-- Applies a change to the counts. -/
def note (s : Service) (f : Metrics → Metrics) : Service :=
  { s with metrics := f s.metrics }

/-- Brings the count of cached spans up to date. -/
def noteEntries (s : Service) : Service :=
  s.note fun m => m.setCacheEntries s.cache.size

/-- The event that an insertion into the cache is counted as. -/
def eventOf : CacheInsert → CacheEvent
  | .inserted => .inserted
  | .duplicate => .duplicate
  | .atCapacity => .rejected

/-! ## Operations -/

/-- A transaction arrives at the time `now`. -/
def track (s : Service) (v : View) (now : Nat) (contents : Bytes) :
    Except WireError ParsedTransaction × Service :=
  match ParsedTransaction.ofContents contents with
  | .error e => (.error e, s)
  | .ok t =>
    let r := (s.setting v).expandAndVerify t (.ofMap t.signatures)
    let s := (s.noteVerified r).note fun m =>
      (m.countDuration .expand).countExpansion .expand r.outcome.status
    let (result, cache) := s.cache.insert t.ref { value := (t, r.outcome), cachedAt := now }
    let s := { s with cache }
    (.ok t, (s.note fun m => m.countCacheEvent (eventOf result)).noteEntries)

/-- Takes the span of some contents out of the cache, or else parses the contents. -/
def fetch (s : Service) (contents : Bytes) :
    Except WireError (ParsedTransaction × Option Outcome) × Service :=
  match s.cache.take (.ofContents contents) with
  | (some span, cache) =>
    let s := { s with cache }
    (.ok (span.value.1, some span.value.2), (s.note fun m => m.countCacheEvent .hit).noteEntries)
  | (none, _) =>
    let s := s.note fun m => m.countCacheEvent .miss
    match ParsedTransaction.ofContents contents with
    | .error e => (.error e, s)
    | .ok t => (.ok (t, none), s)

/-- A transaction is handled. -/
def handle (s : Service) (v : View) (contents : Bytes) : Except HandleError Handled × Service :=
  match s.fetch contents with
  | (.error e, s) => (.error (.malformed e), s)
  | (.ok (t, earlier), s) =>
    let s := s.note fun m => m.countDuration .handle
    match rationalize (s.setting v) t earlier (.ofMap t.signatures) with
    | .error e => (.error (.interrupted e), s)
    | .ok r =>
      let s := match r.verified with
        | none => s
        | some verified => s.noteVerified verified
      let s := match r.span.source with
        | .reexpanded _ => s.note fun m => m.countCacheEvent .stale
        | _ => s
      (.ok { transaction := t, span := r.span },
        s.note fun m => m.countExpansion .handle r.span.outcome.status)

/-- Drops what has waited too long at the time `now`, and says how many spans those were. -/
def purgeExpired (s : Service) (now : Nat) : Nat × Service :=
  let (removed, cache) := s.cache.purge now
  let s := { s with cache }
  (removed,
    if removed = 0 then s
    else (s.note fun m => m.countCacheEvents .expired removed).noteEntries)

end Service

end Countersign
