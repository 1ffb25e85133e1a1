import Countersign.Assoc

/-!
# The span cache

Between the moment a transaction arrives and the moment it is handled, what was found out about it
waits in a cache.  A span is taken out at most once, nothing is ever dropped to make room, and what
has waited too long is purged.

## What is here

* `SpanCache κ α` — the spans by identity, the count of occupied places, the limits, and counts of
  what has happened.
* `SpanCache.insert`, `take`, `purge` — the operations.

A place is reserved before the cache looks whether the transaction is there already.  A full cache
therefore answers that it is full even to a transaction that is in it.

Counts and times are natural numbers.  A count in a word of 64 bits would start again from zero after
`2 ^ 64` events; that overflow is not modelled.
-/

set_option autoImplicit false

namespace Countersign

/-- A value that waits in the cache, and when it was put there. -/
structure Span (α : Type) where
  value : α
  cachedAt : Nat
deriving DecidableEq, Inhabited

/-- What came of an insertion. -/
inductive CacheInsert where
  | inserted
  | duplicate
  | atCapacity
deriving DecidableEq, Inhabited

/-- How many spans were put in, turned away, taken out, and purged.  The counts are
natural numbers, so none of them overflows. -/
structure SpanCacheStats where
  inserted : Nat := 0
  rejected : Nat := 0
  taken : Nat := 0
  expired : Nat := 0
deriving DecidableEq, Inhabited

/-- The spans that wait, by identity.  Times are in milliseconds.  Like the counts of events,
the count of occupied places has no largest value. -/
structure SpanCache (κ α : Type) where
  spans : Assoc κ (Span α)
  occupied : Nat
  capacity : Nat
  ttl : Nat
  stats : SpanCacheStats

namespace SpanCache

variable {κ α : Type} [DecidableEq κ]

/-- The empty cache with the given limits. -/
def new (capacity ttl : Nat) : SpanCache κ α where
  spans := .empty
  occupied := 0
  capacity := capacity
  ttl := ttl
  stats := {}

instance : Inhabited (SpanCache κ α) := ⟨new 0 0⟩

/-! ## Queries -/

def contains (c : SpanCache κ α) (k : κ) : Bool :=
  c.spans.contains k

omit [DecidableEq κ] in
/-- The number of spans. -/
def size (c : SpanCache κ α) : Nat :=
  c.spans.size

omit [DecidableEq κ] in
def isEmpty (c : SpanCache κ α) : Bool :=
  c.size == 0

/-- Whether a span has waited longer than allowed.  One from the future has not waited at all. -/
def isExpired (ttl now : Nat) (s : Span α) : Bool :=
  ttl < now - s.cachedAt

/-! ## Operations -/

/-- Puts a span in, unless the cache is full or has a span of that transaction. -/
def insert (c : SpanCache κ α) (k : κ) (s : Span α) : CacheInsert × SpanCache κ α :=
  if c.capacity ≤ c.occupied then
    (.atCapacity, { c with stats.rejected := c.stats.rejected + 1 })
  else if c.contains k then (.duplicate, c)
  else
    (.inserted,
      { c with
        spans := c.spans.insert k s
        occupied := c.occupied + 1
        stats.inserted := c.stats.inserted + 1 })

/-- Takes the span of a transaction out. -/
def take (c : SpanCache κ α) (k : κ) : Option (Span α) × SpanCache κ α :=
  match c.spans.find? k with
  | none => (none, c)
  | some s =>
    (some s,
      { c with
        spans := c.spans.erase k
        occupied := c.occupied - 1
        stats.taken := c.stats.taken + 1 })

/-- Drops every span that has waited too long, and says how many those were. -/
def purge (c : SpanCache κ α) (now : Nat) : Nat × SpanCache κ α :=
  let kept := c.spans.keep fun _ s => !isExpired c.ttl now s
  let removed := c.spans.size - kept.size
  (removed,
    { c with
      spans := kept
      occupied := c.occupied - removed
      stats.expired := c.stats.expired + removed })

end SpanCache

end Countersign
