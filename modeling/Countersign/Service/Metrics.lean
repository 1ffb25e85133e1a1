import Countersign.Assoc
import Countersign.Key
import Countersign.Status

/-!
# Metrics

The service counts what it does.  The counts are exposed as text, one family after the other in
order of name, each with a line of help and a line for its type; within a family the series are in
order of their label values, and only series that have been counted appear.

Counts are natural numbers.  A count in a word of 64 bits would start again from zero after `2 ^ 64`
events, and one kept as a floating-point number is rounded above `2 ^ 53`; neither the overflow nor
the rounding is modelled.

## What is here

* `Counter` — a count for each label.  `Counter.total` sums the counts of some of the labels.
* `Counter.get_add`, `Counter.total_add` — what counting for one label does to a count and a total.
* `Metrics` — the counts of the service.
* `Metrics.lines` — the exposed text.  Of the durations of expansions only the number is kept.
-/

set_option autoImplicit false

namespace Countersign

/-! ## Counters -/

/-- A count for each label that has been counted.  The counts are natural numbers, so none of them
overflows or is rounded. -/
structure Counter (L : Type) where
  counts : Assoc L Nat := .empty

namespace Counter

variable {L : Type} [DecidableEq L]

instance : Inhabited (Counter L) := ⟨{}⟩

def get (c : Counter L) (label : L) : Nat :=
  (c.counts.find? label).getD 0

/-- Counts `n` more for a label. -/
def add (c : Counter L) (label : L) (n : Nat) : Counter L where
  counts := c.counts.insert label (c.get label + n)

def increment (c : Counter L) (label : L) : Counter L :=
  c.add label 1

omit [DecidableEq L] in
/-- The sum of the counts of the labels that `p` accepts. -/
def total (c : Counter L) (p : L → Bool) : Nat :=
  (c.counts.entries.filter fun e => p e.1).foldr (fun e n => e.2 + n) 0

@[simp] theorem get_add (c : Counter L) (label : L) (n : Nat) (l : L) :
    (c.add label n).get l = c.get l + if l = label then n else 0 := by
  rw [get, add, Assoc.find?_insert]
  split
  · next hl => rw [hl, Option.getD_some]
  · rfl

/-- A total is made of what is counted for one label, if it includes it, and for all the others. -/
theorem total_eq_add (c : Counter L) (label : L) (p : L → Bool) :
    c.total p = (if p label then c.get label else 0) + total ⟨c.counts.erase label⟩ p := by
  rw [total, get]
  rcases hcount : c.counts.find? label with - | n
  · simp [total, Assoc.erase_eq_self hcount]
  · have hperm := ((Assoc.perm_entries hcount).filter fun e => p e.1).foldr_eq'
      (f := fun (e : L × Nat) n => e.2 + n) (fun _ _ _ _ _ => Nat.add_left_comm ..) 0
    rw [hperm, List.filter_cons, Option.getD_some]
    split
    · rfl
    · exact (Nat.zero_add _).symm

/-- A total grows by what is counted for a label that it includes. -/
@[simp] theorem total_add (c : Counter L) (label : L) (n : Nat) (p : L → Bool) :
    (c.add label n).total p = c.total p + if p label then n else 0 := by
  have hothers : (c.add label n).counts.erase label = c.counts.erase label :=
    c.counts.erase_insert ..
  rw [total_eq_add _ label, total_eq_add c label, hothers, get_add, if_pos rfl]
  split <;> omega

end Counter

/-! ## What is counted -/

/-- When an expansion takes place: at arrival or at handling. -/
inductive Phase where
  | expand
  | handle
deriving DecidableEq, Inhabited

def Phase.text : Phase → String
  | expand => "expand"
  | handle => "handle"

/-- What happens to the spans of the cache. -/
inductive CacheEvent where
  | inserted
  | duplicate
  | rejected
  | hit
  | miss
  | stale
  | expired
deriving DecidableEq, Inhabited

def CacheEvent.text : CacheEvent → String
  | inserted => "inserted"
  | duplicate => "duplicate"
  | rejected => "rejected"
  | hit => "hit"
  | miss => "miss"
  | stale => "stale"
  | expired => "expired"

/-- The name of a scheme as a label. -/
def Scheme.label : Scheme → String
  | ed25519 => "ed25519"
  | ecdsaSecp256k1 => "ecdsa_secp256k1"

/-- The counts of the service.  Those without labels are natural numbers too: neither the overflow of
`interruptions` nor the rounding of `cacheEntries` is modelled. -/
structure Metrics where
  expansions : Counter (Phase × Status) := {}
  durations : Counter Phase := {}
  interruptions : Nat := 0
  cacheEvents : Counter CacheEvent := {}
  cacheEntries : Nat := 0
  verifications : Counter (Scheme × Bool) := {}

namespace Metrics

instance : Inhabited Metrics := ⟨{}⟩

def countExpansion (m : Metrics) (phase : Phase) (status : Status) : Metrics :=
  { m with expansions := m.expansions.increment (phase, status) }

def countDuration (m : Metrics) (phase : Phase) : Metrics :=
  { m with durations := m.durations.increment phase }

def countInterruptionIf (m : Metrics) (interrupted : Bool) : Metrics :=
  if interrupted then { m with interruptions := m.interruptions + 1 } else m

def countCacheEvents (m : Metrics) (event : CacheEvent) (n : Nat) : Metrics :=
  { m with cacheEvents := m.cacheEvents.add event n }

def countCacheEvent (m : Metrics) (event : CacheEvent) : Metrics :=
  m.countCacheEvents event 1

def setCacheEntries (m : Metrics) (n : Nat) : Metrics :=
  { m with cacheEntries := n }

def countVerification (m : Metrics) (scheme : Scheme) (valid : Bool) : Metrics :=
  { m with verifications := m.verifications.increment (scheme, valid) }

/-! ## Text -/

/-- One series: the values of its labels, and its count. -/
structure Series where
  labels : List (String × String)
  count : Nat
deriving DecidableEq, Inhabited

/-- A family of series.  The sample name is the name of the family except for a distribution, of which
only the number of observations is shown. -/
structure Family where
  name : String
  help : String
  kind : String
  sample : String
  series : List Series
deriving DecidableEq, Inhabited

namespace Series

/-- The labels and their values in braces, or nothing when there are none. -/
def labelText (s : Series) : String :=
  if s.labels.isEmpty then ""
  else
    "\x7b" ++ ",".intercalate (s.labels.map fun l => l.1 ++ "=\"" ++ l.2 ++ "\"") ++ "\x7d"

/-- Series are in order of the values of their labels. -/
def before (a b : Series) : Bool :=
  (compare (a.labels.map Prod.snd) (b.labels.map Prod.snd)).isLE

end Series

/-- The lines of a family.  A family without series has none. -/
def Family.lines (f : Family) : List String :=
  if f.series.isEmpty then []
  else
    ("# HELP " ++ f.name ++ " " ++ f.help) :: ("# TYPE " ++ f.name ++ " " ++ f.kind)
      :: (f.series.mergeSort Series.before).map fun s =>
        f.sample ++ s.labelText ++ " " ++ toString s.count

/-- The series of a counter, given the values of the labels. -/
def seriesOf {L : Type} (c : Counter L) (labels : L → List (String × String)) : List Series :=
  c.counts.entries.map fun e => ⟨labels e.1, e.2⟩

/-- The families in order of name. -/
def families (m : Metrics) : List Family :=
  [{ name := "qc_sigexp_expansion_duration_seconds"
     help := "Time spent expanding one transaction"
     kind := "histogram"
     sample := "qc_sigexp_expansion_duration_seconds_count"
     series := seriesOf m.durations fun phase => [("phase", phase.text)] },
    { name := "qc_sigexp_expansion_panics_total"
      help := "Expansions aborted by an unexpected panic"
      kind := "counter"
      sample := "qc_sigexp_expansion_panics_total"
      series := [⟨[], m.interruptions⟩] },
    { name := "qc_sigexp_expansions_total"
      help := "Signature expansion runs"
      kind := "counter"
      sample := "qc_sigexp_expansions_total"
      series := seriesOf m.expansions fun (phase, status) =>
        [("phase", phase.text), ("status", status.text)] },
    { name := "qc_sigexp_span_cache_entries"
      help := "Expanded transactions waiting for consensus handling"
      kind := "gauge"
      sample := "qc_sigexp_span_cache_entries"
      series := [⟨[], m.cacheEntries⟩] },
    { name := "qc_sigexp_span_cache_events_total"
      help := "Span cache events"
      kind := "counter"
      sample := "qc_sigexp_span_cache_events_total"
      series := seriesOf m.cacheEvents fun event => [("event", event.text)] },
    { name := "qc_signature_verifications_total"
      help := "Total signature verifications"
      kind := "counter"
      sample := "qc_signature_verifications_total"
      series := seriesOf m.verifications fun (scheme, valid) =>
        [("result", if valid then "valid" else "invalid"), ("type", scheme.label)] }]

/-- The exposed text. -/
def lines (m : Metrics) : List String :=
  m.families.flatMap Family.lines

end Metrics

end Countersign
