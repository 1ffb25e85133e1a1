import Countersign.Signing.LinkedRefs
import Countersign.Signing.Metadata

/-!
# Lookups

Looking an entity up reads the tables it stands in and links every reference on the way, before
anything is decided: a lookup that fails is linked like one that succeeds.  A lookup can be cut short
by a table that cannot be read or by a fault of the service that looks things up; what has been
linked until then stays linked.

## What is here

* `Trail` — what a run of lookups leaves behind: the linked references, and the kinds of the
  lookups begun.
* `Source` — where lookups are answered from: a view, and a plan of the lookups that fail.
* `Source.visit` — the trail of one lookup, and whether the lookup was completed.
* `Source.lookup` — one lookup with its answer, which is `View.metadata` of the reference.
-/

set_option autoImplicit false

namespace Countersign

/-- What a run of lookups leaves behind. -/
structure Trail where
  linked : LinkedRefs := {}
  /-- The kinds of the lookups begun, in order. -/
  calls : List EntityKind := []
deriving DecidableEq, Inhabited

/-- When a faulty lookup fails: before it has read anything, or after it has read everything. -/
inductive FaultPoint where
  | before
  | after
deriving DecidableEq, Inhabited

/-- The lookups that fail, by the kinds of those begun earlier and the kind of the present one. -/
abbrev FaultPlan := List EntityKind → EntityKind → Option FaultPoint

/-- No lookup fails. -/
def FaultPlan.none : FaultPlan := fun _ _ => Option.none

/-- Every lookup of a kind fails, or none does. -/
def FaultPlan.ofKinds (f : EntityKind → Option FaultPoint) : FaultPlan := fun _ kind => f kind

/-- Where lookups are answered from. -/
structure Source where
  view : View
  faults : FaultPlan := .none

namespace Source

/-- Links references with their present markers, up to the first whose table cannot be read.  Says
whether all were linked. -/
def linkAll (v : View) : List EntityRef → LinkedRefs → Bool × LinkedRefs
  | [], l => (true, l)
  | ref :: refs, l =>
    match v.versionOf ref with
    | .error _ => (false, l)
    | .ok version => linkAll v refs (l.link ref version)

/-- Looks an entity up, and says whether the lookup was completed. -/
def visit (src : Source) (ref : EntityRef) (t : Trail) : Bool × Trail :=
  let fault := src.faults t.calls ref.kind
  let calls := t.calls ++ [ref.kind]
  if fault = some .before then (false, { t with calls })
  else
    let (completed, linked) := linkAll src.view (src.view.sightings ref) t.linked
    (completed && fault.isNone, { linked, calls })

/-- Looks an entity up, unless the lookup is cut short. -/
def lookup (src : Source) (ref : EntityRef) (t : Trail) :
    Option (Except OrderingFailure SigningMetadata) × Trail :=
  let (completed, t) := src.visit ref t
  (if completed then some (src.view.metadata ref) else none, t)

end Source

end Countersign
