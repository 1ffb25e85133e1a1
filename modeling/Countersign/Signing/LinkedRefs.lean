import Countersign.Ledger.View

/-!
# Linked references

An expansion records every entity it looks at, with the version marker seen at the time.  As long
as all these markers still stand, the expansion would come out the same again.

## What is here

* `LinkedRefs` — the references in the order in which they were first seen.
* `LinkedRefs.link` — records a reference; of a repeated one the first marker is kept.
* `LinkedRefs.firstStale` — the first reference whose marker is no longer the one recorded.  It
  reads the ledger, so it may be cut short.
-/

set_option autoImplicit false

namespace Countersign

/-- References with the markers they were first seen with. -/
structure LinkedRefs where
  refs : List (EntityRef × Version) := []
deriving DecidableEq, Inhabited

namespace LinkedRefs

def contains (l : LinkedRefs) (ref : EntityRef) : Bool :=
  l.refs.any fun e => e.1 == ref

/-- Records a reference unless it is recorded already. -/
def link (l : LinkedRefs) (ref : EntityRef) (version : Version) : LinkedRefs :=
  if l.contains ref then l else ⟨l.refs ++ [(ref, version)]⟩

/-- Records a reference with the marker it carries at present. -/
def observe (l : LinkedRefs) (v : View) (ref : EntityRef) :
    Except ReadError (Version × LinkedRefs) :=
  (v.versionOf ref).map fun version => (version, l.link ref version)

/-- The first of the given references whose present marker differs from the one beside it. -/
def firstStaleIn (v : View) : List (EntityRef × Version) → Except ReadError (Option EntityRef)
  | [] => .ok none
  | (ref, seen) :: rest =>
    match v.versionOf ref with
    | .error e => .error e
    | .ok present => if present ≠ seen then .ok (some ref) else firstStaleIn v rest

/-- The first reference whose present marker differs from the one recorded. -/
def firstStale (l : LinkedRefs) (v : View) : Except ReadError (Option EntityRef) :=
  firstStaleIn v l.refs

end LinkedRefs

end Countersign
