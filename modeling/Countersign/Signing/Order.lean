import Countersign.Signing.Lookup
import Countersign.Signing.Requirement

/-!
# The order of signing

The keys that must sign a transaction are found in two passes: first the key of the payer, then
those of the other parties, in the order of the requirements.  The first failure ends a pass, and no
key of that pass is kept.

## What is here

* `Pass` — how a pass ends: with a result, or cut short in the middle of a lookup.
* `payerPass`, `othersPass` — the two passes, along a trail.
* `payerKey`, `otherKeys` — what the passes find when nothing cuts them short, as functions of the
  view alone.
-/

set_option autoImplicit false

namespace Countersign

/-- How a pass over the requirements ends. -/
inductive Pass (α : Type) where
  | finished (result : Except OrderingFailure α)
  | interrupted
deriving Inhabited

/-! ## Along a trail -/

/-- Visits the subject of a requirement, if it has one. -/
def Source.visitSubject (src : Source) (r : Requirement) (t : Trail) : Bool × Trail :=
  match r.subject? with
  | none => (true, t)
  | some ref => src.visit ref t

/-- The keys that a list of requirements asks for, in order. -/
def Source.collect (src : Source) : List Requirement → Trail → Pass (List Key) × Trail
  | [], t => (.finished (.ok []), t)
  | r :: rs, t =>
    match src.visitSubject r t with
    | (false, t) => (.interrupted, t)
    | (true, t) =>
      match r.judge src.view with
      | .error f => (.finished (.error f), t)
      | .ok key? =>
        match src.collect rs t with
        | (.finished (.ok keys), t) => (.finished (.ok (key?.toList ++ keys)), t)
        | (.finished (.error f), t) => (.finished (.error f), t)
        | (.interrupted, t) => (.interrupted, t)

/-- The key of the payer.  A payer whose key can never sign is immutable. -/
def payerKey (v : View) (payer : EntityId) : Except OrderingFailure Key :=
  match v.accountMetadata (.byId payer) with
  | .error f => .error f
  | .ok m => if m.key.isEmpty then .error .immutableAccount else .ok m.key

/-- Finds the key of the payer. -/
def payerPass (src : Source) (b : Body) (t : Trail) : Pass Key × Trail :=
  match src.visit (.account (.byId b.payer)) t with
  | (false, t) => (.interrupted, t)
  | (true, t) => (.finished (payerKey src.view b.payer), t)

/-- Finds the keys of the other parties. -/
def othersPass (src : Source) (b : Body) (t : Trail) : Pass (List Key) × Trail :=
  src.collect b.requirements t

/-! ## As a function of the view -/

/-- The keys that a list of requirements asks for by a view, in order. -/
def View.keysOf (v : View) : List Requirement → Except OrderingFailure (List Key)
  | [] => .ok []
  | r :: rs =>
    match r.judge v with
    | .error f => .error f
    | .ok key? =>
      match v.keysOf rs with
      | .error f => .error f
      | .ok keys => .ok (key?.toList ++ keys)

/-- The keys of the other parties. -/
def otherKeys (v : View) (b : Body) : Except OrderingFailure (List Key) :=
  v.keysOf b.requirements

end Countersign
