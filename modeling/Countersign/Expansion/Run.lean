import Countersign.Expansion.Outcome
import Countersign.Signature.Matching
import Countersign.Signing.Order

/-!
# Expanding the signatures of a transaction

An expansion finds the key of the payer and matches it, then finds the keys of the other parties
and matches those, and at the end may take in every signature with a complete prefix that is left.
The first failure ends it.  Found keys are matched only when their pass has found all of them.

## What is here

* `Expansion` — what an expansion goes by: where entities are looked up, the body, how platform
  signatures are made, and whether to sweep.
* `Expansion.run` — the expansion, with what it leaves of the supply and of the trail.
* `Expansion.executeGuarded` — the outcome; an interrupted run becomes an outcome of its own.
* `Expansion.execute?` — the outcome, unless the run is interrupted.
-/

set_option autoImplicit false

namespace Countersign

/-- What an expansion goes by. -/
structure Expansion where
  source : Source
  body : Body
  make : SignatureMaker
  sweep : Bool := true

/-- How a run ends: with metadata, a status and a final stage, or cut short at a stage. -/
inductive Ending where
  | finished (sigMeta : SigMeta) (status : Status) (stage : Stage)
  | interrupted (stage : Stage)
deriving DecidableEq, Inhabited

/-- How a run ends, and what it leaves of the supply and of the trail. -/
structure Ran where
  ending : Ending
  supply : Supply
  trail : Trail
deriving DecidableEq, Inhabited

namespace Expansion

/-- The last part of an expansion, once the payer's key and signatures are there. -/
def runOthers (x : Expansion) (key : Key) (payerSigs : List PlatformSignature) (s : Supply)
    (t : Trail) : Ran :=
  match othersPass x.source x.body t with
  | (.interrupted, t) => ⟨.interrupted .payerExpanded, s, t⟩
  | (.finished (.error f), t) =>
    ⟨.finished (.payerOnly key payerSigs) f.status .failedAtOthers, s, t⟩
  | (.finished (.ok keys), t) =>
    match matchKeys x.make keys s with
    | (.error e, s) => ⟨.finished (.payerOnly key payerSigs) e.status .failedAtOthers, s, t⟩
    | (.ok otherSigs, s) =>
      let (swept, s) := if x.sweep then sweepUnused x.make s else ([], s)
      ⟨.finished (.complete key keys (payerSigs ++ otherSigs ++ swept)) .ok .finalized, s, t⟩

/-- Runs the expansion on a supply. -/
def run (x : Expansion) (s : Supply) : Ran :=
  match payerPass x.source x.body {} with
  | (.interrupted, t) => ⟨.interrupted .start, s, t⟩
  | (.finished (.error f), t) => ⟨.finished .noneAvailable f.status .failedAtPayer, s, t⟩
  | (.finished (.ok key), t) =>
    match matchKeys x.make [key] s with
    | (.error e, s) => ⟨.finished .noneAvailable e.status .failedAtPayer, s, t⟩
    | (.ok payerSigs, s) => x.runOthers key payerSigs s t

end Expansion

/-- The outcome of a run, unless it was cut short. -/
def Ran.finished? (r : Ran) : Option Outcome :=
  match r.ending with
  | .finished sigMeta status stage => some { sigMeta, status, stage, linked := r.trail.linked }
  | .interrupted _ => none

/-- The outcome of a run.  To be cut short is an outcome of its own. -/
def Ran.outcome (r : Ran) : Outcome :=
  match r.ending with
  | .finished sigMeta status stage => { sigMeta, status, stage, linked := r.trail.linked }
  | .interrupted stage => .ofInterruption stage r.trail.linked

namespace Expansion

/-- The outcome of the expansion, unless it is interrupted. -/
def execute? (x : Expansion) (s : Supply) : Option Outcome :=
  (x.run s).finished?

/-- The outcome of the expansion, interrupted or not. -/
def executeGuarded (x : Expansion) (s : Supply) : Outcome :=
  (x.run s).outcome

end Expansion

end Countersign
