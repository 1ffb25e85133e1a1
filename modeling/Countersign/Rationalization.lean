import Countersign.Expansion.Run
import Countersign.Signature.Verifier
import Countersign.Transaction.Parsed

/-!
# Rationalization

When a transaction is handled there may be an expansion of it from earlier.  That is good for as
long as every marker it was linked with still stands.  Otherwise the transaction is expanded anew,
with all its signatures unused, and the signatures are verified at once.

## What is here

* `SpanSource` — where the outcome comes from.
* `Setting` — where entities are looked up, the verifier, and whether to sweep.
* `Setting.expandAndVerify` — one expansion with its signatures verified.
* `rationalize` — the decision.  Asking whether an expansion still stands reads the ledger, and that
  reading may be cut short.
-/

set_option autoImplicit false

namespace Countersign

/-- Where the outcome of a rationalization comes from: an earlier expansion that still stands; an
expansion in place of an earlier one, which was interrupted or has a stale reference; or an
expansion without any earlier one. -/
inductive SpanSource where
  | reused
  | reexpanded (stale : Option EntityRef)
  | uncached
deriving DecidableEq, Inhabited

/-- What a rationalization yields. -/
structure RationalizedSpan where
  outcome : Outcome
  usedSyncVerification : Bool
  source : SpanSource
deriving DecidableEq, Inhabited

/-- What a rationalization goes by. -/
structure Setting where
  source : Source
  verifier : Verifier
  sweep : Bool := true

/-- What an expansion with verification leaves: the outcome, the supply, the trail, and the batch
that was verified, if there was one. -/
structure Verified where
  outcome : Outcome
  supply : Supply
  trail : Trail
  batch : Option (List PlatformSignature)
deriving DecidableEq, Inhabited

/-- Expands a transaction on a supply and has the signatures verified. -/
def Setting.expandAndVerify (g : Setting) (t : ParsedTransaction) (s : Supply) : Verified :=
  let x : Expansion :=
    { source := g.source, body := t.body, make := .over t.bodyBytes, sweep := g.sweep }
  let ran := x.run s
  let outcome := ran.outcome.mapSignatures g.verifier.verify
  { outcome, supply := ran.supply, trail := ran.trail, batch := outcome.sigMeta.signatures? }

/-- Where the outcome will come from, given an earlier one. -/
def spanSource (v : View) : Option Outcome → Except ReadError SpanSource
  | none => .ok .uncached
  | some earlier =>
    if earlier.interrupted then .ok (.reexpanded none)
    else (earlier.linked.firstStale v).map fun
      | none => .reused
      | some ref => .reexpanded (some ref)

/-- What a rationalization leaves.  Nothing is verified when an earlier outcome is used again. -/
structure Rationalized where
  span : RationalizedSpan
  supply : Supply
  verified : Option Verified
deriving DecidableEq, Inhabited

/-- Uses an earlier outcome again, or expands anew. -/
def rationalize (g : Setting) (t : ParsedTransaction) (earlier : Option Outcome) (s : Supply) :
    Except ReadError Rationalized :=
  match spanSource g.source.view earlier, earlier with
  | .error e, _ => .error e
  | .ok .reused, some outcome =>
    .ok
      { span := { outcome, usedSyncVerification := false, source := .reused }
        supply := s
        verified := none }
  | .ok source, _ =>
    let verified := g.expandAndVerify t s.reset
    .ok
      { span := { outcome := verified.outcome, usedSyncVerification := true, source }
        supply := verified.supply
        verified := some verified }

end Countersign
