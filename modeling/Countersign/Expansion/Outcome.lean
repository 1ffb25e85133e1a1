import Countersign.Status
import Countersign.Expansion.SigMeta
import Countersign.Signing.LinkedRefs

/-!
# Outcomes of an expansion

## What is here

* `Stage` — how far an expansion has come; three of the stages are final.
* `Outcome` — what a finished expansion leaves: the metadata, the status, the linked references, the
  final stage, and whether it was interrupted.
-/

set_option autoImplicit false

namespace Countersign

/-- How far an expansion has come. -/
inductive Stage where
  | start
  | payerExpanded
  | otherExpanded
  | finalized
  | failedAtPayer
  | failedAtOthers
deriving DecidableEq, Inhabited

namespace Stage

def isTerminal : Stage → Bool
  | finalized => true
  | failedAtPayer => true
  | failedAtOthers => true
  | _ => false

def text : Stage → String
  | start => "start"
  | payerExpanded => "payer_expanded"
  | otherExpanded => "other_expanded"
  | finalized => "finalized"
  | failedAtPayer => "failed_at_payer"
  | failedAtOthers => "failed_at_others"

/-- The final stage of an expansion that is interrupted at this stage. -/
def interruptedEnd : Stage → Stage
  | start => failedAtPayer
  | _ => failedAtOthers

end Stage

/-- What a finished expansion leaves. -/
structure Outcome where
  sigMeta : SigMeta
  status : Status
  linked : LinkedRefs
  stage : Stage
  /-- Whether the expansion was cut short.  Such an outcome is never used again. -/
  interrupted : Bool := false
deriving DecidableEq, Inhabited

/-- The outcome of an expansion that was cut short at a stage: nothing is handed on but the references
linked until then. -/
def Outcome.ofInterruption (stage : Stage) (linked : LinkedRefs) : Outcome where
  sigMeta := .noneAvailable
  status := OrderingFailure.generalError.status
  linked := linked
  stage := stage.interruptedEnd
  interrupted := true

/-- The outcome as it is once a verifier has stamped its signatures. -/
def Outcome.mapSignatures (o : Outcome)
    (f : List PlatformSignature → List PlatformSignature) : Outcome :=
  { o with sigMeta := o.sigMeta.mapSignatures f }

end Countersign
