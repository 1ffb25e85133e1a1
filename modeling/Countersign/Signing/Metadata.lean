import Countersign.Status
import Countersign.Ledger.View
import Countersign.Transaction.Body

/-!
# Signing metadata

What signing needs to know of an entity: the keys that control it, and whether it has to sign for
what it receives.  An entity that is missing, or in the wrong condition, yields a failure instead.

## What is here

* `AccountMetadata`, …, `ScheduleMetadata`, and `SigningMetadata`, any of the six.
* `View.accountMetadata`, …, `View.scheduleMetadata` — what a view says of an entity, and
  `View.metadata`, the same for any reference.
* `View.sightings` — the references that this involves, in order: an alias is followed to its number.

A contract that has no admin key, an empty one, or one that is itself the number of a contract, is
immutable.  A deleted token, file or schedule still answers; a deleted topic does not.
-/

set_option autoImplicit false

namespace Countersign

/-! ## The metadata -/

structure AccountMetadata where
  key : Key
  receiverSigRequired : Bool
deriving DecidableEq, Inhabited

structure ContractMetadata where
  /-- Missing for an immutable contract. -/
  adminKey : Option Key
  receiverSigRequired : Bool
deriving DecidableEq, Inhabited

def ContractMetadata.isImmutable (m : ContractMetadata) : Bool :=
  m.adminKey.isNone

structure TokenMetadata where
  treasury : EntityId
  adminKey : Option Key
  kycKey : Option Key
  wipeKey : Option Key
  freezeKey : Option Key
  supplyKey : Option Key
  feeScheduleKey : Option Key
  pauseKey : Option Key
deriving DecidableEq, Inhabited

structure TopicMetadata where
  adminKey : Option Key
  submitKey : Option Key
deriving DecidableEq, Inhabited

structure FileMetadata where
  wacl : Key
deriving DecidableEq, Inhabited

structure ScheduleMetadata where
  adminKey : Option Key
  designatedPayer : Option EntityId
deriving DecidableEq, Inhabited

/-- The signing metadata of an entity of any kind. -/
inductive SigningMetadata where
  | account (m : AccountMetadata)
  | contract (m : ContractMetadata)
  | token (m : TokenMetadata)
  | topic (m : TopicMetadata)
  | file (m : FileMetadata)
  | schedule (m : ScheduleMetadata)
deriving DecidableEq, Inhabited

/-- The kind of the entity. -/
def SigningMetadata.kind : SigningMetadata → EntityKind
  | account _ => .account
  | contract _ => .contract
  | token _ => .token
  | topic _ => .topic
  | file _ => .file
  | schedule _ => .schedule

namespace View

/-! ## What a view says of an entity -/

/-- The account record that an address leads to. -/
def accountAt (v : View) : Address → Option AccountRecord
  | .byId id => v.account id
  | .byAlias a => (v.binding a).bind fun b => v.account b.id

def accountMetadata (v : View) (address : Address) : Except OrderingFailure AccountMetadata :=
  match v.accountAt address with
  | none => .error .missingAccount
  | some r =>
    if r.deleted then .error .invalidAccount
    else .ok { key := r.key, receiverSigRequired := r.receiverSigRequired }

def contractMetadata (v : View) (address : Address) : Except OrderingFailure ContractMetadata :=
  match v.accountAt address with
  | none => .error .invalidContract
  | some r =>
    if r.deleted || !r.isSmartContract then .error .invalidContract
    else .ok
      { adminKey := if r.key.isEmpty || r.key.isContractId then none else some r.key
        receiverSigRequired := r.receiverSigRequired }

def tokenMetadata (v : View) (id : EntityId) : Except OrderingFailure TokenMetadata :=
  match v.token id with
  | none => .error .missingToken
  | some r => .ok
    { treasury := r.treasury, adminKey := r.adminKey, kycKey := r.kycKey, wipeKey := r.wipeKey,
      freezeKey := r.freezeKey, supplyKey := r.supplyKey, feeScheduleKey := r.feeScheduleKey,
      pauseKey := r.pauseKey }

def topicMetadata (v : View) (id : EntityId) : Except OrderingFailure TopicMetadata :=
  match v.topic id with
  | none => .error .invalidTopic
  | some r =>
    if r.deleted then .error .invalidTopic
    else .ok { adminKey := r.adminKey, submitKey := r.submitKey }

def fileMetadata (v : View) (id : EntityId) : Except OrderingFailure FileMetadata :=
  match v.file id with
  | none => .error .missingFile
  | some r => .ok { wacl := r.wacl }

def scheduleMetadata (v : View) (id : EntityId) : Except OrderingFailure ScheduleMetadata :=
  match v.schedule id with
  | none => .error .missingSchedule
  | some r => .ok { adminKey := r.adminKey, designatedPayer := r.designatedPayer }

/-- What a view says of the entity that a reference denotes. -/
def metadata (v : View) : EntityRef → Except OrderingFailure SigningMetadata
  | .account a => (v.accountMetadata a).map .account
  | .contract a => (v.contractMetadata a).map .contract
  | .token id => (v.tokenMetadata id).map .token
  | .topic id => (v.topicMetadata id).map .topic
  | .file id => (v.fileMetadata id).map .file
  | .schedule id => (v.scheduleMetadata id).map .schedule

/-! ## What has to be read for it -/

/-- The references that stand between an address and its record, of the kind that `tag` gives them:
the alias, and the number if the alias is bound. -/
def addressPath (v : View) (tag : Address → EntityRef) : Address → List EntityRef
  | .byId id => [tag (.byId id)]
  | .byAlias a =>
    tag (.byAlias a) :: ((v.binding a).map fun b => tag (.byId b.id)).toList

/-- The references that looking an entity up involves, in order. -/
def sightings (v : View) : EntityRef → List EntityRef
  | .account a => v.addressPath .account a
  | .contract a => v.addressPath .contract a
  | ref => [ref]

end View

end Countersign
