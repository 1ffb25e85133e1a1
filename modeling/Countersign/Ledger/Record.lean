import Countersign.Key

/-!
# Ledger records

What the ledger holds for each kind of entity, as far as signing depends on it.  Every record, and
every binding of an alias, carries the version marker it was stamped with when it was last changed,
so that whoever derived something from it can tell later whether it still stands.

## What is here

* `Version` — the markers; `Version.absent` stands for an entity that does not exist.
* `AccountRecord`, `TokenRecord`, `TopicRecord`, `FileRecord`, `ScheduleRecord`, `AliasBinding`.
* `AccountRecord.contract` — the record of a contract, which is an account of a special sort.
-/

set_option autoImplicit false

namespace Countersign

/-- The stamp of the last change of an entity. -/
structure Version where
  val : UInt64
deriving DecidableEq, Inhabited

namespace Version

/-- The marker of an entity that does not exist. -/
def absent : Version := ⟨0⟩

/-- The marker after this one. -/
def next (v : Version) : Version := ⟨v.val + 1⟩

def text (v : Version) : String :=
  s!"v{v.val.toNat}"

end Version

/-- The record of an account, or of the account that a contract is. -/
structure AccountRecord where
  key : Key
  deleted : Bool := false
  receiverSigRequired : Bool := false
  isSmartContract : Bool := false
  version : Version := .absent
deriving DecidableEq, Inhabited

/-- The record of a contract.  Without an admin key the contract cannot be changed. -/
def AccountRecord.contract (adminKey : Option Key) : AccountRecord where
  key := adminKey.getD (.keyList [])
  isSmartContract := true

/-- The record of a token, with a key for each role. -/
structure TokenRecord where
  treasury : EntityId
  adminKey : Option Key := none
  kycKey : Option Key := none
  wipeKey : Option Key := none
  freezeKey : Option Key := none
  supplyKey : Option Key := none
  feeScheduleKey : Option Key := none
  pauseKey : Option Key := none
  deleted : Bool := false
  version : Version := .absent
deriving DecidableEq, Inhabited

/-- The record of a consensus topic. -/
structure TopicRecord where
  adminKey : Option Key := none
  submitKey : Option Key := none
  deleted : Bool := false
  version : Version := .absent
deriving DecidableEq, Inhabited

/-- The record of a file.  An empty `wacl` means that nobody can change the file. -/
structure FileRecord where
  wacl : Key
  deleted : Bool := false
  version : Version := .absent
deriving DecidableEq, Inhabited

/-- The record of a scheduled transaction. -/
structure ScheduleRecord where
  adminKey : Option Key := none
  designatedPayer : Option EntityId := none
  deleted : Bool := false
  executed : Bool := false
  version : Version := .absent
deriving DecidableEq, Inhabited

/-- The entity that an alias names at present. -/
structure AliasBinding where
  id : EntityId
  version : Version
deriving DecidableEq, Inhabited

end Countersign
