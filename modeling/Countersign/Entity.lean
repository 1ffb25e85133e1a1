import Countersign.Bytes

/-!
# Ledger entities

Every entity of the ledger carries a number `shard.realm.num`.  Accounts and contracts may also be
addressed by an alias: bytes (a public key or a short address) that the ledger binds to a number.

## What is here

* `EntityId`, `Alias` and `Address` — a number, an alias, and either of the two.
* `EntityRef` — an address together with the kind of entity it is meant to denote.  An account
  reference and a contract reference with the same address are different references.
* `EntityKind` — the kind alone.
* `EntityRef.sorted` — references in order, each once: first by kind, then numbers before aliases,
  then by number or by alias bytes.
-/

set_option autoImplicit false

namespace Countersign

/-- The number of an entity. -/
structure EntityId where
  shard : UInt64
  realm : UInt64
  num : UInt64
deriving DecidableEq, Ord, Inhabited

/-- Bytes that the ledger may bind to the number of an account or contract. -/
structure Alias where
  bytes : Bytes
deriving DecidableEq, Ord, Inhabited

/-- How a transaction names an account or a contract. -/
inductive Address where
  | byId (id : EntityId)
  | byAlias (a : Alias)
deriving DecidableEq, Ord, Inhabited

/-- A reference to one entity of the ledger, tagged with its kind. -/
inductive EntityRef where
  | account (address : Address)
  | contract (address : Address)
  | token (id : EntityId)
  | topic (id : EntityId)
  | file (id : EntityId)
  | schedule (id : EntityId)
deriving DecidableEq, Ord, Inhabited

/-- The kinds of entity that a transaction can refer to. -/
inductive EntityKind where
  | account
  | contract
  | token
  | topic
  | file
  | schedule
deriving DecidableEq, Inhabited

/-! ## Addresses -/

namespace Address

def isAlias : Address → Bool
  | .byId _ => false
  | .byAlias _ => true

end Address

/-! ## Text -/

/-- The three parts of the number with points between them. -/
def EntityId.text (id : EntityId) : String :=
  s!"{id.shard.toNat}.{id.realm.toNat}.{id.num.toNat}"

def Alias.text (a : Alias) : String :=
  "0x" ++ a.bytes.hex

/-- The text of an alias in diagnostics, which names its type. -/
def Alias.debugText (a : Alias) : String :=
  "Alias(" ++ a.text ++ ")"

def Address.text : Address → String
  | .byId id => id.text
  | .byAlias a => a.text

def EntityKind.text : EntityKind → String
  | .account => "account"
  | .contract => "contract"
  | .token => "token"
  | .topic => "topic"
  | .file => "file"
  | .schedule => "schedule"

namespace EntityRef

def kind : EntityRef → EntityKind
  | account _ => .account
  | contract _ => .contract
  | token _ => .token
  | topic _ => .topic
  | file _ => .file
  | schedule _ => .schedule

/-- The kind, a colon and the address. -/
def text : EntityRef → String
  | account a => "account:" ++ a.text
  | contract a => "contract:" ++ a.text
  | token id => "token:" ++ id.text
  | topic id => "topic:" ++ id.text
  | file id => "file:" ++ id.text
  | schedule id => "schedule:" ++ id.text

/-! ## Order -/

/-- The references of a list in ascending order, repetitions dropped. -/
def sorted (refs : List EntityRef) : List EntityRef :=
  refs.eraseDups.mergeSort fun a b => (compare a b).isLE

end EntityRef

end Countersign
