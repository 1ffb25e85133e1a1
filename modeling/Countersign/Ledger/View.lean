import Countersign.Ledger.Record

/-!
# Views of the ledger

The rest of the library reads the ledger through a view: six tables, each a partial function.  A
table may be unreadable at the moment, in which case every read of it is cut short.

## What is here

* `Table`, `View` — the tables, and what a reader sees of them.
* `View.readAccount` and its five siblings — one read, which fails when the table is unreadable.
* `View.versionOf` — the marker that a reference carries at present.  A reference by alias carries
  the marker of the *binding*, so that binding the alias anew is a change of what it refers to.
* `View.Readable` — no table is unreadable.
-/

set_option autoImplicit false

namespace Countersign

/-- The tables of the ledger. -/
inductive Table where
  | accounts
  | tokens
  | topics
  | files
  | schedules
  | aliases
deriving DecidableEq, Inhabited

/-- A reader's view of the ledger. -/
structure View where
  account : EntityId → Option AccountRecord
  token : EntityId → Option TokenRecord
  topic : EntityId → Option TopicRecord
  file : EntityId → Option FileRecord
  schedule : EntityId → Option ScheduleRecord
  binding : Alias → Option AliasBinding
  unreadable : Table → Bool := fun _ => false

/-- A read that was cut short, with the table that could not be read. -/
structure ReadError where
  table : Table
deriving DecidableEq, Inhabited

namespace View

/-! ## Reading -/

/-- The outcome of a read of `table` that would have found `found`. -/
def read {α : Type} (v : View) (table : Table) (found : α) : Except ReadError α :=
  if v.unreadable table then .error ⟨table⟩ else .ok found

def readAccount (v : View) (id : EntityId) : Except ReadError (Option AccountRecord) :=
  v.read .accounts (v.account id)

def readToken (v : View) (id : EntityId) : Except ReadError (Option TokenRecord) :=
  v.read .tokens (v.token id)

def readTopic (v : View) (id : EntityId) : Except ReadError (Option TopicRecord) :=
  v.read .topics (v.topic id)

def readFile (v : View) (id : EntityId) : Except ReadError (Option FileRecord) :=
  v.read .files (v.file id)

def readSchedule (v : View) (id : EntityId) : Except ReadError (Option ScheduleRecord) :=
  v.read .schedules (v.schedule id)

def readBinding (v : View) (a : Alias) : Except ReadError (Option AliasBinding) :=
  v.read .aliases (v.binding a)

/-! ## Markers -/

/-- The table in which the marker of a reference stands. -/
def tableOf : EntityRef → Table
  | .account (.byId _) => .accounts
  | .account (.byAlias _) => .aliases
  | .contract (.byId _) => .accounts
  | .contract (.byAlias _) => .aliases
  | .token _ => .tokens
  | .topic _ => .topics
  | .file _ => .files
  | .schedule _ => .schedules

/-- The marker of a record that may be missing. -/
def markerOf (version? : Option Version) : Version :=
  version?.getD .absent

/-- The marker that a reference carries, whether or not its table can be read. -/
def marker (v : View) : EntityRef → Version
  | .account (.byId id) => markerOf ((v.account id).map (·.version))
  | .account (.byAlias a) => markerOf ((v.binding a).map (·.version))
  | .contract (.byId id) => markerOf ((v.account id).map (·.version))
  | .contract (.byAlias a) => markerOf ((v.binding a).map (·.version))
  | .token id => markerOf ((v.token id).map (·.version))
  | .topic id => markerOf ((v.topic id).map (·.version))
  | .file id => markerOf ((v.file id).map (·.version))
  | .schedule id => markerOf ((v.schedule id).map (·.version))

/-- The marker that a reference carries at present. -/
def versionOf (v : View) (ref : EntityRef) : Except ReadError Version :=
  v.read (tableOf ref) (v.marker ref)

/-! ## Readable views -/

/-- Every table can be read. -/
def Readable (v : View) : Prop :=
  ∀ table, v.unreadable table = false

theorem Readable.versionOf_eq {v : View} (h : v.Readable) (ref : EntityRef) :
    v.versionOf ref = .ok (v.marker ref) := by
  simp [versionOf, read, h (tableOf ref)]

end View

end Countersign
