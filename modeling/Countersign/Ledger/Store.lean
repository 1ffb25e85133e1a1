import Countersign.Assoc
import Countersign.Ledger.View

/-!
# The ledger in memory

A store keeps the tables of the ledger and hands out version markers.  Every change stamps what it
touches with the marker after the last one handed out.

## What is here

* `Store` — the tables and the last marker handed out.
* `Mutation` — the changes a store undergoes; `Store.apply` carries one out and says what came of
  it, and `Store.run` carries out a list of them.
* `Store.view` — what a reader sees of a store.

Deleting an account uses up a marker even when there is no such account; removing one never does.
-/

set_option autoImplicit false

namespace Countersign

/-- The tables of the ledger, and the last marker handed out. -/
structure Store where
  accounts : Assoc EntityId AccountRecord := .empty
  tokens : Assoc EntityId TokenRecord := .empty
  topics : Assoc EntityId TopicRecord := .empty
  files : Assoc EntityId FileRecord := .empty
  schedules : Assoc EntityId ScheduleRecord := .empty
  aliases : Assoc Alias AliasBinding := .empty
  lastVersion : Version := .absent

/-- A change of the ledger. -/
inductive Mutation where
  | putAccount (id : EntityId) (record : AccountRecord)
  | putToken (id : EntityId) (record : TokenRecord)
  | putTopic (id : EntityId) (record : TopicRecord)
  | putFile (id : EntityId) (record : FileRecord)
  | putSchedule (id : EntityId) (record : ScheduleRecord)
  | bindAlias (a : Alias) (id : EntityId)
  | deleteAccount (id : EntityId)
  | removeAccount (id : EntityId)
deriving DecidableEq, Inhabited

/-- What came of a change: the marker stamped, or whether there was an account to delete or to
remove. -/
inductive Receipt where
  | stamped (version : Version)
  | deleted (existed : Bool)
  | removed (was : Option AccountRecord)
deriving DecidableEq, Inhabited

namespace Store

/-- The store that holds nothing. -/
def fresh : Store := {}

instance : Inhabited Store := ⟨fresh⟩

/-! ## Changes -/

/-- The next marker, and the store that has handed it out. -/
def stamp (s : Store) : Version × Store :=
  (s.lastVersion.next, { s with lastVersion := s.lastVersion.next })

def putAccount (s : Store) (id : EntityId) (record : AccountRecord) : Version × Store :=
  let (version, s) := s.stamp
  (version, { s with accounts := s.accounts.insert id { record with version } })

def putToken (s : Store) (id : EntityId) (record : TokenRecord) : Version × Store :=
  let (version, s) := s.stamp
  (version, { s with tokens := s.tokens.insert id { record with version } })

def putTopic (s : Store) (id : EntityId) (record : TopicRecord) : Version × Store :=
  let (version, s) := s.stamp
  (version, { s with topics := s.topics.insert id { record with version } })

def putFile (s : Store) (id : EntityId) (record : FileRecord) : Version × Store :=
  let (version, s) := s.stamp
  (version, { s with files := s.files.insert id { record with version } })

def putSchedule (s : Store) (id : EntityId) (record : ScheduleRecord) : Version × Store :=
  let (version, s) := s.stamp
  (version, { s with schedules := s.schedules.insert id { record with version } })

/-- Binds an alias to a number, in place of an earlier binding. -/
def bindAlias (s : Store) (a : Alias) (id : EntityId) : Version × Store :=
  let (version, s) := s.stamp
  (version, { s with aliases := s.aliases.insert a { id, version } })

/-- Marks an account as deleted, and says whether there is one. -/
def deleteAccount (s : Store) (id : EntityId) : Bool × Store :=
  let (version, s) := s.stamp
  match s.accounts.find? id with
  | some record =>
    (true, { s with accounts := s.accounts.insert id { record with deleted := true, version } })
  | none => (false, s)

/-- Removes an account altogether, and answers with its last record. -/
def removeAccount (s : Store) (id : EntityId) : Option AccountRecord × Store :=
  (s.accounts.find? id, { s with accounts := s.accounts.erase id })

/-- Carries out a change. -/
def apply (s : Store) : Mutation → Receipt × Store
  | .putAccount id record => let (version, s) := s.putAccount id record; (.stamped version, s)
  | .putToken id record => let (version, s) := s.putToken id record; (.stamped version, s)
  | .putTopic id record => let (version, s) := s.putTopic id record; (.stamped version, s)
  | .putFile id record => let (version, s) := s.putFile id record; (.stamped version, s)
  | .putSchedule id record => let (version, s) := s.putSchedule id record; (.stamped version, s)
  | .bindAlias a id => let (version, s) := s.bindAlias a id; (.stamped version, s)
  | .deleteAccount id => let (existed, s) := s.deleteAccount id; (.deleted existed, s)
  | .removeAccount id => let (was, s) := s.removeAccount id; (.removed was, s)

/-- Carries out changes one after the other. -/
def run (s : Store) (mutations : List Mutation) : Store :=
  mutations.foldl (fun s m => (s.apply m).2) s

/-! ## Reading -/

/-- What a reader sees of the store while some tables cannot be read. -/
def view (s : Store) (unreadable : Table → Bool) : View where
  account := s.accounts.find?
  token := s.tokens.find?
  topic := s.topics.find?
  file := s.files.find?
  schedule := s.schedules.find?
  binding := s.aliases.find?
  unreadable := unreadable

end Store

end Countersign
