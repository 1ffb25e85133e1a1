import Countersign.Signing.Requirement

/-!
# What a reference denotes

A reference stands for one entry of the ledger: a record, or the binding of an alias.  What a view
says of a reference depends on the entries that the lookup of the reference goes through, and on
nothing else.

## What is here

* `Entry` and `View.denoted` — the entries of all tables in one type, and the entry that a reference
  denotes.  `View.marker_eq` reads the marker of a reference off its entry.
* `View.sightings_congr` — which references a lookup goes through is a matter of the first of them.
* `Requirement.judge_congr` — two views that agree on the sightings of its subject ask for the same key.
-/

set_option autoImplicit false

namespace Countersign

/-! ## Entries -/

/-- An entry of the ledger, from whichever table. -/
inductive Entry where
  | account (record : AccountRecord)
  | token (record : TokenRecord)
  | topic (record : TopicRecord)
  | file (record : FileRecord)
  | schedule (record : ScheduleRecord)
  | binding (binding : AliasBinding)
deriving DecidableEq

/-- The marker that an entry was stamped with. -/
def Entry.version : Entry → Version
  | account r => r.version
  | token r => r.version
  | topic r => r.version
  | file r => r.version
  | schedule r => r.version
  | binding b => b.version

namespace View

variable {v w : View}

/-- The entry that a reference denotes.  An account and a contract of one number denote the same
entry, and a reference by alias denotes the binding, whatever the alias is bound to. -/
def denoted (v : View) : EntityRef → Option Entry
  | .account (.byId id) => (v.account id).map .account
  | .account (.byAlias a) => (v.binding a).map .binding
  | .contract (.byId id) => (v.account id).map .account
  | .contract (.byAlias a) => (v.binding a).map .binding
  | .token id => (v.token id).map .token
  | .topic id => (v.topic id).map .topic
  | .file id => (v.file id).map .file
  | .schedule id => (v.schedule id).map .schedule

/-- The marker of a reference is that of its entry, and the absent marker if it has none. -/
theorem marker_eq (v : View) (ref : EntityRef) :
    v.marker ref = markerOf ((v.denoted ref).map Entry.version) := by
  rcases ref with (a | a) | (a | a) | id | id | id | id <;>
    simp only [marker, denoted, Option.map_map] <;> rfl

theorem versionOf_congr (hread : w.unreadable = v.unreadable) {ref : EntityRef}
    (h : v.denoted ref = w.denoted ref) : w.versionOf ref = v.versionOf ref := by
  rw [versionOf, versionOf, read, read, hread, marker_eq, marker_eq, h]

/-! ## Views that agree on what a lookup goes through -/

theorem sightings_eq_cons (v : View) (ref : EntityRef) :
    ∃ more, v.sightings ref = ref :: more := by
  rcases ref with (a | a) | (a | a) | id | id | id | id <;> exact ⟨_, rfl⟩

theorem binding_congr {a : Alias} (h : (v.binding a).map Entry.binding = (w.binding a).map .binding) :
    v.binding a = w.binding a :=
  Option.map_injective (fun _ _ h => Entry.binding.inj h) h

theorem sightings_congr {ref : EntityRef} (h : v.denoted ref = w.denoted ref) :
    w.sightings ref = v.sightings ref := by
  rcases ref with (a | a) | (a | a) | id | id | id | id
  case account.byAlias | contract.byAlias =>
    simp only [sightings, addressPath, binding_congr h]
  all_goals rfl

/-- The record that an address leads to, whichever way the addresses on the path are tagged. -/
theorem accountAt_congr {tag : Address → EntityRef} {address : Address}
    (htag : ∀ (u : View) (a : Address), u.denoted (tag a) = u.denoted (.account a))
    (h : ∀ ref ∈ v.addressPath tag address, v.denoted ref = w.denoted ref) :
    v.accountAt address = w.accountAt address := by
  have hid : ∀ {id : EntityId}, v.denoted (tag (.byId id)) = w.denoted (tag (.byId id)) →
      v.account id = w.account id := by
    intro id hd
    rw [htag, htag] at hd
    exact Option.map_injective (fun _ _ h => Entry.account.inj h) hd
  cases address with
  | byId id => exact hid (h _ List.mem_cons_self)
  | byAlias a =>
    have hb : v.binding a = w.binding a := by
      have hd := h (tag (.byAlias a)) List.mem_cons_self
      rw [htag, htag] at hd
      exact binding_congr hd
    rw [accountAt, accountAt, ← hb]
    cases hv : v.binding a with
    | none => rfl
    | some b => exact hid (h _ (by simp [addressPath, hv]))

theorem accountMetadata_congr {address : Address}
    (h : ∀ ref ∈ v.sightings (.account address), v.denoted ref = w.denoted ref) :
    v.accountMetadata address = w.accountMetadata address := by
  rw [accountMetadata, accountMetadata, accountAt_congr (fun _ _ => rfl) h]

theorem contractMetadata_congr {address : Address}
    (h : ∀ ref ∈ v.sightings (.contract address), v.denoted ref = w.denoted ref) :
    v.contractMetadata address = w.contractMetadata address := by
  have htag : ∀ (u : View) (a : Address), u.denoted (.contract a) = u.denoted (.account a) := by
    rintro u (id | a) <;> rfl
  rw [contractMetadata, contractMetadata, accountAt_congr htag h]

end View

namespace Requirement

variable {v w : View}

theorem ask_congr {r : Requirement}
    (h : ∀ subject, r.subject? = some subject → ∀ ref ∈ v.sightings subject,
      v.denoted ref = w.denoted ref) : r.ask v = r.ask w := by
  cases r with
  | supplied key => rfl
  | account role a => rw [ask, ask, View.accountMetadata_congr (h _ rfl)]
  | contract role a => rw [ask, ask, View.contractMetadata_congr (h _ rfl)]
  | token id role =>
    have hid : v.token id = w.token id :=
      Option.map_injective (fun _ _ h => Entry.token.inj h) (h _ rfl _ List.mem_cons_self)
    rw [ask, ask, View.tokenMetadata, View.tokenMetadata, hid]
  | topic id role =>
    have hid : v.topic id = w.topic id :=
      Option.map_injective (fun _ _ h => Entry.topic.inj h) (h _ rfl _ List.mem_cons_self)
    rw [ask, ask, View.topicMetadata, View.topicMetadata, hid]
  | file id =>
    have hid : v.file id = w.file id :=
      Option.map_injective (fun _ _ h => Entry.file.inj h) (h _ rfl _ List.mem_cons_self)
    rw [ask, ask, View.fileMetadata, View.fileMetadata, hid]
  | schedule id adminSigns =>
    have hid : v.schedule id = w.schedule id :=
      Option.map_injective (fun _ _ h => Entry.schedule.inj h) (h _ rfl _ List.mem_cons_self)
    rw [ask, ask, View.scheduleMetadata, View.scheduleMetadata, hid]

/-- **What a requirement asks for depends on the sightings of its subject alone.** -/
theorem judge_congr {r : Requirement}
    (h : ∀ subject, r.subject? = some subject → ∀ ref ∈ v.sightings subject,
      v.denoted ref = w.denoted ref) : r.judge v = r.judge w := by
  rw [judge, judge, ask_congr h]

end Requirement

end Countersign
