import Countersign.Ledger.Store
import Countersign.Proofs.Denotation

/-!
# What markers tell

A store stamps every change with a marker that it has not handed out before.  So a reference that
carries the same marker at two moments denotes the same entry at both, whatever has happened in
between.

## What is here

* `EntityRef.plain` and `Mutation.target` — the references that denote one entry have one plain form,
  and a change is of one entry.
* `Store.entry_apply` — what a change does to all entries.  `Store.written` is what it leaves at its
  target.
* `Store.Dated` — no entry has a marker that has not been handed out yet.
* `Store.Follows` — how the entries of a later store relate to those of an earlier one.
* `Store.Follows.entry_eq_of_marker_eq` — equal markers tell equal entries.
* `Store.Dated.run`, `Store.Follows.run` — a sequence of changes.
-/

set_option autoImplicit false

namespace Countersign

/-! ## Entries of a store -/

/-- The plain form of a reference: a contract is referred to as the account that it is. -/
def EntityRef.plain : EntityRef → EntityRef
  | .contract a => .account a
  | ref => ref

/-- The entry that a change is of. -/
def Mutation.target : Mutation → EntityRef
  | .putAccount id _ => .account (.byId id)
  | .putToken id _ => .token id
  | .putTopic id _ => .topic id
  | .putFile id _ => .file id
  | .putSchedule id _ => .schedule id
  | .bindAlias a _ => .account (.byAlias a)
  | .deleteAccount id => .account (.byId id)
  | .removeAccount id => .account (.byId id)

/-- Whether the change uses up a marker. -/
def Mutation.stamps : Mutation → Bool
  | .removeAccount _ => false
  | _ => true

namespace Store

variable {s : Store}

/-- The entry that a reference denotes. -/
def entry (s : Store) (ref : EntityRef) : Option Entry :=
  (s.view fun _ => false).denoted ref

/-- What can be read at the moment does not matter to what there is. -/
theorem denoted_view (s : Store) (unreadable : Table → Bool) (ref : EntityRef) :
    (s.view unreadable).denoted ref = s.entry ref := by
  rcases ref with (a | a) | (a | a) | id | id | id | id <;> rfl

/-- The marker that a reference carries. -/
def marker (s : Store) (ref : EntityRef) : Version :=
  View.markerOf ((s.entry ref).map Entry.version)

theorem marker_view (s : Store) (unreadable : Table → Bool) (ref : EntityRef) :
    (s.view unreadable).marker ref = s.marker ref := by
  rw [View.marker_eq, denoted_view, marker]

/-- What a change leaves at its target. -/
def written (s : Store) : Mutation → Option Entry
  | .putAccount _ r => some (.account { r with version := s.lastVersion.next })
  | .putToken _ r => some (.token { r with version := s.lastVersion.next })
  | .putTopic _ r => some (.topic { r with version := s.lastVersion.next })
  | .putFile _ r => some (.file { r with version := s.lastVersion.next })
  | .putSchedule _ r => some (.schedule { r with version := s.lastVersion.next })
  | .bindAlias _ id => some (.binding { id, version := s.lastVersion.next })
  | .deleteAccount id =>
    (s.accounts.find? id).map fun r =>
      .account { r with deleted := true, version := s.lastVersion.next }
  | .removeAccount _ => none

/-! ## One change -/

/-- **A change is of one entry**, and every other entry stays as it is. -/
theorem entry_apply (s : Store) (m : Mutation) (ref : EntityRef) :
    (s.apply m).2.entry ref = if ref.plain = m.target then s.written m else s.entry ref := by
  cases m with
  | deleteAccount target =>
    rcases hfind : s.accounts.find? target with - | r
    · -- there is nothing to delete, and the entry was missing before
      have hsame : (s.apply (.deleteAccount target)).2.entry ref = s.entry ref := by
        simp only [apply, deleteAccount, stamp, hfind]
        rcases ref with (a | a) | (a | a) | id | id | id | id <;> rfl
      have hwritten : s.written (.deleteAccount target) = none := by rw [written, hfind]; rfl
      rw [hsame, hwritten]
      split
      · next h =>
        rcases ref with (a | a) | (a | a) | id | id | id | id <;>
          simp_all [EntityRef.plain, Mutation.target, entry, view, View.denoted]
      · rfl
    · rcases ref with (a | a) | (a | a) | id | id | id | id <;>
        simp [apply, deleteAccount, stamp, hfind, entry, view, View.denoted, EntityRef.plain,
          Mutation.target, written, Assoc.find?_insert, apply_ite (Option.map _)]
  | removeAccount target =>
    rcases ref with (a | a) | (a | a) | id | id | id | id <;>
      simp [apply, removeAccount, entry, view, View.denoted, EntityRef.plain, Mutation.target,
        written, Assoc.find?_erase, apply_ite (Option.map _)]
  | putAccount target r | putToken target r | putTopic target r | putFile target r
  | putSchedule target r | bindAlias target r =>
    rcases ref with (a | a) | (a | a) | id | id | id | id <;>
      simp [apply, putAccount, putToken, putTopic, putFile, putSchedule, bindAlias, stamp, entry,
        view, View.denoted, EntityRef.plain, Mutation.target, written, Assoc.find?_insert,
        apply_ite (Option.map _)]

theorem lastVersion_apply (s : Store) (m : Mutation) :
    (s.apply m).2.lastVersion = if m.stamps then s.lastVersion.next else s.lastVersion := by
  cases m with
  | deleteAccount id =>
    simp only [apply, deleteAccount, stamp, Mutation.stamps]
    rcases s.accounts.find? id with - | r <;> rfl
  | _ => rfl

/-- What a change writes carries the marker that it uses up. -/
theorem version_of_written {m : Mutation} {e : Entry} (h : s.written m = some e) :
    m.stamps = true ∧ e.version = s.lastVersion.next := by
  cases m with
  | deleteAccount id =>
    obtain ⟨r, -, rfl⟩ := Option.map_eq_some_iff.1 h
    exact ⟨rfl, rfl⟩
  | removeAccount id => simp [written] at h
  | _ =>
    obtain rfl := Option.some.inj h
    exact ⟨rfl, rfl⟩

end Store

/-- The number behind a marker. -/
def Version.rank (v : Version) : Nat := v.val.toNat

theorem Version.rank_next {v : Version} (h : v.rank + 1 < UInt64.size) : v.next.rank = v.rank + 1 := by
  rw [rank, next, UInt64.toNat_add]
  exact Nat.mod_eq_of_lt h

theorem Version.rank_inj {v w : Version} : v.rank = w.rank ↔ v = w := by
  obtain ⟨a⟩ := v
  obtain ⟨b⟩ := w
  simp [rank, UInt64.toNat_inj]

namespace Store

variable {s earlier later : Store}

/-! ## Markers in use -/

/-- The store has handed out at most `count` markers, and every entry carries one of them. -/
structure Dated (s : Store) (count : Nat) : Prop where
  handed_out : s.lastVersion.rank ≤ count
  positive : ∀ ref e, s.entry ref = some e → 0 < e.version.rank
  le_last : ∀ ref e, s.entry ref = some e → e.version.rank ≤ s.lastVersion.rank

theorem dated_fresh : fresh.Dated 0 where
  handed_out := Nat.le_refl 0
  positive := by
    rintro ((a | a) | (a | a) | id | id | id | id) e h <;> simp [entry, view, View.denoted, fresh] at h
  le_last := by
    rintro ((a | a) | (a | a) | id | id | id | id) e h <;> simp [entry, view, View.denoted, fresh] at h

/-- How a later store relates to an earlier one: an entry is the earlier one, or is gone, or carries a
marker that the earlier store had not handed out. -/
structure Follows (later earlier : Store) : Prop where
  last_le : earlier.lastVersion.rank ≤ later.lastVersion.rank
  entry_cases : ∀ ref, later.entry ref = earlier.entry ref ∨ later.entry ref = none ∨
    ∃ e, later.entry ref = some e ∧ earlier.lastVersion.rank < e.version.rank

theorem follows_refl (s : Store) : s.Follows s :=
  ⟨Nat.le_refl _, fun _ => .inl rfl⟩

/-- One change, as long as there are markers left. -/
theorem lastVersion_rank_apply {m : Mutation} (h : s.lastVersion.rank + 1 < UInt64.size) :
    (s.apply m).2.lastVersion.rank =
      if m.stamps then s.lastVersion.rank + 1 else s.lastVersion.rank := by
  rw [lastVersion_apply, ← Version.rank_next h]
  split <;> rfl

theorem Dated.apply {count : Nat} (h : s.Dated count) (hcount : count + 1 < UInt64.size)
    (m : Mutation) : (s.apply m).2.Dated (count + 1) := by
  have hlt : s.lastVersion.rank + 1 < UInt64.size := by have := h.handed_out; omega
  have hlast := lastVersion_rank_apply (m := m) hlt
  have hentry : ∀ ref e, (s.apply m).2.entry ref = some e →
      0 < e.version.rank ∧ e.version.rank ≤ (s.apply m).2.lastVersion.rank := by
    intro ref e he
    rw [entry_apply] at he
    rw [hlast]
    split at he
    · obtain ⟨hstamps, hversion⟩ := version_of_written he
      rw [hversion, Version.rank_next hlt, if_pos hstamps]
      omega
    · have hpos := h.positive ref e he
      have hle := h.le_last ref e he
      split <;> omega
  refine ⟨?_, fun ref e he => (hentry ref e he).1, fun ref e he => (hentry ref e he).2⟩
  have := h.handed_out
  rw [hlast]
  split <;> omega

theorem Follows.apply (h : later.Follows earlier) (hlt : later.lastVersion.rank + 1 < UInt64.size)
    (m : Mutation) : (later.apply m).2.Follows earlier := by
  have hlast := lastVersion_rank_apply (m := m) hlt
  have hle := h.last_le
  refine ⟨by rw [hlast]; split <;> omega, fun ref => ?_⟩
  rw [entry_apply]
  split
  · rcases hwritten : later.written m with - | e
    · exact .inr (.inl rfl)
    · obtain ⟨-, hversion⟩ := version_of_written hwritten
      exact .inr (.inr ⟨e, rfl, by rw [hversion, Version.rank_next hlt]; omega⟩)
  · exact h.entry_cases ref

/-! ## Equal markers -/

/-- **Equal markers tell equal entries.** -/
theorem Follows.entry_eq_of_marker_eq {count : Nat} (h : later.Follows earlier)
    (hdated : earlier.Dated count) {ref : EntityRef} (hm : later.marker ref = earlier.marker ref) :
    later.entry ref = earlier.entry ref := by
  rw [← Version.rank_inj, marker, marker] at hm
  rcases h.entry_cases ref with heq | hnone | ⟨e, he, hnew⟩
  · exact heq
  · -- the entry is gone, so it must have been missing before
    rcases hearlier : earlier.entry ref with - | e
    · exact hnone
    · have hpos := hdated.positive ref e hearlier
      rw [hnone, hearlier] at hm
      change 0 = e.version.rank at hm
      omega
  · -- the entry is new, and the earlier store had not handed out its marker
    rw [he] at hm
    change e.version.rank = _ at hm
    rcases hearlier : earlier.entry ref with - | e'
    · rw [hearlier] at hm
      change e.version.rank = 0 at hm
      omega
    · have hle := hdated.le_last ref e' hearlier
      rw [hearlier] at hm
      change e.version.rank = e'.version.rank at hm
      omega

/-! ## A sequence of changes -/

theorem Dated.run {count : Nat} (h : s.Dated count) {ms : List Mutation}
    (hcount : count + ms.length < UInt64.size) : (s.run ms).Dated (count + ms.length) := by
  induction ms generalizing s count with
  | nil => exact h
  | cons m ms ih =>
    rw [List.length_cons] at hcount ⊢
    have := ih (h.apply (by omega) m) (by omega)
    rwa [Nat.add_right_comm, Nat.add_assoc] at this

theorem Follows.run {count : Nat} (hfollows : later.Follows earlier) (h : later.Dated count)
    {ms : List Mutation} (hcount : count + ms.length < UInt64.size) :
    (later.run ms).Follows earlier := by
  induction ms generalizing later count with
  | nil => exact hfollows
  | cons m ms ih =>
    rw [List.length_cons] at hcount
    have hlt : later.lastVersion.rank + 1 < UInt64.size := by have := h.handed_out; omega
    exact ih (hfollows.apply hlt m) (h.apply (by omega) m) (by omega)

end Store

end Countersign
