import Countersign.Proofs.Markers

/-!
# Markers do not lie

Six tables share one counter.  So each marker is handed out once, to one entry, and an entry that is
deleted, removed or put back again never comes to carry a marker that it has carried before.

## What is here

* `Store.receipts` — what came of each change of a sequence; `Store.pairwise_versions` says that the
  markers among them increase.
* `Store.Distinct` — no two entries carry the same marker; every change keeps it so.
* `Mutation.Misses` — the change is of an account that is not there.
* `Store.marker_apply_ne_iff` — which references carry another marker after a change.
* `Store.markers_tell` — a whole sequence of changes, and any two moments of it.
-/

set_option autoImplicit false

namespace Countersign

/-- The marker that a change answers with. -/
def Receipt.version? : Receipt → Option Version
  | .stamped version => some version
  | .deleted _ => none
  | .removed _ => none

/-- The change is to delete or to remove an account that is not there. -/
def Mutation.Misses (s : Store) : Mutation → Prop
  | .deleteAccount id => s.accounts.find? id = none
  | .removeAccount id => s.accounts.find? id = none
  | _ => False

instance (s : Store) : (m : Mutation) → Decidable (m.Misses s)
  | .deleteAccount id => inferInstanceAs (Decidable (s.accounts.find? id = none))
  | .removeAccount id => inferInstanceAs (Decidable (s.accounts.find? id = none))
  | .putAccount _ _ | .putToken _ _ | .putTopic _ _ | .putFile _ _ | .putSchedule _ _
  | .bindAlias _ _ => .isFalse id

namespace Store

variable {s : Store} {count : Nat} {m : Mutation} {ms : List Mutation} {ref : EntityRef}

theorem run_append (s : Store) (ms more : List Mutation) :
    s.run (ms ++ more) = (s.run ms).run more := by
  rw [run, run, run, List.foldl_append]

/-- A reference and its plain form denote the same entry. -/
theorem entry_plain (s : Store) (ref : EntityRef) : s.entry ref.plain = s.entry ref := by
  rcases ref with (a | a) | (a | a) | id | id | id | id <;> rfl

/-- Whoever can read the tables sees the marker of a reference. -/
theorem versionOf_view (s : Store) (ref : EntityRef) :
    (s.view fun _ => false).versionOf ref = .ok (s.marker ref) := by
  rw [View.Readable.versionOf_eq fun _ => rfl, marker_view]

/-! ## The markers handed out -/

/-- What came of each change of a sequence. -/
def receipts (s : Store) : List Mutation → List Receipt
  | [] => []
  | m :: ms => (s.apply m).1 :: (s.apply m).2.receipts ms

/-- The markers that a sequence of changes answers with. -/
def versions (s : Store) (ms : List Mutation) : List Version :=
  (s.receipts ms).filterMap Receipt.version?

theorem version?_apply {v : Version} (h : (s.apply m).1.version? = some v) :
    m.stamps = true ∧ v = s.lastVersion.next := by
  cases m with
  | deleteAccount id | removeAccount id => simp [apply, Receipt.version?] at h
  | _ =>
    obtain rfl := Option.some.inj h
    exact ⟨rfl, rfl⟩

theorem versions_cons (s : Store) (m : Mutation) (ms : List Mutation) :
    s.versions (m :: ms) = (s.apply m).1.version?.toList ++ (s.apply m).2.versions ms := by
  rw [versions, versions, receipts, List.filterMap_cons]
  rcases (s.apply m).1.version? with - | v <;> rfl

/-- A change leaves no fewer markers handed out. -/
theorem rank_le_rank_apply (h : s.lastVersion.rank + 1 < UInt64.size) (m : Mutation) :
    s.lastVersion.rank ≤ (s.apply m).2.lastVersion.rank := by
  rw [lastVersion_rank_apply h]
  split <;> omega

/-- Every marker that is handed out comes after those handed out before. -/
theorem rank_lt_of_mem_versions (h : s.lastVersion.rank + ms.length < UInt64.size) :
    ∀ v ∈ s.versions ms, s.lastVersion.rank < v.rank := by
  induction ms generalizing s with
  | nil => simp [versions, receipts]
  | cons m ms ih =>
    rw [List.length_cons] at h
    have hlt : s.lastVersion.rank + 1 < UInt64.size := by omega
    have hlast := lastVersion_rank_apply (m := m) hlt
    have hle := rank_le_rank_apply hlt m
    rw [versions_cons]
    intro v hv
    rcases List.mem_append.1 hv with hv | hv
    · obtain ⟨-, rfl⟩ := version?_apply (Option.mem_toList.1 hv)
      rw [Version.rank_next hlt]
      omega
    · have hrest := ih (by rw [hlast]; split <;> omega) v hv
      omega

/-- **The markers handed out increase.** -/
theorem pairwise_versions (h : s.lastVersion.rank + ms.length < UInt64.size) :
    (s.versions ms).Pairwise fun v w => v.rank < w.rank := by
  induction ms generalizing s with
  | nil => exact .nil
  | cons m ms ih =>
    rw [List.length_cons] at h
    have hlt : s.lastVersion.rank + 1 < UInt64.size := by omega
    have hlast := lastVersion_rank_apply (m := m) hlt
    have hrest : (s.apply m).2.lastVersion.rank + ms.length < UInt64.size := by
      rw [hlast]
      split <;> omega
    rw [versions_cons, List.pairwise_append]
    refine ⟨?_, ih hrest, fun v hv w hw => ?_⟩
    · rcases (s.apply m).1.version? with - | v
      · exact .nil
      · exact List.pairwise_singleton _ v
    · obtain ⟨hstamps, rfl⟩ := version?_apply (Option.mem_toList.1 hv)
      have hw := rank_lt_of_mem_versions hrest w hw
      rw [hlast, if_pos hstamps] at hw
      rw [Version.rank_next hlt]
      omega

/-! ## No marker stands twice -/

/-- No two entries carry the same marker. -/
def Distinct (s : Store) : Prop :=
  ∀ ref ref' e e', s.entry ref = some e → s.entry ref' = some e' → e.version = e'.version →
    ref.plain = ref'.plain

theorem distinct_fresh : fresh.Distinct := by
  intro ref ref' e e' he
  have hpos := dated_fresh.positive ref e he
  have hle := dated_fresh.le_last ref e he
  have hlast := dated_fresh.handed_out
  omega

theorem Distinct.apply (h : s.Distinct) (hdated : s.Dated count) (hcount : count + 1 < UInt64.size)
    (m : Mutation) : (s.apply m).2.Distinct := by
  have hlt : s.lastVersion.rank + 1 < UInt64.size := by have := hdated.handed_out; omega
  -- what was there before carries an older marker than what is written now
  have hold {ref : EntityRef} {e e' : Entry} (he : s.entry ref = some e)
      (he' : s.written m = some e') : e.version ≠ e'.version := by
    intro heq
    have hle := hdated.le_last ref e he
    rw [heq, (version_of_written he').2, Version.rank_next hlt] at hle
    omega
  intro ref ref' e e' he he' hv
  rw [entry_apply] at he he'
  split at he <;> split at he'
  · next hr hr' => rw [hr, hr']
  · exact absurd hv.symm (hold he' he)
  · exact absurd hv (hold he he')
  · exact h ref ref' e e' he he' hv

theorem Distinct.run (h : s.Distinct) (hdated : s.Dated count)
    (hcount : count + ms.length < UInt64.size) : (s.run ms).Distinct := by
  induction ms generalizing s count with
  | nil => exact h
  | cons m ms ih =>
    rw [List.length_cons] at hcount
    exact ih (h.apply hdated (by omega) m) (hdated.apply (by omega) m) (by omega)

/-! ## What a change changes -/

/-- A change that misses leaves nothing where nothing was; any other leaves something, or takes away
what was there. -/
theorem misses_iff : m.Misses s ↔ s.entry m.target = none ∧ s.written m = none := by
  cases m with
  | deleteAccount id | removeAccount id =>
    simp [Mutation.Misses, Mutation.target, written, entry, view, View.denoted]
  | _ => simp [Mutation.Misses, written]

theorem marker_eq_absent_iff (hdated : s.Dated count) :
    s.marker ref = .absent ↔ s.entry ref = none := by
  rw [marker]
  rcases he : s.entry ref with - | e
  · exact iff_of_true rfl rfl
  · have hpos := hdated.positive ref e he
    refine iff_of_false (fun h => ?_) (by simp)
    rw [← Version.rank_inj] at h
    change e.version.rank = 0 at h
    omega

/-- **A change is seen at the references that denote its target**, unless it misses, and at no
other. -/
theorem marker_apply_ne_iff (hdated : s.Dated count) (hcount : count + 1 < UInt64.size)
    (m : Mutation) (ref : EntityRef) :
    (s.apply m).2.marker ref ≠ s.marker ref ↔ ¬ m.Misses s ∧ ref.plain = m.target := by
  have hlt : s.lastVersion.rank + 1 < UInt64.size := by have := hdated.handed_out; omega
  have hmarker : (s.apply m).2.marker ref =
      View.markerOf ((if ref.plain = m.target then s.written m else s.entry ref).map Entry.version) := by
    rw [marker, entry_apply]
  by_cases htarget : ref.plain = m.target
  · have hentry : s.entry ref = s.entry m.target := by rw [← htarget, entry_plain]
    rw [hmarker, if_pos htarget, marker, hentry, misses_iff, not_and]
    rcases hwritten : s.written m with - | e
    · rcases hold : s.entry m.target with - | e
      · simp
      · -- the entry is gone, and its marker was not the absent one
        have hpos := hdated.positive _ e hold
        refine iff_of_true (fun h => ?_) ⟨by simp, htarget⟩
        rw [← Version.rank_inj] at h
        change 0 = e.version.rank at h
        omega
    · -- the marker written has not been handed out before
      refine iff_of_true (fun h => ?_) ⟨by simp, htarget⟩
      have hnew : e.version.rank = s.lastVersion.rank + 1 := by
        rw [(version_of_written hwritten).2, Version.rank_next hlt]
      rw [← Version.rank_inj] at h
      change e.version.rank = _ at h
      rcases hold : s.entry m.target with - | e'
      · rw [hold] at h
        change e.version.rank = 0 at h
        omega
      · rw [hold] at h
        change e.version.rank = e'.version.rank at h
        have hle := hdated.le_last _ e' hold
        omega
  · rw [hmarker, if_neg htarget, marker]
    simp [htarget]

/-! ## A sequence of changes -/

/-- Equal markers at two moments of a sequence tell equal entries. -/
theorem entry_run_eq_of_marker_eq {past later : List Mutation} (hpast : past <+: ms)
    (hlater : later <+: ms) (hms : ms.length < UInt64.size)
    (h : (fresh.run past).marker ref = (fresh.run later).marker ref) :
    (fresh.run past).entry ref = (fresh.run later).entry ref := by
  have forward {past later : List Mutation} (hlater : later <+: ms) (hle : past <+: later)
      (h : (fresh.run later).marker ref = (fresh.run past).marker ref) :
      (fresh.run later).entry ref = (fresh.run past).entry ref := by
    obtain ⟨between, rfl⟩ := hle
    have hlen := hlater.length_le
    rw [List.length_append] at hlen
    have hdated : (fresh.run past).Dated (0 + past.length) := dated_fresh.run (by omega)
    rw [run_append] at h ⊢
    exact ((follows_refl _).run hdated (by omega)).entry_eq_of_marker_eq hdated h
  rcases List.prefix_or_prefix_of_prefix hpast hlater with hle | hle
  · exact (forward hlater hle h.symm).symm
  · exact forward hpast hle h

/-- **Markers never lie.**  Take any sequence of fewer changes than there are markers, on a fresh
store.  The markers that it answers with increase, and none of them is the absent one.  At every
moment no two entries carry the same marker, and the next change is seen at the references that denote
its target and at no other, or nowhere if it is of an account that is not there.  Whenever a reference
carries the same marker at two moments, it denotes the same entry at both, and none at all if that is
the absent marker. -/
theorem markers_tell (ms : List Mutation) (hms : ms.length < UInt64.size - 1) :
    ((fresh.versions ms).Pairwise (fun v w => v.val < w.val) ∧ .absent ∉ fresh.versions ms) ∧
      ∀ past, past <+: ms →
        (∀ ref, ((fresh.run past).view fun _ => false).versionOf ref =
          .ok ((fresh.run past).marker ref)) ∧
        (fresh.run past).Distinct ∧
        (∀ m rest ref, ms = past ++ m :: rest →
          ((fresh.run (past ++ [m])).marker ref ≠ (fresh.run past).marker ref ↔
            ¬ m.Misses (fresh.run past) ∧ ref.plain = m.target)) ∧
        ∀ later, later <+: ms → ∀ ref,
          (fresh.run past).marker ref = (fresh.run later).marker ref →
          (fresh.run past).entry ref = (fresh.run later).entry ref ∧
            ((fresh.run past).marker ref = .absent → (fresh.run past).entry ref = none) := by
  have hsize : ms.length < UInt64.size := Nat.lt_of_lt_of_le hms (by decide)
  have hfresh : fresh.lastVersion.rank + ms.length < UInt64.size := by
    have := dated_fresh.handed_out
    omega
  refine ⟨⟨?_, fun habsent => ?_⟩, fun past hpast => ?_⟩
  · exact (pairwise_versions hfresh).imp fun h => UInt64.lt_iff_toNat_lt.2 h
  · have hpos := rank_lt_of_mem_versions hfresh _ habsent
    change _ < 0 at hpos
    omega
  · have hlen := hpast.length_le
    have hdated : (fresh.run past).Dated (0 + past.length) := dated_fresh.run (by omega)
    refine ⟨versionOf_view _, distinct_fresh.run dated_fresh (by omega), fun m rest ref heq => ?_,
      fun later hlater ref h => ⟨entry_run_eq_of_marker_eq hpast hlater hsize h,
        (marker_eq_absent_iff hdated).1⟩⟩
    rw [run_append]
    refine marker_apply_ne_iff hdated ?_ m ref
    rw [heq, List.length_append, List.length_cons] at hsize
    omega

/-- An account is removed and put back just as it was.  The removal is seen at the contract of that
number as well, and what is put back has a marker of its own. -/
theorem markers_tell_of_put_back :
    let id : EntityId := ⟨0, 0, 10⟩
    let record : AccountRecord := { key := .ed25519 (.replicate 32 7) }
    let ms : List Mutation :=
      [.putAccount id record, .bindAlias ⟨[1]⟩ id, .deleteAccount ⟨0, 0, 11⟩, .removeAccount id,
        .putAccount id record]
    ms.length < UInt64.size - 1 ∧ fresh.versions ms = [⟨1⟩, ⟨2⟩, ⟨4⟩] ∧
      (fresh.versions ms).Pairwise (fun v w => v.val < w.val) ∧ (fresh.run ms).Distinct ∧
      (fresh.run (ms.take 4)).marker (.contract (.byId id)) ≠
        (fresh.run (ms.take 3)).marker (.contract (.byId id)) ∧
      (fresh.run (ms.take 1)).entry (.account (.byId id)) =
        (fresh.run (ms.take 3)).entry (.account (.byId id)) ∧
      (fresh.run (ms.take 1)).marker (.account (.byId id)) ≠
        (fresh.run ms).marker (.account (.byId id)) := by
  intro id record ms
  have hms : ms.length < UInt64.size - 1 := by decide
  obtain ⟨⟨hincreasing, -⟩, hmoments⟩ := markers_tell ms hms
  obtain ⟨-, hdistinct, -⟩ := hmoments ms List.prefix_rfl
  obtain ⟨-, -, hchange, -⟩ := hmoments (ms.take 3) (List.take_prefix 3 ms)
  obtain ⟨-, -, -, htell⟩ := hmoments (ms.take 1) (List.take_prefix 1 ms)
  refine ⟨hms, by decide, hincreasing, hdistinct, ?_, ?_, by decide⟩
  · exact (hchange (.removeAccount id) _ (.contract (.byId id)) rfl).2 ⟨by decide, rfl⟩
  · exact (htell (ms.take 3) (List.take_prefix 3 ms) _ (by decide)).1

end Store

end Countersign
