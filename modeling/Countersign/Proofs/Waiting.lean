import Countersign.SpanCache
import Mathlib.Data.List.Induction

/-!
# The spans that wait

A span cache keeps its spans, the count of occupied places and its statistics apart, and every
operation changes some of them.  They never drift apart: whatever is done to a cache, one operation
after the other, it is a map of bounded size from which each span is taken once.

## What is here

* `SpanCache.find?_insert_eq`, `find?_take`, `find?_purge` — which spans wait after an operation.
* `SpanCache.size_insert_snd`, `size_take_snd`, `purge_fst_add_size` — how many spans those are.
* `SpanCache.Balanced` — the counts agree with the spans; every operation keeps it so.
* `SpanCache.Call`, `SpanCache.run` — the operations as data, and a sequence of them.
* `SpanCache.Deposited` — a span was put in at some point of a sequence, and has been left there since.
* `SpanCache.find?_run_eq_some_iff` — the spans that wait are the ones deposited.
* `SpanCache.boundedSingleUse_run` — what holds of a new cache after any sequence.
-/

set_option autoImplicit false

namespace Countersign

namespace SpanCache

variable {κ α : Type} [DecidableEq κ] {c : SpanCache κ α} {k : κ} {s : Span α}

/-! ## Which spans wait after an operation -/

theorem insert_fst_eq_inserted_iff :
    (c.insert k s).1 = .inserted ↔ c.occupied < c.capacity ∧ c.spans.find? k = none := by
  rw [insert, contains, Assoc.contains]
  split
  · next hfull =>
    have hnot : ¬ c.occupied < c.capacity := Nat.not_lt.2 hfull
    simp [hnot]
  · next hroom =>
    have hlt : c.occupied < c.capacity := Nat.lt_of_not_le hroom
    rcases c.spans.find? k with - | waiting <;> simp [hlt]

/-- Only a span that is accepted changes the cache. -/
theorem find?_insert_eq (c : SpanCache κ α) (k : κ) (s : Span α) (k' : κ) :
    (c.insert k s).2.spans.find? k' =
      if k' = k ∧ (c.insert k s).1 = .inserted then some s else c.spans.find? k' := by
  rw [insert]
  split
  · simp
  · split
    · simp
    · simp [Assoc.find?_insert]

/-- A span waits after an insertion if it did before, or if it is the one put in. -/
theorem find?_insert {k' : κ} {s' : Span α} (h : (c.insert k s).2.spans.find? k' = some s') :
    c.spans.find? k' = some s' ∨ k' = k ∧ s' = s := by
  rw [find?_insert_eq] at h
  split at h
  · next hk => exact .inr ⟨hk.1, (Option.some.inj h).symm⟩
  · exact .inl h

theorem find?_take (c : SpanCache κ α) (k k' : κ) :
    (c.take k).2.spans.find? k' = if k' = k then none else c.spans.find? k' := by
  rw [take]
  split
  · next h =>
    split
    · next hk => rw [hk, h]
    · rfl
  · exact c.spans.find?_erase k k'

@[simp] theorem take_fst (c : SpanCache κ α) (k : κ) : (c.take k).1 = c.spans.find? k := by
  rw [take]
  split <;> next h => rw [h]

theorem take_snd_of_eq_none (h : c.spans.find? k = none) : (c.take k).2 = c := by
  simp only [take, h]

theorem find?_purge (c : SpanCache κ α) (now : Nat) (k : κ) :
    (c.purge now).2.spans.find? k =
      (c.spans.find? k).filter fun s => !isExpired c.ttl now s :=
  c.spans.find?_keep _ k

/-! ## How many spans wait after an operation -/

theorem size_insert_of_not_contains (h : ¬ c.contains k = true) (s : Span α) :
    (c.spans.insert k s).size = c.size + 1 :=
  Assoc.size_insert (by simpa [contains, Assoc.contains] using h) s

theorem size_insert_snd (c : SpanCache κ α) (k : κ) (s : Span α) :
    (c.insert k s).2.size = c.size + if (c.insert k s).1 = .inserted then 1 else 0 := by
  rw [insert]
  split
  · rfl
  · split
    · rfl
    · next hnone => exact size_insert_of_not_contains hnone s

theorem size_take_snd (h : c.spans.find? k = some s) : (c.take k).2.size + 1 = c.size := by
  simp only [take, h]
  exact Assoc.size_erase h

omit [DecidableEq κ] in
/-- What a purge removes and what it keeps are all that there was. -/
theorem purge_fst_add_size (c : SpanCache κ α) (now : Nat) :
    (c.purge now).1 + (c.purge now).2.size = c.size := by
  have hle : (c.spans.keep fun _ s => !isExpired c.ttl now s).size ≤ c.spans.size :=
    List.length_filter_le _ _
  simp only [purge, size]
  omega

omit [DecidableEq κ] in
/-- A purge says how many spans have waited too long. -/
theorem purge_fst (c : SpanCache κ α) (now : Nat) :
    (c.purge now).1 = c.spans.entries.countP fun e => isExpired c.ttl now e.2 := by
  have hsum := c.purge_fst_add_size now
  have hsplit := List.length_eq_countP_add_countP (fun e => isExpired c.ttl now e.2)
    (l := c.spans.entries)
  have hkept : (c.purge now).2.size =
      c.spans.entries.countP fun e => decide ¬ isExpired c.ttl now e.2 = true := by
    simp [purge, size, Assoc.size, Assoc.keep, List.countP_eq_length_filter]
  change _ = c.spans.entries.length at hsum
  omega

/-! ## The counts -/

/-- The counts agree with the spans: a place is occupied for each, there are no more of them than the
capacity allows, and whatever was put in has been taken, has expired, or is still there. -/
structure Balanced (c : SpanCache κ α) : Prop where
  occupied_eq : c.occupied = c.size
  size_le : c.size ≤ c.capacity
  inserted_eq : c.stats.inserted = c.stats.taken + c.stats.expired + c.size

omit [DecidableEq κ] in
theorem balanced_new (capacity ttl : Nat) : (new capacity ttl : SpanCache κ α).Balanced :=
  ⟨rfl, Nat.zero_le _, rfl⟩

theorem Balanced.insert (h : c.Balanced) (k : κ) (s : Span α) : (c.insert k s).2.Balanced := by
  obtain ⟨hocc, hle, hins⟩ := h
  rw [SpanCache.insert]
  split
  · exact ⟨hocc, hle, hins⟩
  · next hroom =>
    split
    · exact ⟨hocc, hle, hins⟩
    · next hnone =>
      have hsize := size_insert_of_not_contains hnone s
      refine ⟨?_, ?_, ?_⟩ <;> simp only [size] at * <;> omega

theorem Balanced.take (h : c.Balanced) (k : κ) : (c.take k).2.Balanced := by
  obtain ⟨hocc, hle, hins⟩ := h
  rw [SpanCache.take]
  split
  · exact ⟨hocc, hle, hins⟩
  · next hsome =>
    have hsize := Assoc.size_erase hsome
    refine ⟨?_, ?_, ?_⟩ <;> simp only [size] at * <;> omega

omit [DecidableEq κ] in
theorem Balanced.purge (h : c.Balanced) (now : Nat) : (c.purge now).2.Balanced := by
  obtain ⟨hocc, hle, hins⟩ := h
  have hsum := c.purge_fst_add_size now
  refine ⟨?_, ?_, ?_⟩
  · change c.occupied - (c.purge now).1 = _
    omega
  · change _ ≤ c.capacity
    omega
  · change c.stats.inserted = c.stats.taken + (c.stats.expired + (c.purge now).1) + _
    omega

/-! ## Sequences of operations -/

/-- One operation on a cache. -/
inductive Call (κ α : Type) where
  | insert (k : κ) (s : Span α)
  | take (k : κ)
  | contains (k : κ)
  | purge (now : Nat)
deriving DecidableEq, Inhabited

namespace Call

/-- Whether the call takes a span that waits under `k` out, or purges it. -/
def Removes (ttl : Nat) (k : κ) (s : Span α) : Call κ α → Prop
  | insert _ _ => False
  | take k' => k' = k
  | contains _ => False
  | purge now => isExpired ttl now s = true

/-- Whether the call puts a span in, or tries to. -/
def IsInsert : Call κ α → Prop
  | insert _ _ => True
  | _ => False

end Call

/-- The cache after a call. -/
def call (c : SpanCache κ α) : Call κ α → SpanCache κ α
  | .insert k s => (c.insert k s).2
  | .take k => (c.take k).2
  | .contains _ => c
  | .purge now => (c.purge now).2

/-- The cache after calls one after the other. -/
def run (c : SpanCache κ α) (calls : List (Call κ α)) : SpanCache κ α :=
  calls.foldl call c

theorem run_concat (c : SpanCache κ α) (calls : List (Call κ α)) (x : Call κ α) :
    c.run (calls ++ [x]) = (c.run calls).call x := by
  rw [run, List.foldl_append]
  rfl

theorem limits_call (c : SpanCache κ α) (x : Call κ α) :
    (c.call x).capacity = c.capacity ∧ (c.call x).ttl = c.ttl := by
  cases x with
  | insert k s =>
    rw [call, insert]
    split
    · exact ⟨rfl, rfl⟩
    · split <;> exact ⟨rfl, rfl⟩
  | take k =>
    rw [call, take]
    split <;> exact ⟨rfl, rfl⟩
  | contains k | purge now => exact ⟨rfl, rfl⟩

theorem limits_run (c : SpanCache κ α) (calls : List (Call κ α)) :
    (c.run calls).capacity = c.capacity ∧ (c.run calls).ttl = c.ttl := by
  induction calls generalizing c with
  | nil => exact ⟨rfl, rfl⟩
  | cons x calls ih =>
    obtain ⟨hcapacity, httl⟩ := ih (c.call x)
    exact ⟨hcapacity.trans (c.limits_call x).1, httl.trans (c.limits_call x).2⟩

theorem Balanced.call (h : c.Balanced) (x : Call κ α) : (c.call x).Balanced := by
  cases x with
  | insert k s => exact h.insert k s
  | take k => exact h.take k
  | contains k => exact h
  | purge now => exact h.purge now

theorem Balanced.run (h : c.Balanced) (calls : List (Call κ α)) : (c.run calls).Balanced := by
  induction calls generalizing c with
  | nil => exact h
  | cons x calls ih => exact ih (h.call x)

/-- **A span waits after a call** if it has just been accepted, or waited before and was not removed. -/
theorem find?_call_eq_some_iff (x : Call κ α) :
    (c.call x).spans.find? k = some s ↔
      (x = .insert k s ∧ (c.insert k s).1 = .inserted) ∨
        (c.spans.find? k = some s ∧ ¬ x.Removes c.ttl k s) := by
  cases x with
  | insert k' s' =>
    rw [call, find?_insert_eq]
    by_cases hins : k = k' ∧ (c.insert k' s').1 = .inserted
    · obtain ⟨rfl, hins⟩ := hins
      have hnone := (insert_fst_eq_inserted_iff.1 hins).2
      simp only [hins, and_self, if_true, hnone, Call.insert.injEq, true_and]
      constructor
      · intro h
        obtain rfl := Option.some.inj h
        exact .inl ⟨rfl, hins⟩
      · rintro (⟨rfl, -⟩ | ⟨h, -⟩)
        · rfl
        · cases h
    · have hother : ¬ (Call.insert k' s' = .insert k s ∧ (c.insert k s).1 = .inserted) := by
        rintro ⟨heq, hacc⟩
        cases heq
        exact hins ⟨rfl, hacc⟩
      rw [if_neg hins, or_iff_right hother]
      simp [Call.Removes]
  | take k' =>
    rw [call, find?_take]
    by_cases hk : k = k'
    · simp [hk, Call.Removes]
    · simp [hk, Call.Removes, eq_comm (a := k')]
  | contains k' => simp [call, Call.Removes]
  | purge now => simp [call, find?_purge, Call.Removes, Option.filter_eq_some_iff]

/-! ## The spans deposited -/

/-- Some call of a sequence put the span in, after the calls `past`.  In the calls `since` none was
put in for the same transaction, and the span was neither taken out nor purged. -/
structure Deposited (c : SpanCache κ α) (calls : List (Call κ α)) (k : κ) (s : Span α)
    (past since : List (Call κ α)) : Prop where
  calls_eq : calls = past ++ .insert k s :: since
  accepted : ((c.run past).insert k s).1 = .inserted
  last : ∀ earlier s' later, since = earlier ++ .insert k s' :: later →
    ((c.run (past ++ .insert k s :: earlier)).insert k s').1 ≠ .inserted
  left : ∀ x ∈ since, ¬ x.Removes c.ttl k s

omit [DecidableEq κ] in
/-- Where a sequence is split, the last call is either the one at the split or comes after it. -/
theorem concat_eq_append_cons {calls past since : List (Call κ α)} {x y : Call κ α}
    (h : calls ++ [x] = past ++ y :: since) :
    (past = calls ∧ y = x ∧ since = []) ∨
      ∃ since', since = since' ++ [x] ∧ calls = past ++ y :: since' := by
  rcases List.eq_nil_or_concat since with rfl | ⟨since, z, rfl⟩
  · obtain ⟨rfl, hx⟩ := List.append_inj' h rfl
    exact .inl ⟨rfl, (List.singleton_inj.1 hx).symm, rfl⟩
  · have h : calls ++ [x] = (past ++ y :: since) ++ [z] := by simpa using h
    obtain ⟨hcalls, hx⟩ := List.append_inj' h rfl
    obtain rfl := List.singleton_inj.1 hx
    exact .inr ⟨since, List.concat_eq_append, hcalls⟩

section deposited

variable {calls past since : List (Call κ α)} {x : Call κ α}

/-- A span that waits after some calls, and that the next call leaves there, is still deposited: what
is put in for its transaction meanwhile is not accepted. -/
theorem Deposited.concat (h : c.Deposited calls k s past since)
    (hwaits : (c.run calls).spans.find? k = some s) (hleft : ¬ x.Removes c.ttl k s) :
    c.Deposited (calls ++ [x]) k s past (since ++ [x]) where
  calls_eq := by rw [h.calls_eq, List.append_assoc, List.cons_append]
  accepted := h.accepted
  last := by
    intro earlier s' later heq
    rcases concat_eq_append_cons heq with ⟨rfl, rfl, rfl⟩ | ⟨later, rfl, hsince⟩
    · rw [← h.calls_eq, ne_eq, insert_fst_eq_inserted_iff, hwaits]
      simp
    · exact h.last earlier s' later hsince
  left := List.forall_mem_append.2 ⟨h.left, List.forall_mem_singleton.2 hleft⟩

/-- A span deposited in some calls was deposited before the last one, unless that one put it in. -/
theorem Deposited.of_concat (h : c.Deposited (calls ++ [x]) k s past since) :
    (x = .insert k s ∧ past = calls) ∨
      (¬ x.Removes c.ttl k s ∧ ∃ since', c.Deposited calls k s past since') := by
  rcases concat_eq_append_cons h.calls_eq with ⟨rfl, rfl, -⟩ | ⟨since, rfl, hcalls⟩
  · exact .inl ⟨rfl, rfl⟩
  · refine .inr ⟨h.left x (List.mem_append_right _ List.mem_cons_self), since, hcalls, h.accepted,
      ?_, fun y hy => h.left y (List.mem_append_left _ hy)⟩
    rintro earlier s' later rfl
    exact h.last earlier s' (later ++ [x]) (by simp)

/-- **The spans that wait are the ones deposited**, if there were none at the beginning. -/
theorem find?_run_eq_some_iff (hempty : c.spans.find? k = none) (calls : List (Call κ α)) :
    (c.run calls).spans.find? k = some s ↔ ∃ past since, c.Deposited calls k s past since := by
  induction calls using List.reverseRecOn with
  | nil =>
    refine iff_of_false (by simp [run, hempty]) ?_
    rintro ⟨past, since, h⟩
    simpa using h.calls_eq
  | append_singleton calls x ih =>
    rw [run_concat, find?_call_eq_some_iff, (c.limits_run calls).2]
    constructor
    · rintro (⟨rfl, hacc⟩ | ⟨hwaits, hleft⟩)
      · exact ⟨calls, [], rfl, hacc, by simp, by simp⟩
      · obtain ⟨past, since, h⟩ := ih.1 hwaits
        exact ⟨past, since ++ [x], h.concat hwaits hleft⟩
    · rintro ⟨past, since, h⟩
      rcases h.of_concat with ⟨rfl, rfl⟩ | ⟨hleft, since, hbefore⟩
      · exact .inl ⟨rfl, h.accepted⟩
      · exact .inr ⟨ih.2 ⟨past, since, hbefore⟩, hleft⟩

end deposited

/-! ## After a purge -/

/-- No span that waits has waited too long by now. -/
def Fresh (c : SpanCache κ α) (now : Nat) : Prop :=
  ∀ k s, c.spans.find? k = some s → isExpired c.ttl now s = false

theorem fresh_purge (c : SpanCache κ α) (now : Nat) : (c.purge now).2.Fresh now := by
  intro k s h
  change isExpired c.ttl now s = false
  rw [find?_purge, Option.filter_eq_some_iff] at h
  simpa using h.2

/-- Spans do not grow old by being taken or purged. -/
theorem Fresh.run {now : Nat} (h : c.Fresh now) {calls : List (Call κ α)}
    (hcalls : ∀ x ∈ calls, ¬ x.IsInsert) : (c.run calls).Fresh now := by
  induction calls generalizing c with
  | nil => exact h
  | cons x calls ih =>
    obtain ⟨hx, hcalls⟩ := List.forall_mem_cons.1 hcalls
    refine ih (fun k s hs => ?_) hcalls
    rw [(c.limits_call x).2]
    rcases find?_call_eq_some_iff x |>.1 hs with ⟨rfl, -⟩ | ⟨hs, -⟩
    · exact absurd trivial hx
    · exact h k s hs

/-- At no time up to now does a purge find anything to remove. -/
theorem Fresh.purge_eq {now earlier : Nat} (h : c.Fresh now) (hle : earlier ≤ now) :
    c.purge earlier = (0, c) := by
  have hkeep : (c.spans.keep fun _ s => !isExpired c.ttl earlier s) = c.spans := by
    refine Assoc.keep_eq_self fun e he => ?_
    have hfresh := h e.1 e.2 (Assoc.find?_eq_some_iff.2 he)
    simp only [isExpired, decide_eq_false_iff_not, Bool.not_eq_true'] at hfresh ⊢
    omega
  simp only [purge, hkeep, Nat.sub_self, Nat.sub_zero, Nat.add_zero]

/-! ## A new cache -/

/-- **A span cache is a map of bounded size, and each span is taken once.**  After any sequence of
operations on a new cache the counts agree with the spans, and no count is about to go below zero.
What is taken is the span deposited.  To insert or to take leaves the spans of other transactions
alone, and to insert leaves that of the same transaction alone as well.  A purge removes exactly what
has waited too long, says how many those are, and leaves nothing to an earlier or equally late purge
until something is put in again. -/
theorem boundedSingleUse_run (capacity ttl : Nat) (calls : List (Call κ α)) :
    let c := (new capacity ttl : SpanCache κ α).run calls
    (c.Balanced ∧ c.capacity = capacity ∧ c.ttl = ttl) ∧
      ((∀ k, (c.take k).1.isSome → 0 < c.occupied) ∧ ∀ now, (c.purge now).1 ≤ c.occupied) ∧
      (∀ k s, (c.take k).1 = some s ↔
        ∃ past since, (new capacity ttl : SpanCache κ α).Deposited calls k s past since) ∧
      (∀ k s k', k' ≠ k → (c.insert k s).2.spans.find? k' = c.spans.find? k' ∧
        (c.take k).2.spans.find? k' = c.spans.find? k') ∧
      (∀ k s waiting, c.spans.find? k = some waiting →
        (c.insert k s).2.spans.find? k = some waiting) ∧
      ∀ now,
        (∀ k s, (c.purge now).2.spans.find? k = some s ↔
          c.spans.find? k = some s ∧ ¬ ttl < now - s.cachedAt) ∧
        (c.purge now).1 = c.spans.entries.countP (fun e => ttl < now - e.2.cachedAt) ∧
        ∀ more : List (Call κ α), (∀ x ∈ more, ¬ x.IsInsert) → ∀ earlier ≤ now,
          ((c.purge now).2.run more).purge earlier = (0, (c.purge now).2.run more) := by
  intro c
  have hbalanced : c.Balanced := (balanced_new capacity ttl).run calls
  obtain ⟨hcapacity, httl⟩ : c.capacity = capacity ∧ c.ttl = ttl := limits_run _ calls
  refine ⟨⟨hbalanced, hcapacity, httl⟩, ⟨fun k h => ?_, fun now => ?_⟩, fun k s => ?_,
    fun k s k' hk => ?_, fun k s waiting h => ?_, fun now => ⟨fun k s => ?_, ?_, ?_⟩⟩
  · rw [take_fst, Option.isSome_iff_exists] at h
    obtain ⟨s, hs⟩ := h
    have hsize := Assoc.size_erase hs
    rw [hbalanced.occupied_eq, size]
    omega
  · have hsum := c.purge_fst_add_size now
    rw [hbalanced.occupied_eq]
    omega
  · rw [take_fst]
    exact find?_run_eq_some_iff rfl calls
  · rw [find?_insert_eq, find?_take]
    simp [hk]
  · rw [find?_insert_eq, if_neg, h]
    rintro ⟨-, hacc⟩
    rw [(insert_fst_eq_inserted_iff.1 hacc).2] at h
    cases h
  · rw [find?_purge, Option.filter_eq_some_iff, httl]
    simp [isExpired]
  · rw [purge_fst, httl]
    rfl
  · intro more hmore earlier hle
    exact ((c.fresh_purge now).run hmore).purge_eq hle

end SpanCache

end Countersign
