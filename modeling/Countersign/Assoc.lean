/-!
# Finite maps

A finite map is the list of its entries, newest first, in which no key occurs twice.  The tables of
the ledger and the span cache are such maps.

## What is here

* `Assoc κ α` — the maps from `κ` to `α`; that its keys are distinct is part of the type.
* `find?`, `insert`, `erase`, `keep`, `size` — the operations.  `keep p` drops every entry that `p`
  refuses; `insert` replaces.
* `find?_insert`, `find?_erase`, `find?_keep` — what a map holds after an operation, at every key.
* `perm_entries` — the entries, with that of one key put first.
* `size_insert`, `size_erase` — how many entries it has.
-/

set_option autoImplicit false

namespace Countersign

/-- A finite map from `κ` to `α`. -/
structure Assoc (κ α : Type) where
  entries : List (κ × α)
  distinct : (entries.map Prod.fst).Nodup

namespace Assoc

variable {κ α : Type} [DecidableEq κ]

/-! ## Operations -/

def empty : Assoc κ α := ⟨[], List.Pairwise.nil⟩

instance : Inhabited (Assoc κ α) := ⟨empty⟩

/-- The value stored under `k`. -/
def find? (m : Assoc κ α) (k : κ) : Option α :=
  m.entries.lookup k

def contains (m : Assoc κ α) (k : κ) : Bool :=
  (m.find? k).isSome

/-- The number of entries. -/
def size (m : Assoc κ α) : Nat :=
  m.entries.length

/-- The entries that `p` accepts. -/
def keep (m : Assoc κ α) (p : κ → α → Bool) : Assoc κ α where
  entries := m.entries.filter fun e => p e.1 e.2
  distinct := m.distinct.sublist (List.filter_sublist.map _)

/-- The map without its entry at `k`, if it has one. -/
def erase (m : Assoc κ α) (k : κ) : Assoc κ α :=
  m.keep fun k' _ => k' != k

/-- The map with `v` stored under `k`, in place of what was there. -/
def insert (m : Assoc κ α) (k : κ) (v : α) : Assoc κ α where
  entries := (k, v) :: (m.erase k).entries
  distinct := by
    refine List.nodup_cons.2 ⟨?_, (m.erase k).distinct⟩
    simp [erase, keep]

/-! ## What a map holds -/

@[simp] theorem find?_empty (k : κ) : (empty : Assoc κ α).find? k = none := rfl

theorem lookup_filter_ne (es : List (κ × α)) (k k' : κ) :
    (es.filter fun e => e.1 != k).lookup k' = if k' = k then none else es.lookup k' := by
  induction es with
  | nil => simp
  | cons e es ih =>
    obtain ⟨a, v⟩ := e
    by_cases hk : a = k
    · subst hk
      by_cases h : k' = a
      · simpa [h] using ih
      · simpa [h, List.lookup_cons, beq_eq_false_iff_ne.2 h] using ih
    · by_cases h : k' = a
      · subst h; simp [hk]
      · simp [hk, List.lookup_cons, ih, beq_eq_false_iff_ne.2 h]

theorem find?_erase (m : Assoc κ α) (k k' : κ) :
    (m.erase k).find? k' = if k' = k then none else m.find? k' :=
  lookup_filter_ne m.entries k k'

theorem find?_insert (m : Assoc κ α) (k : κ) (v : α) (k' : κ) :
    (m.insert k v).find? k' = if k' = k then some v else m.find? k' := by
  by_cases h : k' = k
  · subst h; simp [find?, insert]
  · have := find?_erase m k k'
    simp_all [find?, insert, List.lookup_cons, beq_eq_false_iff_ne.2 h]

theorem find?_eq_some_iff {m : Assoc κ α} {k : κ} {v : α} :
    m.find? k = some v ↔ (k, v) ∈ m.entries := by
  obtain ⟨es, hd⟩ := m
  change es.lookup k = some v ↔ (k, v) ∈ es
  induction es with
  | nil => simp
  | cons e es ih =>
    obtain ⟨a, w⟩ := e
    obtain ⟨hnot, hd'⟩ := List.nodup_cons.1 hd
    rw [List.lookup_cons, List.mem_cons, Prod.mk.injEq]
    by_cases hk : k = a
    · -- the key does not occur a second time
      have hmem : (k, v) ∉ es := fun h => hnot (List.mem_map.2 ⟨_, h, hk⟩)
      subst hk
      simp [hmem, eq_comm]
    · rw [beq_eq_false_iff_ne.2 hk]
      simp [hk, ih hd']

theorem find?_keep (m : Assoc κ α) (p : κ → α → Bool) (k : κ) :
    (m.keep p).find? k = (m.find? k).filter (p k) := by
  refine Option.ext fun v => ?_
  rw [find?_eq_some_iff, keep, List.mem_filter, Option.filter_eq_some_iff, find?_eq_some_iff]

omit [DecidableEq κ] in
theorem keep_eq_self {m : Assoc κ α} {p : κ → α → Bool} (h : ∀ e ∈ m.entries, p e.1 e.2 = true) :
    m.keep p = m := by
  obtain ⟨es, hd⟩ := m
  simp only [keep, List.filter_eq_self.2 h]

/-- A key that is not there is erased already. -/
theorem erase_eq_self {m : Assoc κ α} {k : κ} (h : m.find? k = none) : m.erase k = m :=
  keep_eq_self fun e he => bne_iff_ne.2 <| by
    rintro rfl
    rw [find?_eq_some_iff.2 he] at h
    cases h

theorem erase_insert (m : Assoc κ α) (k : κ) (v : α) : (m.insert k v).erase k = m.erase k := by
  simp [insert, erase, keep]

omit [DecidableEq κ] in
theorem nodup_entries (m : Assoc κ α) : m.entries.Nodup :=
  List.Pairwise.of_map Prod.fst (fun _ _ hne heq => hne (congrArg Prod.fst heq)) m.distinct

/-- What is stored under a key stands beside the entries of all other keys. -/
theorem perm_entries {m : Assoc κ α} {k : κ} {v : α} (h : m.find? k = some v) :
    m.entries.Perm ((k, v) :: (m.erase k).entries) := by
  refine (List.perm_ext_iff_of_nodup m.nodup_entries (m.insert k v).nodup_entries).2 fun e => ?_
  change e ∈ m.entries ↔ e ∈ (k, v) :: m.entries.filter fun e => e.1 != k
  rw [List.mem_cons, List.mem_filter, bne_iff_ne]
  constructor
  · intro he
    by_cases hk : e.1 = k
    · have hv := find?_eq_some_iff.2 he
      rw [hk, h] at hv
      exact .inl (Prod.ext hk (Option.some.inj hv).symm)
    · exact .inr ⟨he, hk⟩
  · rintro (rfl | ⟨he, -⟩)
    · exact find?_eq_some_iff.1 h
    · exact he

/-! ## How many entries a map has -/

theorem size_insert {m : Assoc κ α} {k : κ} (h : m.find? k = none) (v : α) :
    (m.insert k v).size = m.size + 1 := by
  change (m.erase k).size + 1 = m.size + 1
  rw [erase_eq_self h]

theorem size_erase {m : Assoc κ α} {k : κ} {v : α} (h : m.find? k = some v) :
    (m.erase k).size + 1 = m.size :=
  (perm_entries h).length_eq.symm

end Assoc

end Countersign
