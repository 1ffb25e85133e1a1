import Countersign.Key

/-!
# The nodes and leaves of a key

A key is a tree, and most that is said of it is said of its nodes, however deep they lie, and of the
public keys among its leaves.  Thresholds and lists differ in how many of their children they ask for;
for what lies below them they are alike, so that nodes are reached through `Key.children` here.

## What is here

* `Key.children`, `Key.children_induction` — the children of a node, and induction by them.
* `Key.HasNode`, `Key.HasLeaf` — the nodes of a key and the public keys among its leaves, at any
  depth.  `Key.mem_primitives_iff`: they are the public keys that are listed.
* `Key.FirstLeaf`, `Key.Leafless` — the leftmost public key of a key, and keys without any.
  `Key.head?_primitives_iff`: it is the first that is listed.
-/

set_option autoImplicit false

namespace Countersign

namespace Key

/-! ## Children -/

/-- The children of a node.  A leaf has none. -/
def children : Key → List Key
  | threshold _ ks => ks
  | keyList ks => ks
  | _ => []

mutual

/-- What holds of a key if it holds of its children holds of every key. -/
theorem children_induction {P : Key → Prop} (step : ∀ k, (∀ c ∈ k.children, P c) → P k) :
    ∀ k, P k
  | ed25519 _ => step _ nofun
  | ecdsaSecp256k1 _ => step _ nofun
  | contractId _ => step _ nofun
  | delegatableContractId _ => step _ nofun
  | threshold _ ks => step _ (forall_mem_children step ks)
  | keyList ks => step _ (forall_mem_children step ks)

theorem forall_mem_children {P : Key → Prop} (step : ∀ k, (∀ c ∈ k.children, P c) → P k) :
    ∀ ks : List Key, ∀ c ∈ ks, P c
  | [] => nofun
  | k :: ks => List.forall_mem_cons.2 ⟨children_induction step k, forall_mem_children step ks⟩

end

/-- A primitive key has no children. -/
theorem children_of_primitive? {k : Key} {p : Scheme × Bytes} (h : k.primitive? = some p) :
    k.children = [] := by
  cases k with
  | threshold | keyList => cases h
  | _ => rfl

/-- The public keys of a key are its own, if it is primitive, and those of its children. -/
theorem primitives_eq (k : Key) :
    k.primitives = k.primitive?.toList ++ primitivesOfAll k.children := by
  cases k <;> rfl

theorem primitivesOfAll_eq_flatMap (ks : List Key) :
    primitivesOfAll ks = ks.flatMap primitives := by
  induction ks with
  | nil => rfl
  | cons k ks ih => rw [primitivesOfAll, ih, List.flatMap_cons]

theorem mem_primitivesOfAll_iff {ks : List Key} {p : Scheme × Bytes} :
    p ∈ primitivesOfAll ks ↔ ∃ k ∈ ks, p ∈ k.primitives := by
  rw [primitivesOfAll_eq_flatMap, List.mem_flatMap]

theorem primitives_subset_of_mem {ks : List Key} {k : Key} (h : k ∈ ks) :
    k.primitives ⊆ primitivesOfAll ks :=
  fun _ hp => mem_primitivesOfAll_iff.2 ⟨k, h, hp⟩

/-! ## Nodes and leaves -/

/-- A node of the key: the key itself, or a node of one of its children. -/
inductive HasNode : Key → Key → Prop
  | self (k : Key) : HasNode k k
  | child {k c n : Key} (hc : c ∈ k.children) (h : HasNode c n) : HasNode k n

/-- The public key is that of a leaf of the key, at any depth. -/
def HasLeaf (k : Key) (scheme : Scheme) (pk : Bytes) : Prop :=
  ∃ n, k.HasNode n ∧ n.primitive? = some (scheme, pk)

variable {k n : Key} {scheme : Scheme} {pk : Bytes}

theorem HasNode.hasLeaf (h : k.HasNode n) (hn : n.HasLeaf scheme pk) : k.HasLeaf scheme pk := by
  induction h with
  | self => exact hn
  | child hc _ ih =>
    obtain ⟨leaf, hleaf, hp⟩ := ih hn
    exact ⟨leaf, .child hc hleaf, hp⟩

theorem hasLeaf_iff :
    k.HasLeaf scheme pk ↔
      k.primitive? = some (scheme, pk) ∨ ∃ c ∈ k.children, c.HasLeaf scheme pk := by
  constructor
  · rintro ⟨n, _ | ⟨hc, hn⟩, hp⟩
    · exact .inl hp
    · exact .inr ⟨_, hc, n, hn, hp⟩
  · rintro (hp | ⟨c, hc, hleaf⟩)
    · exact ⟨k, .self k, hp⟩
    · exact (HasNode.child hc (.self c)).hasLeaf hleaf

/-- **The public keys that are listed are those of the leaves**, whatever they lie below. -/
theorem mem_primitives_iff : (scheme, pk) ∈ k.primitives ↔ k.HasLeaf scheme pk := by
  induction k using children_induction with
  | step k ih =>
    rw [primitives_eq, List.mem_append, Option.mem_toList, mem_primitivesOfAll_iff, hasLeaf_iff]
    exact or_congr Iff.rfl (exists_congr fun c => and_congr_right (ih c))

/-! ## The first leaf -/

/-- No leaf of the key is a public key. -/
def Leafless (k : Key) : Prop :=
  ∀ scheme pk, ¬ k.HasLeaf scheme pk

/-- The public key is that of the first leaf that has one, depth first in order of declaration. -/
inductive FirstLeaf : Key → Scheme → Bytes → Prop
  | self {k : Key} {scheme : Scheme} {pk : Bytes} (h : k.primitive? = some (scheme, pk)) :
      FirstLeaf k scheme pk
  | child {k c : Key} {before after : List Key} {scheme : Scheme} {pk : Bytes}
      (hk : k.children = before ++ c :: after) (hbefore : ∀ b ∈ before, b.Leafless)
      (h : FirstLeaf c scheme pk) : FirstLeaf k scheme pk

theorem FirstLeaf.hasLeaf (h : k.FirstLeaf scheme pk) : k.HasLeaf scheme pk := by
  induction h with
  | self h => exact hasLeaf_iff.2 (.inl h)
  | @child k c before after _ _ hk _ _ ih =>
    have hc : c ∈ k.children := by simp [hk]
    exact hasLeaf_iff.2 (.inr ⟨c, hc, ih⟩)

theorem primitives_eq_nil_iff : k.primitives = [] ↔ k.Leafless := by
  rw [List.eq_nil_iff_forall_not_mem]
  exact ⟨fun h scheme pk hleaf => h _ (mem_primitives_iff.2 hleaf),
    fun h p hp => h p.1 p.2 (mem_primitives_iff.1 hp)⟩

/-- The first public key of a list is that of the first key that has any. -/
theorem head?_primitivesOfAll_iff {ks : List Key} {p : Scheme × Bytes} :
    (primitivesOfAll ks).head? = some p ↔
      ∃ before c after, ks = before ++ c :: after ∧ c.primitives.head? = some p ∧
        ∀ b ∈ before, b.Leafless := by
  rw [primitivesOfAll_eq_flatMap, List.head?_flatMap, List.findSome?_eq_some_iff]
  simp only [List.head?_eq_none_iff, primitives_eq_nil_iff]

/-- **The first public key that is listed is that of the first leaf.** -/
theorem head?_primitives_iff : k.primitives.head? = some (scheme, pk) ↔ k.FirstLeaf scheme pk := by
  induction k using children_induction with
  | step k ih =>
    rw [primitives_eq, List.head?_append, Option.head?_toList, Option.or_eq_some_iff,
      head?_primitivesOfAll_iff]
    constructor
    · rintro (hp | ⟨-, before, c, after, hk, hc, hbefore⟩)
      · exact .self hp
      · exact .child hk hbefore ((ih c (by simp [hk])).1 hc)
    · rintro (hp | ⟨hk, hbefore, hc⟩)
      · exact .inl hp
      · have hnone : k.primitive? = none := by
          rcases hp : k.primitive? with - | p
          · rfl
          · simp [children_of_primitive? hp] at hk
        exact .inr ⟨hnone, _, _, _, hk, (ih _ (by simp [hk])).2 hc, hbefore⟩

end Key

end Countersign
