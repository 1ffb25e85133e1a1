import Countersign.Bytes

/-!
# Sets of byte strings

A finite set of byte strings is kept as the ascending list of its members, so that two sets with the
same members are the same value.

## What is here

* `ByteSet` — the sets; that the list ascends is part of the type.
* `ByteSet.insert`, `ByteSet.insertAll` and membership, with `mem_insert` and `mem_insertAll`.
-/

set_option autoImplicit false

namespace Countersign

/-- A finite set of byte strings. -/
structure ByteSet where
  elements : List Bytes
  ascending : elements.Pairwise fun a b => compare a b = .lt
deriving DecidableEq

namespace ByteSet

def empty : ByteSet := ⟨[], List.Pairwise.nil⟩

instance : Inhabited ByteSet := ⟨empty⟩

instance : Membership Bytes ByteSet := ⟨fun s x => x ∈ s.elements⟩

instance (x : Bytes) (s : ByteSet) : Decidable (x ∈ s) :=
  inferInstanceAs (Decidable (x ∈ s.elements))

/-- An ascending list with `x` put in its place. -/
def place (x : Bytes) : List Bytes → List Bytes
  | [] => [x]
  | y :: ys =>
    match compare x y with
    | .lt => x :: y :: ys
    | .eq => y :: ys
    | .gt => y :: place x ys

theorem mem_place {x z : Bytes} {ys : List Bytes} : z ∈ place x ys ↔ z = x ∨ z ∈ ys := by
  induction ys with
  | nil => simp [place]
  | cons y ys ih =>
    rw [place]
    split
    · simp
    · next h => simp [Std.LawfulEqOrd.eq_of_compare h]
    · simp only [List.mem_cons, ih]
      exact or_left_comm

theorem pairwise_place {x : Bytes} {ys : List Bytes}
    (h : ys.Pairwise fun a b => compare a b = .lt) :
    (place x ys).Pairwise fun a b => compare a b = .lt := by
  induction ys with
  | nil => simp [place]
  | cons y ys ih =>
    obtain ⟨hy, hys⟩ := List.pairwise_cons.1 h
    rw [place]
    split
    · next hlt =>
      refine List.pairwise_cons.2 ⟨fun z hz => ?_, h⟩
      rcases List.mem_cons.1 hz with rfl | hz
      · exact hlt
      · exact Std.TransCmp.lt_trans hlt (hy z hz)
    · exact h
    · next hgt =>
      refine List.pairwise_cons.2 ⟨fun z hz => ?_, ih hys⟩
      rcases mem_place.1 hz with rfl | hz
      · exact Std.OrientedCmp.lt_of_gt hgt
      · exact hy z hz

def insert (s : ByteSet) (x : Bytes) : ByteSet := ⟨place x s.elements, pairwise_place s.ascending⟩

def insertAll (s : ByteSet) (xs : List Bytes) : ByteSet :=
  xs.foldl insert s

theorem mem_insert {s : ByteSet} {x z : Bytes} : z ∈ s.insert x ↔ z = x ∨ z ∈ s :=
  mem_place

theorem mem_insertAll {s : ByteSet} {xs : List Bytes} {z : Bytes} :
    z ∈ s.insertAll xs ↔ z ∈ xs ∨ z ∈ s := by
  induction xs generalizing s with
  | nil => simp [insertAll]
  | cons x xs ih =>
    have := ih (s := s.insert x)
    simp only [insertAll, List.foldl_cons, List.mem_cons] at this ⊢
    rw [this, mem_insert, or_assoc, or_left_comm]

end ByteSet

end Countersign
