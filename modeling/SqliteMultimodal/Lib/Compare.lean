import Mathlib.Data.List.Sort
import Mathlib.Order.Compare
import Mathlib.Order.Lattice

universe u

/-- A consistent three-way comparison: `≠ .gt` is total and transitive. -/
structure ConsistentCmp {β : Type u} (cmp : β → β → Ordering) : Prop where
  total : ∀ a b, cmp a b ≠ .gt ∨ cmp b a ≠ .gt
  trans : ∀ a b c, cmp a b ≠ .gt → cmp b c ≠ .gt → cmp a c ≠ .gt

/-- What the C library promises of `qsort`: a permutation of the array, ordered by a
consistent comparison.  Elements that compare equal may end up in any order. -/
structure Qsort (β : Type u) where
  sort : (β → β → Ordering) → List β → List β
  perm : ∀ cmp l, (sort cmp l).Perm l
  pairwise : ∀ cmp l, ConsistentCmp cmp → (sort cmp l).Pairwise (fun a b => cmp a b ≠ .gt)

namespace Qsort

variable {β : Type u}

def mergeSort : Qsort β where
  sort cmp l := l.mergeSort (fun a b => cmp a b != .gt)
  perm _ l := List.mergeSort_perm l _
  pairwise cmp l h := by
    have sorted := @List.pairwise_mergeSort _ (fun a b => cmp a b != .gt)
      (by simpa using h.trans) (by simpa using h.total) l
    simpa using sorted

@[simp] theorem length_sort (qs : Qsort β) (cmp : β → β → Ordering) (l : List β) :
    (qs.sort cmp l).length = l.length :=
  (qs.perm cmp l).length_eq

@[simp] theorem mem_sort (qs : Qsort β) (cmp : β → β → Ordering) (l : List β) {x : β} :
    x ∈ qs.sort cmp l ↔ x ∈ l :=
  (qs.perm cmp l).mem_iff

end Qsort

structure ThreeWay {α : Type*} [LinearOrder α] (c : Int) (x y : α) : Prop where
  neg : c < 0 ↔ x < y
  pos : 0 < c ↔ y < x

namespace ThreeWay

variable {α : Type*} [LinearOrder α] {c c' c'' : Int} {x y z : α}

theorem zero (h : ThreeWay c x y) : c = 0 ↔ x = y := by
  have hzero : c = 0 ↔ ¬c < 0 ∧ ¬0 < c := by omega
  rw [hzero, h.neg, h.pos, not_lt, not_lt, and_comm, le_antisymm_iff]

theorem nonpos (h : ThreeWay c x y) : c ≤ 0 ↔ x ≤ y := by
  rw [← not_lt, h.pos, not_lt]

theorem nonneg (h : ThreeWay c x y) : 0 ≤ c ↔ y ≤ x := by
  rw [← not_lt, h.neg, not_lt]

theorem swap (h : ThreeWay c x y) (h' : ThreeWay c' y x) : c < 0 ↔ 0 < c' :=
  h.neg.trans h'.pos.symm

theorem trans (h : ThreeWay c x y) (h' : ThreeWay c' y z) (h'' : ThreeWay c'' x z) (hc : c < 0)
    (hc' : c' < 0) : c'' < 0 :=
  h''.neg.mpr ((h.neg.mp hc).trans (h'.neg.mp hc'))

theorem of_lt (hlt : x < y) : ThreeWay (-1) x y where
  neg := iff_of_true (by decide) hlt
  pos := iff_of_false (by decide) hlt.asymm

theorem of_gt (hlt : y < x) : ThreeWay 1 x y where
  neg := iff_of_false (by decide) hlt.asymm
  pos := iff_of_true (by decide) hlt

theorem of_eq (heq : x = y) : ThreeWay 0 x y where
  neg := iff_of_false (by decide) heq.not_lt
  pos := iff_of_false (by decide) heq.not_gt

end ThreeWay
