import Mathlib.Algebra.Order.Group.Multiset
import SqliteMultimodal.Vec.KdTree.Defs

universe u

namespace SqliteMultimodal.Vec.KdTree

variable {α : Type u}

namespace KDNode

def points : KDNode α → List (List α)
  | .nil => []
  | .node p _ lt rt _ _ _ _ => p :: (lt.points ++ rt.points)

def live : KDNode α → Multiset (PointRec α)
  | .nil => 0
  | .node p r lt rt _ _ deleted _ =>
    (if deleted then 0 else {⟨p, r⟩}) + lt.live + rt.live

def count : KDNode α → Nat
  | .nil => 0
  | .node _ _ lt rt _ _ _ _ => 1 + lt.count + rt.count

def deletedCount : KDNode α → Nat
  | .nil => 0
  | .node _ _ lt rt _ _ deleted _ =>
    (if deleted then 1 else 0) + lt.deletedCount + rt.deletedCount

/-- `P` holds at every node. -/
def All (P : KDNode α → Prop) : KDNode α → Prop
  | .nil => True
  | .node p r lt rt axis s deleted i =>
    P (.node p r lt rt axis s deleted i) ∧ lt.All P ∧ rt.All P

theorem All.imp {P Q : KDNode α → Prop} (h : ∀ n, P n → Q n) :
    ∀ {n : KDNode α}, n.All P → n.All Q
  | .nil, _ => trivial
  | .node .., ⟨hn, hlt, hrt⟩ => ⟨h _ hn, hlt.imp h, hrt.imp h⟩

@[simp] theorem points_pullup (n : KDNode α) : (pullup n).points = n.points := by
  cases n <;> rfl

@[simp] theorem live_pullup (n : KDNode α) : (pullup n).live = n.live := by
  cases n <;> rfl

@[simp] theorem count_pullup (n : KDNode α) : (pullup n).count = n.count := by
  cases n <;> rfl

@[simp] theorem deletedCount_pullup (n : KDNode α) :
    (pullup n).deletedCount = n.deletedCount := by
  cases n <;> rfl

@[simp] theorem nodeSize_pullup (p : List α) (r : Rowid) (lt rt : KDNode α) (axis s : Nat)
    (deleted : Bool) (i : Nat) :
    nodeSize (pullup (.node p r lt rt axis s deleted i)) = 1 + nodeSize lt + nodeSize rt := rfl

@[simp] theorem nodeInvalid_pullup (p : List α) (r : Rowid) (lt rt : KDNode α) (axis s : Nat)
    (deleted : Bool) (i : Nat) :
    nodeInvalid (pullup (.node p r lt rt axis s deleted i)) =
      (if deleted then 1 else 0) + nodeInvalid lt + nodeInvalid rt := rfl

theorem coe_collectValidNodes (n : KDNode α) :
    (collectValidNodes n : Multiset (PointRec α)) = n.live := by
  induction n with
  | nil => rfl
  | node p r lt rt axis s deleted i ihl ihr =>
    simp only [collectValidNodes, live, ← ihl, ← ihr, ← Multiset.coe_add]
    cases deleted
    · exact congrArg (· + _) (add_comm _ _)
    · simp

theorem point_mem_of_live {n : KDNode α} {e : PointRec α} (h : e ∈ n.live) :
    e.point ∈ n.points := by
  induction n with
  | nil => simp [live] at h
  | node p r lt rt axis s deleted i ihl ihr =>
    simp only [live, Multiset.mem_add] at h
    obtain (h | h) | h := h
    · cases deleted
      · simp only [Bool.false_eq_true, if_false, Multiset.mem_singleton] at h
        simp [points, h]
      · simp at h
    · simp [points, ihl h]
    · simp [points, ihr h]

end KDNode

open KDNode

section Operations

variable [LinearOrder α] [Inhabited α] (qs : Qsort (PointRec α)) (dims : Nat)

theorem pointrecCmp_ne_gt (axis : Nat) (a b : PointRec α) :
    pointrecCmp axis a b ≠ .gt ↔ coord a.point axis ≤ coord b.point axis := by
  unfold pointrecCmp
  rcases lt_trichotomy (coord a.point axis) (coord b.point axis) with h | h | h
  · simp [h, h.le]
  · simp [h]
  · simp [h, h.not_gt]

theorem pointrecCmp_consistent (axis : Nat) :
    ConsistentCmp (pointrecCmp (α := α) axis) where
  total a b := by simpa only [pointrecCmp_ne_gt] using le_total _ _
  trans a b c := by simpa only [pointrecCmp_ne_gt] using le_trans

/-- How `build_balanced` splits a non-empty slice: a median `n` on the current axis, the `ls`
not above it and the `rs` not below it. -/
structure MedianSplit (axis : Nat) (arr : List (PointRec α)) (n : PointRec α)
    (ls rs : List (PointRec α)) : Prop where
  perm : arr.Perm (n :: (ls ++ rs))
  left_le : ∀ e ∈ ls, coord e.point axis ≤ coord n.point axis
  le_right : ∀ e ∈ rs, coord n.point axis ≤ coord e.point axis
  length_left : ls.length = arr.length / 2
  length_right : rs.length = arr.length - (arr.length / 2 + 1)

theorem MedianSplit.of_sort {arr : List (PointRec α)} {axis : Nat} {n : PointRec α}
    (h : (qs.sort (pointrecCmp axis) arr)[arr.length / 2]? = some n) :
    MedianSplit axis arr n ((qs.sort (pointrecCmp axis) arr).take (arr.length / 2))
      ((qs.sort (pointrecCmp axis) arr).drop (arr.length / 2 + 1)) := by
  generalize hs : qs.sort (pointrecCmp axis) arr = sorted at h ⊢
  have perm : arr.Perm sorted := hs ▸ (qs.perm _ arr).symm
  have order : sorted.Pairwise (fun a b => coord a.point axis ≤ coord b.point axis) := by
    simpa only [pointrecCmp_ne_gt, hs] using qs.pairwise _ arr (pointrecCmp_consistent axis)
  obtain ⟨hlt, hn⟩ := List.getElem?_eq_some_iff.mp h
  have split : sorted =
      sorted.take (arr.length / 2) ++ n :: sorted.drop (arr.length / 2 + 1) := by
    rw [← hn, List.getElem_cons_drop, List.take_append_drop]
  have order' := order
  rw [split, List.pairwise_append, List.pairwise_cons] at order'
  refine ⟨perm.trans ?_, fun e he => order'.2.2 e he n (by simp),
    fun e he => order'.2.1.1 e he, ?_, ?_⟩
  · nth_rewrite 1 [split]
    exact List.perm_middle
  · rw [List.length_take, ← perm.length_eq]; omega
  · rw [List.length_drop, ← perm.length_eq]

theorem buildBalanced_induction {motive : List (PointRec α) → Nat → KDNode α → Prop}
    (nil : ∀ depth, motive [] depth .nil)
    (node : ∀ arr depth n ls rs lt rt, MedianSplit (depth % dims) arr n ls rs →
      motive ls (depth + 1) lt → motive rs (depth + 1) rt →
      motive arr depth (pullup (.node n.point n.rowid lt rt (depth % dims) 0 false 0)))
    (arr : List (PointRec α)) (depth : Nat) :
    motive arr depth (buildBalanced qs arr depth dims) := by
  induction hlen : arr.length using Nat.strong_induction_on generalizing arr depth with
  | _ len ih =>
    subst hlen
    rw [buildBalanced]
    split
    next h =>
      have : arr = [] := by
        rw [List.getElem?_eq_none_iff, Qsort.length_sort] at h
        exact List.length_eq_zero_iff.mp (by omega)
      exact this ▸ nil depth
    next n h =>
      have hlt : arr.length / 2 < arr.length := by
        simpa using (List.getElem?_eq_some_iff.mp h).1
      have split := MedianSplit.of_sort qs h
      refine node arr depth n _ _ _ _ split (ih _ ?_ _ _ rfl) (ih _ ?_ _ _ rfl)
      · rw [split.length_left]; exact hlt
      · rw [split.length_right]; omega

theorem live_buildBalanced (arr : List (PointRec α)) (depth : Nat) :
    (buildBalanced qs arr depth dims).live = arr := by
  apply buildBalanced_induction qs dims (motive := fun arr _ n => n.live = arr)
  · intro depth; rfl
  · intro arr depth n ls rs lt rt split hl hr
    simp only [live_pullup, live, hl, hr, Bool.false_eq_true, if_false]
    rw [Multiset.coe_eq_coe.mpr split.perm, add_assoc, Multiset.coe_add,
      Multiset.singleton_add, Multiset.cons_coe]

theorem deletedCount_buildBalanced (arr : List (PointRec α)) (depth : Nat) :
    (buildBalanced qs arr depth dims).deletedCount = 0 := by
  apply buildBalanced_induction qs dims (motive := fun _ _ n => n.deletedCount = 0)
  · intro depth; rfl
  · intro arr depth n ls rs lt rt _ hl hr
    simp [deletedCount, hl, hr]

theorem point_mem_buildBalanced {arr : List (PointRec α)} {depth : Nat} {p : List α}
    (h : p ∈ (buildBalanced qs arr depth dims).points) : p ∈ arr.map PointRec.point := by
  revert h
  apply buildBalanced_induction qs dims
    (motive := fun arr _ n => p ∈ n.points → p ∈ arr.map PointRec.point)
  · intro depth h; simp [points] at h
  · intro arr depth n ls rs lt rt split hl hr h
    simp only [points_pullup, points, List.mem_cons, List.mem_append] at h
    rw [(split.perm.map _).mem_iff, List.map_cons, List.map_append, List.mem_cons,
      List.mem_append]
    exact h.imp id (Or.imp hl hr)

theorem rebuildSubtree_eq (n : KDNode α) :
    rebuildSubtree qs dims n = buildBalanced qs (collectValidNodes n) 0 dims := by
  cases n with
  | nil =>
    rw [buildBalanced]
    split
    · rfl
    next h => simp [collectValidNodes, (qs.perm _ []).eq_nil] at h
  | node => rfl

@[simp] theorem live_rebuildSubtree (n : KDNode α) :
    (rebuildSubtree qs dims n).live = n.live := by
  rw [rebuildSubtree_eq, live_buildBalanced, coe_collectValidNodes]

theorem deletedCount_rebuildSubtree (n : KDNode α) :
    (rebuildSubtree qs dims n).deletedCount = 0 := by
  rw [rebuildSubtree_eq, deletedCount_buildBalanced]

theorem point_mem_rebuildSubtree {n : KDNode α} {p : List α}
    (h : p ∈ (rebuildSubtree qs dims n).points) : p ∈ n.points := by
  rw [rebuildSubtree_eq] at h
  obtain ⟨e, he, rfl⟩ := List.mem_map.mp (point_mem_buildBalanced qs dims h)
  apply point_mem_of_live
  rw [← coe_collectValidNodes]
  exact Multiset.mem_coe.mpr he

@[simp] theorem live_rebalance (n : KDNode α) : (rebalance qs dims n).live = n.live := by
  simp only [rebalance]
  split <;> simp

theorem point_mem_rebalance {n : KDNode α} {p : List α}
    (h : p ∈ (rebalance qs dims n).points) : p ∈ n.points := by
  simp only [rebalance] at h
  split at h
  · simpa using point_mem_rebuildSubtree qs dims h
  · simpa using h

theorem live_kdtreeInsertRec (point : List α) (rowid : Rowid) (n : KDNode α) (depth : Nat) :
    (kdtreeInsertRec qs dims point rowid n depth).live = ⟨point, rowid⟩ ::ₘ n.live := by
  induction n generalizing depth with
  | nil => simp [kdtreeInsertRec, live]
  | node p r lt rt axis s deleted i ihl ihr =>
    rw [kdtreeInsertRec]
    split
    · rw [live_rebalance, live, ihl, live, Multiset.add_cons, Multiset.cons_add]
    · rw [live_rebalance, live, ihr, live, Multiset.add_cons]

theorem point_mem_kdtreeInsertRec {point p : List α} {rowid : Rowid} {n : KDNode α} {depth : Nat}
    (h : p ∈ (kdtreeInsertRec qs dims point rowid n depth).points) : p = point ∨ p ∈ n.points := by
  induction n generalizing depth with
  | nil => simpa [kdtreeInsertRec, points] using h
  | node q r lt rt axis s deleted i ihl ihr =>
    rw [kdtreeInsertRec] at h
    split at h
    all_goals
      have h := point_mem_rebalance qs dims h
      simp only [points, List.mem_cons, List.mem_append] at h ⊢
      grind

theorem point_mem_kdtreeDeleteRec {p : List α} {rowid : Int32} {n : KDNode α}
    (h : p ∈ (kdtreeDeleteRec qs dims rowid n).points) : p ∈ n.points := by
  induction n with
  | nil => exact h
  | node q r lt rt axis s deleted i ihl ihr =>
    rw [kdtreeDeleteRec] at h
    split at h
    · dsimp only at h
      split at h
      · simpa [points] using point_mem_rebuildSubtree qs dims h
      · simpa [points] using h
    · have h := point_mem_rebalance qs dims h
      simp only [points, List.mem_cons, List.mem_append] at h ⊢
      exact h.imp id (Or.imp ihl ihr)

theorem kdtreeInsertRec_ne_nil (point : List α) (rowid : Rowid) (n : KDNode α) (depth : Nat) :
    kdtreeInsertRec qs dims point rowid n depth ≠ .nil := by
  intro h
  have live := live_kdtreeInsertRec qs dims point rowid n depth
  rw [h] at live
  exact Multiset.zero_ne_cons live

theorem kdtreeInsert_eq (tree : KDTree α) (point : List α) (rowid : Rowid) :
    kdtreeInsert qs tree point rowid dims =
      ({ tree with
          root := kdtreeInsertRec qs dims point rowid tree.root 0, size := tree.size + 1 },
        sqliteOk) := by
  unfold kdtreeInsert
  split
  next h => exact absurd h (kdtreeInsertRec_ne_nil qs dims point rowid _ _)
  next => rfl

end Operations

end SqliteMultimodal.Vec.KdTree
