import SqliteMultimodal.Vec.KdTree.Contents

universe u

namespace SqliteMultimodal.Vec.KdTree

open KDNode

variable {α : Type u} [LinearOrder α] [Inhabited α]

def NodeRepr (dims : Nat) : KDNode α → Prop
  | .nil => True
  | .node p r lt rt axis s deleted i =>
    axis < dims ∧
    (∀ q ∈ lt.points, coord q axis ≤ coord p axis) ∧
    (∀ q ∈ rt.points, coord p axis ≤ coord q axis) ∧
    s = (KDNode.node p r lt rt axis s deleted i).count ∧
    i = (KDNode.node p r lt rt axis s deleted i).deletedCount

section Nodes

variable {dims : Nat}

theorem nodeSize_eq_count {n : KDNode α} (h : n.All (NodeRepr dims)) : nodeSize n = n.count := by
  cases n with
  | nil => rfl
  | node => exact h.1.2.2.2.1

theorem nodeInvalid_eq_deletedCount {n : KDNode α} (h : n.All (NodeRepr dims)) :
    nodeInvalid n = n.deletedCount := by
  cases n with
  | nil => rfl
  | node => exact h.1.2.2.2.2

theorem all_repr_pullup {p : List α} {r : Rowid} {lt rt : KDNode α} {axis s i : Nat}
    {deleted : Bool} (haxis : axis < dims)
    (hlt : ∀ q ∈ lt.points, coord q axis ≤ coord p axis)
    (hrt : ∀ q ∈ rt.points, coord p axis ≤ coord q axis)
    (hl : lt.All (NodeRepr dims)) (hr : rt.All (NodeRepr dims)) :
    (pullup (.node p r lt rt axis s deleted i)).All (NodeRepr dims) := by
  refine ⟨⟨haxis, hlt, hrt, ?_, ?_⟩, hl, hr⟩
  · rw [nodeSize_eq_count hl, nodeSize_eq_count hr]; rfl
  · rw [nodeInvalid_eq_deletedCount hl, nodeInvalid_eq_deletedCount hr]; rfl

variable (qs : Qsort (PointRec α)) (hd : 0 < dims)
include hd

theorem all_repr_buildBalanced (arr : List (PointRec α)) (depth : Nat) :
    (buildBalanced qs arr depth dims).All (NodeRepr dims) := by
  suffices h : (buildBalanced qs arr depth dims).All (NodeRepr dims) ∧
      ∀ q ∈ (buildBalanced qs arr depth dims).points, q ∈ arr.map PointRec.point from h.1
  apply buildBalanced_induction qs dims (motive := fun arr _ n =>
    n.All (NodeRepr dims) ∧ ∀ q ∈ n.points, q ∈ arr.map PointRec.point)
  · intro depth
    exact ⟨trivial, by simp [points]⟩
  · intro arr depth n ls rs lt rt split hl hr
    constructor
    · refine all_repr_pullup (Nat.mod_lt _ hd) ?_ ?_ hl.1 hr.1
      · intro q hq
        obtain ⟨e, he, rfl⟩ := List.mem_map.mp (hl.2 q hq)
        exact split.left_le e he
      · intro q hq
        obtain ⟨e, he, rfl⟩ := List.mem_map.mp (hr.2 q hq)
        exact split.le_right e he
    · intro q hq
      simp only [points_pullup, points, List.mem_cons, List.mem_append] at hq
      rw [(split.perm.map _).mem_iff, List.map_cons, List.map_append, List.mem_cons,
        List.mem_append]
      exact hq.imp id (Or.imp (hl.2 q) (hr.2 q))

theorem all_repr_rebuildSubtree (n : KDNode α) :
    (rebuildSubtree qs dims n).All (NodeRepr dims) := by
  rw [rebuildSubtree_eq]
  exact all_repr_buildBalanced qs hd _ _

theorem all_repr_rebalance {p : List α} {r : Rowid} {lt rt : KDNode α} {axis s i : Nat}
    {deleted : Bool} (haxis : axis < dims)
    (hlt : ∀ q ∈ lt.points, coord q axis ≤ coord p axis)
    (hrt : ∀ q ∈ rt.points, coord p axis ≤ coord q axis)
    (hl : lt.All (NodeRepr dims)) (hr : rt.All (NodeRepr dims)) :
    (rebalance qs dims (.node p r lt rt axis s deleted i)).All (NodeRepr dims) := by
  simp only [rebalance]
  split
  · exact all_repr_rebuildSubtree qs hd _
  · exact all_repr_pullup haxis hlt hrt hl hr

theorem all_repr_kdtreeInsertRec (point : List α) (rowid : Rowid) {n : KDNode α} {depth : Nat}
    (h : n.All (NodeRepr dims)) :
    (kdtreeInsertRec qs dims point rowid n depth).All (NodeRepr dims) := by
  induction n generalizing depth with
  | nil => simp [kdtreeInsertRec, All, NodeRepr, points, count, deletedCount, Nat.mod_lt _ hd]
  | node p r lt rt axis s deleted i ihl ihr =>
    obtain ⟨⟨haxis, hlt, hrt, -, -⟩, hl, hr⟩ := h
    rw [kdtreeInsertRec]
    split
    next hless =>
      refine all_repr_rebalance qs hd haxis (fun q hq => ?_) hrt (ihl hl) hr
      obtain rfl | hq := point_mem_kdtreeInsertRec qs dims hq
      · exact hless.le
      · exact hlt q hq
    next hless =>
      refine all_repr_rebalance qs hd haxis hlt (fun q hq => ?_) hl (ihr hr)
      obtain rfl | hq := point_mem_kdtreeInsertRec qs dims hq
      · exact not_lt.mp hless
      · exact hrt q hq

theorem all_repr_kdtreeDeleteRec (rowid : Int32) {n : KDNode α} (h : n.All (NodeRepr dims)) :
    (kdtreeDeleteRec qs dims rowid n).All (NodeRepr dims) := by
  induction n with
  | nil => trivial
  | node p r lt rt axis s deleted i ihl ihr =>
    obtain ⟨⟨haxis, hlt, hrt, -, -⟩, hl, hr⟩ := h
    rw [kdtreeDeleteRec]
    split
    · dsimp only
      split
      · exact all_repr_rebuildSubtree qs hd _
      · exact all_repr_pullup haxis hlt hrt hl hr
    · exact all_repr_rebalance qs hd haxis
        (fun q hq => hlt q (point_mem_kdtreeDeleteRec qs dims hq))
        (fun q hq => hrt q (point_mem_kdtreeDeleteRec qs dims hq)) (ihl hl) (ihr hr)

end Nodes

inductive Op (α : Type u)
  | insert (point : List α) (rowid : Rowid)
  | delete (rowid : Rowid)
  | update (rowid : Rowid) (newPoint : List α)

def Op.Fits (dims : Nat) : Op α → Prop
  | .insert point _ => point.length = dims
  | .delete _ => True
  | .update _ newPoint => newPoint.length = dims

def KDTree.apply (qs : Qsort (PointRec α)) (tree : KDTree α) : Op α → KDTree α × ResultCode
  | .insert point rowid => kdtreeInsert qs tree point rowid tree.dimensions
  | .delete rowid => kdtreeDelete qs tree rowid.toInt32
  | .update rowid newPoint => kdtreeUpdate qs tree rowid newPoint tree.dimensions

def KDTree.empty (dims : Nat) : KDTree α := ⟨.nil, dims, 0⟩

inductive Reachable (qs : Qsort (PointRec α)) (dims : Nat) : KDTree α → Prop
  | empty : Reachable qs dims (.empty dims)
  | step {tree : KDTree α} (op : Op α) : Reachable qs dims tree → op.Fits dims →
      Reachable qs dims (tree.apply qs op).1

section Runs

variable {qs : Qsort (PointRec α)} {dims : Nat} {tree : KDTree α}

theorem kdtreeDelete_root (tree : KDTree α) (rowid : Int32) :
    (kdtreeDelete qs tree rowid).1 =
      { tree with root := kdtreeDeleteRec qs tree.dimensions rowid tree.root } := by
  obtain ⟨root, dimensions, size⟩ := tree
  cases root <;> rfl

theorem kdtreeUpdate_of_ne_nil {rowid : Rowid} {newPoint : List α} (h : tree.root ≠ .nil) :
    kdtreeUpdate qs tree rowid newPoint dims =
      kdtreeInsert qs (kdtreeDelete qs tree rowid.toInt32).1 newPoint rowid dims := by
  unfold kdtreeUpdate kdtreeDelete
  split
  next h' => exact absurd h' h
  next => simp

@[simp] theorem apply_dimensions (tree : KDTree α) (op : Op α) :
    (tree.apply qs op).1.dimensions = tree.dimensions := by
  cases op with
  | insert => simp [KDTree.apply, kdtreeInsert_eq]
  | delete => simp [KDTree.apply, kdtreeDelete_root]
  | update rowid newPoint =>
    by_cases h : tree.root = .nil
    · simp [KDTree.apply, kdtreeUpdate, h]
    · simp [KDTree.apply, kdtreeUpdate_of_ne_nil h, kdtreeInsert_eq, kdtreeDelete_root]

theorem Reachable.dimensions_eq (h : Reachable qs dims tree) : tree.dimensions = dims := by
  induction h with
  | empty => rfl
  | step op _ _ ih => rw [apply_dimensions, ih]

theorem Reachable.root_induction {P : KDNode α → Prop} (nil : P .nil)
    (insert : ∀ n point rowid, point.length = dims → P n →
      P (kdtreeInsertRec qs dims point rowid n 0))
    (delete : ∀ n rowid, P n → P (kdtreeDeleteRec qs dims rowid n))
    (h : Reachable qs dims tree) : P tree.root := by
  induction h with
  | empty => exact nil
  | @step tree op h fits ih =>
    have hdims := h.dimensions_eq
    cases op with
    | insert point rowid =>
      simpa [KDTree.apply, kdtreeInsert_eq, hdims] using insert _ _ _ fits ih
    | delete rowid =>
      simpa [KDTree.apply, kdtreeDelete_root, hdims] using delete _ _ ih
    | update rowid newPoint =>
      by_cases hnil : tree.root = .nil
      · simpa [KDTree.apply, kdtreeUpdate, hnil] using nil
      · simpa [KDTree.apply, kdtreeUpdate_of_ne_nil hnil, kdtreeInsert_eq, kdtreeDelete_root,
          hdims] using insert _ _ _ fits (delete _ _ ih)

theorem Reachable.all_repr (hd : 0 < dims) (h : Reachable qs dims tree) :
    tree.root.All (NodeRepr dims) :=
  h.root_induction trivial
    (fun _ _ _ _ hn => all_repr_kdtreeInsertRec qs hd _ _ hn)
    (fun _ _ hn => all_repr_kdtreeDeleteRec qs hd _ hn)

/-- Every reachable tree meets the representation invariant at every node, insertion adds
exactly its own entry, and a rebuild keeps the live entries and drops the tombstones. -/
theorem reachable_repr (qs : Qsort (PointRec α)) (dims : Nat) (hd : 1 ≤ dims) (tree : KDTree α)
    (h : Reachable qs dims tree) :
    tree.root.All (NodeRepr dims) ∧
    (∀ point rowid, (kdtreeInsert qs tree point rowid dims).2 = sqliteOk ∧
      (kdtreeInsert qs tree point rowid dims).1.root.live = ⟨point, rowid⟩ ::ₘ tree.root.live) ∧
    (∀ n : KDNode α, (rebuildSubtree qs dims n).deletedCount = 0 ∧
      (rebuildSubtree qs dims n).live = n.live) := by
  refine ⟨h.all_repr hd, fun point rowid => ?_, fun n => ?_⟩
  · rw [kdtreeInsert_eq]
    exact ⟨rfl, live_kdtreeInsertRec qs dims point rowid tree.root 0⟩
  · exact ⟨deletedCount_rebuildSubtree qs dims n, live_rebuildSubtree qs dims n⟩

def sampleRun (qs : Qsort (PointRec Int)) : KDTree Int :=
  [Op.insert [3, 1] 1, .insert [0, 5] 2, .update 1 [4, 4], .delete 2].foldl
    (fun tree op => (tree.apply qs op).1) (.empty 2)

theorem reachable_sampleRun (qs : Qsort (PointRec Int)) : Reachable qs 2 (sampleRun qs) :=
  .step (.delete 2) (.step (.update 1 [4, 4]) (.step (.insert [0, 5] 2)
    (.step (.insert [3, 1] 1) .empty rfl) rfl) rfl) trivial

theorem sampleRun_repr :
    (sampleRun Qsort.mergeSort).root.All (NodeRepr 2) :=
  (reachable_repr Qsort.mergeSort 2 (by decide) _ (reachable_sampleRun _)).1

end Runs

end SqliteMultimodal.Vec.KdTree
