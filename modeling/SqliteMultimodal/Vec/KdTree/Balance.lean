import Mathlib.Algebra.Order.Field.Rat
import Mathlib.Tactic.Linarith
import Mathlib.Tactic.NormNum
import Mathlib.Tactic.IntervalCases
import Mathlib.Tactic.Positivity
import SqliteMultimodal.Vec.KdTree.Shape

universe u

namespace SqliteMultimodal.Vec.KdTree

open KDNode

variable {α : Type u}

def NodeBalanced : KDNode α → Prop
  | .nil => True
  | .node _ _ lt rt _ s _ i =>
    (2 < s → (nodeSize lt : ℚ) ≤ 3 / 4 * s ∧ (nodeSize rt : ℚ) ≤ 3 / 4 * s) ∧
    (i : ℚ) ≤ 3 / 10 * s

theorem le_three_quarters_iff (a s : Nat) : (a : ℚ) ≤ 3 / 4 * s ↔ 4 * a ≤ 3 * s := by
  rw [← @Nat.cast_le ℚ]
  push_cast
  constructor <;> intro h <;> linarith

theorem le_three_tenths_iff (a s : Nat) : (a : ℚ) ≤ 3 / 10 * s ↔ 10 * a ≤ 3 * s := by
  rw [← @Nat.cast_le ℚ]
  push_cast
  constructor <;> intro h <;> linarith

theorem nodeBalanced_iff (n : KDNode α) :
    NodeBalanced n ↔ isUnbalanced n = false ∧ tooManyDeleted n = false := by
  cases n with
  | nil => simp [NodeBalanced, isUnbalanced, tooManyDeleted]
  | node p r lt rt axis s deleted i =>
    simp only [NodeBalanced, isUnbalanced, tooManyDeleted, le_three_quarters_iff,
      le_three_tenths_iff]
    by_cases hs : s ≤ 2
    · simp [hs]
    · simp [hs]
      omega

namespace KDNode

def height : KDNode α → Nat
  | .nil => 0
  | .node _ _ lt rt _ _ _ _ => 1 + max lt.height rt.height

theorem height_le_count (n : KDNode α) : n.height ≤ n.count := by
  induction n with
  | nil => rfl
  | node p r lt rt axis s deleted i ihl ihr => simp only [height, count]; omega

end KDNode

section Preservation

variable [LinearOrder α] [Inhabited α] (qs : Qsort (PointRec α)) {dims : Nat}

theorem all_balanced_buildBalanced (arr : List (PointRec α)) (depth : Nat) :
    (buildBalanced qs arr depth dims).All NodeBalanced := by
  suffices h : (buildBalanced qs arr depth dims).All NodeBalanced ∧
      nodeSize (buildBalanced qs arr depth dims) = arr.length ∧
      nodeInvalid (buildBalanced qs arr depth dims) = 0 from h.1
  apply buildBalanced_induction qs dims (motive := fun arr _ n =>
    n.All NodeBalanced ∧ nodeSize n = arr.length ∧ nodeInvalid n = 0)
  · intro depth
    exact ⟨trivial, rfl, rfl⟩
  · intro arr depth n ls rs lt rt split ⟨hl, hlsize, hlinv⟩ ⟨hr, hrsize, hrinv⟩
    have hlen := split.perm.length_eq
    have hll := split.length_left
    simp only [List.length_cons, List.length_append] at hlen
    refine ⟨⟨?_, hl, hr⟩, ?_, ?_⟩
    · simp only [NodeBalanced, le_three_quarters_iff, le_three_tenths_iff, hlsize, hrsize, hlinv,
        hrinv]
      refine ⟨fun _ => ⟨by omega, by omega⟩, by simp⟩
    · rw [nodeSize_pullup, hlsize, hrsize]; omega
    · simp [hlinv, hrinv]

theorem all_balanced_rebalance {p : List α} {r : Rowid} {lt rt : KDNode α} {axis s i : Nat}
    {deleted : Bool} (hl : lt.All NodeBalanced) (hr : rt.All NodeBalanced) :
    (rebalance qs dims (.node p r lt rt axis s deleted i)).All NodeBalanced := by
  simp only [rebalance]
  split
  · rw [rebuildSubtree_eq]
    exact all_balanced_buildBalanced qs _ _
  next h =>
    simp only [Bool.or_eq_true, not_or, Bool.not_eq_true] at h
    exact ⟨(nodeBalanced_iff _).mpr h, hl, hr⟩

theorem all_balanced_kdtreeInsertRec (point : List α) (rowid : Rowid) {n : KDNode α} {depth : Nat}
    (h : n.All NodeBalanced) :
    (kdtreeInsertRec qs dims point rowid n depth).All NodeBalanced := by
  induction n generalizing depth with
  | nil => norm_num [kdtreeInsertRec, All, NodeBalanced]
  | node p r lt rt axis s deleted i ihl ihr =>
    rw [kdtreeInsertRec]
    split
    · exact all_balanced_rebalance qs (ihl h.2.1) h.2.2
    · exact all_balanced_rebalance qs h.2.1 (ihr h.2.2)

theorem all_balanced_kdtreeDeleteRec (rowid : Int32) {n : KDNode α} (hrepr : n.All (NodeRepr dims))
    (h : n.All NodeBalanced) : (kdtreeDeleteRec qs dims rowid n).All NodeBalanced := by
  induction n with
  | nil => trivial
  | node p r lt rt axis s deleted i ihl ihr =>
    rw [kdtreeDeleteRec]
    split
    · dsimp only
      split
      · rw [rebuildSubtree_eq]
        exact all_balanced_buildBalanced qs _ _
      next hdel =>
        rw [Bool.not_eq_true] at hdel
        refine ⟨(nodeBalanced_iff _).mpr ⟨?_, hdel⟩, h.2⟩
        have hsize : s = 1 + nodeSize lt + nodeSize rt := by
          rw [nodeSize_eq_count hrepr.2.1, nodeSize_eq_count hrepr.2.2]
          exact hrepr.1.2.2.2.1
        have hbal := ((nodeBalanced_iff _).mp h.1).1
        simpa only [isUnbalanced, pullup, ← hsize] using hbal
    · exact all_balanced_rebalance qs (ihl hrepr.2.1 h.2.1) (ihr hrepr.2.2 h.2.2)

theorem Reachable.all_balanced {tree : KDTree α} (hd : 0 < dims) (h : Reachable qs dims tree) :
    tree.root.All NodeBalanced := by
  suffices h : tree.root.All (NodeRepr dims) ∧ tree.root.All NodeBalanced from h.2
  apply h.root_induction (P := fun n => n.All (NodeRepr dims) ∧ n.All NodeBalanced)
  · exact ⟨trivial, trivial⟩
  · intro n point rowid _ hn
    exact ⟨all_repr_kdtreeInsertRec qs hd _ _ hn.1, all_balanced_kdtreeInsertRec qs _ _ hn.2⟩
  · intro n rowid hn
    exact ⟨all_repr_kdtreeDeleteRec qs hd _ hn.1, all_balanced_kdtreeDeleteRec qs _ hn.1 hn.2⟩

theorem pow_height_le_count {n : KDNode α} (hrepr : n.All (NodeRepr dims))
    (hbal : n.All NodeBalanced) (hne : n ≠ .nil) : (4 / 3 : ℚ) ^ (n.height - 1) ≤ n.count := by
  induction n with
  | nil => exact absurd rfl hne
  | node p r lt rt axis s deleted i ihl ihr =>
    have hsize : s = 1 + lt.count + rt.count := hrepr.1.2.2.2.1
    have hchild := hbal.1.1
    rw [nodeSize_eq_count hrepr.2.1, nodeSize_eq_count hrepr.2.2] at hchild
    by_cases hs : s ≤ 2
    · have hheight := height_le_count (KDNode.node p r lt rt axis s deleted i)
      simp only [count, ← hsize] at hheight ⊢
      interval_cases s
      · omega
      · simp [show (KDNode.node p r lt rt axis 1 deleted i).height - 1 = 0 by omega]
      · obtain h | h : (KDNode.node p r lt rt axis 2 deleted i).height - 1 = 0 ∨
            (KDNode.node p r lt rt axis 2 deleted i).height - 1 = 1 := by omega
        all_goals rw [h]; norm_num
    · obtain ⟨hl, hr⟩ := hchild (by omega)
      have step : ∀ m : Nat, ∀ c : ℚ, 0 < m → (4 / 3 : ℚ) ^ (m - 1) ≤ c → c ≤ 3 / 4 * s →
          (4 / 3 : ℚ) ^ m ≤ s := by
        intro m c hm hpow hc
        rw [← Nat.succ_pred_eq_of_pos hm, pow_succ, Nat.pred_eq_sub_one]
        linarith
      have hcount : ((KDNode.node p r lt rt axis s deleted i).count : ℚ) = s := by
        rw [count, ← hsize]
      rw [hcount, height, Nat.add_sub_cancel_left]
      rcases le_total rt.height lt.height with hle | hle
      · rw [max_eq_left hle]
        cases lt with
        | nil => simpa [height] using Nat.one_le_iff_ne_zero.mpr (by omega : s ≠ 0)
        | node => exact step _ _ (by simp [height]) (ihl hrepr.2.1 hbal.2.1 (by simp)) hl
      · rw [max_eq_right hle]
        cases rt with
        | nil => simpa [height] using Nat.one_le_iff_ne_zero.mpr (by omega : s ≠ 0)
        | node => exact step _ _ (by simp [height]) (ihr hrepr.2.2 hbal.2.2 (by simp)) hr

end Preservation

section Depth

variable [LinearOrder α] [Inhabited α]

/-- How deep the calls of `kdtree_insert_rec` nest, the call on a null child included. -/
def insertDepth (point : List α) : KDNode α → Nat
  | .nil => 1
  | .node p _ lt rt axis _ _ _ =>
    1 + if coord point axis < coord p axis then insertDepth point lt else insertDepth point rt

def deleteDepth (rowid : Int32) : KDNode α → Nat
  | .nil => 1
  | .node _ r lt rt _ _ _ _ =>
    if r = rowid.toInt64 then 1 else 1 + max (deleteDepth rowid lt) (deleteDepth rowid rt)

def searchDepth [Sub α] [Mul α] (a : SearchArgs α) : KDNode α → TopK α → Nat
  | .nil, _ => 1
  | .node p r lt rt axis _ deleted _, kept =>
    let kept := visitNode a p r deleted kept
    if coord a.query axis < coord p axis then
      let kept' := kdtreeSearchTopkRec a lt kept
      1 + max (searchDepth a lt kept)
        (if crossesSplit a p axis kept' then searchDepth a rt kept' else 0)
    else
      let kept' := kdtreeSearchTopkRec a rt kept
      1 + max (searchDepth a rt kept)
        (if crossesSplit a p axis kept' then searchDepth a lt kept' else 0)

theorem insertDepth_le (point : List α) (n : KDNode α) : insertDepth point n ≤ n.height + 1 := by
  induction n with
  | nil => simp [insertDepth, height]
  | node p r lt rt axis s deleted i ihl ihr =>
    simp only [insertDepth, height]
    split <;> omega

omit [LinearOrder α] [Inhabited α] in
theorem deleteDepth_le (rowid : Int32) (n : KDNode α) : deleteDepth rowid n ≤ n.height + 1 := by
  induction n with
  | nil => simp [deleteDepth, height]
  | node p r lt rt axis s deleted i ihl ihr =>
    simp only [deleteDepth, height]
    split <;> omega

theorem searchDepth_le [Sub α] [Mul α] (a : SearchArgs α) (n : KDNode α) (kept : TopK α) :
    searchDepth a n kept ≤ n.height + 1 := by
  induction n generalizing kept with
  | nil => simp [searchDepth, height]
  | node p r lt rt axis s deleted i ihl ihr =>
    simp only [searchDepth, height]
    have hl := ihl (visitNode a p r deleted kept)
    have hr := ihr (visitNode a p r deleted kept)
    have hl' := ihl (kdtreeSearchTopkRec a rt (visitNode a p r deleted kept))
    have hr' := ihr (kdtreeSearchTopkRec a lt (visitNode a p r deleted kept))
    split <;> split <;> omega

/-- In every reachable tree no node is over a threshold, the height is logarithmic in the number
of nodes, and the recursive calls nest no deeper than the height allows. -/
theorem reachable_balanced [Sub α] [Mul α] (qs : Qsort (PointRec α)) (dims : Nat) (hd : 1 ≤ dims)
    (tree : KDTree α) (h : Reachable qs dims tree) :
    tree.root.All NodeBalanced ∧
    (tree.root ≠ .nil → (4 / 3 : ℚ) ^ (tree.root.height - 1) ≤ tree.root.count) ∧
    (∀ a kept, searchDepth a tree.root kept ≤ tree.root.height + 1) ∧
    (∀ point, insertDepth point tree.root ≤ tree.root.height + 1) ∧
    (∀ rowid, deleteDepth rowid tree.root ≤ tree.root.height + 1) :=
  ⟨h.all_balanced qs hd, pow_height_le_count (h.all_repr hd) (h.all_balanced qs hd),
    fun a kept => searchDepth_le a _ kept, fun point => insertDepth_le point _,
    fun rowid => deleteDepth_le rowid _⟩

theorem sampleRun_balanced : (sampleRun Qsort.mergeSort).root.All NodeBalanced :=
  (reachable_balanced Qsort.mergeSort 2 (by decide) _ (reachable_sampleRun _)).1

end Depth

end SqliteMultimodal.Vec.KdTree
