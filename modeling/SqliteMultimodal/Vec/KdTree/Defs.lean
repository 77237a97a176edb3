import SqliteMultimodal.Lib.Compare
import SqliteMultimodal.Vec.Basic

universe u

namespace SqliteMultimodal.Vec.KdTree

/-- `nil` is the null pointer.  Every allocation is taken to succeed. -/
inductive KDNode (α : Type u) : Type u
  | nil : KDNode α
  | node (point : List α) (rowid : Rowid) (left right : KDNode α) (axis : Nat)
      (size : Nat) (deleted : Bool) (invalidCount : Nat) : KDNode α
  deriving DecidableEq

structure PointRec (α : Type u) where
  point : List α
  rowid : Rowid
  deriving DecidableEq

structure KDTree (α : Type u) where
  root : KDNode α
  dimensions : Nat
  size : Nat
  deriving DecidableEq

variable {α : Type u}

def coord [Inhabited α] (point : List α) (axis : Nat) : α := point.getD axis default

def nodeSize : KDNode α → Nat
  | .nil => 0
  | .node _ _ _ _ _ size _ _ => size

def nodeInvalid : KDNode α → Nat
  | .nil => 0
  | .node _ _ _ _ _ _ _ invalidCount => invalidCount

def pullup : KDNode α → KDNode α
  | .nil => .nil
  | .node p r lt rt axis _ deleted _ =>
    .node p r lt rt axis (1 + nodeSize lt + nodeSize rt) deleted
      ((if deleted then 1 else 0) + nodeInvalid lt + nodeInvalid rt)

/-- `ALPHA_BAL` is taken as the exact rational 3/4. -/
def isUnbalanced : KDNode α → Bool
  | .nil => false
  | .node _ _ lt rt _ s _ _ =>
    if s ≤ 2 then false else 4 * nodeSize lt > 3 * s || 4 * nodeSize rt > 3 * s

/-- `ALPHA_DEL` is taken as the exact rational 3/10. -/
def tooManyDeleted : KDNode α → Bool
  | .nil => false
  | .node _ _ _ _ _ s _ invalidCount => 10 * invalidCount > 3 * s

def collectValidNodes : KDNode α → List (PointRec α)
  | .nil => []
  | .node p r lt rt _ _ deleted _ =>
    collectValidNodes lt ++ (if deleted then [] else [⟨p, r⟩]) ++ collectValidNodes rt

section Code

variable [LinearOrder α] [Inhabited α]

def pointrecCmp (axis : Nat) (a b : PointRec α) : Ordering :=
  if coord a.point axis < coord b.point axis then .lt
  else if coord b.point axis < coord a.point axis then .gt
  else .eq

/-- `arr` is the slice `[l, r)` that the C code sorts in place. -/
def buildBalanced (qs : Qsort (PointRec α)) (arr : List (PointRec α)) (depth dims : Nat) :
    KDNode α :=
  let axis := depth % dims
  let sorted := qs.sort (pointrecCmp axis) arr
  let mid := arr.length / 2
  match h : sorted[mid]? with
  | none => .nil
  | some n =>
    pullup (.node n.point n.rowid
      (buildBalanced qs (sorted.take mid) (depth + 1) dims)
      (buildBalanced qs (sorted.drop (mid + 1)) (depth + 1) dims) axis 0 false 0)
termination_by arr.length
decreasing_by
  all_goals
    have := List.getElem?_eq_some_iff.mp h |>.1
    simp [sorted, mid] at this ⊢
    omega

def rebuildSubtree (qs : Qsort (PointRec α)) (dims : Nat) : KDNode α → KDNode α
  | .nil => .nil
  | root => buildBalanced qs (collectValidNodes root) 0 dims

/-- The common tail of `kdtree_insert_rec` and `kdtree_delete_rec`. -/
def rebalance (qs : Qsort (PointRec α)) (dims : Nat) (node : KDNode α) : KDNode α :=
  let node := pullup node
  if isUnbalanced node || tooManyDeleted node then rebuildSubtree qs dims node else node

def kdtreeInsertRec (qs : Qsort (PointRec α)) (dims : Nat) (point : List α) (rowid : Rowid) :
    KDNode α → Nat → KDNode α
  | .nil, depth => .node point rowid .nil .nil (depth % dims) 1 false 0
  | .node p r lt rt axis s deleted i, depth =>
    if coord point axis < coord p axis then
      rebalance qs dims
        (.node p r (kdtreeInsertRec qs dims point rowid lt (depth + 1)) rt axis s deleted i)
    else
      rebalance qs dims
        (.node p r lt (kdtreeInsertRec qs dims point rowid rt (depth + 1)) axis s deleted i)

def kdtreeInsert (qs : Qsort (PointRec α)) (tree : KDTree α) (point : List α) (rowid : Rowid)
    (dims : Nat) : KDTree α × ResultCode :=
  match kdtreeInsertRec qs dims point rowid tree.root 0 with
  | .nil => (tree, sqliteNomem)
  | newRoot => ({ tree with root := newRoot, size := tree.size + 1 }, sqliteOk)

/-- The parameter is an `int`, so it is compared after sign extension; a node that matches ends
the descent, whether or not it was already a tombstone. -/
def kdtreeDeleteRec (qs : Qsort (PointRec α)) (dims : Nat) (rowid : Int32) : KDNode α → KDNode α
  | .nil => .nil
  | .node p r lt rt axis s deleted i =>
    if r = rowid.toInt64 then
      let node := pullup (.node p r lt rt axis s true i)
      if tooManyDeleted node then rebuildSubtree qs dims node else node
    else
      rebalance qs dims (.node p r (kdtreeDeleteRec qs dims rowid lt)
        (kdtreeDeleteRec qs dims rowid rt) axis s deleted i)

def kdtreeDelete (qs : Qsort (PointRec α)) (tree : KDTree α) (rowid : Int32) :
    KDTree α × ResultCode :=
  match tree.root with
  | .nil => (tree, sqliteError)
  | root => ({ tree with root := kdtreeDeleteRec qs tree.dimensions rowid root }, sqliteOk)

def kdtreeUpdate (qs : Qsort (PointRec α)) (tree : KDTree α) (rowid : Rowid) (newPoint : List α)
    (dims : Nat) : KDTree α × ResultCode :=
  match tree.root with
  | .nil => (tree, sqliteError)
  | _ =>
    let (tree, rc) := kdtreeDelete qs tree rowid.toInt32
    if rc ≠ sqliteOk then (tree, rc) else kdtreeInsert qs tree newPoint rowid dims

end Code

section Search

variable [LinearOrder α] [Inhabited α] [Sub α] [Mul α]

/-- The filled part of the parallel arrays `rowids` and `dists`; `*k_used` is its length. -/
abbrev TopK (α : Type u) := List (Rowid × α)

/-- The scan of `dists[i]` onwards for the first largest distance. -/
def maxScan (maxIdx : Nat) (maxDist : α) : Nat → TopK α → Nat × α
  | _, [] => (maxIdx, maxDist)
  | i, (_, d) :: rest =>
    if d > maxDist then maxScan i d (i + 1) rest else maxScan maxIdx maxDist (i + 1) rest

def maxEntry : TopK α → Nat × α
  | [] => (0, default)
  | (_, d) :: rest => maxScan 0 d 1 rest

def topkInsert (k : Nat) (kept : TopK α) (rowid : Rowid) (dist2 : α) : TopK α :=
  if kept.length < k then kept ++ [(rowid, dist2)]
  else
    let (maxIdx, maxDist) := maxEntry kept
    if dist2 < maxDist then kept.set maxIdx (rowid, dist2) else kept

/-- What a search takes besides the tree: `fltMax` stands for `FLT_MAX`. -/
structure SearchArgs (α : Type u) where
  query : List α
  k : Nat
  map : RowidMap
  distfunc : List α → List α → α
  fltMax : α

def visitNode (a : SearchArgs α) (p : List α) (r : Rowid) (deleted : Bool) (kept : TopK α) :
    TopK α :=
  if deleted then kept
  else
    let dist2 := a.distfunc a.query p
    let valid := bsearch r a.map.rowids
    if !a.map.preFilter || valid then topkInsert a.k kept r dist2 else kept

def crossesSplit (a : SearchArgs α) (p : List α) (axis : Nat) (kept : TopK α) : Bool :=
  let diff := coord a.query axis - coord p axis
  let maxDist2 := if kept.length = a.k then (maxEntry kept).2 else a.fltMax
  diff * diff < maxDist2

def kdtreeSearchTopkRec (a : SearchArgs α) : KDNode α → TopK α → TopK α
  | .nil, kept => kept
  | .node p r lt rt axis _ deleted _, kept =>
    let kept := visitNode a p r deleted kept
    if coord a.query axis < coord p axis then
      let kept := kdtreeSearchTopkRec a lt kept
      if crossesSplit a p axis kept then kdtreeSearchTopkRec a rt kept else kept
    else
      let kept := kdtreeSearchTopkRec a rt kept
      if crossesSplit a p axis kept then kdtreeSearchTopkRec a lt kept else kept

def kdtreeTopk (tree : KDTree α) (a : SearchArgs α) : TopK α :=
  match tree.root with
  | .nil => []
  | root => if a.k = 0 then [] else kdtreeSearchTopkRec a root []

end Search

end SqliteMultimodal.Vec.KdTree
