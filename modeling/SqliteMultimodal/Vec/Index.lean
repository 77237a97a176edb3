import SqliteMultimodal.Vec.Hnsw.Defs
import SqliteMultimodal.Vec.Ivf.Defs
import SqliteMultimodal.Vec.KdTree.Shape
import SqliteMultimodal.Vec.Storage.Rows

namespace SqliteMultimodal.Vec

open Storage

inductive Index (α : Type)
  | none
  | kdtree (tree : KdTree.KDTree α)
  | hybrid (tree : KdTree.KDTree α)
  | hnsw (h : Hnsw.HNSW α)
  | ivf (ivf : Ivf.IVF α)
  deriving DecidableEq

/-- What the index rests on.  `column` is the vector column it is declared on, `dim` the dimension
of the last one; `behind` is the memory behind a vector, `randomLevel` and `rand` are the numbers
that are drawn and `farAway` is `1e30f`. -/
structure IndexMeta (α : Type) where
  column : Option Nat
  dim : Nat
  behind : Nat → α
  distfunc : List α → List α → α
  qs : Qsort (KdTree.PointRec α)
  randomLevel : Nat → Nat
  rand : Nat → Nat
  farAway : α

variable {α : Type}

/-- What `vec0_init` takes as the dimension of the index, whichever column it is on. -/
def indexDim (p : Vec0Vtab) : Nat :=
  (p.vectorColumns.getLast?.map VectorColumn.dimensions).getD 0

def Index.createKdtree (dim : Nat) : Index α := .kdtree (.empty dim)

def Index.createHybrid (dim : Nat) : Index α := .hybrid (.empty dim)

def Index.createHnsw : Index α := .hnsw (Hnsw.hnswCreate Hnsw.maxHnswNodes)

def Index.createIvf : Index α := .ivf (Ivf.ivfCreate Ivf.ivfNList Ivf.ivfNProbe)

def Index.live : Index α → Set (Rowid × List α)
  | .none => ∅
  | .kdtree tree | .hybrid tree => {x | ⟨x.2, x.1⟩ ∈ tree.root.live}
  | .hnsw h => {x | ∃ n ∈ h.nodes, n.deleted = false ∧ (n.rowid.toInt64, n.vec) = x}
  | .ivf f => {x | (∃ i, f.train[i]? = some x ∧ f.deleted.getD i false = false) ∨
      ∃ l ∈ f.lists, x ∈ l.entries}

section

variable (m : IndexMeta α)

/-- The index takes `dim` numbers of a vector, which may have fewer or more. -/
def IndexMeta.copy (vec : List α) : List α :=
  (List.range m.dim).map fun i => vec.getD i (m.behind i)

theorem IndexMeta.copy_eq {vec : List α} (h : vec.length = m.dim) : m.copy vec = vec := by
  refine List.ext_getElem (by simp [copy, h]) fun i hi hi' => ?_
  simp [copy, List.getD_eq_getElem?_getD, List.getElem?_eq_getElem hi']

variable [LinearOrder α] [Inhabited α] [Field α]

def indexInsert (index : Index α) (vec : List α) (rowid : Rowid) : Index α × ResultCode :=
  match index with
  | .none => (.none, sqliteOk)
  | .kdtree tree => (KdTree.kdtreeInsert m.qs tree vec rowid vec.length).map .kdtree id
  | .hybrid tree => (KdTree.kdtreeInsert m.qs tree vec rowid vec.length).map .hybrid id
  | .hnsw h => (Hnsw.hnswAdd m.distfunc m.randomLevel h (m.copy vec) rowid.toInt32).map .hnsw id
  | .ivf ivf => (Ivf.ivfInsert m.distfunc m.rand ivf (rowid, m.copy vec)).map .ivf id

/-- A rebuild of the tree takes as many numbers of each point as the tree has dimensions; here the
point is taken whole. -/
def indexDelete (index : Index α) (rowid : Rowid) : Index α × ResultCode :=
  match index with
  | .none => (.none, sqliteOk)
  | .kdtree tree => (KdTree.kdtreeDelete m.qs tree rowid.toInt32).map .kdtree id
  | .hybrid tree => (KdTree.kdtreeDelete m.qs tree rowid.toInt32).map .hybrid id
  | .hnsw h => (Hnsw.hnswDelete h rowid.toInt32).map .hnsw id
  | .ivf ivf => (Ivf.ivfDeleteVector ivf rowid).map .ivf id

def indexUpdate (index : Index α) (rowid : Rowid) (vec : List α) : Index α :=
  match index with
  | .none => .none
  | .kdtree tree => .kdtree (KdTree.kdtreeUpdate m.qs tree rowid (m.copy vec) m.dim).1
  | .hybrid tree => .hybrid (KdTree.kdtreeUpdate m.qs tree rowid (m.copy vec) m.dim).1
  | .hnsw h => .hnsw (Hnsw.hnswUpdate m.distfunc m.randomLevel h rowid.toInt32 (m.copy vec)).1
  | .ivf ivf => .ivf (Ivf.ivfUpdateVectorReinsert m.distfunc m.farAway ivf rowid (m.copy vec)).1

def IndexMeta.ops : IndexOps α (Index α) :=
  ⟨m.column, indexInsert m, indexDelete m, indexUpdate m⟩

end

end SqliteMultimodal.Vec
