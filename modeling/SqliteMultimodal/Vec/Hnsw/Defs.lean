import SqliteMultimodal.Lib.Bfs
import SqliteMultimodal.Lib.Sorting
import SqliteMultimodal.Vec.Basic

namespace SqliteMultimodal.Vec.Hnsw

def maxNeighbors : Nat := 16
def maxLevels : Nat := 8
def efConstruction : Nat := 64
def maxHnswNodes : Nat := 4096

structure HNSWNode (α : Type) where
  rowid : Int32
  level : Nat
  vec : List α
  nbors : List (List Nat)
  deleted : Bool
  deriving DecidableEq

/-- `entry_id` is `-1` until there is a node. -/
structure HNSW (α : Type) where
  maxNodes : Nat
  nodes : List (HNSWNode α)
  entryId : Option Nat
  maxLevel : Nat
  deriving DecidableEq

variable {α : Type}

def hnswCreate (maxNodes : Nat) : HNSW α := ⟨maxNodes, [], none, 0⟩

def nodeCreate (rowid : Int32) (vec : List α) (level : Nat) : HNSWNode α :=
  ⟨rowid, level, vec, List.replicate maxLevels [], false⟩

def HNSWNode.nborsAt (n : HNSWNode α) (level : Nat) : List Nat := n.nbors.getD level []

def HNSWNode.addNbor (n : HNSWNode α) (id level : Nat) : HNSWNode α :=
  if (n.nborsAt level).length < maxNeighbors then
    { n with nbors := n.nbors.set level (n.nborsAt level ++ [id]) }
  else n

def connectNodes (nodes : List (HNSWNode α)) (a b level : Nat) : List (HNSWNode α) :=
  nodes.modify a (·.addNbor b level)

section Code

variable [LinearOrder α] (distfunc : List α → List α → α) (randomLevel : Nat → Nat)

/-- The nodes that node `id` may be linked to at this level, by distance. -/
def candidates (nodes : List (HNSWNode α)) (id : Nat) (vec : List α) (level : Nat) : List Nat :=
  let found := nodes.zipIdx.filter fun x => !x.1.deleted && level ≤ x.1.level && x.2 ≠ id
  (Sorting.exchangeSort Prod.snd (found.map fun x => (x.2, distfunc vec x.1.vec))).map Prod.fst

def linkLevel (id : Nat) (vec : List α) (nodes : List (HNSWNode α)) (level : Nat) :
    List (HNSWNode α) :=
  ((candidates distfunc nodes id vec level).take maxNeighbors).foldl (fun nodes nid =>
    connectNodes (connectNodes nodes id nid level) nid id level) nodes

/-- `randomLevel i` is the level that is drawn for the `i`-th node.  The descent through the upper
levels is left out: nothing is done with the node it ends at. -/
def hnswAdd (h : HNSW α) (vec : List α) (rowid : Int32) : HNSW α × ResultCode :=
  if h.maxNodes ≤ h.nodes.length then (h, sqliteNomem)
  else
    let id := h.nodes.length
    let n := nodeCreate rowid vec (randomLevel id)
    let nodes := h.nodes ++ [n]
    match h.entryId with
    | none => ({ h with nodes, entryId := some 0, maxLevel := n.level }, sqliteOk)
    | some entryId =>
      let nodes := (List.range (n.level + 1)).reverse.foldl (linkLevel distfunc id vec) nodes
      if h.maxLevel < n.level then
        ({ h with nodes, entryId := some id, maxLevel := n.level }, sqliteOk)
      else ({ h with nodes, entryId := some entryId }, sqliteOk)

def findLive (nodes : List (HNSWNode α)) (rowid : Int32) : Option Nat :=
  nodes.findIdx? fun n => n.rowid = rowid ∧ !n.deleted

def HNSWNode.mark (n : HNSWNode α) : HNSWNode α := { n with deleted := true }

def hnswDelete (h : HNSW α) (rowid : Int32) : HNSW α × ResultCode :=
  match findLive h.nodes rowid with
  | none => (h, sqliteOk)
  | some i => ({ h with nodes := h.nodes.modify i HNSWNode.mark }, sqliteOk)

/-- With `reinsert` set, as every caller has it. -/
def hnswUpdate (h : HNSW α) (rowid : Int32) (vec : List α) : HNSW α × ResultCode :=
  match findLive h.nodes rowid with
  | none => (h, sqliteOk)
  | some i =>
    hnswAdd distfunc randomLevel { h with nodes := h.nodes.modify i HNSWNode.mark } vec rowid

section Search

variable (h : HNSW α) (query : List α)

abbrev At (α : Type) := Nat × HNSWNode α

/-- The `for` loop over the neighbours, whose bound is that of the node it has moved to. -/
def scanNbors (level : Nat) : Nat → Nat → At α → Bool → At α × Bool
  | 0, _, cur, changed => (cur, changed)
  | fuel + 1, i, cur, changed =>
    match (cur.2.nborsAt level)[i]? with
    | none => (cur, changed)
    | some id =>
      match h.nodes[id]? with
      | none => scanNbors level fuel (i + 1) cur changed
      | some n =>
        if !n.deleted && distfunc n.vec query < distfunc cur.2.vec query then
          scanNbors level fuel (i + 1) (id, n) true
        else scanNbors level fuel (i + 1) cur changed

def descendLevel (level : Nat) : Nat → At α → At α
  | 0, cur => cur
  | fuel + 1, cur =>
    let (cur, changed) := scanNbors distfunc h query level maxNeighbors 0 cur false
    if changed then descendLevel level fuel cur else cur

def descend (cur : At α) : At α :=
  (List.range h.maxLevel).reverse.foldl (fun cur l =>
    descendLevel distfunc h query (l + 1) (h.nodes.length + 1) cur) cur

def entry : Option (At α) := do
  let entryId ← h.entryId
  let x ← (h.nodes.zipIdx.drop entryId).find? fun x => !x.1.deleted
  return (x.2, x.1)

/-- The eight bytes that `bsearch` reads at `&n->rowid`: the rowid, and the level after it. -/
def HNSWNode.key (n : HNSWNode α) : Rowid :=
  (n.rowid.toUInt32.toUInt64 ||| (n.level.toUInt64 <<< 32)).toInt64

def eligible (map : RowidMap) (n : HNSWNode α) : Bool :=
  !n.deleted && (bsearch n.key map.rowids || !map.preFilter)

def next (id : Nat) : List Nat :=
  match h.nodes[id]? with
  | none => []
  | some n => (n.nborsAt 0).filter fun j => h.nodes[j]?.any fun m => !m.deleted

def visit (map : RowidMap) (id : Nat) : Option (Rowid × α) := do
  let n ← h.nodes[id]?
  if eligible map n then some (n.rowid.toInt64, distfunc n.vec query) else none

/-- `none` where the behaviour of the code is not defined. -/
def hnswSearch (ef topk : Nat) (map : RowidMap) : Option (List (Rowid × α)) := do
  let start ← entry h
  let start := descend distfunc h query start
  let found := Bfs.search (next h) (visit distfunc h query map) ef h.nodes.length [start.1] 0 []
  return (Sorting.exchangeSort Prod.snd found).take topk

end Search

end Code

end SqliteMultimodal.Vec.Hnsw

namespace SqliteMultimodal.Vec.Hnsw

variable {α : Type} [LinearOrder α] (distfunc : List α → List α → α) (h : HNSW α) (query : List α)

omit [LinearOrder α] in
theorem entry_mem {cur : At α} (hcur : entry h = some cur) : h.nodes[cur.1]? = some cur.2 := by
  simp only [entry, Option.bind_eq_bind, Option.bind_eq_some_iff, Option.pure_def,
    Option.some.injEq] at hcur
  obtain ⟨entryId, -, x, hx, rfl⟩ := hcur
  exact List.mem_zipIdx_iff_getElem?.mp (List.mem_of_mem_drop (List.mem_of_find?_eq_some hx))

theorem scanNbors_mem (level fuel i : Nat) {cur : At α} (changed : Bool)
    (hcur : h.nodes[cur.1]? = some cur.2) :
    h.nodes[(scanNbors distfunc h query level fuel i cur changed).1.1]? =
      some (scanNbors distfunc h query level fuel i cur changed).1.2 := by
  induction fuel generalizing i cur changed with
  | zero => exact hcur
  | succ fuel ih =>
    unfold scanNbors
    split
    next => exact hcur
    next id hid =>
      split
      next => exact ih _ _ hcur
      next n hn =>
        split
        · exact ih _ _ hn
        · exact ih _ _ hcur

theorem descendLevel_mem (level fuel : Nat) {cur : At α} (hcur : h.nodes[cur.1]? = some cur.2) :
    h.nodes[(descendLevel distfunc h query level fuel cur).1]? =
      some (descendLevel distfunc h query level fuel cur).2 := by
  induction fuel generalizing cur with
  | zero => exact hcur
  | succ fuel ih =>
    have hscan := scanNbors_mem distfunc h query level maxNeighbors 0 false hcur
    unfold descendLevel
    dsimp only
    split
    · exact ih hscan
    · exact hscan

theorem descend_mem {cur : At α} (hcur : h.nodes[cur.1]? = some cur.2) :
    h.nodes[(descend distfunc h query cur).1]? = some (descend distfunc h query cur).2 := by
  unfold descend
  generalize (List.range h.maxLevel).reverse = levels
  induction levels generalizing cur with
  | nil => exact hcur
  | cons l levels ih => exact ih (descendLevel_mem distfunc h query (l + 1) _ hcur)

omit [LinearOrder α] in
theorem reach_mem {start i : Nat} (hstart : start < h.nodes.length)
    (hi : Bfs.Reach (next h) start i) : i ∈ Finset.range h.nodes.length := by
  rw [Finset.mem_range]
  cases hi with
  | refl => exact hstart
  | tail _ hstep =>
    unfold next at hstep
    split at hstep
    · simp at hstep
    · obtain ⟨m, hm, -⟩ := (Option.any_eq_true _ _).mp (List.mem_filter.mp hstep).2
      exact (List.getElem?_eq_some_iff.mp hm).1

omit [LinearOrder α] in
theorem isSome_visit (map : RowidMap) (i : Nat) :
    (visit distfunc h query map i).isSome = h.nodes[i]?.any (eligible map) := by
  simp only [visit, Option.bind_eq_bind]
  cases h.nodes[i]? with
  | none => rfl
  | some n =>
    rw [Option.bind_some, Option.any_some]
    split <;> simp_all

theorem hnswSearch_eq_some {ef topk : Nat} {map : RowidMap} {rows : List (Rowid × α)} :
    hnswSearch distfunc h query ef topk map = some rows ↔
      ∃ start, entry h = some start ∧
        (Sorting.exchangeSort Prod.snd (Bfs.search (next h) (visit distfunc h query map) ef
          h.nodes.length [(descend distfunc h query start).1] 0 [])).take topk = rows := by
  simp [hnswSearch, Option.bind_eq_some_iff]

def closer (nodes : List (HNSWNode α)) (n : HNSWNode α) : Nat :=
  (nodes.filter fun m => distfunc m.vec query < distfunc n.vec query).length

theorem closer_lt {nodes : List (HNSWNode α)} {n m : HNSWNode α} (hm : m ∈ nodes)
    (hlt : distfunc m.vec query < distfunc n.vec query) :
    closer distfunc query nodes m < closer distfunc query nodes n := by
  have hfilter : (nodes.filter fun k => distfunc k.vec query < distfunc m.vec query) =
      (nodes.filter fun k => distfunc k.vec query < distfunc n.vec query).filter
        fun k => distfunc k.vec query < distfunc m.vec query := by
    rw [List.filter_filter]
    refine List.filter_congr fun k _ => ?_
    by_cases hk : distfunc k.vec query < distfunc m.vec query
    · simp [hk, hk.trans hlt]
    · simp [hk]
  unfold closer
  rw [hfilter]
  refine List.length_filter_lt_length_iff_exists.mpr ⟨m, ?_, ?_⟩
  · exact List.mem_filter.mpr ⟨hm, by simpa using hlt⟩
  · simp

theorem closer_le_length (nodes : List (HNSWNode α)) (n : HNSWNode α) :
    closer distfunc query nodes n ≤ nodes.length :=
  List.length_filter_le ..

theorem scanNbors_dist (level fuel i : Nat) (cur : At α) (changed : Bool) :
    distfunc (scanNbors distfunc h query level fuel i cur changed).1.2.vec query ≤
        distfunc cur.2.vec query ∧
      ((scanNbors distfunc h query level fuel i cur changed).2 = true →
        changed = true ∨ distfunc (scanNbors distfunc h query level fuel i cur changed).1.2.vec
          query < distfunc cur.2.vec query) := by
  induction fuel generalizing i cur changed with
  | zero => exact ⟨le_rfl, .inl⟩
  | succ fuel ih =>
    unfold scanNbors
    split
    · exact ⟨le_rfl, .inl⟩
    next id hid =>
      split
      · exact ih ..
      next n hn =>
        split
        next hlt =>
          rw [Bool.and_eq_true, decide_eq_true_eq] at hlt
          have hle := (ih (i + 1) (id, n) true).1
          exact ⟨hle.trans hlt.2.le, fun _ => .inr (hle.trans_lt hlt.2)⟩
        next => exact ih ..

end SqliteMultimodal.Vec.Hnsw
