import SqliteMultimodal.Lib.Except
import SqliteMultimodal.Vec.Hnsw.Defs

/-! The graph as it lies in memory: a node keeps its own id, arrays of neighbours and a counter for
each level, and every access is checked against the size of its array. -/

namespace SqliteMultimodal.Vec.Hnsw.Memory

inductive Fault
  | range
  | fuel
  deriving DecidableEq

/-- An `HNSWNode`.  `pad` are the three bytes after `deleted`. -/
structure Node (α : Type) where
  id : Int
  rowid : Int32
  level : Nat
  vec : List α
  nbors : Nat → Nat → Int
  nborCount : Nat → Int
  deleted : Bool
  pad : BitVec 24

/-- An `HNSW`, with as many nodes as `num_nodes` says. -/
structure Graph (α : Type) where
  dim : Nat
  maxNodes : Nat
  nodes : List (Node α)
  entryId : Int
  maxLevel : Nat

variable {α : Type}

def load {β : Type} (xs : List β) (i : Int) : Except Fault β :=
  if 0 ≤ i then .ofOption .range xs[i.toNat]? else .error .range

def store {β : Type} (xs : List β) (i : Int) (x : β) : Except Fault (List β) :=
  if 0 ≤ i ∧ i < xs.length then .ok (xs.set i.toNat x) else .error .range

/-- `xs[n++] = x` for an array of this size that has been filled up to `n`. -/
def push {β : Type} (size : Int) (xs : List β) (x : β) : Except Fault (List β) :=
  if xs.length < size then .ok (xs ++ [x]) else .error .range

def Node.count (n : Node α) (level : Nat) : Except Fault Int :=
  if level < maxLevels then .ok (n.nborCount level) else .error .range

def Node.nbor (n : Node α) (level i : Nat) : Except Fault Int :=
  if level < maxLevels ∧ i < maxNeighbors then .ok (n.nbors level i) else .error .range

def hnswCreate (maxNodes dim : Nat) : Graph α := ⟨dim, maxNodes, [], -1, 0⟩

/-- `mem` is what the allocated memory held. -/
def nodeCreate (mem : Node α) (id : Int) (rowid : Int32) (vec : List α) (level : Nat) : Node α :=
  { mem with id, rowid, level, vec, nborCount := fun _ => 0, deleted := false }

/-- `connect_nodes` on its first node, for a second one with this id. -/
def Node.connect (n : Node α) (id : Int) (level : Nat) : Node α :=
  if n.nborCount level < maxNeighbors then
    { n with
      nbors := Function.update n.nbors level
        (Function.update (n.nbors level) (n.nborCount level).toNat id)
      nborCount := Function.update n.nborCount level (n.nborCount level + 1) }
  else n

section Code

variable [LinearOrder α] (distfunc : List α → List α → α) (randomLevel : Nat → Nat)

section Greedy

variable (nodes : List (Node α)) (query : List α)

/-- The `for` loop over the neighbours, whose bound is that of the node it has moved to.  A node
comes with its place. -/
def scanNbors (level : Nat) : Nat → Nat → Int × Node α → Bool →
    Except Fault ((Int × Node α) × Bool)
  | 0, _, _, _ => .error .fuel
  | fuel + 1, i, cur, changed => do
    let count ← cur.2.count level
    if i < count then
      let nid ← cur.2.nbor level i
      let n ← load nodes nid
      if !n.deleted && distfunc n.vec query < distfunc cur.2.vec query then
        scanNbors level fuel (i + 1) (nid, n) true
      else scanNbors level fuel (i + 1) cur changed
    else return (cur, changed)

/-- The `while` loop around it. -/
def descendLevel (fuel level : Nat) : Nat → Int × Node α → Except Fault (Int × Node α)
  | 0, _ => .error .fuel
  | turns + 1, cur => do
    let (cur, changed) ← scanNbors distfunc nodes query level fuel 0 cur false
    if changed then descendLevel fuel level turns cur else return cur

/-- The same loop in `hnsw_add`, which also looks whether there are neighbours. -/
def improveLevel (fuel level : Nat) : Nat → Int × Node α → Except Fault (Int × Node α)
  | 0, _ => .error .fuel
  | turns + 1, cur => do
    let count ← cur.2.count level
    if 0 < count then
      let (cur, improved) ← scanNbors distfunc nodes query level fuel 0 cur false
      if improved then improveLevel fuel level turns cur else return cur
    else return cur

/-- The levels from `maxLevel` down to the one above `level`. -/
def levelsAbove (level maxLevel : Nat) : List Nat :=
  (List.range' (level + 1) (maxLevel - level)).reverse

def descend (fuel maxLevel : Nat) (cur : Int × Node α) : Except Fault (Int × Node α) :=
  (levelsAbove 0 maxLevel).foldlM (fun cur l => descendLevel distfunc nodes query fuel l fuel cur)
    cur

/-- The descent in `hnsw_add`, which starts every level at the place where the last one ended. -/
def improve (fuel level maxLevel : Nat) (curEntry : Int) : Except Fault Int :=
  (levelsAbove level maxLevel).foldlM (fun curEntry l => do
    let ep ← load nodes curEntry
    if ep.deleted then return curEntry
    else
      let (curEntry, _) ← improveLevel distfunc nodes query fuel l fuel (curEntry, ep)
      return curEntry) curEntry

end Greedy

/-- The nodes that `n` may be linked to at this level, by distance. -/
def candidates (nodes : List (Node α)) (n : Node α) (level : Nat) : List Int :=
  let found := nodes.filter fun c => !c.deleted && level ≤ c.level && c.id ≠ n.id
  (Sorting.exchangeSort Prod.snd (found.map fun c => (c.id, distfunc n.vec c.vec))).map Prod.fst

/-- Link the node at place `p` and the one at place `nid` both ways. -/
def linkOne (p : Nat) (level : Nat) (nodes : List (Node α)) (nid : Int) :
    Except Fault (List (Node α)) := do
  let n ← load nodes p
  let c ← load nodes nid
  return (nodes.modify p (·.connect c.id level)).modify nid.toNat (·.connect n.id level)

def linkLevel (p : Nat) (nodes : List (Node α)) (level : Nat) : Except Fault (List (Node α)) := do
  let n ← load nodes p
  ((candidates distfunc nodes n level).take maxNeighbors).foldlM (linkOne p level) nodes

/-- `mem` is what the memory of the new node held. -/
def hnswAdd (fuel : Nat) (mem : Node α) (h : Graph α) (vec : List α) (rowid : Int32) :
    Except Fault (Graph α × ResultCode) :=
  if h.maxNodes ≤ h.nodes.length then return (h, sqliteNomem)
  else do
    let id := h.nodes.length
    let n := nodeCreate mem id rowid vec (randomLevel id)
    let nodes := h.nodes ++ [n]
    if h.entryId = -1 then
      return ({ h with nodes, entryId := 0, maxLevel := n.level }, sqliteOk)
    else
      let _ ← improve distfunc nodes n.vec fuel n.level h.maxLevel h.entryId
      let nodes ← (List.range (n.level + 1)).reverse.foldlM (linkLevel distfunc id) nodes
      if h.maxLevel < n.level then
        return ({ h with nodes, entryId := n.id, maxLevel := n.level }, sqliteOk)
      else return ({ h with nodes }, sqliteOk)

def findLive (nodes : List (Node α)) (rowid : Int32) : Option Nat :=
  nodes.findIdx? fun n => n.rowid = rowid ∧ !n.deleted

def hnswDelete (h : Graph α) (rowid : Int32) : Graph α × ResultCode :=
  match findLive h.nodes rowid with
  | none => (h, sqliteOk)
  | some i =>
    ({ h with nodes := h.nodes.modify i fun n => { n with deleted := true } }, sqliteOk)

def hnswUpdate (fuel : Nat) (mem : Node α) (h : Graph α) (rowid : Int32) (vec : List α)
    (reinsert : Bool) : Except Fault (Graph α × ResultCode) :=
  match findLive h.nodes rowid with
  | none => return (h, sqliteOk)
  | some i =>
    if !reinsert then
      return ({ h with nodes := h.nodes.modify i fun n => { n with vec } }, sqliteOk)
    else
      hnswAdd distfunc randomLevel fuel mem
        { h with nodes := h.nodes.modify i fun n => { n with deleted := true } } vec rowid

section Search

variable (nodes : List (Node α)) (query : List α)

def scanEntry : Nat → Int → Node α → Except Fault (Int × Node α)
  | 0, _, _ => .error .fuel
  | fuel + 1, ep, cur =>
    if cur.deleted && ep < nodes.length then do
      let cur ← load nodes (ep + 1)
      scanEntry fuel (ep + 1) cur
    else return (ep, cur)

/-- The eight bytes that `bsearch` reads at `&n->rowid`. -/
def Node.key (n : Node α) : Rowid :=
  (n.rowid.toUInt32.toUInt64 ||| (n.level.toUInt64 <<< 32)).toInt64

def eligible (map : RowidMap) (n : Node α) : Bool :=
  !n.deleted && (bsearch n.key map.rowids || !map.preFilter)

/-- `out_ids[results] = n->rowid` and `out_dists[results++] = d`, if the node is wanted. -/
def report (ef : Int) (map : RowidMap) (n : Node α) (out : List (Rowid × α)) :
    Except Fault (List (Rowid × α)) :=
  if eligible map n then push ef out (n.rowid.toInt64, distfunc n.vec query) else pure out

def enqueueNbors (n : Node α) : Nat → Nat → List Bool → List Int →
    Except Fault (List Bool × List Int)
  | 0, _, _, _ => .error .fuel
  | fuel + 1, i, visited, q => do
    let count ← n.count 0
    if i < count then
      let nid ← n.nbor 0 i
      let seen ← load visited nid
      if seen then enqueueNbors n fuel (i + 1) visited q
      else
        let c ← load nodes nid
        if c.deleted then enqueueNbors n fuel (i + 1) visited q
        else
          let visited ← store visited nid true
          let q ← push nodes.length q nid
          enqueueNbors n fuel (i + 1) visited q
    else return (visited, q)

def bfs (ef : Int) (map : RowidMap) (fuel : Nat) : Nat → List Bool → List Int → Nat →
    List (Rowid × α) → Except Fault (List (Rowid × α))
  | 0, _, _, _, _ => .error .fuel
  | turns + 1, visited, q, qh, out =>
    if qh < q.length ∧ out.length < ef then do
      let id ← load q qh
      let n ← load nodes id
      let out ← report distfunc query ef map n out
      let (visited, q) ← enqueueNbors nodes n fuel 0 visited q
      bfs ef map fuel turns visited q (qh + 1) out
    else return out

end Search

/-- The number that is returned, and the arrays `out_ids` and `out_dists` as far as they have been
filled.  Every loop may take `fuel` turns. -/
def hnswSearch (fuel : Nat) (h : Graph α) (query : List α) (ef topk : Int) (map : RowidMap) :
    Except Fault (Int × List (Rowid × α)) := do
  let cur ← load h.nodes h.entryId
  let cur ← scanEntry h.nodes fuel h.entryId cur
  let cur ← descend distfunc h.nodes query fuel h.maxLevel cur
  let q ← push h.nodes.length [] cur.2.id
  let visited ← store (List.replicate h.nodes.length false) cur.2.id true
  let out ← bfs distfunc h.nodes query ef map fuel fuel visited q 0 []
  let out := Sorting.exchangeSort Prod.snd out
  return (if topk < out.length then topk else out.length, out)

end Code

end SqliteMultimodal.Vec.Hnsw.Memory
