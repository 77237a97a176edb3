import Mathlib.Algebra.Order.Ring.Int
import Mathlib.Data.List.Dedup
import Mathlib.Data.List.Sort
import SqliteMultimodal.Lib.Except
import SqliteMultimodal.Lib.Text

namespace SqliteMultimodal.Graph.PageRank

section Tables

structure Edge where
  source : Int
  target : Int
  deriving DecidableEq

structure Tables where
  nodes : List Int
  edges : List Edge

/-- `sqlite3_column_int`, which keeps the lower 32 bits. -/
def columnInt (i : Int) : Int := i.bmod 4294967296

def outDegreeRows (edges : List Edge) : List (Int × Nat) :=
  ((edges.map (·.source)).dedup.insertionSort fun a b => a ≤ b).map fun source =>
    (source, edges.countP (·.source = source))

end Tables

section Arrays

inductive Fault
  | subscript
  deriving DecidableEq, Repr

variable {β : Type}

def readAt (xs : List β) (i : Int) : Except Fault β :=
  Except.ofOption .subscript (if 0 ≤ i then xs[i.toNat]? else none)

def writeAt (xs : List β) (i : Int) (x : β) : Except Fault (List β) :=
  if 0 ≤ i ∧ i < xs.length then .ok (xs.set i.toNat x) else .error .subscript

def countEdges (pOutDegree : List Nat) (row : Int × Nat) : Except Fault (List Nat) :=
  writeAt pOutDegree (columnInt row.1) row.2

def outDegrees (tables : Tables) : Except Fault (List Nat) :=
  (outDegreeRows tables.edges).foldlM countEdges (List.replicate (tables.nodes.length + 1) 0)

end Arrays

section Iteration

variable {α : Type} [Zero α] [One α] [Add α] [Sub α] [Mul α] [Div α] [NatCast α] [LT α]
  [DecidableLT α]

def baseRank (rDamping : α) (nNodes : Nat) : α := (1 - rDamping) / (nNodes : α)

def addShare (rDamping : α) (pRank : List α) (pOutDegree : List Nat) (pNextRank : List α)
    (row : Edge) : Except Fault (List α) := do
  let from' := columnInt row.source
  let to' := columnInt row.target
  let rank ← readAt pRank from'
  let degree ← readAt pOutDegree from'
  let next ← readAt pNextRank to'
  writeAt pNextRank to' (next + rDamping * rank / (degree : α))

/-- `graphPageRankFunc`: the next ranks, and the sum of the squares of the differences. -/
def iterationFunc (tables : Tables) (rDamping : α) (pOutDegree : List Nat) (pRank : List α) :
    Except Fault (List α × α) := do
  let pNextRank ← tables.edges.foldlM (addShare rDamping pRank pOutDegree)
    (List.replicate (tables.nodes.length + 1) (baseRank rDamping tables.nodes.length))
  .ok (pNextRank, (List.zipWith (fun next rank => (next - rank) * (next - rank)) pNextRank
    pRank).foldl (· + ·) 0)

def addShareGuarded (rDamping : α) (aPageRank : List α) (aOutDegree : List Nat)
    (aNewPageRank : List α) (row : Edge) : Except Fault (List α) := do
  let from' := columnInt row.source
  let to' := columnInt row.target
  let degree ← readAt aOutDegree from'
  if 0 < degree then
    let rank ← readAt aPageRank from'
    let next ← readAt aNewPageRank to'
    writeAt aNewPageRank to' (next + rDamping * rank / (degree : α))
  else .ok aNewPageRank

def fabs (x : α) : α := if x < 0 then 0 - x else x

/-- `graphPageRank`: the next ranks, and the greatest of the differences. -/
def iteration (tables : Tables) (rDamping : α) (aOutDegree : List Nat) (aPageRank : List α) :
    Except Fault (List α × α) := do
  let aNewPageRank ← tables.edges.foldlM (addShareGuarded rDamping aPageRank aOutDegree)
    (List.replicate (tables.nodes.length + 1) (baseRank rDamping tables.nodes.length))
  .ok (aNewPageRank, (List.zipWith (fun new rank => fabs (new - rank)) aNewPageRank
    aPageRank).foldl (fun rMaxDiff rDiff => if rMaxDiff < rDiff then rDiff else rMaxDiff) 0)

def powerLoop (body : List α → Except Fault (List α × α)) (rEpsilon : α) :
    Nat → List α → Except Fault (List α)
  | 0, pRank => .ok pRank
  | n + 1, pRank => do
    let (pRank, rDiff) ← body pRank
    if rDiff < rEpsilon then .ok pRank else powerLoop body rEpsilon n pRank

def firstRanks (tables : Tables) : List α :=
  List.replicate (tables.nodes.length + 1) (1 / (tables.nodes.length : α))

/-- The ranks that `graphPageRankFunc` ends with. -/
def ranksFunc (tables : Tables) (rDamping : α) (nMaxIter : Nat) (rEpsilon : α) :
    Except Fault (List α) := do
  let pOutDegree ← outDegrees tables
  powerLoop (iterationFunc tables rDamping pOutDegree) rEpsilon nMaxIter (firstRanks tables)

/-- The ranks that `graphPageRank` ends with. -/
def ranks (tables : Tables) (rDamping : α) (nMaxIter : Nat) (rEpsilon : α) :
    Except Fault (List α) := do
  let aOutDegree ← outDegrees tables
  powerLoop (iteration tables rDamping aOutDegree) rEpsilon nMaxIter (firstRanks tables)

end Iteration

section Answer

variable {α : Type}

/-- One row of `SELECT id FROM %s_nodes`; the flag is `bFirst`. -/
def printRow (percentF : α → Text) (pRank : List α) (s : Text × Bool) (id : Int) :
    Except Fault (Text × Bool) := do
  let zResult := if s.2 then s.1 else s.1 ++ [',']
  let iNodeId := columnInt id
  let rank ← readAt pRank iNodeId
  .ok (zResult ++ '"' :: (Text.ofInt iNodeId ++ '"' :: ':' :: percentF rank), false)

def printRanks (percentF : α → Text) (tables : Tables) (pRank : List α) : Except Fault Text := do
  let s ← tables.nodes.foldlM (printRow percentF pRank) (['\x7b'], true)
  .ok (s.1 ++ ['\x7d'])

inductive Answer
  | text (zResult : Text)
  | error (zMessage : Text)
  deriving DecidableEq

variable [Zero α] [One α] [Add α] [Sub α] [Mul α] [Div α] [NatCast α] [LT α] [DecidableLT α]

/-- The text of `graphPageRank`, whose numbers are printed by `%.6f`. -/
def graphPageRank (percentF : α → Text) (tables : Tables) (rDamping : α) (nMaxIter : Int)
    (rEpsilon : α) : Except Fault Text :=
  if tables.nodes.length = 0 then .ok "\x7b\x7d".toList
  else do
    let aPageRank ← ranks tables rDamping nMaxIter.toNat rEpsilon
    printRanks percentF tables aPageRank

variable [LE α] [DecidableLE α]

def refused (rDamping : α) (nMaxIter : Int) (rEpsilon : α) : Option Text :=
  if rDamping < 0 ∨ 1 < rDamping then some "Damping factor must be between 0 and 1".toList
  else if nMaxIter < 1 then some "Max iterations must be positive".toList
  else if rEpsilon ≤ 0 then some "Epsilon must be positive".toList
  else none

def defaultDamping : α := ((85 : Nat) : α) / ((100 : Nat) : α)

def defaultMaxIter : Int := 100

def defaultEpsilon : α := 1 / ((10000 : Nat) : α)

/-- An argument that is not given is `none`. -/
def graphPageRankFunc (percentF : α → Text) (tables : Tables) (damping : Option α)
    (maxIter : Option Int) (epsilon : Option α) : Except Fault Answer :=
  let rDamping := damping.getD defaultDamping
  let nMaxIter := maxIter.getD defaultMaxIter
  let rEpsilon := epsilon.getD defaultEpsilon
  match refused rDamping nMaxIter rEpsilon with
  | some zMessage => .ok (.error zMessage)
  | none =>
    if tables.nodes.length = 0 then .ok (.text "\x7b\x7d".toList)
    else do
      let pRank ← ranksFunc tables rDamping nMaxIter.toNat rEpsilon
      let zResult ← printRanks percentF tables pRank
      .ok (.text zResult)

end Answer

end SqliteMultimodal.Graph.PageRank
