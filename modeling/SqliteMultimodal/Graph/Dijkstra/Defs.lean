import Mathlib.Algebra.Order.Ring.Rat
import SqliteMultimodal.Graph.PriorityQueue
import SqliteMultimodal.Graph.Value
import SqliteMultimodal.Lib.Except

namespace SqliteMultimodal.Graph.Dijkstra

open PriorityQueue (PQNode pqParent pqLeftChild pqRightChild)

/-- What the search takes from doubles.  Their sums are rounded, which keeps the order; NaN stands
where infinity does, since neither is less than a number. -/
class Distances (D : Type) [Zero D] [Add D] [LinearOrder D] where
  dblMax : D
  dblMax_pos : 0 < dblMax
  add_le_add : ∀ {x y : D} (w : D), x ≤ y → x + w ≤ y + w

export Distances (dblMax)

/-- Sums that are exact; `DBL_MAX` is (2⁵³ − 1) · 2⁹⁷¹. -/
instance : Distances ℚ where
  dblMax := Rat.ofInt (Int.ofNat (Nat.shiftLeft 9007199254740991 971))
  dblMax_pos := by decide +kernel
  add_le_add w h := add_le_add_left h w

section Queue

variable {D : Type} [Zero D]

/-- The elements of `aNodes` that are in use. -/
abbrev GraphPriorityQueue (D : Type) := List (PQNode D)

instance : Inhabited (PQNode D) := ⟨⟨0, 0⟩⟩

def pqSwap (pQueue : GraphPriorityQueue D) (i j : Nat) : GraphPriorityQueue D :=
  (pQueue.set i (pQueue.getD j default)).set j (pQueue.getD i default)

variable [LinearOrder D]

def pqBubbleUpFuel : Nat → GraphPriorityQueue D → Nat → GraphPriorityQueue D
  | 0, pQueue, _ => pQueue
  | fuel + 1, pQueue, i =>
    if 0 < i ∧ (pQueue.getD (pqParent i) default).rDistance > (pQueue.getD i default).rDistance then
      pqBubbleUpFuel fuel (pqSwap pQueue i (pqParent i)) (pqParent i)
    else pQueue

def pqBubbleUp (pQueue : GraphPriorityQueue D) (i : Nat) : GraphPriorityQueue D :=
  pqBubbleUpFuel i pQueue i

def pqMinIndex (pQueue : GraphPriorityQueue D) (i : Nat) : Nat :=
  let left := pqLeftChild i
  let right := pqRightChild i
  let minIndex := if left < pQueue.length ∧
      (pQueue.getD left default).rDistance < (pQueue.getD i default).rDistance then left else i
  if right < pQueue.length ∧
      (pQueue.getD right default).rDistance < (pQueue.getD minIndex default).rDistance then right
  else minIndex

def pqBubbleDownFuel : Nat → GraphPriorityQueue D → Nat → GraphPriorityQueue D
  | 0, pQueue, _ => pQueue
  | fuel + 1, pQueue, i =>
    let minIndex := pqMinIndex pQueue i
    if minIndex ≠ i then pqBubbleDownFuel fuel (pqSwap pQueue i minIndex) minIndex else pQueue

def pqBubbleDown (pQueue : GraphPriorityQueue D) (i : Nat) : GraphPriorityQueue D :=
  pqBubbleDownFuel pQueue.length pQueue i

def graphPriorityQueueInsert (pQueue : GraphPriorityQueue D) (iNodeId : Int) (rDistance : D) :
    GraphPriorityQueue D :=
  pqBubbleUp (pQueue ++ [⟨iNodeId, rDistance⟩]) pQueue.length

def graphPriorityQueueExtractMin (pQueue : GraphPriorityQueue D) :
    Option (PQNode D × GraphPriorityQueue D) :=
  if pQueue.length = 0 then none
  else
    -- the last element moves to the root
    let rest := (pQueue.set 0 (pQueue.getD (pQueue.length - 1) default)).dropLast
    some (pQueue.getD 0 default, if 0 < rest.length then pqBubbleDown rest 0 else rest)

end Queue

section Map

inductive Fault
  | running | bucket | unfilled
  deriving DecidableEq, Repr

structure DistanceInfo (D : Type) where
  iNodeId : Int
  rDistance : D
  iPredecessor : Int
  deriving DecidableEq

/-- The chains of the buckets; there are `nBuckets` of them. -/
structure DistanceMap (D : Type) where
  aBuckets : List (List (DistanceInfo D))

variable {D : Type}

def distanceMapCreate (nExpectedNodes : Nat) : DistanceMap D :=
  ⟨List.replicate (nExpectedNodes * 2 + 1) []⟩

variable (pMap : DistanceMap D) (iNodeId : Int)

def iBucket : Int := Int.tmod iNodeId pMap.aBuckets.length

def chainOf : Except Fault (List (DistanceInfo D)) :=
  if 0 ≤ iBucket pMap iNodeId ∧ iBucket pMap iNodeId < pMap.aBuckets.length then
    .ok (pMap.aBuckets.getD (iBucket pMap iNodeId).toNat [])
  else .error .bucket

def overwrite (info : DistanceInfo D) : List (DistanceInfo D) → Option (List (DistanceInfo D))
  | [] => none
  | x :: chain =>
    if x.iNodeId = info.iNodeId then some (info :: chain) else (overwrite info chain).map (x :: ·)

def setInfo (info : DistanceInfo D) (chain : List (DistanceInfo D)) : List (DistanceInfo D) :=
  (overwrite info chain).getD (info :: chain)

def distanceMapSet (rDistance : D) (iPredecessor : Int) : Except Fault (DistanceMap D) := do
  let chain ← chainOf pMap iNodeId
  .ok ⟨pMap.aBuckets.set (iBucket pMap iNodeId).toNat
    (setInfo ⟨iNodeId, rDistance, iPredecessor⟩ chain)⟩

def lookup : Except Fault (Option (DistanceInfo D)) := do
  let chain ← chainOf pMap iNodeId
  .ok (chain.find? fun x => x.iNodeId = iNodeId)

def distanceMapGet [Zero D] [Add D] [LinearOrder D] [Distances D] : Except Fault D := do
  let pInfo ← lookup pMap iNodeId
  .ok ((pInfo.map (·.rDistance)).getD dblMax)

def distanceMapGetPredecessor : Except Fault Int := do
  let pInfo ← lookup pMap iNodeId
  .ok ((pInfo.map (·.iPredecessor)).getD (-1))

end Map

section Search

structure Edge (D : Type) where
  fromId : Int
  toId : Int
  weight : D
  deriving DecidableEq

structure Tables (D : Type) where
  nNodes : Nat
  edges : Option (List (Edge D))

structure Search (D : Type) where
  pQueue : GraphPriorityQueue D
  pDistances : DistanceMap D

variable {D : Type}

/-- The rows of `SELECT to_id, weight FROM %s_edges WHERE from_id = %lld`. -/
def rowsFrom (tables : Tables D) (iCurrentId : Int) : List (Edge D) :=
  (tables.edges.getD []).filter fun row => row.fromId = iCurrentId

variable [Zero D] [Add D] [LinearOrder D] [Distances D]

def relaxEdge (iCurrentId : Int) (rCurrentDist : D) (s : Search D) (row : Edge D) :
    Except Fault (Search D) := do
  let rNewDist := rCurrentDist + row.weight
  let rDistance ← distanceMapGet s.pDistances row.toId
  if rNewDist < rDistance then
    let pDistances ← distanceMapSet s.pDistances row.toId rNewDist iCurrentId
    .ok ⟨graphPriorityQueueInsert s.pQueue row.toId rNewDist, pDistances⟩
  else .ok s

def search (tables : Tables D) (iEndId : Int) : Nat → Search D → Except Fault (Search D)
  | 0, _ => .error .running
  | fuel + 1, s =>
    match graphPriorityQueueExtractMin s.pQueue with
    | none => .ok s
    | some (node, pQueue) =>
      if 0 ≤ iEndId ∧ node.iNodeId = iEndId then .ok { s with pQueue }
      else do
        let rDistance ← distanceMapGet s.pDistances node.iNodeId
        if node.rDistance > rDistance then search tables iEndId fuel { s with pQueue }
        else
          let s ← (rowsFrom tables node.iNodeId).foldlM
            (relaxEdge node.iNodeId node.rDistance) { s with pQueue }
          search tables iEndId fuel s

end Search

section Path

variable {D : Type} (pDistances : DistanceMap D) (iStartId : Int)

def countPath : Nat → Int → Nat → Except Fault Nat
  | 0, _, _ => .error .running
  | fuel + 1, iCurrent, nPath =>
    if iCurrent = -1 then .ok nPath
    else if iCurrent = iStartId then .ok (nPath + 1)
    else do
      let iPredecessor ← distanceMapGetPredecessor pDistances iCurrent
      countPath fuel iPredecessor (nPath + 1)

def fillPath : Nat → Int → List (Option Int) → Except Fault (List (Option Int))
  | 0, _, aPath => .ok aPath
  | i + 1, iCurrent, aPath =>
    if iCurrent = iStartId then .ok (aPath.set i (some iCurrent))
    else do
      let iPredecessor ← distanceMapGetPredecessor pDistances iCurrent
      fillPath i iPredecessor (aPath.set i (some iCurrent))

/-- `[` and the ids with commas between them and `]`. -/
def pathText (aPath : List Int) : Text :=
  aPath.zipIdx.foldl (fun zPath x => if x.2 = 0 then zPath ++ Text.ofInt x.1
    else zPath ++ [','] ++ Text.ofInt x.1) ['['] ++ [']']

end Path

inductive Code
  | ok | notfound
  deriving DecidableEq, Repr

structure Result (D : Type) where
  rc : Code
  pzPath : Option Text
  prDistance : D
  deriving DecidableEq

def graphDijkstra {D : Type} [Zero D] [Add D] [LinearOrder D] [Distances D] (fuel : Nat)
    (tables : Tables D) (iStartId iEndId : Int) : Except Fault (Result D) := do
  let pDistances ← distanceMapSet (distanceMapCreate tables.nNodes) iStartId 0 (-1)
  let s ← search tables iEndId fuel ⟨graphPriorityQueueInsert [] iStartId 0, pDistances⟩
  if 0 ≤ iEndId then
    let rFinalDist ← distanceMapGet s.pDistances iEndId
    if rFinalDist < dblMax then
      let nPath ← countPath s.pDistances iStartId fuel iEndId 0
      let aPath ← fillPath s.pDistances iStartId nPath iEndId (List.replicate nPath none)
      let ids ← aPath.mapM (Except.ofOption .unfilled)
      .ok ⟨.ok, some (pathText ids), rFinalDist⟩
    else .ok ⟨.notfound, none, dblMax⟩
  else .ok ⟨.ok, some "\x7b\x7d".toList, dblMax⟩

end SqliteMultimodal.Graph.Dijkstra
