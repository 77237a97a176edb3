import SqliteMultimodal.Lib.Text

namespace SqliteMultimodal.Graph.Traverse

section Tables

structure Edge where
  fromId : Int
  toId : Int
  deriving DecidableEq

structure Tables where
  nodes : List Int
  edges : Option (List Edge)

def targets (edges : List Edge) (iNodeId : Int) : List Int :=
  (edges.filter fun row => row.fromId = iNodeId).map (·.toId)

def Tables.rowsFrom (tables : Tables) (iNodeId : Int) : Option (List Int) :=
  tables.edges.map (targets · iNodeId)

def graphFindNode (tables : Tables) (iNodeId : Int) : Option Int :=
  tables.nodes.find? (· = iNodeId)

inductive Code
  | ok | error | notfound
  deriving DecidableEq, Repr

end Tables

section Sets

/-- The list from `pHead` to `pTail`. -/
abbrev Queue := List Int

def graphQueueEnqueue (q : Queue) (iNodeId : Int) : Queue := q ++ [iNodeId]

def graphQueueDequeue : Queue → Option (Int × Queue)
  | [] => none
  | iNodeId :: q => some (iNodeId, q)

/-- The elements of `aNodes` that are in use. -/
abbrev GraphVisitedSet := List Int

def graphVisitedSetAdd (pSet : GraphVisitedSet) (iNodeId : Int) : GraphVisitedSet :=
  pSet ++ [iNodeId]

def graphVisitedSetContains (pSet : GraphVisitedSet) (iNodeId : Int) : Bool :=
  pSet.any (· = iNodeId)

end Sets

section DepthFirst

structure DfsState where
  pVisited : GraphVisitedSet
  pzPath : Option Text

def DfsState.enter (s : DfsState) (iNodeId : Int) : DfsState where
  pVisited := graphVisitedSetAdd s.pVisited iNodeId
  pzPath := some (match s.pzPath with
    | none => '[' :: Text.ofInt iNodeId
    | some path => path ++ ',' :: Text.ofInt iNodeId)

def stepRows (visit : Int → DfsState → Option (Code × DfsState)) :
    List Int → DfsState → Option (Code × DfsState)
  | [], s => some (.ok, s)
  | toId :: rows, s =>
    match visit toId s with
    | none => none
    | some (.ok, s) => stepRows visit rows s
    | some (rc, s) => some (rc, s)

def graphDFSRecursive (tables : Tables) (nMaxDepth : Int) :
    Nat → Nat → Int → DfsState → Option (Code × DfsState)
  | 0, _, _, _ => none
  | fuel + 1, nCurrentDepth, iNodeId, s =>
    if 0 ≤ nMaxDepth ∧ nMaxDepth ≤ nCurrentDepth then some (.ok, s)
    else if graphVisitedSetContains s.pVisited iNodeId then some (.ok, s)
    else
      match tables.rowsFrom iNodeId with
      | none => some (.error, s.enter iNodeId)
      | some rows =>
        stepRows (graphDFSRecursive tables nMaxDepth fuel (nCurrentDepth + 1)) rows
          (s.enter iNodeId)

def graphDFS (fuel : Nat) (tables : Tables) (iStartId nMaxDepth : Int) :
    Option (Code × Option Text) :=
  match graphFindNode tables iStartId with
  | none => some (.notfound, none)
  | some _ =>
    match graphDFSRecursive tables nMaxDepth fuel 0 iStartId ⟨[], none⟩ with
    | none => none
    | some (.ok, s) => some (.ok, s.pzPath.map (· ++ [']']))
    | some (rc, s) => some (rc, s.pzPath)

end DepthFirst

section BreadthFirst

structure GraphDepthInfo where
  iNodeId : Int
  nDepth : Nat

structure BfsState where
  pQueue : Queue
  pVisited : GraphVisitedSet
  pDepthList : List GraphDepthInfo
  pzPath : Text
  rc : Code

def depthOf (pDepthList : List GraphDepthInfo) (iNodeId : Int) : Nat :=
  match pDepthList.find? (fun pDepthInfo => pDepthInfo.iNodeId = iNodeId) with
  | none => 0
  | some pDepthInfo => pDepthInfo.nDepth

def visitTarget (nCurrentDepth : Nat) (s : BfsState) (toId : Int) : BfsState :=
  if graphVisitedSetContains s.pVisited toId then s
  else {
    pQueue := graphQueueEnqueue s.pQueue toId
    pVisited := graphVisitedSetAdd s.pVisited toId
    pDepthList := ⟨toId, nCurrentDepth + 1⟩ :: s.pDepthList
    pzPath := s.pzPath ++ ',' :: Text.ofInt toId
    rc := .ok }

def bfsLoop (tables : Tables) (nMaxDepth : Int) : Nat → BfsState → Option BfsState
  | 0, _ => none
  | fuel + 1, s =>
    match graphQueueDequeue s.pQueue with
    | none => some s
    | some (iCurrentId, pQueue) =>
      let nCurrentDepth := depthOf s.pDepthList iCurrentId
      if 0 ≤ nMaxDepth ∧ nMaxDepth ≤ nCurrentDepth then
        bfsLoop tables nMaxDepth fuel { s with pQueue }
      else
        match tables.rowsFrom iCurrentId with
        | none => bfsLoop tables nMaxDepth fuel { s with pQueue, rc := .error }
        | some rows =>
          bfsLoop tables nMaxDepth fuel
            (rows.foldl (visitTarget nCurrentDepth) { s with pQueue, rc := .ok })

def bfsInit (iStartId : Int) : BfsState where
  pQueue := graphQueueEnqueue [] iStartId
  pVisited := graphVisitedSetAdd [] iStartId
  pDepthList := [⟨iStartId, 0⟩]
  pzPath := '[' :: Text.ofInt iStartId
  rc := .ok

def graphBFS (fuel : Nat) (tables : Tables) (iStartId nMaxDepth : Int) :
    Option (Code × Option Text) :=
  match bfsLoop tables nMaxDepth fuel (bfsInit iStartId) with
  | none => none
  | some s => some (s.rc, some (if s.rc = .ok then s.pzPath ++ [']'] else s.pzPath))

end BreadthFirst

end SqliteMultimodal.Graph.Traverse
