import Mathlib.Data.List.Sort
import SqliteMultimodal.Lib.Text

/-! `graphStronglyConnectedComponents` of `graph-advanced.c`.  Allocations succeed, and the query of
`tarjanStrongConnect` returns the targets of the edges of its node. -/

namespace SqliteMultimodal.Graph.Components

section Tables

structure Edge where
  fromId : Int
  toId : Int
  deriving DecidableEq

structure Tables where
  nodes : List Int
  edges : List Edge
  nodup : nodes.Nodup

def Tables.targets (tables : Tables) (iNodeId : Int) : List Int :=
  (tables.edges.filter (·.fromId = iNodeId)).map (·.toId)

def createNodeIndexMap (tables : Tables) : List Int := tables.nodes.insertionSort fun a b => a ≤ b

end Tables

section Arrays

variable {β : Type}

def readAt (xs : List β) (i : Int) : Option β := if 0 ≤ i then xs[i.toNat]? else none

def writeAt (xs : List β) (i : Int) (x : β) : Option (List β) :=
  if 0 ≤ i ∧ i < xs.length then some (xs.set i.toNat x) else none

def searchIndex (aNodeIds : List Int) (iNodeId : Int) : Nat → Int → Int → Option Int
  | 0, _, _ => none
  | turns + 1, left, right =>
    if left ≤ right then do
      let mid := (left + right) / 2
      let id ← readAt aNodeIds mid
      if id = iNodeId then some mid
      else if id < iNodeId then searchIndex aNodeIds iNodeId turns (mid + 1) right
      else searchIndex aNodeIds iNodeId turns left (mid - 1)
    else some (-1)

def getNodeIndex (aNodeIds : List Int) (iNodeId : Int) : Option Int :=
  searchIndex aNodeIds iNodeId (aNodeIds.length + 1) 0 (aNodeIds.length - 1)

end Arrays

section Search

structure TarjanState where
  aIndex : List Int
  aLowLink : List Int
  aOnStack : List Bool
  pStack : List Int
  nIndex : Int
  azSCC : List Text

def enter (s : TarjanState) (iNodeIdx : Int) : Option TarjanState := do
  let aIndex ← writeAt s.aIndex iNodeIdx s.nIndex
  let aLowLink ← writeAt s.aLowLink iNodeIdx s.nIndex
  let aOnStack ← writeAt s.aOnStack iNodeIdx true
  some { s with
    aIndex := aIndex
    aLowLink := aLowLink
    aOnStack := aOnStack
    pStack := iNodeIdx :: s.pStack
    nIndex := s.nIndex + 1 }

def lowerTo (s : TarjanState) (iNodeIdx value : Int) : Option TarjanState := do
  let low ← readAt s.aLowLink iNodeIdx
  if value < low then do
    let aLowLink ← writeAt s.aLowLink iNodeIdx value
    some { s with aLowLink := aLowLink }
  else some s

/-- A row of the query: `connect` is the call for a node that has no index. -/
def followRow (connect : Int → TarjanState → Option TarjanState) (aNodeIds : List Int)
    (iNodeIdx : Int) (s : TarjanState) (iToId : Int) : Option TarjanState := do
  let iToIdx ← getNodeIndex aNodeIds iToId
  if 0 ≤ iToIdx then do
    let index ← readAt s.aIndex iToIdx
    if index = -1 then do
      let s ← connect iToIdx s
      let low ← readAt s.aLowLink iToIdx
      lowerTo s iNodeIdx low
    else do
      let onStack ← readAt s.aOnStack iToIdx
      if onStack then lowerTo s iNodeIdx index else some s
  else some s

/-- The stack and the flags when the nodes down to `iNodeIdx` are popped, and their text. -/
def popStack (aNodeIds : List Int) (iNodeIdx : Int) :
    List Int → List Bool → Text → Bool → Option (List Int × List Bool × Text)
  | [], aOnStack, zSCC, _ => some ([], aOnStack, zSCC)
  | iIdx :: pNext, aOnStack, zSCC, first => do
    let id ← readAt aNodeIds iIdx
    let zSCC := zSCC ++ (if first then [] else [',']) ++ Text.ofInt id
    let aOnStack ← writeAt aOnStack iIdx false
    if iIdx = iNodeIdx then some (pNext, aOnStack, zSCC)
    else popStack aNodeIds iNodeIdx pNext aOnStack zSCC false

def closeComponent (aNodeIds : List Int) (s : TarjanState) (iNodeIdx : Int) :
    Option TarjanState := do
  let low ← readAt s.aLowLink iNodeIdx
  let index ← readAt s.aIndex iNodeIdx
  if low = index then do
    let (pStack, aOnStack, zSCC) ← popStack aNodeIds iNodeIdx s.pStack s.aOnStack ['['] true
    some { s with pStack := pStack, aOnStack := aOnStack, azSCC := s.azSCC ++ [zSCC ++ [']']] }
  else some s

def tarjanStrongConnect (tables : Tables) (aNodeIds : List Int) :
    Nat → Int → TarjanState → Option TarjanState
  | 0, _, _ => none
  | n + 1, iNodeIdx, s => do
    let iNodeId ← readAt aNodeIds iNodeIdx
    let s ← enter s iNodeIdx
    let s ← (tables.targets iNodeId).foldlM
      (followRow (tarjanStrongConnect tables aNodeIds n) aNodeIds iNodeIdx) s
    closeComponent aNodeIds s iNodeIdx

def visitNode (tables : Tables) (aNodeIds : List Int) (n : Nat) (s : TarjanState) (i : Nat) :
    Option TarjanState := do
  let index ← readAt s.aIndex i
  if index = -1 then tarjanStrongConnect tables aNodeIds n i s else some s

def firstState (nNodes : Nat) : TarjanState where
  aIndex := List.replicate nNodes (-1)
  aLowLink := List.replicate nNodes (-1)
  aOnStack := List.replicate nNodes false
  pStack := []
  nIndex := 0
  azSCC := []

def resultText (azSCC : List Text) : Text :=
  azSCC.zipIdx.foldl (fun zResult x => if x.2 = 0 then zResult ++ x.1
    else zResult ++ [','] ++ x.1) ['['] ++ [']']

/-- The text for `pzSCC`, with so many calls within each other at most.  There is none where a
subscript lies outside of an array. -/
def graphStronglyConnectedComponents (tables : Tables) (n : Nat) : Option Text :=
  if tables.nodes.length = 0 then some ['[', ']']
  else do
    let s ← (List.range tables.nodes.length).foldlM
      (visitNode tables (createNodeIndexMap tables) n) (firstState tables.nodes.length)
    some (resultText s.azSCC)

end Search

end SqliteMultimodal.Graph.Components
