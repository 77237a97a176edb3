import SqliteMultimodal.Graph.Cypher.Planner
import SqliteMultimodal.Graph.Cypher.ResultRows
import SqliteMultimodal.Lib.Pull

namespace SqliteMultimodal.Graph.Cypher

section Tables

/-- The value of a member of a JSON object, as `json_extract` gives it. -/
inductive PropertyValue
  | null
  | boolean (b : Bool)
  | integer (i : Int)
  | real (r : ℚ)
  | string (s : Text)
  | compound (json : Text)

structure NodeRow where
  id : Int
  labels : Text
  properties : List (Text × PropertyValue)

structure EdgeRow where
  id : Int
  source : Int
  target : Int
  edgeType : Option Text

structure GraphTables where
  nodes : List NodeRow
  edges : List EdgeRow
  nodesNodup : (nodes.map (·.id)).Nodup
  edgesNodup : (edges.map (·.id)).Nodup

def GraphTables.node (g : GraphTables) (i : Int) : Option NodeRow := g.nodes.find? (·.id = i)

/-- The member with the name. The path `$.name` is that member where the name is an identifier, and
the parser gives no other names. -/
def NodeRow.property (node : NodeRow) (zProperty : Text) : Option PropertyValue :=
  (node.properties.find? (·.1 = zProperty)).map (·.2)

def isLabel (zLabel : Text) : Json.Value → Bool
  | .scalar (.string s) => s = zLabel
  | _ => false

/-- `EXISTS (SELECT 1 FROM json_each(labels) WHERE value = zLabel)`, which fails on what is not
JSON.  A label is an identifier, which the text of an array or of an object is not. -/
def labelExists (labels zLabel : Text) : Option Bool :=
  (Json.parse labels).map fun
    | .array values => values.any (isLabel zLabel)
    | .object members => members.any fun m => isLabel zLabel m.2
    | v => isLabel zLabel v

def isArray : Json.Value → Bool
  | .array _ => true
  | _ => false

end Tables

section Statements

variable (g : GraphTables)

abbrev Statement (α : Type) := List (Option α)

def allNodesQuery (zLabel : Option Text) : Statement Int :=
  match zLabel with
  | none => g.nodes.map fun n => some n.id
  | some zLabel => g.nodes.filterMap fun n =>
    match Json.parse n.labels with
    | none => some none
    | some v =>
      if isArray v && labelExists n.labels zLabel = some true then some (some n.id) else none

def labelIndexQuery (zLabel : Text) : Statement Int :=
  (g.nodes.filter fun n => Text.like ("%\"".toList ++ zLabel ++ "\"%".toList) n.labels).map
    fun n => some n.id

/-- `json_extract` where it gives a text, which a number or a boolean is not. -/
def NodeRow.textAt (node : NodeRow) (zProperty : Text) : Option Text :=
  match node.property zProperty with
  | some (.string s) => some s
  | some (.compound json) => some json
  | _ => none

def propertyIndexQuery (zProperty zValue : Text) : Statement Int :=
  (g.nodes.filter fun n => n.textAt zProperty = some zValue).map fun n => some n.id

def typeMatches (zEdgeType edgeType : Option Text) : Bool :=
  match zEdgeType with
  | some (c :: t) => edgeType = some (c :: t)
  | _ => true

def targetLabel (pPlan : PhysicalPlanNode) : Option Text :=
  match pPlan.apChildren with
  | _ :: pTarget :: _ => pTarget.zLabel.filter (· ≠ [])
  | _ => none

def expandQuery (pPlan : PhysicalPlanNode) (iNodeId : Int) : Statement EdgeRow :=
  let edges := g.edges.filter fun e => e.source = iNodeId && typeMatches pPlan.zProperty e.edgeType
  match targetLabel pPlan with
  | none => edges.map some
  | some zLabel => edges.flatMap fun e =>
    (g.nodes.filter fun n => n.id = e.target).filterMap fun n =>
      match labelExists n.labels zLabel with
      | none => some none
      | some true => some (some e)
      | some false => none

end Statements

section Rows

/-- `sqlite3_column_text`; a text ends at its first NUL. -/
def PropertyValue.columnText (realText : ℚ → Text) : PropertyValue → Option Text
  | .null => none
  | .boolean b => some (if b then ['1'] else ['0'])
  | .integer i => some (Text.ofInt i)
  | .real r => some (realText r)
  | .string s => some (s.takeWhile (· ≠ '\x00'))
  | .compound json => some json

variable (realText : ℚ → Text) (g : GraphTables)

def cypherValueGetProperty (zProperty : Text) : CypherValue → Option Text
  | .node i => do PropertyValue.columnText realText (← (← g.node i).property zProperty)
  | _ => none

def columnOf (row : Row) (zName : Text) : Option CypherValue :=
  (row.find? (·.1 = zName)).map (·.2)

def atoi (t : Text) : Int :=
  (BitVec.ofInt 32 (max (-9223372036854775808) (min 9223372036854775807 (Text.atoll t)))).toInt

def filterCompare (iFlags : Int) (zPropValue zValue : Text) : Bool :=
  let cmp := Text.strcmp zPropValue zValue
  if iFlags = 1 then cmp = 0
  else if iFlags = 2 then atoi zPropValue > atoi zValue
  else if iFlags = 3 then atoi zPropValue < atoi zValue
  else if iFlags = 4 then atoi zPropValue ≥ atoi zValue
  else if iFlags = 5 then atoi zPropValue ≤ atoi zValue
  else if iFlags = 6 then cmp ≠ 0
  else false

def filterPasses (pPlan : PhysicalPlanNode) (row : Row) : Bool :=
  match pPlan.zAlias, pPlan.zProperty, pPlan.zValue with
  | some zVarName, some zProperty, some zValue =>
    match (columnOf row zVarName).bind (cypherValueGetProperty realText g zProperty) with
    | some zPropValue => filterCompare pPlan.iFlags zPropValue zValue
    | none => false
  | _, _, _ => false

def relationshipText (e : EdgeRow) : Text :=
  match e.edgeType with
  | some (c :: t) =>
    "Relationship(id=".toList ++ Text.ofInt e.id ++ ",type=".toList ++ c :: t ++ [')']
  | _ => "Relationship(".toList ++ Text.ofInt e.id ++ [')']

def expandRow (pPlan : PhysicalPlanNode) (pCurrentRow : Row) (e : EdgeRow) : Row :=
  pCurrentRow ++ [(pPlan.zAlias.getD "target".toList, .node e.target),
    (pPlan.zLabel.getD ['r'], .string (some (relationshipText e)))]

def sourceAlias (pPlan : PhysicalPlanNode) : Text :=
  (pPlan.apChildren.head?.bind (·.zAlias)).getD "node".toList

end Rows

section Iterators

/-- An iterator and its state; `noSource` is the iterator that is not there. -/
inductive CypherIterator
  | noSource
  | scan (pPlan : PhysicalPlanNode) (bEof : Bool) (pStmt : Statement Int)
  | filter (pPlan : PhysicalPlanNode) (pSource : CypherIterator)
  | projection (pPlan : PhysicalPlanNode) (pSource : CypherIterator)
  | expand (pPlan : PhysicalPlanNode) (pSource : CypherIterator) (pStmt : Statement EdgeRow)
    (pCurrentRow : Row) (bSourceExhausted : Bool)

open CypherIterator

mutual

def cypherIteratorCreate : PhysicalPlanNode → Option CypherIterator
  | ⟨type, zAlias, zLabel, zProperty, zValue, iFlags, pExecState, apChildren⟩ =>
    let pPlan : PhysicalPlanNode :=
      ⟨type, zAlias, zLabel, zProperty, zValue, iFlags, pExecState, apChildren⟩
    match type with
    | .allNodesScan => some (scan pPlan false [])
    | .labelIndexScan => some (scan pPlan false [])
    | .propertyIndexScan => some (scan pPlan false [])
    | .filter =>
      if pExecState.isSome || zProperty.isSome && zValue.isSome then
        (createFirst apChildren).join.map (filter pPlan)
      else none
    | .projection => (createFirst apChildren).join.map (projection pPlan)
    | .expand =>
      match createFirst apChildren with
      | none => some (expand pPlan noSource [] [] false)
      | some pSource => pSource.map fun pSource => expand pPlan pSource [] [] false
    | _ => none

def createFirst : List PhysicalPlanNode → Option (Option CypherIterator)
  | [] => none
  | pChild :: _ => some (cypherIteratorCreate pChild)

end

variable (realText : ℚ → Text) (g : GraphTables)

def scanOpen (pPlan : PhysicalPlanNode) : Option (Statement Int) :=
  if pPlan.type = .labelIndexScan then pPlan.zLabel.map (labelIndexQuery g)
  else if pPlan.type = .propertyIndexScan then
    pPlan.zProperty.map fun zProperty => (pPlan.zValue.map (propertyIndexQuery g zProperty)).getD []
  else some (allNodesQuery g pPlan.zLabel)

def xOpen : CypherIterator → Option CypherIterator
  | noSource => some noSource
  | scan pPlan _ _ => (scanOpen g pPlan).map (scan pPlan false)
  | filter pPlan pSource => (xOpen pSource).map (filter pPlan)
  | projection pPlan pSource => (xOpen pSource).map (projection pPlan)
  | expand pPlan pSource pStmt pCurrentRow _ =>
    (xOpen pSource).map fun pSource => expand pPlan pSource pStmt pCurrentRow false

open Pull.Step

def scanNext (pPlan : PhysicalPlanNode) (bEof : Bool) :
    Statement Int → Pull.Step Row ResultCode × CypherIterator
  | some i :: rest =>
    if bEof then (done, scan pPlan true (some i :: rest))
    else (row [(pPlan.zAlias.getD "node".toList, .node i)], scan pPlan false rest)
  | rest => (done, scan pPlan true rest)

def xNext : Nat → CypherIterator → Option (Pull.Step Row ResultCode × CypherIterator)
  | 0, _ => none
  | _ + 1, noSource => some (done, noSource)
  | _ + 1, scan pPlan bEof pStmt => some (scanNext pPlan bEof pStmt)
  | n + 1, filter pPlan pSource =>
    match xNext n pSource with
    | some (row r, pSource) =>
      if filterPasses realText g pPlan r then some (row r, filter pPlan pSource)
      else xNext n (filter pPlan pSource)
    | some (done, pSource) => some (done, filter pPlan pSource)
    | some (failed rc, pSource) => some (failed rc, filter pPlan pSource)
    | none => none
  | n + 1, projection pPlan pSource =>
    (xNext n pSource).map fun r => (r.1, projection pPlan r.2)
  | _ + 1, expand pPlan pSource (some e :: rest) pCurrentRow bSourceExhausted =>
    some (row (expandRow pPlan pCurrentRow e),
      expand pPlan pSource rest pCurrentRow bSourceExhausted)
  | _ + 1, expand pPlan pSource (none :: rest) pCurrentRow bSourceExhausted =>
    some (failed .error, expand pPlan pSource rest pCurrentRow bSourceExhausted)
  | n + 1, expand pPlan pSource [] pCurrentRow bSourceExhausted =>
    if bSourceExhausted then some (done, expand pPlan pSource [] pCurrentRow true)
    else match xNext n pSource with
      | some (row r, pSource) =>
        match columnOf r (sourceAlias pPlan) with
        | some (.node i) => xNext n (expand pPlan pSource (expandQuery g pPlan i) r false)
        | _ => some (failed .error, expand pPlan pSource [] r false)
      | some (done, pSource) => some (done, expand pPlan pSource [] [] true)
      | some (failed rc, pSource) => some (failed rc, expand pPlan pSource [] [] false)
      | none => none

end Iterators

end SqliteMultimodal.Graph.Cypher
