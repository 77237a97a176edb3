import SqliteMultimodal.Graph.Value

namespace SqliteMultimodal.Graph

structure EdgeRow where
  fromNode : Int
  toNode : Int
  edgeType : Option Text
  weight : ℚ
  properties : Option Text
  deriving DecidableEq

structure Store where
  nodes : RowTable NodeRow
  edges : RowTable EdgeRow
  deriving DecidableEq

def Store.empty : Store := ⟨.empty, .empty⟩

def EdgeRow.touches (row : EdgeRow) (iNodeId : Int) : Bool :=
  row.fromNode = iNodeId || row.toNode = iNodeId

variable (host : Host)

def labelsJson (labels : List Text) : Text := bracketed (Text.join ',' (labels.map quoted))

section Insert

/-- `INSERT INTO graph_nodes`; a key that is not positive is chosen by SQLite. -/
def insertNode (store : Store) (iNodeId : Int) (row : NodeRow) : ResultCode × Store :=
  let key := if iNodeId > 0 then iNodeId else store.nodes.nextKey
  match store.nodes.insert key row with
  | none => (.constraint, store)
  | some nodes => (.ok, { store with nodes })

def insertEdge (store : Store) (iEdgeId : Int) (row : EdgeRow) : ResultCode × Store :=
  let key := if iEdgeId > 0 then iEdgeId else store.edges.nextKey
  match store.edges.insert key row with
  | none => (.constraint, store)
  | some edges => (.ok, { store with edges })

/-- A text that is escaped and put between quotes, or `NULL`. -/
def literalOrNull : Option Text → Option (Option Text)
  | none => some none
  | some t => (Text.literal (Text.escape t)).map some

def cypherStorageAddNode (store : Store) (iNodeId : Int) (azLabels : List Text)
    (zProperties : Option Text) : ResultCode × Store :=
  match Text.literal (labelsJson (azLabels.map Text.escape)), literalOrNull zProperties with
  | some labels, some properties => insertNode store iNodeId ⟨some labels, properties⟩
  | _, _ => (.error, store)

def cypherStorageAddEdge (store : Store) (iEdgeId iFromId iToId : Int) (zType : Option Text)
    (rWeight : ℚ) (zProperties : Option Text) : ResultCode × Store :=
  if iFromId ≤ 0 ∨ iToId ≤ 0 then (.misuse, store)
  else
    match literalOrNull zType, literalOrNull zProperties with
    | some type, some properties =>
      insertEdge store iEdgeId ⟨iFromId, iToId, type, rWeight, properties⟩
    | _, _ => (.error, store)

end Insert

section Update

def setProperties (properties : Option Text) (zProperty zValueJson : Text) : Option Text :=
  host.jsonSet (properties.getD "\x7b\x7d".toList) zProperty zValueJson

def updateNode (store : Store) (iNodeId : Int) (f : NodeRow → Option NodeRow) :
    ResultCode × Store :=
  match store.nodes.get iNodeId with
  | none => (.ok, store)
  | some row =>
    match f row with
    | none => (.error, store)
    | some row' => (.ok, { store with nodes := store.nodes.modify iNodeId fun _ => row' })

def updateEdge (store : Store) (iEdgeId : Int) (f : EdgeRow → Option EdgeRow) :
    ResultCode × Store :=
  match store.edges.get iEdgeId with
  | none => (.ok, store)
  | some row =>
    match f row with
    | none => (.error, store)
    | some row' => (.ok, { store with edges := store.edges.modify iEdgeId fun _ => row' })

def cypherStorageUpdateProperties (store : Store) (iNodeId iEdgeId : Int) (zProperty : Option Text)
    (pValue : Option CypherValue) : ResultCode × Store :=
  match zProperty, pValue with
  | some zProperty, some pValue =>
    if (iNodeId > 0 ∧ iEdgeId > 0) ∨ (iNodeId ≤ 0 ∧ iEdgeId ≤ 0) then (.misuse, store)
    else
      let zValueJson := cypherValueToJson host pValue
      match Text.literal (Text.escape zProperty), Text.literal (Text.escape zValueJson) with
      | some property, some value =>
        if iNodeId > 0 then
          updateNode store iNodeId fun row =>
            (setProperties host row.properties property value).map fun p =>
              { row with properties := some p }
        else
          updateEdge store iEdgeId fun row =>
            (setProperties host row.properties property value).map fun p =>
              { row with properties := some p }
      | _, _ => (.error, store)
  | _, _ => (.misuse, store)

/-- `UPDATE graph_nodes SET labels = 'zLabels'`, the text as it stands: only text that is a literal
is written. -/
def updateLabels (store : Store) (iNodeId : Int) (zLabels : Text) : ResultCode × Store :=
  match Text.literal zLabels with
  | none => (.error, store)
  | some labels => updateNode store iNodeId fun row => some { row with labels := some labels }

/-- The same statement where a rollback makes it, with whatever text the row had. -/
def restoreLabels (store : Store) (iNodeId : Int) (zOldLabels : Text) : Store :=
  match Text.literal zOldLabels with
  | some labels => (updateNode store iNodeId fun row => some { row with labels := some labels }).2
  | none => { store with nodes := host.pastedUpdate zOldLabels iNodeId store.nodes }

def appendLabel (store : Store) (iNodeId : Int) (zLabel : Text) : ResultCode × Store :=
  match Text.literal zLabel with
  | none => (.error, store)
  | some label => updateNode store iNodeId fun row =>
      (host.jsonAppend (row.labels.getD "[]".toList) label).map fun l =>
        { row with labels := some l }

end Update

section Delete

def Store.detach (store : Store) (iNodeId : Int) : Store :=
  { store with edges := store.edges.filter fun _ row => !row.touches iNodeId }

def Store.deleteNode (store : Store) (iNodeId : Int) : Store :=
  { store with nodes := store.nodes.delete iNodeId }

def Store.deleteEdge (store : Store) (iEdgeId : Int) : Store :=
  { store with edges := store.edges.delete iEdgeId }

def cypherStorageDeleteNode (store : Store) (iNodeId : Int) (bDetach : Bool) : ResultCode × Store :=
  if iNodeId ≤ 0 then (.misuse, store)
  else (.ok, (if bDetach then store.detach iNodeId else store).deleteNode iNodeId)

def cypherStorageDeleteEdge (store : Store) (iEdgeId : Int) : ResultCode × Store :=
  if iEdgeId ≤ 0 then (.misuse, store) else (.ok, store.deleteEdge iEdgeId)

end Delete

section Query

def cypherStorageNodeExists (store : Store) (iNodeId : Int) : Bool :=
  0 < iNodeId && (store.nodes.get iNodeId).isSome

/-- The conditions of a query, in turn: `none` if one of them fails. -/
def allConditions : List (Option Bool) → Option Bool
  | [] => some true
  | none :: _ => none
  | some false :: _ => some false
  | some true :: cs => allConditions cs

/-- `NULL` equals nothing. -/
def labelCondition (row : NodeRow) (label : Text × Nat) : Option Bool :=
  row.labels.elim (some false) fun doc => host.labelIs doc label.2 label.1

def propertyCondition (row : NodeRow) (property : Text × Text) : Option Bool :=
  row.properties.elim (some false) fun doc => host.propertyIs doc property.1 property.2

/-- The first row of the scan that meets the conditions; `0` if there is none. -/
def firstMatch (matching : NodeRow → Option Bool) : List (Int × NodeRow) → Int
  | [] => 0
  | (iNodeId, row) :: rows =>
    match matching row with
    | none => 0
    | some true => iNodeId
    | some false => firstMatch matching rows

/-- Without labels there is no `WHERE` for the conditions on the properties. -/
def cypherFindMatchingNode (store : Store) (azLabels : List Text)
    (matchProps : List (Text × CypherValue)) : Int :=
  if azLabels = [] ∧ matchProps ≠ [] then 0
  else
    match azLabels.mapM Text.literal, matchProps.mapM fun p => do
      return (← Text.literal p.1, ← Text.literal (cypherValueToJson host p.2)) with
    | some labels, some properties =>
      firstMatch (fun row => allConditions
        (labels.zipIdx.map (labelCondition host row) ++ properties.map (propertyCondition host row)))
        store.nodes.rows
    | _, _ => 0

def cypherStorageGetNextNodeId (store : Store) : Int := store.nodes.nextKey

def cypherStorageGetNextEdgeId (store : Store) : Int := store.edges.nextKey

def cypherGetNodeRelationships (store : Store) (iNodeId : Int) : Text :=
  if iNodeId ≤ 0 then "[]".toList
  else bracketed (Text.join ',' ((store.edges.rows.filter fun x => x.2.touches iNodeId).map
    fun x => Text.ofInt x.1))

end Query

end SqliteMultimodal.Graph
