import SqliteMultimodal.Graph.Write

namespace SqliteMultimodal.Graph

variable (host : Host)

abbrev Property := Text × CypherValue

/-- `seed` is the number that the clock and the counter give. -/
structure CreateNodeOp where
  zVariable : Option Text
  azLabels : List Text
  properties : List Property
  seed : Int

structure CreateRelOp where
  zFromVar : Option Text
  zToVar : Option Text
  zRelVar : Option Text
  zRelType : Text
  properties : List Property
  iFromNodeId : Int
  iToNodeId : Int
  seed : Int

structure MergeNodeOp where
  zVariable : Option Text
  azLabels : List Text
  matchProps : List Property
  onCreateProps : List Property
  onMatchProps : List Property

structure SetPropertyOp where
  zProperty : Text
  value : CypherValue
  iNodeId : Int

structure SetLabelOp where
  azLabels : List Text
  iNodeId : Int

structure DeleteOp where
  bDetach : Bool
  iNodeId : Int
  iRelId : Int
  bIsNode : Bool

section Checks

def maxLabels : Nat := 100
def maxProperties : Nat := 1000
def maxPropertyValueSize : Nat := 1024 * 1024

abbrev Check := Option ResultCode

def reject (bad : Bool) (rc : ResultCode) : Check := if bad then some rc else none

def checkName (isValid : Text → Bool) (name : Text) : Check :=
  reject (!isValid name) .format <|> reject (isReservedWord name) .misuse

def checkProperty (p : Property) : Check :=
  checkName isValidPropertyName p.1 <|>
    match p.2 with
    | .string (some z) => reject (z.length > maxPropertyValueSize) .toobig
    | _ => none

def checkProperties (properties : List Property) : Check :=
  reject (properties.length > maxProperties) .range <|> properties.findSome? checkProperty

def CreateNodeOp.check (op : CreateNodeOp) : Check :=
  op.zVariable.bind (checkName isValidVariableName) <|>
    reject (op.azLabels.length > maxLabels) .range <|>
      op.azLabels.findSome? (checkName isValidLabelName) <|> checkProperties op.properties

def checkRelVariable (zVar : Option Text) : Check :=
  zVar.bind fun z => reject (!isValidVariableName z || isReservedWord z) .format

def CreateRelOp.check (op : CreateRelOp) : Check :=
  reject (op.iFromNodeId ≤ 0 || op.iToNodeId ≤ 0) .misuse <|>
    reject op.zRelType.isEmpty .misuse <|>
      reject (op.zRelType.length > maxNameLength) .toobig <|>
        reject (isReservedWord op.zRelType) .misuse <|> checkRelVariable op.zFromVar <|>
          checkRelVariable op.zToVar <|> checkRelVariable op.zRelVar <|>
            checkProperties op.properties

end Checks

section Texts

def propertyText (name value : Text) : Text := quoted name ++ ':' :: value

def createNodeValue : CypherValue → Text
  | .string (some z) => quoted (cypherSanitizeString z)
  | .integer i => Text.ofInt i
  | .float r => host.g r
  | .boolean b => boolText b
  | _ => "null".toList

def createNodeProps (properties : List Property) : Text :=
  braced (Text.join ',' (properties.map fun p =>
    propertyText (cypherSanitizeString p.1) (createNodeValue host p.2)))

def createRelValue : CypherValue → Option Text
  | .string z => z.map fun z => quoted (cypherSanitizeString z)
  | .integer i => some (Text.ofInt i)
  | .float r => some (host.g r)
  | _ => some "null".toList

def createRelProps (properties : List Property) : Option Text :=
  (properties.mapM fun p => (createRelValue host p.2).map (propertyText p.1)).map fun ts =>
    braced (Text.join ',' ts)

/-- `%s` prints a null pointer in brackets. -/
def mergeValue : CypherValue → Text
  | .string z => quoted (z.getD "(null)".toList)
  | .integer i => Text.ofInt i
  | _ => "null".toList

def mergeProps (properties : List Property) : Text :=
  braced (Text.join ',' (properties.map fun p => propertyText p.1 (mergeValue p.2)))

end Texts

section Ids

/-- The first number from `id` on that is not taken. -/
def nextFree (taken : Int → Bool) : Nat → Int → Int
  | 0, id => id
  | fuel + 1, id => if taken id then nextFree taken fuel (id + 1) else id

def cypherGenerateSecureNodeId (store : Store) (seed : Int) : Int :=
  nextFree (cypherStorageNodeExists store) store.nodes.rows.length seed

def cypherGenerateSecureRelationshipId (store : Store) (seed : Int) : Int :=
  nextFree (fun id => (store.edges.get id).isSome) store.edges.rows.length seed

end Ids

section Create

def cypherCreateNode (s : Session) (op : CreateNodeOp) : ResultCode × Session :=
  match op.check with
  | some rc => (rc, s)
  | none =>
    let iCreatedNodeId := cypherGenerateSecureNodeId s.store op.seed
    if iCreatedNodeId ≤ 0 then (.error, s)
    else
      let zPropsJson := createNodeProps host op.properties
      match cypherWriteContextBegin s with
      | (.ok, s) =>
        let s := cypherWriteContextAddOperation s
          { type := .createNode
            iNodeId := iCreatedNodeId
            zNewLabels := some (labelsJson (op.azLabels.map cypherSanitizeString))
            pNewValue := some (.string (some zPropsJson)) }
        match cypherStorageAddNode s.store iCreatedNodeId op.azLabels (some zPropsJson) with
        | (.ok, store) => (.ok, { s with store })
        | (rc, store) => (rc, cypherWriteContextRollbackOp { s with store })
      | (rc, s) => (rc, s)

def cypherValidateNodeExists (s : Session) (iNodeId : Int) : Bool :=
  cypherStorageNodeExists s.store iNodeId

def cypherCreateRelationship (s : Session) (op : CreateRelOp) : ResultCode × Session :=
  match op.check with
  | some rc => (rc, s)
  | none =>
    if !cypherValidateNodeExists s op.iFromNodeId || !cypherValidateNodeExists s op.iToNodeId then
      (.error, s)
    else
      let iCreatedRelId := cypherGenerateSecureRelationshipId s.store op.seed
      if iCreatedRelId ≤ 0 then (.error, s)
      else
        match createRelProps host op.properties with
        | none => (.nomem, s)
        | some zPropsJson =>
          let s := cypherWriteContextAddOperation s
            { type := .createRelationship
              iRelId := iCreatedRelId
              iFromId := op.iFromNodeId
              iToId := op.iToNodeId
              zRelType := some op.zRelType }
          let (rc, store) := cypherStorageAddEdge s.store iCreatedRelId op.iFromNodeId op.iToNodeId
            (some op.zRelType) 1 (some zPropsJson)
          (rc, { s with store })

end Create

section Set

def oldValue (properties : Option Text) (zProperty : Text) : CypherValue :=
  match Text.literal zProperty, properties with
  | some property, some doc =>
    match host.jsonExtract doc property with
    | some z => .string (some z)
    | none => .null
  | _, _ => .null

def cypherSetProperty (s : Session) (op : SetPropertyOp) : ResultCode × Session :=
  if !cypherValidateNodeExists s op.iNodeId then (.error, s)
  else
    let properties := (s.store.nodes.get op.iNodeId).bind NodeRow.properties
    let s := cypherWriteContextAddOperation s
      { type := .setProperty
        iNodeId := op.iNodeId
        zProperty := some op.zProperty
        pOldValue := some (oldValue host properties op.zProperty)
        pNewValue := some op.value }
    let (rc, store) :=
      cypherStorageUpdateProperties host s.store op.iNodeId 0 (some op.zProperty) (some op.value)
    (rc, { s with store })

def oldLabels (store : Store) (iNodeId : Int) : Text :=
  ((store.nodes.get iNodeId).bind NodeRow.labels).getD "[]".toList

def cypherSetLabel (s : Session) (op : SetLabelOp) : ResultCode × Session :=
  if !cypherValidateNodeExists s op.iNodeId then (.error, s)
  else
    let zLabelsJson := labelsJson op.azLabels
    let s := cypherWriteContextAddOperation s
      { type := .setLabel
        iNodeId := op.iNodeId
        zNewLabels := some zLabelsJson
        zOldLabels := some (oldLabels s.store op.iNodeId) }
    let (rc, store) := updateLabels s.store op.iNodeId zLabelsJson
    (rc, { s with store })

def applyOnMatch (iNodeId : Int) : Session → List Property → ResultCode × Session
  | s, [] => (.ok, s)
  | s, p :: ps =>
    match cypherSetProperty host s ⟨p.1, p.2, iNodeId⟩ with
    | (.ok, s) => applyOnMatch iNodeId s ps
    | (rc, s) => (rc, s)

end Set

def cypherMergeNode (s : Session) (op : MergeNodeOp) : ResultCode × Session :=
  let iFoundNodeId := cypherFindMatchingNode host s.store op.azLabels op.matchProps
  if iFoundNodeId > 0 then
    match applyOnMatch host iFoundNodeId s op.onMatchProps with
    | (.ok, s) => (.ok, cypherWriteContextAddOperation s
        { type := .mergeNode, iNodeId := iFoundNodeId, zProperty := some "MATCH".toList })
    | (rc, s) => (rc, s)
  else
    let iNodeId := s.iNextNodeId
    let s := cypherWriteContextAddOperation { s with iNextNodeId := iNodeId + 1 }
      { type := .mergeNode
        iNodeId := iNodeId
        zNewLabels := some (labelsJson op.azLabels)
        zProperty := some "CREATE".toList }
    let (rc, store) := cypherStorageAddNode s.store iNodeId op.azLabels
      (some (mergeProps (op.matchProps ++ op.onCreateProps)))
    (rc, { s with store })

section Delete

def parseRelationships (zRelationships : Text) : List Int :=
  if '[' ∈ zRelationships ∧ ']' ∈ zRelationships then
    let zStart := (zRelationships.dropWhile (· ≠ '[')).drop 1
    (Text.tokens ',' (zStart.takeWhile (· ≠ ']'))).map fun zToken =>
      Text.atoll (zToken.dropWhile fun c => c = ' ' || c = '\t')
  else []

def deleteRelationships (store : Store) (zRelationships : Text) : Store :=
  (parseRelationships zRelationships).foldl (fun store iRelId =>
    if iRelId > 0 then (cypherStorageDeleteEdge store iRelId).2 else store) store

def deleteNodeRecord (type : CypherWriteOpType) (iNodeId : Int) : Option NodeRow → CypherWriteOp
  | none => { type := type, iNodeId := iNodeId }
  | some row =>
    { type := type
      iNodeId := iNodeId
      zOldLabels := some (row.labels.getD "[]".toList)
      pOldValue := row.properties.map fun z => .string (some z) }

def deleteRelationshipRecord (iRelId : Int) : Option EdgeRow → CypherWriteOp
  | none => { type := .deleteRelationship, iRelId := iRelId }
  | some row =>
    { type := .deleteRelationship
      iRelId := iRelId
      iFromId := row.fromNode
      iToId := row.toNode
      zRelType := row.edgeType
      pOldValue := row.properties.map fun z => .string (some z) }

def cypherDeleteNode (s : Session) (iNodeId : Int) (bDetach : Bool) : ResultCode × Session :=
  if !cypherValidateNodeExists s iNodeId then (.error, s)
  else
    let zRelationships := cypherGetNodeRelationships s.store iNodeId
    if !bDetach && zRelationships.length > 2 then (.error, s)
    else
      let s := if bDetach && zRelationships.length > 2 then
        { s with store := deleteRelationships s.store zRelationships } else s
      let type := if bDetach then .detachDeleteNode else .deleteNode
      let s := cypherWriteContextAddOperation s
        (deleteNodeRecord type iNodeId (s.store.nodes.get iNodeId))
      let (rc, store) := cypherStorageDeleteNode s.store iNodeId bDetach
      (rc, { s with store })

def cypherDelete (s : Session) (op : DeleteOp) : ResultCode × Session :=
  if op.bIsNode then cypherDeleteNode s op.iNodeId op.bDetach
  else
    let s := cypherWriteContextAddOperation s
      (deleteRelationshipRecord op.iRelId (s.store.edges.get op.iRelId))
    let (rc, store) := cypherStorageDeleteEdge s.store op.iRelId
    (rc, { s with store })

end Delete

inductive WriteCall
  | createNode (op : CreateNodeOp)
  | createRelationship (op : CreateRelOp)
  | mergeNode (op : MergeNodeOp)
  | setProperty (op : SetPropertyOp)
  | setLabel (op : SetLabelOp)
  | delete (op : DeleteOp)

def Session.call (s : Session) : WriteCall → ResultCode × Session
  | .createNode op => cypherCreateNode host s op
  | .createRelationship op => cypherCreateRelationship host s op
  | .mergeNode op => cypherMergeNode host s op
  | .setProperty op => cypherSetProperty host s op
  | .setLabel op => cypherSetLabel s op
  | .delete op => cypherDelete s op

end SqliteMultimodal.Graph
