import SqliteMultimodal.Graph.Storage

namespace SqliteMultimodal.Graph

inductive CypherWriteOpType
  | createNode | createRelationship | mergeNode | mergeRelationship | setProperty | setLabel
  | removeProperty | removeLabel | deleteNode | deleteRelationship | detachDeleteNode
  deriving DecidableEq

/-- Numbers are `0` and pointers null until they are set. -/
structure CypherWriteOp where
  type : CypherWriteOpType
  iNodeId : Int := 0
  iFromId : Int := 0
  iToId : Int := 0
  iRelId : Int := 0
  zProperty : Option Text := none
  zLabel : Option Text := none
  zRelType : Option Text := none
  pOldValue : Option CypherValue := none
  pNewValue : Option CypherValue := none
  zOldLabels : Option Text := none
  zNewLabels : Option Text := none

/-- A write context with the database it writes to.  While a transaction is open, `saved` is what
`ROLLBACK` brings back. -/
structure Session where
  store : Store
  saved : Option Store
  operations : List CypherWriteOp
  bInTransaction : Bool
  iNextNodeId : Int

def cypherWriteContextCreate (store : Store) : Session := ⟨store, none, [], false, 1⟩

variable (host : Host)

section Transaction

/-- `BEGIN` fails inside a transaction. -/
def cypherWriteContextBegin (s : Session) : ResultCode × Session :=
  if s.bInTransaction then (.ok, s)
  else if s.saved.isSome then (.error, s)
  else (.ok, { s with saved := some s.store, bInTransaction := true })

def cypherWriteContextAddOperation (s : Session) (op : CypherWriteOp) : Session :=
  { s with operations := s.operations ++ [op] }

def cypherWriteContextRollbackOp (s : Session) : Session :=
  { s with operations := s.operations.dropLast }

def executeMerge (store : Store) (op : CypherWriteOp) : ResultCode × Store × CypherWriteOp :=
  let iFoundId := cypherFindMatchingNode host store [] []
  if iFoundId > 0 then (.ok, store, { op with iNodeId := iFoundId })
  else
    let op := if op.iNodeId = 0 then { op with iNodeId := cypherStorageGetNextNodeId store } else op
    let (rc, store) := cypherStorageAddNode store op.iNodeId [] none
    (rc, store, op)

def executeOperation (store : Store) (op : CypherWriteOp) : ResultCode × Store × CypherWriteOp :=
  match op.type with
  | .createNode =>
    let op := if op.iNodeId = 0 then { op with iNodeId := cypherStorageGetNextNodeId store } else op
    let (rc, store) := cypherStorageAddNode store op.iNodeId [] none
    (rc, store, op)
  | .createRelationship =>
    let op := if op.iRelId = 0 then { op with iRelId := cypherStorageGetNextEdgeId store } else op
    let (rc, store) := cypherStorageAddEdge store op.iRelId op.iFromId op.iToId op.zRelType 1 none
    (rc, store, op)
  | .mergeNode => executeMerge host store op
  | .setProperty =>
    let (rc, store) :=
      cypherStorageUpdateProperties host store op.iNodeId op.iRelId op.zProperty op.pNewValue
    (rc, store, op)
  | .setLabel =>
    let (rc, store) := appendLabel host store op.iNodeId (op.zLabel.getD [])
    (rc, store, op)
  | .deleteNode =>
    let (rc, store) := cypherStorageDeleteNode store op.iNodeId false
    (rc, store, op)
  | .detachDeleteNode =>
    let (rc, store) := cypherStorageDeleteNode store op.iNodeId true
    (rc, store, op)
  | .deleteRelationship =>
    let (rc, store) := cypherStorageDeleteEdge store op.iRelId
    (rc, store, op)
  | .mergeRelationship | .removeProperty | .removeLabel => (.error, store, op)

def cypherExecuteOperations (store : Store) :
    List CypherWriteOp → ResultCode × Store × List CypherWriteOp
  | [] => (.ok, store, [])
  | op :: ops =>
    match executeOperation host store op with
    | (.ok, store, op) =>
      let (rc, store, ops) := cypherExecuteOperations store ops
      (rc, store, op :: ops)
    | (rc, store, op) => (rc, store, op :: ops)

def rollbackOperation (store : Store) (op : CypherWriteOp) : Store :=
  match op.type with
  | .setProperty | .removeProperty =>
    match op.pOldValue with
    | none => store
    | some value =>
      (cypherStorageUpdateProperties host store op.iNodeId op.iRelId op.zProperty (some value)).2
  | .setLabel | .removeLabel =>
    match op.zOldLabels with
    | none => store
    | some zOldLabels => restoreLabels host store op.iNodeId zOldLabels
  | .createNode | .mergeNode =>
    if op.iNodeId > 0 then (cypherStorageDeleteNode store op.iNodeId true).2 else store
  | .createRelationship | .mergeRelationship =>
    if op.iRelId > 0 then (cypherStorageDeleteEdge store op.iRelId).2 else store
  | .deleteNode | .detachDeleteNode =>
    match op.zOldLabels, op.pOldValue with
    | some _, some value =>
      (cypherStorageAddNode store op.iNodeId [] (some (cypherValueToString host value))).2
    | _, _ => store
  | .deleteRelationship =>
    if op.iFromId > 0 ∧ op.iToId > 0 then
      (cypherStorageAddEdge store op.iRelId op.iFromId op.iToId op.zRelType 1
        (op.pOldValue.map (cypherValueToString host))).2
    else store

def maxRollback : Nat := 1000

/-- The last of the first `1000` operations comes first. -/
def cypherRollbackOperations (store : Store) (ops : List CypherWriteOp) : Store :=
  (ops.take maxRollback).reverse.foldl (rollbackOperation host) store

def sqlRollback (s : Session) : Session :=
  match s.saved with
  | none => s
  | some store => { s with store := store, saved := none }

/-- `COMMIT` succeeds. -/
def cypherWriteContextCommit (s : Session) : ResultCode × Session :=
  if !s.bInTransaction then (.ok, s)
  else
    match cypherExecuteOperations host s.store s.operations with
    | (.ok, store, operations) =>
      (.ok, { s with
        store := store
        operations := operations
        saved := none
        bInTransaction := false })
    | (rc, store, operations) =>
      let s := sqlRollback { s with store := store, operations := operations }
      (rc, { s with
        store := cypherRollbackOperations host s.store s.operations
        bInTransaction := false })

def cypherWriteContextRollback (s : Session) : ResultCode × Session :=
  if !s.bInTransaction then (.ok, s)
  else
    let s := sqlRollback { s with store := cypherRollbackOperations host s.store s.operations }
    (.ok, { s with bInTransaction := false })

end Transaction

end SqliteMultimodal.Graph
