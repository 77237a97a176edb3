import SqliteMultimodal.Graph.VTab.Defs
import SqliteMultimodal.Lib.Machine

namespace SqliteMultimodal.Graph.VTab

def nodeSeen (x : Int × NodeRow) : Seen where
  rowid := Int64.ofInt x.1
  columns := {
    type := .text "node".toList
    id := .integer (Int64.ofInt x.1)
    labels := .ofText x.2.labels
    properties := .ofText x.2.properties }

def edgeSeen (x : Int × EdgeRow) : Seen where
  rowid := Int64.ofInt x.1 ||| edgeBit
  columns := {
    type := .text "edge".toList
    id := .integer (Int64.ofInt x.1)
    fromId := .integer (Int64.ofInt x.2.fromNode)
    toId := .integer (Int64.ofInt x.2.toNode)
    relType := .ofText x.2.edgeType
    weight := .real (.finite x.2.weight)
    properties := .ofText x.2.properties }

section Collect

variable {nodeStmt : Stmt NodeRow} {rows edges rest : List (Int × EdgeRow)}
  {nodes nodeRest : List (Int × NodeRow)} {fuel : Nat}

theorem collect_eof {c : GraphCursor} (hc : graphEof c = true) (h : 1 ≤ fuel) :
    collect fuel c = some [] := by
  obtain ⟨fuel, rfl⟩ := Nat.exists_eq_add_of_le' h
  rw [collect, if_pos hc]

theorem collect_next {c : GraphCursor} {seen : List Seen} (hc : graphEof c = false) (h : 1 ≤ fuel)
    (hnext : collect (fuel - 1) (graphNext c) = some seen) :
    collect fuel c = some (⟨graphRowid c, graphColumn c⟩ :: seen) := by
  obtain ⟨fuel, rfl⟩ := Nat.exists_eq_add_of_le' h
  rw [Nat.add_sub_cancel] at hnext
  rw [collect, if_neg (Bool.not_eq_true _ ▸ hc), hnext, Option.map_some]

theorem collect_edge {x : Int × EdgeRow} (h : rest.length + 2 ≤ fuel) :
    collect fuel ⟨nodeStmt, ⟨rows, rest, some x⟩, 1⟩ = some (edgeSeen x :: rest.map edgeSeen) := by
  induction rest generalizing x fuel with
  | nil => exact collect_next rfl (by omega) (collect_eof rfl (by simp at h; omega))
  | cons y rest ih => exact collect_next rfl (by omega) (ih (by simp at h; omega))

theorem collect_edges {row : Option (Int × EdgeRow)} (h : rest.length + 1 ≤ fuel) :
    let edge := Stmt.step ⟨rows, rest, row⟩
    collect fuel (if edge.1 then ⟨nodeStmt, edge.2, 1⟩ else ⟨nodeStmt, edge.2, 2⟩) =
      some (rest.map edgeSeen) := by
  cases rest with
  | nil => exact collect_eof rfl h
  | cons y rest => exact collect_edge h

theorem collect_node {x : Int × NodeRow} (h : nodeRest.length + rest.length + 2 ≤ fuel) :
    collect fuel ⟨⟨nodes, nodeRest, some x⟩, ⟨rows, rest, none⟩, 0⟩ =
      some (nodeSeen x :: (nodeRest.map nodeSeen ++ rest.map edgeSeen)) := by
  induction nodeRest generalizing x fuel with
  | nil => exact collect_next rfl (by omega) (collect_edges (by simp at h; omega))
  | cons y nodeRest ih => exact collect_next rfl (by omega) (ih (by simp at h; omega))

theorem collect_start {mode : Int} (hmode : mode = -1 ∨ mode = 0)
    (h : nodes.length + rest.length + 1 ≤ fuel) :
    collect fuel (graphNext ⟨.prepare nodes, .prepare rest, mode⟩) =
      some (nodes.map nodeSeen ++ rest.map edgeSeen) := by
  cases nodes with
  | nil =>
    have hedges : ∀ stmt, collect fuel (if (Stmt.step (.prepare rest)).1
        then ⟨stmt, (Stmt.step (.prepare rest)).2, 1⟩
        else ⟨stmt, (Stmt.step (.prepare rest)).2, 2⟩) = some (rest.map edgeSeen) := fun stmt =>
      collect_edges (by simp at h; omega)
    obtain rfl | rfl := hmode
    · exact hedges _
    · exact hedges _
  | cons x nodes =>
    have hnodes : collect fuel ⟨⟨x :: nodes, nodes, some x⟩, .prepare rest, 0⟩ =
        some (nodeSeen x :: (nodes.map nodeSeen ++ rest.map edgeSeen)) :=
      collect_node (by simp at h; omega)
    obtain rfl | rfl := hmode
    · exact hnodes
    · exact hnodes

end Collect

section Scan

variable (conv : Conversions) (store : Store)

def allRows (store : Store) : List Seen :=
  store.nodes.rows.map nodeSeen ++ store.edges.rows.map edgeSeen

theorem scan_full : scan conv store 0 [] = some (allRows store) :=
  collect_start (.inl rfl) le_rfl

theorem length_rowsOf_le {ρ : Type} (t : RowTable ρ) (id : Int64) :
    (rowsOf t id).length ≤ t.rows.length :=
  List.length_filter_le _ _

theorem graphFilter_rowid (r : Int64) :
    graphFilter conv store 1 [.integer r] = if isEdge r
      then graphNext ⟨.prepare [], .prepare (rowsOf store.edges (r &&& ~~~edgeBit)), 0⟩
      else graphNext ⟨.prepare (rowsOf store.nodes r), .prepare [], -1⟩ :=
  rfl

theorem scan_lookup (r : Int64) :
    scan conv store 1 [.integer r] = some (if isEdge r
      then (rowsOf store.edges (r &&& ~~~edgeBit)).map edgeSeen
      else (rowsOf store.nodes r).map nodeSeen) := by
  have hnodes := length_rowsOf_le store.nodes r
  have hedges := length_rowsOf_le store.edges (r &&& ~~~edgeBit)
  rw [scan, graphFilter_rowid]
  by_cases hr : isEdge r = true
  · rw [if_pos hr, if_pos hr, collect_start (.inr rfl) (by simp only [List.length_nil]; omega)]
    rfl
  · rw [if_neg hr, if_neg hr, collect_start (.inl rfl) (by simp only [List.length_nil]; omega)]
    simp

end Scan

end SqliteMultimodal.Graph.VTab

namespace SqliteMultimodal.Graph.VTab

/-- What SQLite passes to `graphFilter`. -/
structure Plan where
  idxNum : Int
  argv : List Value

inductive Statement
  /-- The rows, each with the rowid that is named for it, if any. -/
  | insert (rows : List (Value × Columns))
  | update (plan : Plan) (cond : Seen → Bool) (set : Seen → Value × Columns)
  | delete (plan : Plan) (cond : Seen → Bool)

/-- One call of `graphUpdate` that returned `SQLITE_OK`. -/
structure Event where
  argv : List Value
  before : Store
  after : Store

structure Config where
  store : Store
  /-- The calls since the start, the last one first, without those that were rolled back. -/
  log : List Event
  /-- The calls that the running statements still have to make, the innermost statement first. -/
  frames : List (List (List Value))
  statement : Option Statement
  /-- The tables and the log at the start of the statement. -/
  saved : Store × List Event

def Config.start : Config := ⟨.empty, [], [], none, (.empty, [])⟩

def Config.NextCall (c : Config) (P : List Value → Prop) : Prop :=
  ∀ argv calls frames, c.frames = (argv :: calls) :: frames → P argv

instance Config.decidableNextCall (c : Config) (P : List Value → Prop) [DecidablePred P] :
    Decidable (c.NextCall P) :=
  match h : c.frames with
  | (argv :: calls) :: frames => decidable_of_iff (P argv)
      ⟨fun hP _ _ _ heq => by cases h.symm.trans heq; exact hP, fun hP => hP argv calls frames h⟩
  | [] :: _ => isTrue fun _ _ _ heq => by cases h.symm.trans heq
  | [] => isTrue fun _ _ _ heq => by cases h.symm.trans heq

inductive Action
  | start (statement : Statement)
  /-- With what is drawn if a rowid has to be drawn. -/
  | call (draws : Nat → Int64)

variable (conv : Conversions)

def selected (store : Store) (plan : Plan) (cond : Seen → Bool) : List Seen :=
  ((scan conv store plan.idxNum plan.argv).getD []).filter cond

def Statement.calls (store : Store) : Statement → List (List Value)
  | .insert rows => rows.map fun row => .null :: row.1 :: row.2.values
  | .update plan cond set => (selected conv store plan cond).map fun seen =>
      .integer seen.rowid :: (set seen).1 :: (set seen).2.values
  | .delete plan cond => (((selected conv store plan cond).map (·.rowid)).dedup.insertionSort
      (· ≤ ·)).map fun rowid => [.integer rowid]

/-- `UPDATE %s SET %s WHERE id = %lld`; the column `id` is not the rowid, so this is a full scan. -/
def Nested.statement (nested : Nested) : Statement :=
  .update ⟨0, []⟩ (fun seen => seen.columns.id = .integer nested.edgeId) fun seen =>
    (.integer seen.rowid, { seen.columns with
      fromId := (nested.fromId.map .integer).getD seen.columns.fromId
      toId := (nested.toId.map .integer).getD seen.columns.toId
      weight := (nested.weight.map fun q => .real (.finite q)).getD seen.columns.weight
      properties := (nested.properties.map .text).getD seen.columns.properties })

def step (c : Config) : Action → Option Config
  | .start statement =>
    if c.frames = [] then
      some { c with
        frames := [statement.calls conv c.store]
        statement := some statement
        saved := (c.store, c.log) }
    else none
  | .call draws =>
    match c.frames with
    | [] => none
    | [] :: frames => some { c with frames }
    | (argv :: calls) :: frames =>
      match graphUpdate conv c.store draws argv with
      | .done .ok _ _ store =>
        some { c with store, log := ⟨argv, c.store, store⟩ :: c.log, frames := calls :: frames }
      | .done _ _ _ _ => some { c with store := c.saved.1, log := c.saved.2, frames := [] }
      | .exec nested =>
        some { c with frames := nested.statement.calls conv c.store :: calls :: frames }

section Sample

def plainConversions : Conversions where
  realToInt64 _ := 0
  textToInt64 _ := 0
  blobToInt64 _ := 0
  realToText _ := "0.0".toList
  blobToText bytes := bytes.map fun b => Char.ofNat b.toNat
  integerToDouble n := n.toInt
  textToDouble _ := .finite 0
  blobToDouble _ := .finite 0
  decimal q := q

def nodeColumns (id : Int64) : Columns where
  type := .text "node".toList
  id := .integer id

def edgeColumns (fromId toId : Int64) : Columns where
  type := .text "edge".toList
  fromId := .integer fromId
  toId := .integer toId

/-- `INSERT INTO graph` of one row, which takes two steps after its start. -/
def insertActions (columns : Columns) : List Action :=
  [.start (.insert [(.null, columns)]), .call fun _ => 0, .call fun _ => 0]

/-- `DELETE FROM graph WHERE type = 'node'`, where one row is selected. -/
def deleteNodeActions : List Action :=
  [.start (.delete ⟨0, []⟩ fun seen => seen.columns.type = .text "node".toList),
    .call fun _ => 0, .call fun _ => 0]

end Sample

end SqliteMultimodal.Graph.VTab
