import SqliteMultimodal.Graph.Storage

namespace SqliteMultimodal.Graph.VTab

/-- A `double` that SQLite can hold; there is no NaN among its values. -/
inductive Double
  | finite (q : ℚ)
  | infinite (negative : Bool)
  deriving DecidableEq

inductive Value
  | null
  | integer (n : Int64)
  | real (x : Double)
  | text (t : Text)
  | blob (bytes : List UInt8)
  deriving DecidableEq

/-- The conversions between the types of SQLite, and the conversion `%f` to six decimals. -/
structure Conversions where
  realToInt64 : Double → Int64
  textToInt64 : Text → Int64
  blobToInt64 : List UInt8 → Int64
  realToText : Double → Text
  blobToText : List UInt8 → Text
  integerToDouble : Int64 → ℚ
  textToDouble : Text → Double
  blobToDouble : List UInt8 → Double
  decimal : ℚ → ℚ

variable (conv : Conversions)

namespace Value

def int64 : Value → Int64
  | .null => 0
  | .integer n => n
  | .real x => conv.realToInt64 x
  | .text t => conv.textToInt64 t
  | .blob bytes => conv.blobToInt64 bytes

def cString (t : Text) : Text := t.takeWhile (· ≠ '\x00')

/-- `sqlite3_value_text`, as C reads it. -/
def toText : Value → Option Text
  | .null => none
  | .integer n => some (Text.ofInt n.toInt)
  | .real x => some (conv.realToText x)
  | .text t => some (cString t)
  | .blob bytes => some (cString (conv.blobToText bytes))

def double : Value → Double
  | .null => .finite 0
  | .integer n => .finite (conv.integerToDouble n)
  | .real x => x
  | .text t => conv.textToDouble t
  | .blob bytes => conv.blobToDouble bytes

/-- `sqlite3_result_text` without a length. -/
def ofText : Option Text → Value
  | none => .null
  | some t => .text (cString t)

end Value

section Rowid

/-- The bit `1LL << 62`, which marks the rowid of an edge. -/
def edgeBit : Int64 := 4611686018427387904

def isEdge (rowid : Int64) : Bool := rowid &&& edgeBit ≠ 0

end Rowid

section Columns

structure Columns where
  type : Value := .null
  id : Value := .null
  fromId : Value := .null
  toId : Value := .null
  labels : Value := .null
  relType : Value := .null
  weight : Value := .null
  properties : Value := .null
  query : Value := .null
  deriving DecidableEq

def Columns.values (c : Columns) : List Value :=
  [c.type, c.id, c.fromId, c.toId, c.labels, c.relType, c.weight, c.properties, c.query]

/-- A row of the virtual table as SQLite sees it. -/
structure Seen where
  rowid : Int64
  columns : Columns
  deriving DecidableEq

end Columns

section Cursor

/-- A prepared `SELECT`; a statement that is stepped after its end starts again. -/
structure Stmt (ρ : Type) where
  rows : List (Int × ρ)
  rest : List (Int × ρ)
  row : Option (Int × ρ)

variable {ρ : Type}

def Stmt.prepare (rows : List (Int × ρ)) : Stmt ρ := ⟨rows, rows, none⟩

def Stmt.step (stmt : Stmt ρ) : Bool × Stmt ρ :=
  match stmt.rest with
  | [] => (false, { stmt with rest := stmt.rows, row := none })
  | x :: rest => (true, { stmt with rest, row := some x })

/-- `sqlite3_column_int64` of the key; it is zero where there is no row. -/
def Stmt.id (stmt : Stmt ρ) : Int64 := Int64.ofInt ((stmt.row.map (·.1)).getD 0)

def Stmt.column {α : Type} (stmt : Stmt ρ) (f : ρ → α) : Option α := stmt.row.map fun x => f x.2

structure GraphCursor where
  pNodeStmt : Stmt NodeRow
  pEdgeStmt : Stmt EdgeRow
  iIterMode : Int

def graphNext (c : GraphCursor) : GraphCursor :=
  if c.iIterMode = -1 then
    let node := c.pNodeStmt.step
    if node.1 then { c with pNodeStmt := node.2, iIterMode := 0 }
    else
      let edge := c.pEdgeStmt.step
      if edge.1 then ⟨node.2, edge.2, 1⟩ else ⟨node.2, edge.2, 2⟩
  else if c.iIterMode = 0 then
    let node := c.pNodeStmt.step
    if node.1 then { c with pNodeStmt := node.2 }
    else
      let edge := c.pEdgeStmt.step
      if edge.1 then ⟨node.2, edge.2, 1⟩ else ⟨node.2, edge.2, 2⟩
  else if c.iIterMode = 1 then
    let edge := c.pEdgeStmt.step
    if edge.1 then { c with pEdgeStmt := edge.2 } else { c with pEdgeStmt := edge.2, iIterMode := 2 }
  else { c with iIterMode := 2 }

def graphEof (c : GraphCursor) : Bool := c.iIterMode ≥ 2

/-- The rows that `WHERE id = %lld` selects. -/
def rowsOf (t : RowTable ρ) (id : Int64) : List (Int × ρ) := t.rows.filter fun x => x.1 = id.toInt

def graphFilter (store : Store) (idxNum : Int) (argv : List Value) : GraphCursor :=
  match decide (idxNum = 1), argv with
  | true, v :: _ =>
    let targetRowid := v.int64 conv
    if isEdge targetRowid then
      let edgeId := targetRowid &&& ~~~edgeBit
      graphNext ⟨.prepare [], .prepare (rowsOf store.edges edgeId), 0⟩
    else graphNext ⟨.prepare (rowsOf store.nodes targetRowid), .prepare [], -1⟩
  | _, _ => graphNext ⟨.prepare store.nodes.rows, .prepare store.edges.rows, -1⟩

def graphColumn (c : GraphCursor) : Columns :=
  if c.iIterMode = 0 then
    { type := .text "node".toList
      id := .integer c.pNodeStmt.id
      labels := .ofText ((c.pNodeStmt.column NodeRow.labels).join)
      properties := .ofText ((c.pNodeStmt.column NodeRow.properties).join) }
  else
    { type := .text "edge".toList
      id := .integer c.pEdgeStmt.id
      fromId := .integer (Int64.ofInt ((c.pEdgeStmt.column EdgeRow.fromNode).getD 0))
      toId := .integer (Int64.ofInt ((c.pEdgeStmt.column EdgeRow.toNode).getD 0))
      relType := .ofText ((c.pEdgeStmt.column EdgeRow.edgeType).join)
      weight := .real (.finite ((c.pEdgeStmt.column EdgeRow.weight).getD 0))
      properties := .ofText ((c.pEdgeStmt.column EdgeRow.properties).join) }

def graphRowid (c : GraphCursor) : Int64 :=
  if c.iIterMode = 0 then c.pNodeStmt.id else c.pEdgeStmt.id ||| edgeBit

/-- What SQLite reads until `graphEof`; missing when that takes more calls than `fuel`. -/
def collect : Nat → GraphCursor → Option (List Seen)
  | 0, _ => none
  | fuel + 1, c =>
    if graphEof c then some []
    else (collect fuel (graphNext c)).map (⟨graphRowid c, graphColumn c⟩ :: ·)

def scan (store : Store) (idxNum : Int) (argv : List Value) : Option (List Seen) :=
  collect (store.nodes.rows.length + store.edges.rows.length + 1)
    (graphFilter conv store idxNum argv)

end Cursor

section Update

inductive Code
  | ok | error | constraint | misuse | full
  deriving DecidableEq, Repr

/-- `UPDATE` of the virtual table itself, with the columns that are assigned. -/
structure Nested where
  edgeId : Int64
  fromId : Option Int64
  toId : Option Int64
  weight : Option ℚ
  properties : Option Text
  deriving DecidableEq

/-- `graphUpdate` returns, or it runs a statement on the virtual table first and returns the code of
that statement. -/
inductive Outcome
  | done (rc : Code) (zErrMsg : Option Text) (pRowid : Option Int64) (store : Store)
  | exec (nested : Nested)
  deriving DecidableEq

def Outcome.fail (rc : Code) (zErr : Text) (store : Store) : Outcome :=
  .done rc (some ("graph operation failed: ".toList ++ zErr)) none store

/-- The rowid that SQLite gives a new row: it draws at random once the largest one is taken. -/
def newRowid {ρ : Type} (t : RowTable ρ) (draws : Nat → Int64) : Option Int :=
  if t.nextKey ≤ 9223372036854775807 then some t.nextKey
  else
    ((List.range 100).map fun i => ((draws i &&& 4611686018427387903) + 1).toInt).find? fun k =>
      t.get k = none

def deleteRow (store : Store) (rowid : Int64) : Outcome :=
  if isEdge rowid then
    .done .ok none none { store with edges := store.edges.delete (rowid &&& ~~~edgeBit).toInt }
  else .done .ok none none { store with nodes := store.nodes.delete rowid.toInt }

def insertNode (store : Store) (draws : Nat → Int64) (argv : List Value) : Outcome :=
  let nodeId := (argv.getD 3 .null).int64 conv
  let row : NodeRow := ⟨some (((argv.getD 6 .null).toText conv).getD "[]".toList),
    some (((argv.getD 9 .null).toText conv).getD [])⟩
  if nodeId > 0 then
    .done .ok none (some nodeId) { store with nodes := store.nodes.put nodeId.toInt row }
  else
    match newRowid store.nodes draws with
    | none => .fail .full "database or disk is full".toList store
    | some key =>
      .done .ok none (some (Int64.ofInt key)) { store with nodes := store.nodes.put key row }

def insertEdge (store : Store) (draws : Nat → Int64) (argv : List Value) : Outcome :=
  let fromId := (argv.getD 4 .null).int64 conv
  let toId := (argv.getD 5 .null).int64 conv
  let edgeType := ((argv.getD 7 .null).toText conv).getD []
  let properties := ((argv.getD 9 .null).toText conv).getD []
  if store.nodes.get fromId.toInt ≠ none ∧ store.nodes.get toId.toInt ≠ none then
    match (argv.getD 8 .null).double conv with
    | .infinite _ =>
      -- `%f` writes a name where the statement has a number
      .fail .error "no such column: Inf".toList store
    | .finite weight =>
      match newRowid store.edges draws with
      | none => .fail .full "database or disk is full".toList store
      | some key =>
        let row : EdgeRow :=
          ⟨fromId.toInt, toId.toInt, some edgeType, conv.decimal weight, some properties⟩
        .done .ok none (some (Int64.ofInt key ||| edgeBit))
          { store with edges := store.edges.put key row }
  else
    .fail .constraint ("Referenced nodes ".toList ++ Text.ofInt fromId.toInt ++ " and/or ".toList ++
      Text.ofInt toId.toInt ++ " do not exist".toList) store

/-- An argument that is not NULL. -/
def assigned {α : Type} (argv : List Value) (i : Nat) (f : Value → α) : Option α :=
  if argv.getD i .null = .null then none else some (f (argv.getD i .null))

def updateRow (store : Store) (argv : List Value) : Outcome :=
  let oldRowid := (argv.getD 0 .null).int64 conv
  let newRowid := (argv.getD 1 .null).int64 conv
  if oldRowid ≠ newRowid then .fail .misuse "Changing rowid is not supported".toList store
  else if isEdge oldRowid then
    let fromId := assigned argv 4 (Value.int64 conv)
    let toId := assigned argv 5 (Value.int64 conv)
    let weight := assigned argv 8 (Value.double conv)
    let properties := (argv.getD 9 .null).toText conv
    if fromId = none ∧ toId = none ∧ weight = none ∧ properties = none then
      .done .ok none none store
    else
      match weight with
      | some (.infinite _) => .fail .error "no such column: Inf".toList store
      | some (.finite q) =>
        .exec ⟨oldRowid &&& ~~~edgeBit, fromId, toId, some (conv.decimal q), properties⟩
      | none => .exec ⟨oldRowid &&& ~~~edgeBit, fromId, toId, none, properties⟩
  else
    match (argv.getD 9 .null).toText conv with
    | none => .done .ok none none store
    | some properties =>
      .done .ok none none { store with nodes := store.nodes.modify oldRowid.toInt fun row =>
        { row with properties := some properties } }

def graphUpdate (store : Store) (draws : Nat → Int64) (argv : List Value) : Outcome :=
  if argv.length = 1 then deleteRow store ((argv.getD 0 .null).int64 conv)
  else if argv.length ≥ 11 ∧ argv.getD 0 .null = .null ∧ argv.getD 1 .null = .null then
    match (argv.getD 2 .null).toText conv with
    | some type =>
      if type = "node".toList then insertNode conv store draws argv
      else if type = "edge".toList then insertEdge conv store draws argv
      else .fail .misuse ("Invalid type '".toList ++ type ++
        "' - must be 'node' or 'edge'".toList) store
    | none => .fail .misuse "Invalid type 'NULL' - must be 'node' or 'edge'".toList store
  else if argv.length ≥ 11 then updateRow conv store argv
  else .fail .misuse ("Invalid number of arguments: ".toList ++ Text.ofInt argv.length) store

end Update

end SqliteMultimodal.Graph.VTab
