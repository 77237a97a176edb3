import SqliteMultimodal.Vec.Cursor.Reads
import SqliteMultimodal.Vec.Declare.VectorColumn

namespace SqliteMultimodal.Vec.Declare

open Storage (VectorElementType MetadataKind VectorColumn Vec0Vtab)
open Plan (UserColumn UserColumnKind TableDef vec0ColumnId vec0ColumnDistanceIdx vec0ColumnKIdx)

section Parsers

def KeyColumnType.type : KeyColumnType → SqlType
  | .text => .text
  | .integer => .integer

def expectPlus (rc : ResultCode) (s : Vec0Scanner) : Except Stop Vec0Scanner :=
  match vec0TokenNext s.rest with
  | .some token rest => if token.type = .plus then .ok ⟨rest, some token⟩ else .error (.code rc)
  | .eof | .error => .error (.code rc)

def auxiliaryColumnType (token : Vec0Token) : Option SqlType :=
  if token.abbreviates "text" then some .text
  else if token.abbreviates "int" || token.abbreviates "integer" then some .integer
  else if token.abbreviates "float" || token.abbreviates "double" then some .float
  else if token.abbreviates "blob" then some .blob
  else none

def vec0ParseAuxiliaryColumnDefinition (source : Text) : Except Stop (Text × SqlType) := do
  let s ← expectPlus sqliteEmpty ⟨source, none⟩
  let (columnName, s) ← expectToken [.identifier] sqliteEmpty s
  let (type, _) ← expectToken [.identifier] sqliteEmpty s
  let columnType ← Except.ofOption (.code sqliteEmpty) (auxiliaryColumnType type)
  .ok (columnName.text, columnType)

def metadataColumnKind (token : Vec0Token) : Option MetadataKind :=
  if token.abbreviates "boolean" || token.abbreviates "bool" then some .boolean
  else if token.abbreviates "int64" || token.abbreviates "integer64" ||
    token.abbreviates "integer" || token.abbreviates "int" then some .integer
  else if token.abbreviates "float" || token.abbreviates "double" ||
    token.abbreviates "float64" || token.abbreviates "f64" then some .float
  else if token.abbreviates "text" then some .text
  else none

def vec0ParseMetadataColumnDefinition (source : Text) : Except Stop (Text × MetadataKind) := do
  let (columnName, s) ← expectIdentifier sqliteEmpty ⟨source, none⟩
  let (type, _) ← expectIdentifier sqliteEmpty s
  let columnType ← Except.ofOption (.code sqliteEmpty) (metadataColumnKind type)
  .ok (columnName.text, columnType)

end Parsers

section Columns

deriving instance DecidableEq for UserColumn

inductive IndexType
  | kdtree | hnsw | ivf | hybrid
  deriving DecidableEq

/-- The columns of each kind, all of them by kind and number in the order of the arguments, and
what else the arguments have set.  A `chunkSize` below zero is one that has not been given. -/
structure Definition where
  chunkSize : Int
  vectorColumns : List VectorColumnDefinition
  partitionColumns : List (Text × KeyColumnType)
  auxiliaryColumns : List (Text × SqlType)
  metadataColumns : List (Text × MetadataKind)
  userColumns : List UserColumn
  primaryKey : Option (Text × KeyColumnType)
  index : Option (IndexType × Text)
  deriving DecidableEq

def Definition.empty : Definition := ⟨-1, [], [], [], [], [], none, none⟩

inductive InitError
  | undefined
  | message (t : Text)
  deriving DecidableEq

def constructorError (t : Text) : InitError := .message ("vec0 constructor error: ".toList ++ t)

def vec0MaxVectorColumns : Nat := 16
def vec0MaxPartitionColumns : Nat := 4
def vec0MaxAuxiliaryColumns : Nat := 16
def vec0MaxMetadataColumns : Nat := 16
def sqliteVecVec0MaxDimensions : Nat := 8192
def sqliteVecChunkSizeMax : Int := 4096

def moreThan (maximum : Nat) (kind : String) : InitError :=
  constructorError
    ("More than ".toList ++ Text.ofInt maximum ++ " ".toList ++ kind.toList ++
      " columns were provided".toList)

namespace Definition

variable (d : Definition)

def addVector (column : VectorColumnDefinition) : Except InitError Definition := do
  Except.require (d.vectorColumns.length < vec0MaxVectorColumns) (constructorError
    ("Too many provided vector columns, maximum ".toList ++ Text.ofInt vec0MaxVectorColumns))
  Except.require (column.dimensions ≤ sqliteVecVec0MaxDimensions) (constructorError
    ("Dimension on vector column too large, provided ".toList ++ Text.ofInt column.dimensions ++
      ", maximum ".toList ++ Text.ofInt sqliteVecVec0MaxDimensions))
  .ok { d with
    userColumns := d.userColumns ++ [⟨.vector, d.vectorColumns.length⟩]
    vectorColumns := d.vectorColumns ++ [column] }

def addPartition (column : Text × KeyColumnType) : Except InitError Definition := do
  Except.require (d.partitionColumns.length < vec0MaxPartitionColumns)
    (moreThan vec0MaxPartitionColumns "partition key")
  .ok { d with
    userColumns := d.userColumns ++ [⟨.partition, d.partitionColumns.length⟩]
    partitionColumns := d.partitionColumns ++ [column] }

def addPrimaryKey (column : Text × KeyColumnType) : Except InitError Definition := do
  Except.require d.primaryKey.isNone (constructorError
    ("More than one primary key definition was provided, vec0 only ".toList ++
      "suports a single primary key column".toList))
  .ok { d with primaryKey := some column }

def addAuxiliary (column : Text × SqlType) : Except InitError Definition := do
  Except.require (d.auxiliaryColumns.length < vec0MaxAuxiliaryColumns)
    (moreThan vec0MaxAuxiliaryColumns "auxiliary")
  .ok { d with
    userColumns := d.userColumns ++ [⟨.auxiliary, d.auxiliaryColumns.length⟩]
    auxiliaryColumns := d.auxiliaryColumns ++ [column] }

def addMetadata (column : Text × MetadataKind) : Except InitError Definition := do
  Except.require (d.metadataColumns.length < vec0MaxMetadataColumns)
    (moreThan vec0MaxMetadataColumns "metadata")
  .ok { d with
    userColumns := d.userColumns ++ [⟨.metadata, d.metadataColumns.length⟩]
    metadataColumns := d.metadataColumns ++ [column] }

/-- White space is all that comes after the value, so its text is what `atoi` reads. -/
def setChunkSize (value : Text) : Except InitError Definition :=
  match atoi value with
  | .error _ => .error .undefined
  | .ok n => do
    Except.require (0 < n)
      (constructorError "chunk_size must be a non-zero positive integer".toList)
    Except.require (n % 8 = 0) (constructorError "chunk_size must be divisible by 8".toList)
    Except.require (n ≤ sqliteVecChunkSizeMax) (constructorError "chunk_size too large".toList)
    .ok { d with chunkSize := n }

def indexType (key : Text) : Option IndexType :=
  if strnicmp key "create_index_kdtree".toList key.length then some .kdtree
  else if strnicmp key "create_index_hnsw".toList key.length then some .hnsw
  else if strnicmp key "create_index_ivf".toList key.length then some .ivf
  else if strnicmp key "create_index_hybrid".toList key.length then some .hybrid
  else none

def addIndex (key value : Text) : Except InitError Definition := do
  Except.require d.index.isNone (constructorError "only one index is supported".toList)
  Except.require (d.vectorColumns.length = 1)
    (constructorError "Only one index column is supported".toList)
  let type ← Except.ofOption (constructorError ("Unknown table option: ".toList ++ key))
    (indexType key)
  .ok { d with index := some (type, value) }

def addOption (option : Text × Text) : Except InitError Definition :=
  if strnicmp option.1 "chunk_size".toList option.1.length then d.setChunkSize option.2
  else d.addIndex option.1 option.2

end Definition

end Columns

section Init

/-- One parser, and what is done where it returns another code than `SQLITE_OK`. -/
def scenario {β γ : Type} (parsed : Except Stop β) (found : β → Except InitError γ)
    (next : ResultCode → Except InitError γ) : Except InitError γ :=
  match parsed with
  | .ok x => found x
  | .error .undefined => .error .undefined
  | .error (.code rc) => next rc

def vec0InitArgument (d : Definition) (argument : Text) : Except InitError Definition :=
  scenario (vec0ParseVectorColumn argument) d.addVector fun rc =>
  if rc = sqliteError then .error (constructorError
    ("could not parse vector column '".toList ++ argument ++ "'".toList))
  else
  scenario (vec0ParsePartitionKeyDefinition argument) d.addPartition fun _ =>
  scenario (vec0ParsePrimaryKeyDefinition argument) d.addPrimaryKey fun _ =>
  scenario (vec0ParseAuxiliaryColumnDefinition argument) d.addAuxiliary fun _ =>
  scenario (vec0ParseMetadataColumnDefinition argument) d.addMetadata fun _ =>
  scenario (vec0ParseTableOption argument) d.addOption fun rc =>
  .error <| constructorError <|
    if rc = sqliteError then "could not parse table option '".toList ++ argument ++ "'".toList
    else "Could not parse '".toList ++ argument ++ "'".toList

namespace Definition

variable (d : Definition)

def columnName (c : UserColumn) : Text :=
  match c.kind with
  | .vector => (d.vectorColumns[c.idx]?.map VectorColumnDefinition.name).getD []
  | .partition => (d.partitionColumns[c.idx]?.map Prod.fst).getD []
  | .auxiliary => (d.auxiliaryColumns[c.idx]?.map Prod.fst).getD []
  | .metadata => (d.metadataColumns[c.idx]?.map Prod.fst).getD []

/-- The conversion `%w` doubles quotes. -/
def quoted (name : Text) : Text :=
  '"' :: name.flatMap (fun c => if c = '"' then ['"', '"'] else [c]) ++ ['"']

def createStr : Text :=
  "CREATE TABLE x(".toList ++
    (d.primaryKey.elim "rowid, ".toList fun column =>
      quoted column.1 ++ " primary key, ".toList) ++
    d.userColumns.flatMap (fun c => quoted (d.columnName c) ++ ", ".toList) ++
    " distance hidden, k hidden) ".toList ++
    (if d.primaryKey.isSome then "without rowid ".toList else [])

end Definition

def stricmp (left right : Text) : Bool := lower left = lower right

/-- The message of what fails: of `sqlite3_declare_vtab`, and of a statement that is prepared and
run once, after the ones in front of it. -/
structure Connection where
  declareVtab : Text → Option Text
  exec : Text → Option Text

namespace Definition

variable (d : Definition)

def declare (db : Connection) : Except InitError Unit :=
  match db.declareVtab d.createStr with
  | some errmsg => .error (constructorError
      ("could not declare virtual table, '".toList ++ errmsg ++ "'".toList))
  | none => .ok ()

/-- The conversion `%02d`. -/
def twoDigits (i : Nat) : Text := if i < 10 then '0' :: Text.ofInt i else Text.ofInt i

/-- A statement with the message that stands in front of the one of SQLite. -/
abbrev ShadowStatement := Text × Text

def shadowName (schemaName tableName suffix : Text) : Text :=
  quoted schemaName ++ ['.'] ++ quoted (tableName ++ suffix)

def infoStatements (schemaName tableName : Text) : List ShadowStatement :=
  let name := shadowName schemaName tableName "_info".toList
  [("CREATE TABLE ".toList ++ name ++ " (key text primary key, value any)".toList,
    "Could not create '_info' shadow table: ".toList),
   ("INSERT INTO ".toList ++ name ++ ("(key, value) VALUES " ++
      "(?1, ?2), (?3, ?4), (?5, ?6), (?7, ?8) ").toList,
    "Could not seed '_info' shadow table: ".toList)]

def chunksStatement (schemaName tableName : Text) : ShadowStatement :=
  let name := shadowName schemaName tableName "_chunks".toList
  ("CREATE TABLE ".toList ++ name ++
      ("(chunk_id INTEGER PRIMARY KEY AUTOINCREMENT," ++ "size INTEGER NOT NULL,").toList ++
      (if d.partitionColumns.isEmpty then []
       else "sequence_id integer,".toList ++ (List.range d.partitionColumns.length).flatMap
        fun i => "partition".toList ++ twoDigits i ++ [',']) ++
      (if d.partitionColumns.isEmpty then "validity BLOB NOT NULL,rowids BLOB NOT NULL);".toList
       else "validity BLOB NOT NULL, rowids BLOB NOT NULL);".toList),
    "Could not create '_chunks' shadow table: ".toList)

def pkIsText : Bool := d.primaryKey.any (·.2 = .text)

def rowidsStatement (schemaName tableName : Text) : ShadowStatement :=
  ("CREATE TABLE ".toList ++ shadowName schemaName tableName "_rowids".toList ++
      "(rowid INTEGER PRIMARY KEY AUTOINCREMENT,".toList ++
      (if d.pkIsText then "id TEXT UNIQUE NOT NULL,".toList else "id,".toList) ++
      "chunk_id INTEGER,chunk_offset INTEGER);".toList,
    "Could not create '_rowids' shadow table: ".toList)

def vectorStatement (schemaName tableName : Text) (i : Nat) : ShadowStatement :=
  ("CREATE TABLE ".toList ++
      shadowName schemaName tableName ("_vector_chunks".toList ++ twoDigits i) ++
      "(rowid PRIMARY KEY,vectors BLOB NOT NULL);".toList,
    "Could not create '_vector_chunks".toList ++ twoDigits i ++ "' shadow table: ".toList)

def metadataStatements (schemaName tableName : Text) (i : Nat) (kind : MetadataKind) :
    List ShadowStatement :=
  ("CREATE TABLE ".toList ++
      shadowName schemaName tableName ("_metadatachunks".toList ++ twoDigits i) ++
      "(rowid PRIMARY KEY, data BLOB NOT NULL);".toList,
    "Could not create '_metata_chunks".toList ++ twoDigits i ++ "' shadow table: ".toList) ::
  if kind = .text then
    [("CREATE TABLE ".toList ++
        shadowName schemaName tableName ("_metadatatext".toList ++ twoDigits i) ++
        "(rowid PRIMARY KEY, data TEXT);".toList,
      "Could not create '_metadatatext".toList ++ twoDigits i ++ "' shadow table: ".toList)]
  else []

def auxiliaryStatements (schemaName tableName : Text) : List ShadowStatement :=
  if d.auxiliaryColumns.isEmpty then []
  else
    [("CREATE TABLE ".toList ++ shadowName schemaName tableName "_auxiliary".toList ++
        "( rowid integer PRIMARY KEY ".toList ++
        (List.range d.auxiliaryColumns.length).flatMap
          (fun i => ", value".toList ++ twoDigits i) ++ [')'],
      "Could not create auxiliary shadow table: ".toList)]

def shadowStatements (schemaName tableName : Text) : List ShadowStatement :=
  infoStatements schemaName tableName ++
    [d.chunksStatement schemaName tableName, d.rowidsStatement schemaName tableName] ++
    (List.range d.vectorColumns.length).map (vectorStatement schemaName tableName) ++
    d.metadataColumns.zipIdx.flatMap
      (fun x => metadataStatements schemaName tableName x.2 x.1.2) ++
    d.auxiliaryStatements schemaName tableName

def execAll (db : Connection) : List ShadowStatement → Except InitError Unit
  | [] => .ok ()
  | (zSql, message) :: rest =>
    match db.exec zSql with
    | some errmsg => .error (.message (message ++ errmsg))
    | none => execAll db rest

def createShadow (db : Connection) (schemaName tableName : Text) (isCreate : Bool) :
    Except InitError Unit :=
  if isCreate then execAll db (d.shadowStatements schemaName tableName) else .ok ()

def checkIndex (isCreate : Bool) : Except InitError Unit :=
  match d.index with
  | some (_, columnName) =>
    Except.require (isCreate = true → d.vectorColumns.any (stricmp ·.name columnName))
      (constructorError
        ("create_index refers to non-existent column '".toList ++ columnName ++ "'".toList))
  | none => .ok ()

end Definition

def vec0Init (db : Connection) (schemaName tableName : Text) (isCreate : Bool)
    (arguments : List Text) : Except InitError Definition := do
  let d ← arguments.foldlM vec0InitArgument .empty
  Except.require (0 < d.vectorColumns.length)
    (constructorError "At least one vector column is required".toList)
  d.declare db
  d.createShadow db schemaName tableName isCreate
  d.checkIndex isCreate
  .ok { d with chunkSize := if d.chunkSize < 0 then 1024 else d.chunkSize }

end Init

section Sound

def Numbered (userColumns : List UserColumn) (kind : UserColumnKind) (n : Nat) : Prop :=
  (userColumns.filter fun c => c.kind = kind).map UserColumn.idx = List.range n

theorem Numbered.snoc {user : List UserColumn} {kind : UserColumnKind} {n : Nat}
    (h : Numbered user kind n) : Numbered (user ++ [⟨kind, n⟩]) kind (n + 1) := by
  rw [Numbered, List.filter_append, List.map_append, h, List.range_succ]
  simp

theorem Numbered.snoc_of_ne {user : List UserColumn} {kind kind' : UserColumnKind} {n m : Nat}
    (h : Numbered user kind n) (hne : kind' ≠ kind) : Numbered (user ++ [⟨kind', m⟩]) kind n := by
  rw [Numbered, List.filter_append, List.map_append, h]
  simp [hne]

theorem Numbered.lt {user : List UserColumn} {n : Nat} {c : UserColumn}
    (h : Numbered user c.kind n) (hc : c ∈ user) : c.idx < n := by
  have hmem : c.idx ∈ (user.filter fun c' => c'.kind = c.kind).map UserColumn.idx :=
    List.mem_map_of_mem (List.mem_filter.mpr ⟨hc, decide_eq_true rfl⟩)
  rw [h] at hmem
  exact List.mem_range.mp hmem

namespace Definition

variable {d d' : Definition}

def count (d : Definition) : UserColumnKind → Nat
  | .vector => d.vectorColumns.length
  | .partition => d.partitionColumns.length
  | .auxiliary => d.auxiliaryColumns.length
  | .metadata => d.metadataColumns.length

def maximum : UserColumnKind → Nat
  | .vector => vec0MaxVectorColumns
  | .partition => vec0MaxPartitionColumns
  | .auxiliary => vec0MaxAuxiliaryColumns
  | .metadata => vec0MaxMetadataColumns

structure Sound (d : Definition) : Prop where
  count_le : ∀ kind, d.count kind ≤ maximum kind
  numbered : ∀ kind, Numbered d.userColumns kind (d.count kind)
  dimensions : ∀ c ∈ d.vectorColumns, 0 < c.dimensions ∧ c.dimensions ≤ sqliteVecVec0MaxDimensions
  chunkSize : d.chunkSize = -1 ∨ 0 < d.chunkSize ∧ d.chunkSize % 8 = 0 ∧ d.chunkSize ≤ 4096
  index : d.index.isSome → 0 < d.vectorColumns.length

theorem Sound.empty : Definition.empty.Sound where
  count_le kind := by cases kind <;> exact Nat.zero_le _
  numbered kind := by cases kind <;> rfl
  dimensions c hc := absurd hc List.not_mem_nil
  chunkSize := .inl rfl
  index h := by cases h

theorem Sound.snoc (h : d.Sound) (kind : UserColumnKind) (hlt : d.count kind < maximum kind)
    (huser : d'.userColumns = d.userColumns ++ [⟨kind, d.count kind⟩])
    (hcount : ∀ k, d'.count k = if k = kind then d.count kind + 1 else d.count k)
    (hdims : ∀ c ∈ d'.vectorColumns, 0 < c.dimensions ∧ c.dimensions ≤ sqliteVecVec0MaxDimensions)
    (hchunk : d'.chunkSize = d.chunkSize) (hindex : d'.index = d.index) : d'.Sound where
  count_le k := by
    rw [hcount]
    split
    next hk => exact hk ▸ hlt
    next hk => exact h.count_le k
  numbered k := by
    rw [huser, hcount]
    split
    next hk => exact hk ▸ (h.numbered kind).snoc
    next hk => exact (h.numbered k).snoc_of_ne (Ne.symm hk)
  dimensions := hdims
  chunkSize := hchunk ▸ h.chunkSize
  index hsome := by
    have hpos := h.index (hindex ▸ hsome)
    have hle : d.count .vector ≤ d'.count .vector := by
      rw [hcount]
      split
      next hk => exact hk ▸ Nat.le_succ _
      next hk => exact Nat.le_refl _
    exact Nat.lt_of_lt_of_le hpos hle

theorem Sound.addVector {column : VectorColumnDefinition} (h : d.Sound)
    (hpos : 0 < column.dimensions) (hadd : d.addVector column = .ok d') : d'.Sound := by
  simp only [Definition.addVector, Except.bind_eq_ok, Except.require_eq_ok, Except.ok.injEq] at hadd
  obtain ⟨_, hlt, _, hle, rfl⟩ := hadd
  refine h.snoc .vector hlt rfl (fun k => ?_) (fun c hc => ?_) rfl rfl
  · cases k <;> simp [count]
  · obtain hc | hc := List.mem_append.mp hc
    · exact h.dimensions c hc
    · rw [List.mem_singleton.mp hc]
      exact ⟨hpos, hle⟩

theorem Sound.addPartition {column : Text × KeyColumnType} (h : d.Sound)
    (hadd : d.addPartition column = .ok d') : d'.Sound := by
  simp only [Definition.addPartition, Except.bind_eq_ok, Except.require_eq_ok,
    Except.ok.injEq] at hadd
  obtain ⟨_, hlt, rfl⟩ := hadd
  refine h.snoc .partition hlt rfl (fun k => ?_) h.dimensions rfl rfl
  cases k <;> simp [count]

theorem Sound.addAuxiliary {column : Text × SqlType} (h : d.Sound)
    (hadd : d.addAuxiliary column = .ok d') : d'.Sound := by
  simp only [Definition.addAuxiliary, Except.bind_eq_ok, Except.require_eq_ok,
    Except.ok.injEq] at hadd
  obtain ⟨_, hlt, rfl⟩ := hadd
  refine h.snoc .auxiliary hlt rfl (fun k => ?_) h.dimensions rfl rfl
  cases k <;> simp [count]

theorem Sound.addMetadata {column : Text × MetadataKind} (h : d.Sound)
    (hadd : d.addMetadata column = .ok d') : d'.Sound := by
  simp only [Definition.addMetadata, Except.bind_eq_ok, Except.require_eq_ok,
    Except.ok.injEq] at hadd
  obtain ⟨_, hlt, rfl⟩ := hadd
  refine h.snoc .metadata hlt rfl (fun k => ?_) h.dimensions rfl rfl
  cases k <;> simp [count]

theorem Sound.addPrimaryKey {column : Text × KeyColumnType} (h : d.Sound)
    (hadd : d.addPrimaryKey column = .ok d') : d'.Sound := by
  simp only [Definition.addPrimaryKey, Except.bind_eq_ok, Except.require_eq_ok,
    Except.ok.injEq] at hadd
  obtain ⟨_, -, rfl⟩ := hadd
  exact ⟨h.count_le, h.numbered, h.dimensions, h.chunkSize, h.index⟩

theorem Sound.addOption {option : Text × Text} (h : d.Sound)
    (hadd : d.addOption option = .ok d') : d'.Sound := by
  unfold Definition.addOption setChunkSize addIndex at hadd
  split at hadd
  · split at hadd
    · cases hadd
    · simp only [Except.bind_eq_ok, Except.require_eq_ok, Except.ok.injEq] at hadd
      obtain ⟨_, hpos, _, hmod, _, hle, rfl⟩ := hadd
      exact ⟨h.count_le, h.numbered, h.dimensions, .inr ⟨hpos, hmod, hle⟩, h.index⟩
  · simp only [Except.bind_eq_ok, Except.require_eq_ok, Except.ofOption_eq_ok,
      Except.ok.injEq] at hadd
    obtain ⟨_, -, _, hone, type, -, rfl⟩ := hadd
    exact ⟨h.count_le, h.numbered, h.dimensions, h.chunkSize, fun _ => hone ▸ Nat.one_pos⟩

end Definition

theorem scenario_eq_ok {β γ : Type} {parsed : Except Stop β} {found : β → Except InitError γ}
    {next : ResultCode → Except InitError γ} {r : γ} :
    scenario parsed found next = .ok r ↔ (∃ x, parsed = .ok x ∧ found x = .ok r) ∨
      ∃ rc, parsed = .error (.code rc) ∧ next rc = .ok r := by
  unfold scenario
  split <;> simp

theorem vec0ParseVectorColumn_dimensions {source : Text} {r : VectorColumnDefinition}
    (h : vec0ParseVectorColumn source = .ok r) : 0 < r.dimensions := by
  obtain ⟨_, _, _, _, _, _, _, -, -, -, -, hpos, -⟩ := vec0ParseVectorColumn_eq_ok.mp h
  exact hpos

theorem Definition.Sound.argument {d d' : Definition} {argument : Text} (h : d.Sound)
    (harg : vec0InitArgument d argument = .ok d') : d'.Sound := by
  unfold vec0InitArgument at harg
  obtain ⟨c, hparse, hadd⟩ | ⟨_, -, harg⟩ := scenario_eq_ok.mp harg
  · exact h.addVector (vec0ParseVectorColumn_dimensions hparse) hadd
  split at harg
  · cases harg
  obtain ⟨c, -, hadd⟩ | ⟨_, -, harg⟩ := scenario_eq_ok.mp harg
  · exact h.addPartition hadd
  obtain ⟨c, -, hadd⟩ | ⟨_, -, harg⟩ := scenario_eq_ok.mp harg
  · exact h.addPrimaryKey hadd
  obtain ⟨c, -, hadd⟩ | ⟨_, -, harg⟩ := scenario_eq_ok.mp harg
  · exact h.addAuxiliary hadd
  obtain ⟨c, -, hadd⟩ | ⟨_, -, harg⟩ := scenario_eq_ok.mp harg
  · exact h.addMetadata hadd
  obtain ⟨c, -, hadd⟩ | ⟨_, -, harg⟩ := scenario_eq_ok.mp harg
  · exact h.addOption hadd
  · cases harg

theorem Definition.Sound.arguments {d d' : Definition} {arguments : List Text} (h : d.Sound)
    (hargs : arguments.foldlM vec0InitArgument d = .ok d') : d'.Sound := by
  induction arguments generalizing d with
  | nil =>
    cases hargs
    exact h
  | cons argument arguments ih =>
    rw [List.foldlM_cons, Except.bind_eq_ok] at hargs
    obtain ⟨d₁, harg, hargs⟩ := hargs
    exact ih (h.argument harg) hargs

end Sound

section Table

variable {d : Definition}

structure Definition.Accepted (d : Definition) : Prop extends d.Sound where
  vectors_pos : 0 < d.vectorColumns.length
  chunkSize_pos : 0 < d.chunkSize

namespace Definition

/-- `chunk_size` of the table. -/
def size (h : d.Accepted) : ChunkSize where
  val := d.chunkSize.toNat
  pos := by
    have := h.chunkSize_pos
    omega
  dvd := by
    have := h.chunkSize_pos
    obtain hneg | ⟨-, hmod, -⟩ := h.chunkSize <;> omega
  le := by
    have := h.chunkSize_pos
    obtain hneg | ⟨-, -, hle⟩ := h.chunkSize <;> omega

def vtab (h : d.Accepted) : Vec0Vtab where
  chunkSize := d.size h
  pkIsText := d.pkIsText
  partitionTypes := d.partitionColumns.map fun c => c.2.type
  vectorColumns := d.vectorColumns.zipIdx.map fun x =>
    ⟨x.1.elementType, x.1.dimensions, d.userColumns.idxOf ⟨.vector, x.2⟩⟩
  auxiliaryTypes := d.auxiliaryColumns.map Prod.snd
  metadataKinds := d.metadataColumns.map Prod.snd

def tableDef (h : d.Sound) : TableDef where
  userColumns := d.userColumns
  metadataKinds := d.metadataColumns.map Prod.snd
  partition_lt c hc hkind := by
    have hlt := (h.numbered c.kind).lt hc
    rw [hkind] at hlt
    exact Nat.lt_of_lt_of_le hlt (h.count_le .partition)
  metadata_lt c hc hkind := by
    have hlt := (h.numbered c.kind).lt hc
    rw [hkind] at hlt
    rwa [List.length_map]
  metadata_le := by
    rw [List.length_map]
    exact h.count_le .metadata

end Definition

variable {db : Connection} {schemaName tableName : Text} {isCreate : Bool} {arguments : List Text}

theorem Definition.declare_eq_ok : d.declare db = .ok () ↔ db.declareVtab d.createStr = none := by
  unfold declare
  cases db.declareVtab d.createStr <;> simp

theorem Definition.execAll_eq_ok {statements : List ShadowStatement} :
    execAll db statements = .ok () ↔ ∀ statement ∈ statements, db.exec statement.1 = none := by
  induction statements with
  | nil => simp [execAll]
  | cons statement rest ih =>
    obtain ⟨zSql, message⟩ := statement
    rw [execAll, List.forall_mem_cons]
    cases db.exec zSql with
    | none => simp [ih]
    | some errmsg => simp

theorem Definition.createShadow_eq_ok : d.createShadow db schemaName tableName isCreate = .ok () ↔
    (isCreate = true → ∀ statement ∈ d.shadowStatements schemaName tableName,
      db.exec statement.1 = none) := by
  unfold createShadow
  cases isCreate with
  | false => simp
  | true => simp [execAll_eq_ok]

theorem Definition.checkIndex_eq_ok : d.checkIndex isCreate = .ok () ↔
    (isCreate = true → ∀ index, d.index = some index →
      d.vectorColumns.any (stricmp ·.name index.2) = true) := by
  unfold checkIndex
  cases d.index with
  | none => simp
  | some index => simp [Except.require_eq_ok]

theorem vec0Init_eq_ok : vec0Init db schemaName tableName isCreate arguments = .ok d ↔
    ∃ d₀, arguments.foldlM vec0InitArgument .empty = .ok d₀ ∧ 0 < d₀.vectorColumns.length ∧
      d₀.declare db = .ok () ∧ d₀.createShadow db schemaName tableName isCreate = .ok () ∧
      d₀.checkIndex isCreate = .ok () ∧
      d = { d₀ with chunkSize := if d₀.chunkSize < 0 then 1024 else d₀.chunkSize } := by
  simp only [vec0Init, Except.bind_eq_ok, Except.require_eq_ok, Except.ok.injEq]
  constructor
  · rintro ⟨d₀, hargs, _, hpos, _, hdeclare, _, hshadow, _, hindex, rfl⟩
    exact ⟨d₀, hargs, hpos, hdeclare, hshadow, hindex, rfl⟩
  · rintro ⟨d₀, hargs, hpos, hdeclare, hshadow, hindex, rfl⟩
    exact ⟨d₀, hargs, ⟨⟩, hpos, ⟨⟩, hdeclare, ⟨⟩, hshadow, ⟨⟩, hindex, rfl⟩

theorem vec0Init_accepted (h : vec0Init db schemaName tableName isCreate arguments = .ok d) :
    d.Accepted := by
  obtain ⟨d₀, hargs, hpos, -, -, -, rfl⟩ := vec0Init_eq_ok.mp h
  have hsound := Definition.Sound.empty.arguments hargs
  have hsize := hsound.chunkSize
  exact {
    count_le := hsound.count_le
    numbered := hsound.numbered
    dimensions := hsound.dimensions
    chunkSize := by
      refine .inr ?_
      dsimp only
      split <;> omega
    index := hsound.index
    vectors_pos := hpos
    chunkSize_pos := by
      dsimp only
      split <;> omega }

theorem Definition.describes (h : d.Accepted) :
    Cursor.Describes (d.tableDef h.toSound) (d.vtab h) where
  metadataKinds := rfl
  vector_lt c hc hkind := by
    have hlt := (h.numbered c.kind).lt hc
    rw [hkind] at hlt
    exact Nat.lt_of_lt_of_eq hlt (by simp [vtab, count])
  partition_lt c hc hkind := by
    have hlt := (h.numbered c.kind).lt hc
    rw [hkind] at hlt
    exact Nat.lt_of_lt_of_eq hlt (by simp [vtab, count])
  auxiliary_lt c hc hkind := by
    have hlt := (h.numbered c.kind).lt hc
    rw [hkind] at hlt
    exact Nat.lt_of_lt_of_eq hlt (by simp [vtab, count])

/-- Whatever the arguments, a definition that is accepted keeps to the maxima, numbers the columns
of each kind in their order, and describes the table to the cursor. -/
theorem vec0Init_describes (h : vec0Init db schemaName tableName isCreate arguments = .ok d) :
    ∃ haccepted : d.Accepted, Cursor.Describes (d.tableDef haccepted.toSound) (d.vtab haccepted) ∧
      0 < (d.vtab haccepted).vectorColumns.length := by
  have haccepted := vec0Init_accepted h
  refine ⟨haccepted, Definition.describes haccepted, ?_⟩
  simpa [Definition.vtab] using haccepted.vectors_pos

def sampleDefinition : Definition where
  chunkSize := 16
  vectorColumns := [⟨"v".toList, .float32, 4, .l2⟩]
  partitionColumns := [("u".toList, .integer)]
  auxiliaryColumns := [("c".toList, .text)]
  metadataColumns := [("r".toList, .boolean)]
  userColumns := [⟨.vector, 0⟩, ⟨.auxiliary, 0⟩, ⟨.metadata, 0⟩, ⟨.partition, 0⟩]
  primaryKey := some ("id".toList, .text)
  index := some (.hnsw, "v".toList)

/-- A connection on which all goes well. -/
def sampleConnection : Connection := ⟨fun _ => none, fun _ => none⟩

theorem sample_describes : ∃ h : sampleDefinition.Accepted,
    Cursor.Describes (sampleDefinition.tableDef h.toSound) (sampleDefinition.vtab h) ∧
      0 < (sampleDefinition.vtab h).vectorColumns.length :=
  vec0Init_describes (show vec0Init sampleConnection "main".toList "t".toList true
    ["v float[4]".toList, "id text primary key".toList, "+c text".toList, "r boolean".toList,
    "u integer partition key".toList, "chunk_size=16".toList, "create_index_hnsw=v".toList] =
      .ok sampleDefinition by decide)

end Table

end SqliteMultimodal.Vec.Declare
