import SqliteMultimodal.Lib.Bitmap
import SqliteMultimodal.Lib.Blob
import SqliteMultimodal.Lib.Except
import SqliteMultimodal.Lib.Table
import SqliteMultimodal.Vec.Basic

namespace SqliteMultimodal.Vec.Storage

inductive VectorElementType
  | float32 | bit | int8
  deriving DecidableEq

/-- `userIdx` is the place of the column among all declared columns. -/
structure VectorColumn where
  elementType : VectorElementType
  dimensions : Nat
  userIdx : Nat

inductive MetadataKind
  | boolean | integer | float | text
  deriving DecidableEq

structure Vec0Vtab where
  chunkSize : ChunkSize
  pkIsText : Bool
  partitionTypes : List SqlType
  vectorColumns : List VectorColumn
  auxiliaryTypes : List SqlType
  metadataKinds : List MetadataKind

/-- A row of the rowids table.  The position is NULL until it has been assigned. -/
structure RowidsRow where
  id : SqlValue
  position : Option (Rowid × Nat)

structure ChunkRow where
  validity : Bitmap
  rowids : List Rowid
  partitions : List SqlValue

inductive MetadataChunk
  | boolean (bits : Bitmap)
  | integer (values : List Int64)
  | float (values : List ℚ)
  | text (views : List Bytes)

structure Shadow (α : Type) where
  rowids : AutoTable RowidsRow
  chunks : AutoTable ChunkRow
  vectorChunks : Table (Nat × Rowid) (List α)
  auxiliary : Table Rowid (List SqlValue)
  metadataChunks : Table (Nat × Rowid) MetadataChunk
  metadataText : Table (Nat × Rowid) Bytes

/-- What `vector_from_value` makes of an argument it accepts. -/
structure ParsedVector (α : Type) where
  elementType : VectorElementType
  elements : List α

/-- SQLite passes one value for each column, and no text of `2 ^ 31` bytes or more. -/
structure InsertArgs (p : Vec0Vtab) (α : Type) where
  id : SqlValue
  partitions : List SqlValue
  vectors : List (Option (ParsedVector α))
  auxiliary : List SqlValue
  metadata : List SqlValue
  distance : SqlValue
  k : SqlValue
  length_partitions : partitions.length = p.partitionTypes.length
  length_vectors : vectors.length = p.vectorColumns.length
  length_auxiliary : auxiliary.length = p.auxiliaryTypes.length
  length_metadata : metadata.length = p.metadataKinds.length
  text_lt : ∀ t, .text t ∈ metadata → t.length < 2147483648

/-- A column that the statement does not set is `none`; so is a vector that is NULL.  `newIdText`
is the new id as `sqlite3_value_text` gives it.  `pzError` says for each vector column whether the
variable of that name, which nothing sets before it is read, happens to be no null pointer. -/
structure UpdateArgs (p : Vec0Vtab) (α : Type) where
  oldId : SqlValue
  newIdText : Bytes
  pzError : Nat → Bool
  partitions : List (Option SqlValue)
  vectors : List (Option (Option (ParsedVector α)))
  auxiliary : List (Option SqlValue)
  metadata : List (Option SqlValue)
  length_vectors : vectors.length = p.vectorColumns.length
  length_auxiliary : auxiliary.length = p.auxiliaryTypes.length
  length_metadata : metadata.length = p.metadataKinds.length
  text_lt : ∀ t, some (.text t) ∈ metadata → t.length < 2147483648

/-- The calls a statement makes on the index, if the table has one on the vector column `column`. -/
structure IndexOps (α ι : Type) where
  column : Option Nat
  insert : ι → List α → Rowid → ι × ResultCode
  delete : ι → Rowid → ι × ResultCode
  update : ι → Rowid → List α → ι

structure Vec0 (α ι : Type) where
  dimensions : List Nat
  shadow : Shadow α
  index : ι

variable {α ι : Type}

def Shadow.empty : Shadow α := ⟨.empty, .empty, .empty, .empty, .empty, .empty⟩

open Except

section Rowids

variable (p : Vec0Vtab) (s : Shadow α)

def vec0RowidsInsertRowid (rowid : Rowid) : Except ResultCode (Shadow α) := do
  let rowids ← ofOption sqliteError (s.rowids.insertRowid rowid ⟨.null, none⟩)
  return { s with rowids }

/-- The column `id` is unique in a table with a text primary key. -/
def vec0RowidsInsertId (id : SqlValue) : Except ResultCode (Shadow α × Rowid) := do
  require (p.pkIsText = true → ∀ x ∈ s.rowids.rows, x.2.id.eq id = false) sqliteError
  let (rowid, rowids) ← ofOption sqliteError (s.rowids.insertAuto ⟨id, none⟩)
  return ({ s with rowids }, rowid)

def vec0UpdateInsertRowidStep (id : SqlValue) : Except ResultCode (Shadow α × Rowid) :=
  if p.pkIsText then do
    require (id.type = .text) sqliteError
    vec0RowidsInsertId p s id
  else
    match id with
    | .integer rowid => do return (← vec0RowidsInsertRowid s rowid, rowid)
    | .null => vec0RowidsInsertId p s .null
    | _ => .error sqliteError

def vec0RowidFromId (id : SqlValue) : Except ResultCode Rowid :=
  ofOption sqliteEmpty ((s.rowids.rows.find? fun x => x.2.id.eq id).map Prod.fst)

def vec0GetChunkPosition (rowid : Rowid) : Except ResultCode (Rowid × Nat) := do
  let row ← ofOption sqliteEmpty (s.rowids.get rowid)
  return row.position.getD (0, 0)

def vec0RowidsUpdatePosition (rowid chunkRowid : Rowid) (chunkOffset : Nat) : Shadow α :=
  { s with rowids := s.rowids.modify rowid fun row =>
      { row with position := some (chunkRowid, chunkOffset) } }

end Rowids

section Chunks

variable [Zero α] (p : Vec0Vtab) (dimensions : List Nat) (s : Shadow α)

def vec0GetLatestChunkRowid (partitionKeyValues : List SqlValue) : Option Rowid :=
  s.chunks.maxWhere fun c => (c.partitions.zip partitionKeyValues).all fun x => x.1.eq x.2

def zeroMetadataChunk (n : Nat) : MetadataKind → MetadataChunk
  | .boolean => .boolean (Bitmap.new n)
  | .integer => .integer (List.replicate n 0)
  | .float => .float (List.replicate n 0)
  | .text => .text (List.replicate n (List.replicate 16 0))

def insertEach {ρ : Type} (t : Table (Nat × Rowid) ρ) (key : Rowid) (rows : List ρ) :
    Except ResultCode (Table (Nat × Rowid) ρ) :=
  rows.zipIdx.foldlM (fun t x => ofOption sqliteError (t.insert (x.2, key) x.1)) t

def vec0NewChunk (partitionKeyValues : List SqlValue) : Except ResultCode (Shadow α × Rowid) := do
  let n := p.chunkSize.val
  let (chunkRowid, chunks) ← ofOption sqliteError
    (s.chunks.insertAuto ⟨Bitmap.new n, List.replicate n 0, partitionKeyValues⟩)
  let vectorChunks ← insertEach s.vectorChunks chunkRowid
    (dimensions.map fun d => List.replicate (n * d) 0)
  let metadataChunks ← insertEach s.metadataChunks chunkRowid
    (p.metadataKinds.map (zeroMetadataChunk n))
  return ({ s with chunks, vectorChunks, metadataChunks }, chunkRowid)

/-- The first `0` bit, looked for byte by byte. -/
def nextAvailableBit : List (BitVec 8) → Option Nat
  | [] => none
  | byte :: bytes =>
    match if byte = 0b11111111#8 then none else
      (List.range 8).find? fun j => ((byte >>> j) &&& 1#8) == 0#8 with
    | some j => some j
    | none => (nextAvailableBit bytes).map (8 + ·)

def vec0UpdateInsertNextAvailableStep (partitionKeyValues : List SqlValue) :
    Except ResultCode (Shadow α × Rowid × Nat) := do
  match vec0GetLatestChunkRowid s partitionKeyValues with
  | none => do
    let (s, chunkRowid) ← vec0NewChunk p dimensions s partitionKeyValues
    return (s, chunkRowid, 0)
  | some chunkRowid => do
    let c ← ofOption sqliteError (s.chunks.get chunkRowid)
    require (c.validity.bytes.length = p.chunkSize.val / 8) sqliteError
    match nextAvailableBit c.validity.bytes with
    | some chunkOffset => return (s, chunkRowid, chunkOffset)
    | none => do
      let (s, chunkRowid) ← vec0NewChunk p dimensions s partitionKeyValues
      return (s, chunkRowid, 0)

def writeVectors (chunkRowid : Rowid) (chunkOffset : Nat) (vectorDatas : List (List α)) :
    Except ResultCode (Table (Nat × Rowid) (List α)) :=
  (dimensions.zip vectorDatas).zipIdx.foldlM (fun t x => do
    let chunk ← ofOption sqliteError (t.get (x.2, chunkRowid))
    require (chunk.length = p.chunkSize.val * x.1.1) sqliteError
    let chunk ← ofOption sqliteError (Blob.write chunk (chunkOffset * x.1.1) x.1.2)
    return t.modify (x.2, chunkRowid) fun _ => chunk) s.vectorChunks

def vec0UpdateInsertWriteFinalStep (chunkRowid : Rowid) (chunkOffset : Nat) (rowid : Rowid)
    (vectorDatas : List (List α)) : Except ResultCode (Shadow α) := do
  let c ← ofOption sqliteError (s.chunks.get chunkRowid)
  let vectorChunks ← writeVectors p dimensions s chunkRowid chunkOffset vectorDatas
  require (c.rowids.length = p.chunkSize.val) sqliteError
  let chunks := s.chunks.modify chunkRowid fun c =>
    { c with
      validity := c.validity.set chunkOffset true
      rowids := c.rowids.set chunkOffset rowid }
  return vec0RowidsUpdatePosition { s with chunks, vectorChunks } rowid chunkRowid chunkOffset

def vec0GetVectorData (rowid : Rowid) (vectorColumnIdx : Nat) : Except ResultCode (List α) := do
  let (chunkId, chunkOffset) ← vec0GetChunkPosition s rowid
  let chunk ← ofOption sqliteError (s.vectorChunks.get (vectorColumnIdx, chunkId))
  let size := dimensions.getD vectorColumnIdx 0
  ofOption sqliteError (Blob.read chunk (chunkOffset * size) size)

end Chunks

section Metadata

/-- The little-endian bytes of an `int`. -/
def intBytes (n : Nat) : Bytes :=
  [BitVec.ofNat 8 n, BitVec.ofNat 8 (n / 256), BitVec.ofNat 8 (n / 65536),
    BitVec.ofNat 8 (n / 16777216)]

def byteAt (view : Bytes) (i : Nat) : Nat := (view.getD i 0).toNat

/-- The `int` in the first four bytes of a view. -/
def viewLength (view : Bytes) : Int :=
  let n := byteAt view 0 + 256 * byteAt view 1 + 65536 * byteAt view 2 + 16777216 * byteAt view 3
  if n < 2147483648 then n else n - 4294967296

def textView (text : Bytes) : Bytes :=
  intBytes text.length ++ text.take 12 ++ List.replicate (12 - text.length) 0

def zeroView : Bytes := List.replicate 16 0

def writeOverflow (t : Table (Nat × Rowid) Bytes) (key : Nat × Rowid) (prevN : Int) (text : Bytes)
    (isupdate : Bool) : Except ResultCode (Table (Nat × Rowid) Bytes) :=
  if text.length > 12 then
    if isupdate ∧ prevN > 12 then return t.modify key fun _ => text
    else ofOption sqliteError (t.insert key text)
  else if prevN > 12 then return t.delete key
  else return t

def Shadow.setMetadataChunk (s : Shadow α) (key : Nat × Rowid) (chunk : MetadataChunk) :
    Shadow α :=
  { s with metadataChunks := s.metadataChunks.modify key fun _ => chunk }

variable (p : Vec0Vtab) (s : Shadow α) (metadataIdx : Nat)

/-- `sqlite3_value_int` keeps the low half of an integer. -/
def vec0WriteMetadataValue (rowid chunkId : Rowid) (chunkOffset : Nat) (v : SqlValue)
    (isupdate : Bool) : Except ResultCode (Shadow α) := do
  let key := (metadataIdx, chunkId)
  match p.metadataKinds[metadataIdx]?, v with
  | some .boolean, .integer value => do
    require (value.toInt32 = 0 ∨ value.toInt32 = 1) sqliteError
    match s.metadataChunks.get key with
    | some (.boolean bits) => do
      require (chunkOffset / 8 < bits.bytes.length) sqliteError
      return s.setMetadataChunk key (.boolean (bits.set chunkOffset (value.toInt32 ≠ 0)))
    | _ => .error sqliteError
  | some .integer, .integer value =>
    match s.metadataChunks.get key with
    | some (.integer values) => do
      require (chunkOffset < values.length) sqliteError
      return s.setMetadataChunk key (.integer (values.set chunkOffset value))
    | _ => .error sqliteError
  | some .float, .real value =>
    match s.metadataChunks.get key with
    | some (.float values) => do
      require (chunkOffset < values.length) sqliteError
      return s.setMetadataChunk key (.float (values.set chunkOffset value))
    | _ => .error sqliteError
  | some .text, .text value =>
    match s.metadataChunks.get key with
    | some (.text views) => do
      require (chunkOffset < views.length) sqliteError
      let prevN := viewLength (views.getD chunkOffset [])
      let metadataText ← writeOverflow s.metadataText (metadataIdx, rowid) prevN value isupdate
      return { s.setMetadataChunk key (.text (views.set chunkOffset (textView value))) with
        metadataText }
    | _ => .error sqliteError
  | _, _ => .error sqliteError

/-- A failure leaves the tables as they are: `vec0Update_Delete` does not look at the result. -/
def vec0UpdateDeleteClearMetadata (rowid chunkId : Rowid) (chunkOffset : Nat) : Shadow α :=
  let key := (metadataIdx, chunkId)
  match s.metadataChunks.get key with
  | some (.boolean bits) =>
    s.setMetadataChunk key (.boolean (bits.set chunkOffset false))
  | some (.integer values) =>
    s.setMetadataChunk key (.integer (values.set chunkOffset 0))
  | some (.float values) =>
    s.setMetadataChunk key (.float (values.set chunkOffset 0))
  | some (.text views) =>
    let n := viewLength (views.getD chunkOffset [])
    { s.setMetadataChunk key (.text (views.set chunkOffset zeroView)) with
      metadataText :=
        if n > 12 then s.metadataText.delete (metadataIdx, rowid) else s.metadataText }
  | none => s

def vec0ResultMetadataValueForRowid (rowid : Rowid) : Except ResultCode SqlValue := do
  let (chunkId, chunkOffset) ← vec0GetChunkPosition s rowid
  match s.metadataChunks.get (metadataIdx, chunkId) with
  | some (.boolean bits) => do
    require (chunkOffset / 8 < bits.bytes.length) sqliteError
    return .integer (if bits.get chunkOffset then 1 else 0)
  | some (.integer values) => do
    return .integer (← ofOption sqliteError values[chunkOffset]?)
  | some (.float values) => do
    return .real (← ofOption sqliteError values[chunkOffset]?)
  | some (.text views) => do
    let view ← ofOption sqliteError views[chunkOffset]?
    if viewLength view ≤ 12 then
      return .text ((view.drop 4).take (viewLength view).toNat)
    else
      return .text (← ofOption sqliteError (s.metadataText.get (metadataIdx, rowid)))
  | none => .error sqliteError

end Metadata

section Statements

variable [Zero α] (ops : IndexOps α ι) (p : Vec0Vtab) (dimensions : List Nat) (s : Shadow α)

def checkPartitions (values : List SqlValue) : Except ResultCode Unit :=
  require (∀ x ∈ values.zip p.partitionTypes, x.1.type = .null ∨ x.1.type = x.2) sqliteError

def checkVector (column : VectorColumn) (dimension : Nat) (v : ParsedVector α) :
    Except ResultCode Unit := do
  require (v.elementType = column.elementType) sqliteError
  require (v.elements.length = dimension) sqliteError

def readVector (column : VectorColumn) (dimension : Nat) (v : Option (ParsedVector α)) :
    Except ResultCode (List α) := do
  let v ← ofOption sqliteError v
  checkVector column dimension v
  return v.elements

def insertAuxiliary (rowid : Rowid) (values : List SqlValue) : Except ResultCode (Shadow α) :=
  if p.auxiliaryTypes.length = 0 then return s
  else do
    require (∀ x ∈ values.zip p.auxiliaryTypes, x.1.type = .null ∨ x.1.type = x.2) sqliteConstraint
    let auxiliary ← ofOption sqliteError (s.auxiliary.insert rowid values)
    return { s with auxiliary }

def writeMetadata (rowid chunkId : Rowid) (chunkOffset : Nat) (values : List (Option SqlValue))
    (isupdate : Bool) : Except ResultCode (Shadow α) :=
  values.zipIdx.foldlM (fun s x =>
    match x.1 with
    | none => return s
    | some v => vec0WriteMetadataValue p s x.2 rowid chunkId chunkOffset v isupdate) s

/-- The part of `vec0Update_Insert` that writes the shadow tables. -/
def insertShadow (args : InsertArgs p α) :
    Except ResultCode (Shadow α × Rowid × List (List α)) := do
  checkPartitions p args.partitions
  let vectorDatas ← ((p.vectorColumns.zip dimensions).zip args.vectors).mapM fun x =>
    readVector x.1.1 x.1.2 x.2
  require (args.distance = .null) sqliteError
  require (args.k = .null) sqliteError
  let (s, rowid) ← vec0UpdateInsertRowidStep p s args.id
  let (s, chunkRowid, chunkOffset) ← vec0UpdateInsertNextAvailableStep p dimensions s args.partitions
  let s ← vec0UpdateInsertWriteFinalStep p dimensions s chunkRowid chunkOffset rowid vectorDatas
  let s ← insertAuxiliary p s rowid args.auxiliary
  let s ← writeMetadata p s rowid chunkRowid chunkOffset (args.metadata.map some) false
  return (s, rowid, vectorDatas)

def vec0UpdateInsert (v : Vec0 α ι) (args : InsertArgs p α) :
    ι × Except ResultCode (Shadow α × Rowid) :=
  match insertShadow p v.dimensions v.shadow args, ops.column with
  | .error rc, _ => (v.index, .error rc)
  | .ok (s, rowid, _), none => (v.index, .ok (s, rowid))
  | .ok (s, rowid, vectorDatas), some i =>
    let (index, rc) := ops.insert v.index (vectorDatas.getD i []) rowid
    (index, if rc = sqliteOk then .ok (s, rowid) else .error rc)

def vec0UpdateDeleteClearValidity (chunkId : Rowid) (chunkOffset : Nat) :
    Except ResultCode (Shadow α) := do
  let c ← ofOption sqliteError (s.chunks.get chunkId)
  require (chunkOffset / 8 < c.validity.bytes.length) sqliteError
  require (c.validity.byte (chunkOffset / 8) >>> (chunkOffset % 8) ≠ 0#8) sqliteError
  return { s with chunks := s.chunks.modify chunkId fun c =>
    { c with validity := c.validity.set chunkOffset false } }

def clearMetadata (rowid chunkId : Rowid) (chunkOffset : Nat) : Shadow α :=
  (List.range p.metadataKinds.length).foldl (fun s i =>
    vec0UpdateDeleteClearMetadata s i rowid chunkId chunkOffset) s

/-- `sqlite3_value_int64` of the id; the statement names an existing row, so it is an integer. -/
def rowidOf (id : SqlValue) : Except ResultCode Rowid :=
  if p.pkIsText then vec0RowidFromId s id
  else
    match id with
    | .integer rowid => return rowid
    | _ => return 0

/-- The part of `vec0Update_Delete` that writes the shadow tables. -/
def deleteShadow (id : SqlValue) : Except ResultCode (Shadow α × Rowid) := do
  let rowid ← rowidOf p s id
  let (chunkId, chunkOffset) ← vec0GetChunkPosition s rowid
  let s ← vec0UpdateDeleteClearValidity s chunkId chunkOffset
  let s := { s with rowids := s.rowids.delete rowid }
  let s := if p.auxiliaryTypes.length > 0 then { s with auxiliary := s.auxiliary.delete rowid } else s
  return (clearMetadata p s rowid chunkId chunkOffset, rowid)

/-- The row with rowid `0` is not looked up in the index. -/
def vec0UpdateDelete (v : Vec0 α ι) (id : SqlValue) : ι × Except ResultCode (Shadow α × Rowid) :=
  match deleteShadow p v.shadow id, ops.column with
  | .error rc, _ => (v.index, .error rc)
  | .ok (s, rowid), none => (v.index, .ok (s, rowid))
  | .ok (s, rowid), some _ =>
    if rowid = 0 then (v.index, .ok (s, rowid))
    else
      let (index, rc) := ops.delete v.index rowid
      (index, if rc = sqliteOk then .ok (s, rowid) else .error rc)

/-- `strncmp` over two values of one length stops at a zero byte. -/
def sameText (a b : Bytes) : Bool :=
  a.length = b.length ∧ a.takeWhile (· ≠ 0#8) = b.takeWhile (· ≠ 0#8)

def checkSameId (oldId : SqlValue) (newIdText : Bytes) : Except ResultCode Unit :=
  match oldId with
  | .text a => require (p.pkIsText = true → sameText a newIdText) sqliteError
  | _ => require (p.pkIsText = false) sqliteError

def vec0UpdateUpdateAuxColumn (auxiliaryColumnIdx : Nat) (value : SqlValue) (rowid : Rowid) :
    Shadow α :=
  { s with auxiliary := s.auxiliary.modify rowid (·.set auxiliaryColumnIdx value) }

def updateAuxiliary (rowid : Rowid) (values : List (Option SqlValue)) : Shadow α :=
  values.zipIdx.foldl (fun s x =>
    match x.1 with
    | none => s
    | some v => vec0UpdateUpdateAuxColumn s x.2 v rowid) s

/-- The part of `vec0Update_Update` before the vectors: the row, its slot and the tables. -/
def updateShadow (args : UpdateArgs p α) : Except ResultCode (Shadow α × Rowid × Rowid × Nat) := do
  checkSameId p args.oldId args.newIdText
  let rowid ← rowidOf p s args.oldId
  let (chunkId, chunkOffset) ← vec0GetChunkPosition s rowid
  require (∀ x ∈ args.partitions, x = none) sqliteError
  let s := updateAuxiliary s rowid args.auxiliary
  let s ← writeMetadata p s rowid chunkId chunkOffset args.metadata true
  return (s, rowid, chunkId, chunkOffset)

def vec0UpdateUpdateVectorColumn (column : VectorColumn) (chunkId : Rowid) (chunkOffset i : Nat)
    (v : ParsedVector α) : Except ResultCode (Shadow α) := do
  let dimension := dimensions.getD i 0
  checkVector column dimension v
  let chunk ← ofOption sqliteError (s.vectorChunks.get (i, chunkId))
  let chunk ← ofOption sqliteError (Blob.write chunk (chunkOffset * dimension) v.elements)
  return { s with vectorChunks := s.vectorChunks.modify (i, chunkId) fun _ => chunk }

/-- A vector that can be read leaves `pzError` as it is. -/
def updateVector (pzError : Nat → Bool) (column : VectorColumn) (chunkId : Rowid)
    (chunkOffset i : Nat) (v : ParsedVector α) : Except ResultCode (Shadow α) := do
  require (pzError i = false) sqliteError
  vec0UpdateUpdateVectorColumn dimensions s column chunkId chunkOffset i v

def updateVectors (pzError : Nat → Bool) (rowid chunkId : Rowid) (chunkOffset : Nat) :
    List ((VectorColumn × Option (Option (ParsedVector α))) × Nat) → List Nat → ι → Shadow α →
      List Nat × ι × Except ResultCode (Shadow α)
  | [], dimensions, index, s => (dimensions, index, .ok s)
  | ((_, none), _) :: xs, dimensions, index, s =>
    updateVectors pzError rowid chunkId chunkOffset xs dimensions index s
  | ((_, some none), _) :: _, dimensions, index, _ => (dimensions, index, .error sqliteError)
  | ((column, some (some v)), i) :: xs, dimensions, index, s =>
    let dimensions := dimensions.set column.userIdx v.elements.length
    match updateVector dimensions s pzError column chunkId chunkOffset i v with
    | .error rc => (dimensions, index, .error rc)
    | .ok s =>
      updateVectors pzError rowid chunkId chunkOffset xs dimensions
        (ops.update index rowid v.elements) s

def vec0UpdateUpdate (v : Vec0 α ι) (args : UpdateArgs p α) :
    List Nat × ι × Except ResultCode (Shadow α × Rowid) :=
  match updateShadow p v.shadow args with
  | .error rc => (v.dimensions, v.index, .error rc)
  | .ok (s, rowid, chunkId, chunkOffset) =>
    let (dimensions, index, result) := updateVectors ops args.pzError rowid chunkId chunkOffset
      (p.vectorColumns.zip args.vectors).zipIdx v.dimensions v.index s
    (dimensions, index, result.map fun s => (s, rowid))

end Statements

inductive Statement (p : Vec0Vtab) (α : Type)
  | insert (args : InsertArgs p α)
  | update (args : UpdateArgs p α)
  | delete (id : SqlValue)

/-- The shadow tables after a statement: SQLite undoes what a failed one has written. -/
def Vec0.finish (v : Vec0 α ι) (dimensions : List Nat) (index : ι) :
    Except ResultCode (Shadow α × Rowid) → Vec0 α ι × Except ResultCode Rowid
  | .ok (shadow, rowid) => (⟨dimensions, shadow, index⟩, .ok rowid)
  | .error rc => (⟨dimensions, v.shadow, index⟩, .error rc)

def vec0Update [Zero α] (ops : IndexOps α ι) (p : Vec0Vtab) (v : Vec0 α ι) :
    Statement p α → Vec0 α ι × Except ResultCode Rowid
  | .insert args =>
    let (index, result) := vec0UpdateInsert ops p v args
    v.finish v.dimensions index result
  | .update args =>
    let (dimensions, index, result) := vec0UpdateUpdate ops p v args
    v.finish dimensions index result
  | .delete id =>
    let (index, result) := vec0UpdateDelete ops p v id
    v.finish v.dimensions index result

def Vec0.create (p : Vec0Vtab) (index : ι) : Vec0 α ι :=
  ⟨p.vectorColumns.map VectorColumn.dimensions, .empty, index⟩

end SqliteMultimodal.Vec.Storage
