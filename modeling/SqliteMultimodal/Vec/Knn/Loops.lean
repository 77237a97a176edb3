import Mathlib.Data.List.ReduceOption
import SqliteMultimodal.Vec.Knn.Defs

namespace SqliteMultimodal.Vec.Knn.Loops

open Storage Except ChunkScan

/-- A result code, and what `vtab_set_error` is given. -/
structure Failure where
  code : ResultCode
  message : String
  deriving DecidableEq

def withMessage {β : Type} (message : String) (x : Except ResultCode β) : Except Failure β :=
  x.mapError fun code => ⟨code, message⟩

/-- What both loops allocate in front of the first chunk.  `metadataBlobs` has the row on which the
blob of a column is open. -/
structure Scratch where
  b : Bitmap
  bmRowids : Bitmap
  bmMetadata : Bitmap
  metadataBlobs : Nat → Option Rowid

def Scratch.init (n : Nat) : Scratch := ⟨.new n, .new n, .new n, fun _ => none⟩

/-- `arrayRowidsIn` is sorted; `argv` has the constraint of each argument whose block is one on
metadata. -/
structure FilterArgs where
  arrayRowidsIn : Option (List Rowid)
  argv : List (Option (Nat × MetadataConstraint))

def FilterArgs.hasMetadataFilters (args : FilterArgs) : Bool := args.argv.any Option.isSome

variable {α : Type} (conv : Conversions) (p : Vec0Vtab) (s : Shadow α) (args : FilterArgs)

section Blocks

def filterRowids (row : ChunkRow) (arr : List Rowid) (x : Scratch) : Scratch :=
  let bmRowids := (List.range p.chunkSize.val).foldl (fun bm i =>
    if !row.validity.get i then bm else bm.set i (bsearch (row.rowids.getD i 0) arr))
    x.bmRowids.clear
  { x with b := x.b.andInplace bmRowids, bmRowids := bmRowids }

def blobOpen (metadataIdx : Nat) (chunkId : Rowid) : Except ResultCode Unit :=
  require ((s.metadataChunks.get (metadataIdx, chunkId)).isSome = true) sqliteError

/-- `vec0_set_metadata_filter_bitmap` with the bitmap it is given.  It moves the blob to the row of
the chunk. -/
def setMetadataFilterBitmap (metadataIdx : Nat) (constraint : MetadataConstraint)
    (chunkId : Rowid) (b : Bitmap) : Except ResultCode Bitmap := do
  let n := p.chunkSize.val
  let chunk ← ofOption sqliteError (s.metadataChunks.get (metadataIdx, chunkId))
  require (MetadataChunk.fits n chunk = true) sqliteError
  let rowids ← Knn.filterRowids s chunkId chunk
  (List.range n).foldlM (fun b i => do
    return b.set i (← slotTest conv s metadataIdx constraint rowids i chunk)) b

def Scratch.filtered (x : Scratch) (metadataIdx : Nat) (chunkId : Rowid) (bmMetadata : Bitmap) :
    Scratch where
  b := x.b.andInplace bmMetadata
  bmRowids := x.bmRowids
  bmMetadata := bmMetadata
  metadataBlobs := Function.update x.metadataBlobs metadataIdx (some chunkId)

def forArgv {σ : Type} (step : σ → Option (Nat × MetadataConstraint) → Except Failure σ) (x : σ) :
    Except Failure σ :=
  if args.hasMetadataFilters then args.argv.foldlM step x else return x

end Blocks

section RowidMap

structure RowidBuffer where
  rowids : List Rowid
  count : Nat

def rowidMapAdd (map : RowidBuffer) (rowid : Rowid) : RowidBuffer :=
  let capacity := map.rowids.length
  let rowids := if map.count ≥ capacity then
    map.rowids ++ List.replicate (capacity * 2 + 16 - capacity) 0 else map.rowids
  ⟨rowids.set map.count rowid, map.count + 1⟩

structure MapState where
  scratch : Scratch
  outMap : RowidBuffer

def mapMetadata (chunkId : Rowid) (x : Scratch) :
    Option (Nat × MetadataConstraint) → Except Failure Scratch
  | none => return x
  | some (metadataIdx, constraint) => do
    if x.metadataBlobs metadataIdx = none then
      withMessage "Could not open metadata blob" (blobOpen s metadataIdx chunkId)
    let bmMetadata ← withMessage "Could not filter metadata fields"
      (setMetadataFilterBitmap conv p s metadataIdx constraint chunkId x.bmMetadata.clear)
    return x.filtered metadataIdx chunkId bmMetadata

def mapChunk (st : MapState) (x : Rowid × ChunkRow) : Except Failure MapState := do
  let n := p.chunkSize.val
  let (chunkId, row) := x
  let b := st.scratch.b.clear
  require (row.validity.bytes.length = n / 8) ⟨sqliteError, "chunk validity size doesn't match"⟩
  require (row.rowids.length = n) ⟨sqliteError, "chunk rowids size doesn't match"⟩
  let scratch := { st.scratch with b := b.copy row.validity n }
  let scratch := args.arrayRowidsIn.elim scratch fun arr => filterRowids p row arr scratch
  let scratch ← forArgv args (mapMetadata conv p s chunkId) scratch
  let outMap := (List.range n).foldl (fun map i =>
    if scratch.b.get i then rowidMapAdd map (row.rowids.getD i 0) else map) st.outMap
  return ⟨scratch, outMap⟩

/-- The rowids of the map, after `qsort`. -/
def vec0FilterChunksToRowidMap (rows : List (Rowid × ChunkRow)) : Except Failure (List Rowid) := do
  let st ← rows.foldlM (mapChunk conv p s args) ⟨.init p.chunkSize.val, ⟨[], 0⟩⟩
  return sortRowids (st.outMap.rowids.take st.outMap.count)

end RowidMap

section ChunksIter

structure VectorArgs (α : Type) where
  vectorColumnIdx : Nat
  elementType : VectorElementType
  dimensions : Nat
  distance : List α → α
  k : Nat

/-- `vector_column_byte_size` for so many elements. -/
def byteSize (elements : Nat) : VectorElementType → Nat
  | .float32 => elements * 4
  | .int8 => elements
  | .bit => elements / 8

/-- `zErrMsg` is the message of the table.  `computed` is not in the source: the rowids of the slots
whose distance has been computed, in this order. -/
structure KnnState (α : Type) where
  scratch : Scratch
  zErrMsg : Option String
  chunkDistances : List α
  chunkTopkIdxs : List Nat
  scan : ScanState α
  computed : List Rowid

def knnMetadata (chunkId : Rowid) (x : Scratch × Option String) :
    Option (Nat × MetadataConstraint) → Except Failure (Scratch × Option String)
  | none => return x
  | some (metadataIdx, constraint) => do
    let (scratch, zErrMsg) := x
    let zErrMsg ← if scratch.metadataBlobs metadataIdx = none then do
        withMessage "Could not open metadata blob" (blobOpen s metadataIdx chunkId)
        pure (some "Could not open metadata blob")
      else pure zErrMsg
    let bmMetadata ← withMessage "Could not filter metadata fields"
      (setMetadataFilterBitmap conv p s metadataIdx constraint chunkId scratch.bmMetadata.clear)
    return (scratch.filtered metadataIdx chunkId bmMetadata, zErrMsg)

variable [LinearOrder α] [Zero α] (vector : VectorArgs α)

def computeDistances (row : ChunkRow) (baseVectors : List α) (b : Bitmap)
    (distances : List α × List Rowid) : List α × List Rowid :=
  (List.range p.chunkSize.val).foldl (fun x i =>
    if !b.get i then x
    else
      let base := (baseVectors.drop (i * vector.dimensions)).take vector.dimensions
      (x.1.set i (vector.distance base), x.2 ++ [row.rowids.getD i 0])) distances

def knnChunk (st : KnnState α) (x : Rowid × ChunkRow) : Except Failure (KnnState α) := do
  let n := p.chunkSize.val
  let (chunkId, row) := x
  let chunkDistances := st.chunkDistances.map fun _ => (0 : α)
  let chunkTopkIdxs := st.chunkTopkIdxs.map fun _ => 0
  let b := st.scratch.b.clear
  require (row.validity.bytes.length = n / 8) ⟨sqliteError,
    s!"chunk validity size doesn't match - expected {n / 8}, found {row.validity.bytes.length}"⟩
  require (row.rowids.length = n) ⟨sqliteError,
    s!"chunk rowids size doesn't match - expected {n * 8}, found {row.rowids.length * 8}"⟩
  let baseVectors ← ofOption
    ⟨sqliteError, s!"could not open vectors blob for chunk {chunkId}"⟩
    (s.vectorChunks.get (vector.vectorColumnIdx, chunkId))
  require (baseVectors.length = n * vector.dimensions) ⟨sqliteError,
    "vectors blob size doesn't match - expected " ++
      s!"{n * byteSize vector.dimensions vector.elementType}, found " ++
      s!"{byteSize baseVectors.length vector.elementType}"⟩
  let scratch := { st.scratch with b := b.copy row.validity n }
  let scratch := args.arrayRowidsIn.elim scratch fun arr => filterRowids p row arr scratch
  let (scratch, zErrMsg) ← forArgv args (knnMetadata conv p s chunkId) (scratch, st.zErrMsg)
  let (chunkDistances, computed) := computeDistances p vector row baseVectors scratch.b
    (chunkDistances, st.computed)
  let (idxs, used1) := minIdx chunkDistances n scratch.b chunkTopkIdxs (min vector.k n)
  let (tmp, used) := mergeSortedLists
    ⟨st.scan.topk, st.scan.kUsed, chunkDistances, row.rowids, idxs, min (min vector.k n) used1⟩
    st.scan.tmpTopk vector.k
  return ⟨scratch, zErrMsg, chunkDistances, idxs,
    ⟨tmp.take used ++ st.scan.topk.drop used, tmp, used⟩, computed⟩

def KnnState.init : KnnState α where
  scratch := .init p.chunkSize.val
  zErrMsg := none
  chunkDistances := List.replicate p.chunkSize.val 0
  chunkTopkIdxs := List.replicate vector.k 0
  scan := ⟨List.replicate vector.k (0, 0), List.replicate vector.k (0, 0), 0⟩
  computed := []

def vec0FilterKnnChunksIter (rows : List (Rowid × ChunkRow)) : Except Failure (KnnState α) :=
  rows.foldlM (knnChunk conv p s args vector) (.init p vector)

end ChunksIter

end SqliteMultimodal.Vec.Knn.Loops
