import Mathlib.Algebra.Field.Rat
import Mathlib.Algebra.Order.Group.Abs
import Mathlib.Data.List.Sort
import SqliteMultimodal.Vec.Index
import SqliteMultimodal.Vec.Knn.Filter

namespace SqliteMultimodal.Vec.Knn

open Storage Except ChunkScan

def kExt : Nat := 2
def kMax : Int := 4096

/-- `k` is the value of the constraint `k = ?` or of the limit. -/
structure KnnArgs (α : Type) where
  vectorColumnIdx : Nat
  query : Option (ParsedVector α)
  k : Int
  rowidIn : Option (List SqlValue)
  partitions : List (Nat × CompareOp × SqlValue)
  metadata : List (Nat × MetadataConstraint)

/-- What a query rests on besides the table: `distance` is the metric of the column and `distfunc`
that of the index. -/
structure Env (α : Type) where
  conv : Conversions
  distance : List α → List α → α
  distfunc : List α → List α → α
  fltMax : α

structure KnnData (α : Type) where
  k : Nat
  kUsed : Nat
  rows : List (Rowid × α)
  currentIdx : Nat
  deriving DecidableEq

variable {α : Type}

def vec0Next (c : KnnData α) : KnnData α := { c with currentIdx := c.currentIdx + 1 }

def vec0Eof (c : KnnData α) : Bool := c.kUsed ≤ c.currentIdx

def cursorRowsFrom [Inhabited α] : Nat → KnnData α → List (Rowid × α)
  | 0, _ => []
  | fuel + 1, c =>
    if vec0Eof c then [] else c.rows.getD c.currentIdx default :: cursorRowsFrom fuel (vec0Next c)

def cursorRows [Inhabited α] (c : KnnData α) : List (Rowid × α) := cursorRowsFrom c.kUsed c

section Columns

variable (p : Vec0Vtab) (s : Shadow α)

def vec0ResultId (rowid : Rowid) : Except ResultCode SqlValue :=
  if !p.pkIsText then return .integer rowid
  else do
    let row ← ofOption sqliteEmpty (s.rowids.get rowid)
    return row.id

def vec0GetPartitionValueForRowid (rowid : Rowid) (partitionIdx : Nat) :
    Except ResultCode SqlValue := do
  let (chunkId, _) ← vec0GetChunkPosition s rowid
  let c ← ofOption sqliteError (s.chunks.get chunkId)
  return c.partitions.getD partitionIdx .null

end Columns

/-- `qsort` with `cmp_i64`. -/
def sortRowids (rowids : List Rowid) : List Rowid :=
  rowids.insertionSort fun a b => a.toInt ≤ b.toInt

section Candidates

variable (env : Env α) (p : Vec0Vtab) (s : Shadow α) (args : KnnArgs α)

/-- The constraints on metadata that `vec0BestIndex` accepts. -/
def acceptsMetadata : MetadataKind → MetadataConstraint → Bool
  | .boolean, .compare op _ => op = .eq ∨ op = .ne
  | .boolean, .isIn _ => false
  | .float, .isIn _ => false
  | _, _ => true

def vec0BestIndex : Except ResultCode Unit :=
  require (∀ x ∈ args.metadata, p.metadataKinds[x.1]?.any (acceptsMetadata · x.2) = true) sqliteError

def readRowidIn (item : SqlValue) : Except ResultCode Rowid :=
  if p.pkIsText then vec0RowidFromId s item else return env.conv.int64 item

def arrayRowidsIn : Except ResultCode (Option (List Rowid)) :=
  match args.rowidIn with
  | none => return none
  | some items => do return some (sortRowids (← items.mapM (readRowidIn env p s)))

/-- `SELECT chunk_id, validity, rowids … WHERE` the partition constraints hold. -/
def vec0ChunksIter : List (Rowid × ChunkRow) :=
  s.chunks.rows.filter fun x =>
    args.partitions.all fun y => (x.2.partitions.getD y.1 .null).satisfies y.2.1 y.2.2

def chunkVectors (dimension : Nat) (chunkId : Rowid) : List (List α) :=
  match s.vectorChunks.get (args.vectorColumnIdx, chunkId) with
  | none => []
  | some blob =>
    if blob.length = p.chunkSize.val * dimension then
      (List.range p.chunkSize.val).map fun i => (blob.drop (i * dimension)).take dimension
    else []

def scanChunks (dimension : Nat) : List (Chunk (List α)) :=
  (vec0ChunksIter s args).map fun x =>
    ⟨x.1, x.2.validity, x.2.rowids, chunkVectors p s args dimension x.1⟩

def scanArgs (query : List α) (k : Nat) (rowidsIn : Option (List Rowid)) :
    ScanArgs (List α) α where
  chunkSize := p.chunkSize
  k := k
  arrayRowidsIn := rowidsIn
  metadataFilters := args.metadata.map fun x c =>
    vec0SetMetadataFilterBitmap env.conv p s x.1 x.2 c.chunkId
  distance v := env.distance v query

def candidateRowids (args : ScanArgs (List α) α) (c : Chunk (List α)) :
    Except ResultCode (List Rowid) := do
  require (c.validity.bytes.length = args.chunkSize.val / 8) sqliteError
  require (c.rowids.length = args.chunkSize.val) sqliteError
  let b ← candidateBitmap args c
  return ((List.range args.chunkSize.val).filter b.get).map fun i => c.rowids.getD i 0

def vec0FilterChunksToRowidMap (args : ScanArgs (List α) α) (chunks : List (Chunk (List α)))
    (preFilter : Bool) : Except ResultCode RowidMap := do
  let rowids ← chunks.mapM (candidateRowids args)
  return ⟨sortRowids rowids.flatten, preFilter⟩

end Candidates

section Query

variable [LinearOrder α] [Inhabited α] [Zero α] [Sub α] [Mul α] (env : Env α)

/-- The rows for a query that has passed the checks of its vector and of `k`; `none` where the
behaviour of the code is not defined. -/
def searchRows (p : Vec0Vtab) (v : Vec0 α (Index α)) (args : KnnArgs α) (query : List α) (k : Nat)
    (rowidsIn : Option (List Rowid)) : Option (Except ResultCode (List (Rowid × α))) :=
  let scan := scanArgs env p v.shadow args query k rowidsIn
  let chunks := scanChunks p v.shadow args (v.dimensions.getD args.vectorColumnIdx 0)
  match v.index with
  | .none => some (vec0FilterKnnChunksIter scan chunks)
  | .kdtree tree => some do
    let map ← vec0FilterChunksToRowidMap scan chunks true
    return KdTree.kdtreeTopk tree ⟨query, kExt * k, map, env.distfunc, env.fltMax⟩
  | .hybrid tree => some do
    let map ← vec0FilterChunksToRowidMap scan chunks false
    return KdTree.kdtreeTopk tree ⟨query, kExt * k, map, env.distfunc, env.fltMax⟩
  | .hnsw h =>
    match vec0FilterChunksToRowidMap scan chunks true with
    | .error rc => some (.error rc)
    | .ok map => (Hnsw.hnswSearch env.distfunc h query Hnsw.efConstruction
        (min (k * kExt) Hnsw.efConstruction) map).map .ok
  | .ivf ivf =>
    match vec0FilterChunksToRowidMap scan chunks true with
    | .error rc => some (.error rc)
    | .ok map => some <|
      if ivf.trained then
        .ok (Ivf.ivfSearch env.distfunc ivf query (k * kExt) Ivf.ivfNProbe map)
      else vec0FilterKnnChunksIter scan chunks

def checkQuery (p : Vec0Vtab) (v : Vec0 α (Index α)) (args : KnnArgs α) :
    Except ResultCode (List α × Nat) := do
  vec0BestIndex p args
  let column ← ofOption sqliteError p.vectorColumns[args.vectorColumnIdx]?
  let query ← readVector column (v.dimensions.getD args.vectorColumnIdx 0) args.query
  require (0 ≤ args.k ∧ args.k ≤ kMax) sqliteError
  return (query, args.k.toNat)

/-- `none` where the behaviour of the code is not defined. -/
def vec0FilterKnn (p : Vec0Vtab) (v : Vec0 α (Index α)) (args : KnnArgs α) :
    Option (Except ResultCode (KnnData α)) :=
  match checkQuery p v args with
  | .error rc => some (.error rc)
  | .ok (query, k) =>
    if k = 0 then some (.ok ⟨0, 0, [], 0⟩)
    else
      match arrayRowidsIn env p v.shadow args with
      -- the result code stays in a variable of the inner block
      | .error _ => some (.ok ⟨0, 0, [], 0⟩)
      | .ok rowidsIn =>
        (searchRows env p v args query k rowidsIn).map fun result =>
          result.map fun rows => ⟨k, rows.length, rows, 0⟩

end Query

end SqliteMultimodal.Vec.Knn

namespace SqliteMultimodal.Vec.Knn

open Storage Except

variable {α : Type} [LinearOrder α] [Inhabited α]

omit [LinearOrder α] in
theorem cursorRowsFrom_eq {k : Nat} {rows : List (Rowid × α)} {fuel i : Nat}
    (h : fuel + i = rows.length) : cursorRowsFrom fuel ⟨k, rows.length, rows, i⟩ = rows.drop i := by
  induction fuel generalizing i with
  | zero => rw [cursorRowsFrom, List.drop_eq_nil_of_le (by omega)]
  | succ fuel ih =>
    have hlt : i < rows.length := by omega
    have hnext : vec0Next ⟨k, rows.length, rows, i⟩ = ⟨k, rows.length, rows, i + 1⟩ := rfl
    rw [cursorRowsFrom, hnext, ih (by omega), List.drop_eq_getElem_cons hlt, if_neg]
    · rw [List.getD_eq_getElem?_getD, List.getElem?_eq_getElem hlt, Option.getD_some]
    · simpa [vec0Eof] using hlt

omit [LinearOrder α] in
theorem cursorRows_eq (k : Nat) (rows : List (Rowid × α)) :
    cursorRows ⟨k, rows.length, rows, 0⟩ = rows :=
  cursorRowsFrom_eq rfl

variable [Zero α] [Sub α] [Mul α] {env : Env α} {p : Vec0Vtab} {v : Vec0 α (Index α)}
  {args : KnnArgs α} {data : KnnData α}

theorem vec0FilterKnn_eq_ok :
    vec0FilterKnn env p v args = some (.ok data) ↔
      (∃ query, checkQuery p v args = .ok (query, 0) ∧ data = ⟨0, 0, [], 0⟩) ∨
      (∃ query k rc, 0 < k ∧ checkQuery p v args = .ok (query, k) ∧
        arrayRowidsIn env p v.shadow args = .error rc ∧ data = ⟨0, 0, [], 0⟩) ∨
      ∃ query k rowidsIn rows, 0 < k ∧ checkQuery p v args = .ok (query, k) ∧
        arrayRowidsIn env p v.shadow args = .ok rowidsIn ∧
        searchRows env p v args query k rowidsIn = some (.ok rows) ∧
        data = ⟨k, rows.length, rows, 0⟩ := by
  unfold vec0FilterKnn
  constructor
  · intro h
    split at h
    next => simp at h
    next query k hquery =>
      split at h
      next hk =>
        subst hk
        exact .inl ⟨query, hquery, (Except.ok.inj (Option.some.inj h)).symm⟩
      next hk =>
        split at h
        next rc hin =>
          exact .inr (.inl ⟨query, k, rc, Nat.pos_of_ne_zero hk, hquery, hin,
            (Except.ok.inj (Option.some.inj h)).symm⟩)
        next rowidsIn hin =>
          obtain ⟨result, hresult, hdata⟩ := Option.map_eq_some_iff.mp h
          cases result with
          | error rc => simp [Except.map] at hdata
          | ok rows =>
            exact .inr (.inr ⟨query, k, rowidsIn, rows, Nat.pos_of_ne_zero hk, hquery, hin, hresult,
              (Except.ok.inj hdata).symm⟩)
  · rintro (⟨query, hquery, rfl⟩ | ⟨query, k, rc, hk, hquery, hin, rfl⟩ |
      ⟨query, k, rowidsIn, rows, hk, hquery, hin, hrows, rfl⟩)
    · simp only [hquery, if_true]
    · simp only [hquery, hin, if_neg hk.ne']
    · simp only [hquery, hin, hrows]
      rw [if_neg hk.ne']
      rfl

section Sample

def lineDist (a b : List ℚ) : ℚ := |a.headD 0 - b.headD 0|

def lineMeta : IndexMeta ℚ :=
  ⟨some 0, 1, fun _ => 0, lineDist, Qsort.mergeSort, fun _ => 0, fun _ => 0, 10 ^ 30⟩

def lineEnv : Env ℚ := ⟨⟨fun | .integer v => v | _ => 0, fun | .real v => v | _ => 0,
  fun | .text t => t | _ => [], fun _ => rfl, fun _ => rfl, fun _ => rfl⟩, lineDist, lineDist, 10 ^ 38⟩

def lineRun (index : Index ℚ) : Vec0 ℚ (Index ℚ) × Rows ℚ :=
  exec lineMeta.ops (.create lineTable index) (fun _ => none) [lineInsert 1 2, lineInsert 2 1]

def lineQuery (k : Int) : KnnArgs ℚ := ⟨0, some ⟨.float32, [0]⟩, k, none, [], []⟩

end Sample

end SqliteMultimodal.Vec.Knn
