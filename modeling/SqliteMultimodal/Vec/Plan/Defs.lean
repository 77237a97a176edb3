import SqliteMultimodal.Lib.Except
import SqliteMultimodal.Lib.Text
import SqliteMultimodal.Vec.Knn.Filter

namespace SqliteMultimodal.Vec.Plan

open Storage (MetadataKind)

/-- The operators that SQLite names in a constraint. -/
inductive ConstraintOp
  | eq | gt | le | lt | ge | ne | matches | limit | offset
  | other (code : Nat)
  deriving DecidableEq

/-- `vtabIn` is what `sqlite3_vtab_in` says of the constraint. -/
structure IndexConstraint where
  iColumn : Int
  op : ConstraintOp
  usable : Bool
  vtabIn : Bool

structure IndexOrderBy where
  iColumn : Int
  desc : Bool

inductive UserColumnKind
  | vector | partition | auxiliary | metadata
  deriving DecidableEq

structure UserColumn where
  kind : UserColumnKind
  idx : Nat

/-- The columns of a table, as many as `vec0_init` accepts. -/
structure TableDef where
  userColumns : List UserColumn
  metadataKinds : List MetadataKind
  partition_lt : ∀ x ∈ userColumns, x.kind = .partition → x.idx < 4
  metadata_lt : ∀ x ∈ userColumns, x.kind = .metadata → x.idx < metadataKinds.length
  metadata_le : metadataKinds.length ≤ 16

section Columns

variable (p : TableDef) (iColumn : Int)

def vec0ColumnId : Int := 0

def vec0ColumnDistanceIdx : Int := p.userColumns.length + 1

def vec0ColumnKIdx : Int := p.userColumns.length + 2

def TableDef.userColumn : Option UserColumn :=
  if 1 ≤ iColumn ∧ iColumn ≤ p.userColumns.length then p.userColumns[(iColumn - 1).toNat]? else none

def columnIdxIs (kind : UserColumnKind) : Bool := (p.userColumn iColumn).any (·.kind = kind)

def vec0ColumnIdxIsVector : Bool := columnIdxIs p iColumn .vector
def vec0ColumnIdxIsPartition : Bool := columnIdxIs p iColumn .partition
def vec0ColumnIdxIsAuxiliary : Bool := columnIdxIs p iColumn .auxiliary
def vec0ColumnIdxIsMetadata : Bool := columnIdxIs p iColumn .metadata

def columnIdx : Nat := (p.userColumn iColumn).elim 0 UserColumn.idx

end Columns

section Kinds

abbrev kindKnnMatch : Char := '\x7b'
abbrev kindKnnK : Char := '\x7d'
abbrev kindKnnRowidIn : Char := '['
abbrev kindKnnPartitonConstraint : Char := ']'
abbrev kindPointId : Char := '!'
abbrev kindMetadataConstraint : Char := '&'

end Kinds

section BestIndex

/-- The constraints that the plan may rest on, by their places; `-1` in the source is `none`. -/
structure Terms where
  iMatchTerm : Option Nat
  iMatchVectorTerm : Nat
  iLimitTerm : Option Nat
  iRowidTerm : Option Nat
  iKTerm : Option Nat
  iRowidInTerm : Option Nat
  hasAuxConstraint : Bool

def Terms.init : Terms := ⟨none, 0, none, none, none, none, false⟩

structure ConstraintUsage where
  argvIndex : Nat
  omitted : Bool
  deriving DecidableEq

/-- The output of `xBestIndex` while it is written, and the number for the next argument. -/
structure Building where
  usage : List ConstraintUsage
  idxStr : Text
  argvIndex : Nat

def Building.assign (s : Building) (i : Nat) : Building :=
  { s with usage := s.usage.set i ⟨s.argvIndex, true⟩, argvIndex := s.argvIndex + 1 }

def Building.appendchar (s : Building) (n : Nat) (c : Char) : Building :=
  { s with idxStr := s.idxStr ++ List.replicate n c }

structure IndexInfo where
  usage : List ConstraintUsage
  idxStr : Text
  idxNum : Nat
  estimatedCost : Nat
  estimatedRows : Nat

variable (p : TableDef)

def limitTerm (t : Terms) (c : IndexConstraint) (i : Nat) : Terms :=
  if c.op = .limit then { t with iLimitTerm := some i } else t

/-- Failures are `SQLITE_ERROR` with a message. -/
def matchTerm (t : Terms) (c : IndexConstraint) (i : Nat) : Except String Terms :=
  if c.op = .matches ∧ vec0ColumnIdxIsVector p c.iColumn then do
    Except.require (t.iMatchTerm = none)
      "only 1 MATCH operator is allowed in a single vec0 query"
    return { t with iMatchTerm := some i, iMatchVectorTerm := columnIdx p c.iColumn }
  else return t

def rowidTerm (t : Terms) (c : IndexConstraint) (i : Nat) : Except String Terms :=
  if c.op = .eq ∧ c.iColumn = vec0ColumnId then
    if c.vtabIn then do
      Except.require (t.iRowidInTerm = none)
        "only 1 'rowid in (..)' operator is allowed in a single vec0 query"
      return { t with iRowidInTerm := some i }
    else return { t with iRowidTerm := some i }
  else return t

def kTerm (t : Terms) (c : IndexConstraint) (i : Nat) : Terms :=
  if c.op = .eq ∧ c.iColumn = vec0ColumnKIdx p then { t with iKTerm := some i } else t

def auxConstraint (t : Terms) (c : IndexConstraint) : Terms :=
  if (c.op ≠ .limit ∧ c.op ≠ .offset) ∧ vec0ColumnIdxIsAuxiliary p c.iColumn then
    { t with hasAuxConstraint := true }
  else t

def scanConstraint (t : Terms) (x : IndexConstraint × Nat) : Except String Terms :=
  let (c, i) := x
  if !c.usable then return t
  else do
    let t ← matchTerm p (limitTerm t c i) c i
    let t ← rowidTerm t c i
    return auxConstraint p (kTerm p t c i) c

/-- The operators of `vec0_partition_operator`; `0` in the source is `none`. -/
def partitionOperator : ConstraintOp → Option Char
  | .eq => some 'a'
  | .gt => some 'b'
  | .le => some 'c'
  | .lt => some 'd'
  | .ge => some 'e'
  | .ne => some 'f'
  | _ => none

def partitionConstraint (s : Building) (x : IndexConstraint × Nat) : Building :=
  let (c, i) := x
  if !c.usable then s
  else if c.op = .limit ∨ c.op = .offset then s
  else if !vec0ColumnIdxIsPartition p c.iColumn then s
  else
    match partitionOperator c.op with
    | none => s
    | some value =>
      let s := s.assign i
      let s := s.appendchar 1 kindKnnPartitonConstraint
      let s := s.appendchar 1 (Char.ofNat ('A'.toNat + columnIdx p c.iColumn))
      let s := s.appendchar 1 value
      s.appendchar 1 '_'

def metadataOperator (kind : Option MetadataKind) (vtabIn : Bool) :
    ConstraintOp → Except String Char
  | .eq =>
    if vtabIn then do
      Except.require (¬(kind = some .float ∨ kind = some .boolean))
        "'xxx in (...)' is only available on INTEGER or TEXT metadata columns."
      return 'g'
    else return 'a'
  | .gt => return 'b'
  | .le => return 'c'
  | .lt => return 'd'
  | .ge => return 'e'
  | .ne => return 'f'
  | _ => .error ("An illegal WHERE constraint was provided on a vec0 metadata column in a KNN "
      ++ "query. Only one of EQUALS, GREATER_THAN, LESS_THAN_OR_EQUAL, LESS_THAN, GREATER_THAN_OR_EQUAL, "
      ++ "NOT_EQUALS is allowed.")

def metadataConstraint (s : Building) (x : IndexConstraint × Nat) : Except String Building := do
  let (c, i) := x
  if !c.usable then return s
  else if c.op = .limit ∨ c.op = .offset then return s
  else if !vec0ColumnIdxIsMetadata p c.iColumn then return s
  else do
    let metadataIdx := columnIdx p c.iColumn
    let kind := p.metadataKinds[metadataIdx]?
    let value ← metadataOperator kind c.vtabIn c.op
    Except.require (kind = some .boolean → value = 'a' ∨ value = 'f')
      "ONLY EQUALS (=) or NOT_EQUALS (!=) operators are allowed on boolean metadata columns."
    let s := s.assign i
    let s := s.appendchar 1 kindMetadataConstraint
    let s := s.appendchar 1 (Char.ofNat ('A'.toNat + metadataIdx))
    let s := s.appendchar 1 value
    return s.appendchar 1 '_'

def checkOrderBy : List IndexOrderBy → Except String Unit
  | [] => return ()
  | [o] => do
    Except.require (o.iColumn = vec0ColumnDistanceIdx p)
      ("Only a single 'ORDER BY distance' clause is allowed on vec0 KNN queries, not on other "
        ++ "columns")
    Except.require (o.desc = false)
      "Only ascending in ORDER BY distance clause is supported, DESC is not supported yet."
  | _ => .error "Only a single 'ORDER BY distance' clause is allowed on vec0 KNN queries"

def kBlock (t : Terms) (s : Building) : Building :=
  let s := match t.iLimitTerm, t.iKTerm with
    | some iLimitTerm, _ => s.assign iLimitTerm
    | none, some iKTerm => s.assign iKTerm
    | none, none => s
  (s.appendchar 1 kindKnnK).appendchar 3 '_'

def rowidInBlock (t : Terms) (s : Building) : Building :=
  match t.iRowidInTerm with
  | some iRowidInTerm => ((s.assign iRowidInTerm).appendchar 1 kindKnnRowidIn).appendchar 3 '_'
  | none => s

def knnPlan (cs : List IndexConstraint) (orderBy : List IndexOrderBy) (t : Terms)
    (iMatchTerm : Nat) (s : Building) : Except String Building := do
  Except.require (¬(t.iLimitTerm = none ∧ t.iKTerm = none))
    "A LIMIT or 'k = ?' constraint is required on vec0 knn queries."
  Except.require (¬(t.iLimitTerm.isSome ∧ t.iKTerm.isSome))
    "Only LIMIT or 'k =?' can be provided, not both"
  checkOrderBy p orderBy
  Except.require (t.hasAuxConstraint = false)
    "An illegal WHERE constraint was provided on a vec0 auxiliary column in a KNN query."
  let s := s.appendchar 1 '3'
  let s := { s with argvIndex := 1 }
  let s := s.assign iMatchTerm
  let s := s.appendchar 1 kindKnnMatch
  let s := s.appendchar 3 '_'
  let s := kBlock t s
  let s := rowidInBlock t s
  let s := cs.zipIdx.foldl (partitionConstraint p) s
  cs.zipIdx.foldlM (metadataConstraint p) s

/-- `colUsed` is a mask that the plan for one row hands on as the number of the plan. -/
def vec0BestIndex (cs : List IndexConstraint) (orderBy : List IndexOrderBy) (colUsed : Nat) :
    Except String IndexInfo := do
  let t ← cs.zipIdx.foldlM (scanConstraint p) Terms.init
  let s : Building := ⟨List.replicate cs.length ⟨0, false⟩, [], 0⟩
  match t.iMatchTerm, t.iRowidTerm with
  | some iMatchTerm, _ => do
    let s ← knnPlan p cs orderBy t iMatchTerm s
    return ⟨s.usage, s.idxStr, t.iMatchVectorTerm, 30, 10⟩
  | none, some iRowidTerm =>
    let s := s.appendchar 1 '2'
    let s := { s with argvIndex := 1 }
    let s := s.assign iRowidTerm
    let s := s.appendchar 1 kindPointId
    let s := s.appendchar 3 '_'
    return ⟨s.usage, s.idxStr, colUsed, 10, 1⟩
  | none, none =>
    let s := s.appendchar 1 '1'
    return ⟨s.usage, s.idxStr, 0, 3000000, 100000⟩

end BestIndex

section Filter

inductive QueryPlan
  | fullscan | point | knn
  deriving DecidableEq

def charAt (idxStr : Text) (i : Nat) : Char := idxStr.getD i '\x00'

def blockKind (idxStr : Text) (i : Nat) : Char := charAt idxStr (1 + i * 4)

def blockColumn (idxStr : Text) (i : Nat) : Int := (charAt idxStr (1 + i * 4 + 1)).toNat - 65

def blockOperator (idxStr : Text) (i : Nat) : Char := charAt idxStr (1 + i * 4 + 2)

def vec0Filter (idxStr : Text) (argc : Nat) : Except ResultCode QueryPlan := do
  Except.require (0 < idxStr.length) sqliteError
  Except.require ((idxStr.length - 1) % 4 = 0) sqliteError
  Except.require ((idxStr.length - 1) / 4 = argc) sqliteError
  if charAt idxStr 0 = '1' then return .fullscan
  else if charAt idxStr 0 = '3' then return .knn
  else if charAt idxStr 0 = '2' then return .point
  else .error sqliteError

def lastOfKind (idxStr : Text) (argc : Nat) (kind : Char) : Option Nat :=
  (List.range argc).foldl (fun found i => if blockKind idxStr i = kind then some i else found) none

def QueryPlan.Asserts (idxStr : Text) (argc : Nat) : QueryPlan → Prop
  | .fullscan => True
  | .point => argc = 1
  | .knn => argc = (idxStr.length - 1) / 4 ∧ (lastOfKind idxStr argc kindKnnMatch).isSome ∧
      (lastOfKind idxStr argc kindKnnK).isSome

def partitionOp : Char → Option CompareOp
  | 'a' => some .eq
  | 'b' => some .gt
  | 'c' => some .le
  | 'd' => some .lt
  | 'e' => some .ge
  | 'f' => some .ne
  | _ => none

def vec0ChunksIter (idxStr : Text) : Except ResultCode (List (Int × CompareOp × Nat)) :=
  let partitions := (List.range ((idxStr.length - 1) / 4)).filter fun i =>
    blockKind idxStr i = kindKnnPartitonConstraint
  partitions.mapM fun i => do
    let operator ← Except.ofOption sqliteError (partitionOp (blockOperator idxStr i))
    return (blockColumn idxStr i, operator, i)

def metadataFilters (idxStr : Text) (argc : Nat) : List (Int × Char × Nat) :=
  ((List.range argc).filter fun i => blockKind idxStr i = kindMetadataConstraint).map fun i =>
    (blockColumn idxStr i, blockOperator idxStr i, i)

end Filter

end SqliteMultimodal.Vec.Plan
