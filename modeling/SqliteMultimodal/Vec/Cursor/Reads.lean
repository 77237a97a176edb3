import Mathlib.Data.List.Sort
import SqliteMultimodal.Vec.Knn.Defs
import SqliteMultimodal.Vec.Knn.Integers
import SqliteMultimodal.Vec.Plan.Defs
import SqliteMultimodal.Vec.Storage.Contents

namespace SqliteMultimodal.Vec.Cursor

open Storage Except
open Plan (TableDef UserColumn UserColumnKind vec0ColumnId vec0ColumnDistanceIdx)
open Knn (KnnData vec0ResultId vec0GetPartitionValueForRowid)

variable {α : Type}

inductive ColumnValue (α : Type)
  | value (v : SqlValue)
  | vector (elementType : VectorElementType) (elements : List α)
  | distance (d : α)

inductive Vec0Cursor (α : Type)
  | fullscan (rowids : List Rowid)
  | point (rowid : Rowid) (vectors : List (List α)) (done : Bool)
  | knn (data : KnnData α)

section Filter

/-- The order `chunk_id, chunk_offset`, in which NULL comes first. -/
def comesBefore (a b : RowidsRow) : Bool :=
  match a.position, b.position with
  | none, _ => true
  | some _, none => false
  | some (k, off), some (k', off') => k.toInt < k'.toInt || k.toInt = k'.toInt && off ≤ off'

def vec0FilterFullscan (s : Shadow α) : Vec0Cursor α :=
  .fullscan <| (s.rowids.rows.insertionSort fun a b => comesBefore a.2 b.2).map Prod.fst

variable [Zero α] (conv : Conversions) (p : Vec0Vtab) (dimensions : List Nat) (s : Shadow α)

def pointRowid (id : SqlValue) : Except ResultCode Rowid :=
  if p.pkIsText then vec0RowidFromId s id else return conv.int64 id

def pointVectors (rowid : Rowid) : Except ResultCode (List (List α)) :=
  (List.range p.vectorColumns.length).mapM (vec0GetVectorData dimensions s rowid)

def eofIfEmpty (rowid : Rowid) (rc : ResultCode) : Except ResultCode (Vec0Cursor α) :=
  if rc = sqliteEmpty then return .point rowid [] true else .error rc

def vec0FilterPoint (id : SqlValue) : Except ResultCode (Vec0Cursor α) :=
  match pointRowid conv p s id with
  | .error rc => eofIfEmpty 0 rc
  | .ok rowid =>
    match pointVectors p dimensions s rowid with
    | .error rc => eofIfEmpty rowid rc
    | .ok vectors => return .point rowid vectors false

end Filter

section Rows

def vec0Next : Vec0Cursor α → Vec0Cursor α
  | .fullscan rowids => .fullscan rowids.tail
  | .point rowid vectors _ => .point rowid vectors true
  | .knn data => .knn (Knn.vec0Next data)

def vec0Eof : Vec0Cursor α → Bool
  | .fullscan rowids => rowids.isEmpty
  | .point _ _ done => done
  | .knn data => Knn.vec0Eof data

def vec0Rowid : Vec0Cursor α → Except ResultCode Rowid
  | .fullscan rowids => return rowids.headD 0
  | .point rowid _ _ => return rowid
  | .knn _ => .error sqliteError

/-- The rows that `xNext` passes until `xEof`, at most `n` of them. -/
def visited : Nat → Vec0Cursor α → List (Vec0Cursor α)
  | 0, _ => []
  | n + 1, c => if vec0Eof c then [] else c :: visited n (vec0Next c)

end Rows

section Column

variable [Inhabited α] (t : TableDef) (p : Vec0Vtab) (dimensions : List Nat) (s : Shadow α)

def vec0GetAuxiliaryValueForRowid (rowid : Rowid) (auxiliaryIdx : Nat) :
    Except ResultCode SqlValue := do
  let row ← ofOption sqliteError (s.auxiliary.get rowid)
  return row.getD auxiliaryIdx .null

def elementType (vectorIdx : Nat) : VectorElementType :=
  (p.vectorColumns[vectorIdx]?.map VectorColumn.elementType).getD .float32

def vectorResult (rowid : Rowid) (c : UserColumn) : Except ResultCode (ColumnValue α) := do
  return .vector (elementType p c.idx) (← vec0GetVectorData dimensions s rowid c.idx)

def metadataResult (rowid : Rowid) (c : UserColumn) : Except ResultCode SqlValue :=
  ofOption sqliteError (vec0ResultMetadataValueForRowid s c.idx rowid).toOption

def otherResult (rowid : Rowid) (c : UserColumn) : Except ResultCode (ColumnValue α) :=
  match c.kind with
  | .partition => .value <$> vec0GetPartitionValueForRowid s rowid c.idx
  | .auxiliary => .value <$> vec0GetAuxiliaryValueForRowid s rowid c.idx
  | _ => .value <$> metadataResult s rowid c

/-- `none` is a column without a result.  Only metadata are left out where the column will not
change. -/
def vec0ColumnFullscan (rowid : Rowid) (nochange : Bool) (i : Int) :
    Except ResultCode (Option (ColumnValue α)) :=
  if i = vec0ColumnId then (some ∘ .value) <$> vec0ResultId p s rowid
  else
    match t.userColumn i with
    | some c =>
      if c.kind = .vector then some <$> vectorResult p dimensions s rowid c
      else if c.kind = .metadata ∧ nochange then return none
      else some <$> otherResult s rowid c
    | none => if i = vec0ColumnDistanceIdx t then return some (.value .null) else return none

def vec0ColumnPoint (rowid : Rowid) (vectors : List (List α)) (nochange : Bool) (i : Int) :
    Except ResultCode (Option (ColumnValue α)) :=
  if i = vec0ColumnId then (some ∘ .value) <$> vec0ResultId p s rowid
  else
    match t.userColumn i with
    | some c =>
      if c.kind = .vector then
        if nochange then return some (.value .null)
        else return some (.vector (elementType p c.idx) (vectors.getD c.idx []))
      else if nochange then return none
      else some <$> otherResult s rowid c
    | none => if i = vec0ColumnDistanceIdx t then return some (.value .null) else return none

def vec0ColumnKnn (x : Rowid × α) (i : Int) : Except ResultCode (Option (ColumnValue α)) :=
  if i = vec0ColumnId then (some ∘ .value) <$> vec0ResultId p s x.1
  else
    match t.userColumn i with
    | some c =>
      if c.kind = .vector then some <$> vectorResult p dimensions s x.1 c
      else some <$> otherResult s x.1 c
    | none => if i = vec0ColumnDistanceIdx t then return some (.distance x.2) else return none

def vec0Column (nochange : Bool) (i : Int) : Vec0Cursor α →
    Except ResultCode (Option (ColumnValue α))
  | .fullscan rowids => vec0ColumnFullscan t p dimensions s (rowids.headD 0) nochange i
  | .point rowid vectors _ => vec0ColumnPoint t p s rowid vectors nochange i
  | .knn data => vec0ColumnKnn t p dimensions s (data.rows.getD data.currentIdx default) i

end Column

end SqliteMultimodal.Vec.Cursor

namespace SqliteMultimodal.Vec.Cursor

open Storage Except
open Plan (TableDef UserColumn UserColumnKind vec0ColumnId vec0ColumnDistanceIdx)
open Knn (KnnData vec0ResultId vec0GetPartitionValueForRowid)

variable {α ι : Type} [Zero α] {ops : IndexOps α ι} {t : TableDef} {p : Vec0Vtab} {v : Vec0 α ι}
  {contents : Contents α} {r : Rowid} {x : UserRow α}

section Expected

structure Describes (t : TableDef) (p : Vec0Vtab) : Prop where
  metadataKinds : t.metadataKinds = p.metadataKinds
  vector_lt : ∀ c ∈ t.userColumns, c.kind = .vector → c.idx < p.vectorColumns.length
  partition_lt : ∀ c ∈ t.userColumns, c.kind = .partition → c.idx < p.partitionTypes.length
  auxiliary_lt : ∀ c ∈ t.userColumns, c.kind = .auxiliary → c.idx < p.auxiliaryTypes.length

def columnOf (p : Vec0Vtab) (x : UserRow α) (c : UserColumn) : ColumnValue α :=
  match c.kind with
  | .vector => .vector (elementType p c.idx) (x.vectors.getD c.idx [])
  | .partition => .value (x.partitions.getD c.idx .null)
  | .auxiliary => .value (x.auxiliary.getD c.idx .null)
  | .metadata =>
    .value ((p.metadataKinds.getD c.idx .text).stored (x.metadata.getD c.idx .null))

def expected (t : TableDef) (p : Vec0Vtab) (x : UserRow α) (i : Int) : Option (ColumnValue α) :=
  if i = vec0ColumnId then some (.value x.id)
  else
    match t.userColumn i with
    | some c => some (columnOf p x c)
    | none => if i = vec0ColumnDistanceIdx t then some (.value .null) else none

theorem mem_of_userColumn {i : Int} {c : UserColumn} (h : t.userColumn i = some c) :
    c ∈ t.userColumns := by
  unfold TableDef.userColumn at h
  split at h
  · exact List.mem_of_getElem? h
  · cases h

end Expected

section Values

theorem entry_of_contents (h : History ops p v contents) (hx : contents r = some x) :
    ∃ row, v.shadow.rowids.get r = some row := by
  cases hget : v.shadow.rowids.get r with
  | some row => exact ⟨row, rfl⟩
  | none =>
    have hnone := h.slots.absent hget
    rw [Contents.rows, hx] at hnone
    cases hnone

theorem contents_of_entry (h : History ops p v contents) {row : RowidsRow}
    (hrow : v.shadow.rowids.get r = some row) : ∃ x, contents r = some x := by
  obtain ⟨_, _, _, y, -, -, hy, -⟩ := h.slots.placed hrow
  obtain ⟨x, hx, -⟩ := Option.map_eq_some_iff.mp hy
  exact ⟨x, hx⟩

theorem vec0ResultId_eq (h : History ops p v contents) (hx : contents r = some x) :
    vec0ResultId p v.shadow r = .ok x.id := by
  obtain ⟨row, hrow⟩ := entry_of_contents h hx
  have hid := h.stores.ids hrow hx
  unfold vec0ResultId
  cases hpk : p.pkIsText with
  | false =>
    rw [hid, hpk]
    rfl
  | true =>
    rw [hid, hpk, hrow]
    rfl

theorem vec0GetVectorData_eq (h : History ops p v contents) (hx : contents r = some x) {j : Nat}
    (hj : j < p.vectorColumns.length) :
    vec0GetVectorData v.dimensions v.shadow r j = .ok (x.vectors.getD j []) := by
  obtain ⟨row, hrow⟩ := entry_of_contents h hx
  have hd : p.dimensions[j]? = some (p.vectorColumns.get ⟨j, hj⟩).dimensions := by
    rw [Vec0Vtab.dimensions, List.getElem?_map, List.getElem?_eq_getElem hj]
    rfl
  obtain ⟨k, off, hposition, hvec⟩ := (h.stores.vectors hd).read h.slots hrow
  obtain ⟨vec, hget⟩ : ∃ vec, x.vectors[j]? = some vec :=
    ⟨_, List.getElem?_eq_getElem (by rw [(h.stores.complete hx).vectors]; exact hj)⟩
  have hvalue : vectorOf contents.rows j r = some vec := by
    rw [vectorOf, Contents.rows, hx]
    exact hget
  rw [hvalue, Shadow.vectorAt, Option.bind_eq_some_iff] at hvec
  obtain ⟨blob, hblob, hread⟩ := hvec
  have hsize : v.dimensions.getD j 0 = (p.vectorColumns.get ⟨j, hj⟩).dimensions := by
    rw [h.kept.dimensions, List.getD_eq_getElem?_getD, hd, Option.getD_some]
  rw [List.getD_eq_getElem?_getD, hget, Option.getD_some]
  simp only [vec0GetVectorData, bind_eq_ok, ofOption_eq_ok, hsize]
  exact ⟨_, hposition, blob, hblob, hread⟩

theorem vec0GetPartitionValueForRowid_eq (h : History ops p v contents)
    (hx : contents r = some x) (j : Nat) :
    vec0GetPartitionValueForRowid v.shadow r j = .ok (x.partitions.getD j .null) := by
  obtain ⟨row, hrow⟩ := entry_of_contents h hx
  obtain ⟨k, off, c, y, hpos, hslot, hy, hpart⟩ := h.slots.placed hrow
  have hposition : vec0GetChunkPosition v.shadow r = .ok (k, off) :=
    vec0GetChunkPosition_eq_ok.mpr ⟨row, hrow, by rw [hpos, Option.getD_some]⟩
  rw [Contents.rows, hx, Option.map_some, Option.some.injEq] at hy
  subst hy
  simp only [vec0GetPartitionValueForRowid, bind_eq_ok, ofOption_eq_ok, pure_eq_ok]
  exact ⟨_, hposition, c, hslot.chunk, by rw [hpart]⟩

theorem vec0GetAuxiliaryValueForRowid_eq (h : History ops p v contents)
    (hx : contents r = some x) {j : Nat} (hj : j < p.auxiliaryTypes.length) :
    vec0GetAuxiliaryValueForRowid v.shadow r j = .ok (x.auxiliary.getD j .null) := by
  have hget := h.stores.auxiliary (Nat.ne_of_gt (Nat.lt_of_le_of_lt (Nat.zero_le j) hj)) r
  rw [hx, Option.map_some] at hget
  simp only [vec0GetAuxiliaryValueForRowid, bind_eq_ok, ofOption_eq_ok, pure_eq_ok]
  exact ⟨_, hget, rfl⟩

omit [Zero α] in
theorem vec0ResultMetadataValueForRowid_of_value {s : Shadow α} {i off : Nat} {k : Rowid}
    {value : SqlValue} (hposition : vec0GetChunkPosition s r = .ok (k, off))
    (hvalue : s.metadataAt i k off = some value) :
    vec0ResultMetadataValueForRowid s i r = .ok value := by
  obtain ⟨chunk, hchunk, hvalue⟩ := Option.bind_eq_some_iff.mp hvalue
  have hget : s.metadataChunks.get (i, k) = some chunk := hchunk
  rw [vec0ResultMetadataValueForRowid, hposition, ok_bind]
  simp only [hget]
  cases chunk with
  | boolean bits =>
    simp only [MetadataChunk.value] at hvalue
    split at hvalue
    next hlt =>
      obtain rfl := Option.some.inj hvalue
      simp only [bind_eq_ok, require_eq_ok, pure_eq_ok]
      exact ⟨(), hlt, trivial⟩
    next => cases hvalue
  | integer values =>
    obtain ⟨w, hw, rfl⟩ := Option.map_eq_some_iff.mp hvalue
    simp only [hw, ofOption, ok_bind]
    rfl
  | float values =>
    obtain ⟨w, hw, rfl⟩ := Option.map_eq_some_iff.mp hvalue
    simp only [hw, ofOption, ok_bind]
    rfl
  | text views => cases hvalue

theorem vec0ResultMetadataValueForRowid_eq (h : History ops p v contents)
    (hx : contents r = some x) {i : Nat} (hi : i < p.metadataKinds.length) :
    vec0ResultMetadataValueForRowid v.shadow i r =
      .ok ((p.metadataKinds.getD i .text).stored (x.metadata.getD i .null)) := by
  obtain ⟨row, hrow⟩ := entry_of_contents h hx
  obtain ⟨kind, hkind⟩ : ∃ kind, p.metadataKinds[i]? = some kind :=
    ⟨_, List.getElem?_eq_getElem hi⟩
  obtain ⟨value, hvalue⟩ : ∃ value, x.metadata[i]? = some value :=
    ⟨_, List.getElem?_eq_getElem (by rw [(h.stores.complete hx).metadata]; exact hi)⟩
  have hrows : contents.rows r = some x.toRow := congrArg (Option.map UserRow.toRow) hx
  rw [List.getD_eq_getElem?_getD, hkind, Option.getD_some, List.getD_eq_getElem?_getD, hvalue,
    Option.getD_some]
  by_cases htext : kind = .text
  · subst htext
    obtain ⟨text, htext, hread⟩ := (Texts.run h.run hkind).read h.slots hrow
    have hmeta := (textOf_of_row hrows).mp htext
    obtain rfl := Option.some.inj (hvalue.symm.trans hmeta)
    exact hread
  · obtain ⟨k, off, hposition, hat⟩ := (h.stores.metadata hkind htext).read h.slots hrow
    refine vec0ResultMetadataValueForRowid_of_value hposition (hat.trans ?_)
    rw [metadataOf, hrows, Option.bind_some, hvalue, Option.map_some]

end Values

section Columns

variable {i : Int}

theorem vectorResult_eq (h : History ops p v contents) (ht : Describes t p)
    (hx : contents r = some x) {c : UserColumn} (hc : c ∈ t.userColumns) (hkind : c.kind = .vector) :
    vectorResult p v.dimensions v.shadow r c = .ok (columnOf p x c) := by
  rw [vectorResult, vec0GetVectorData_eq h hx (ht.vector_lt c hc hkind), ok_bind, columnOf, hkind]
  rfl

theorem otherResult_eq (h : History ops p v contents) (ht : Describes t p)
    (hx : contents r = some x) {c : UserColumn} (hc : c ∈ t.userColumns) (hkind : c.kind ≠ .vector) :
    otherResult v.shadow r c = .ok (columnOf p x c) := by
  unfold otherResult columnOf
  cases hk : c.kind with
  | vector => exact absurd hk hkind
  | partition =>
    simp only [vec0GetPartitionValueForRowid_eq h hx]
    rfl
  | auxiliary =>
    simp only [vec0GetAuxiliaryValueForRowid_eq h hx (ht.auxiliary_lt c hc hk)]
    rfl
  | metadata =>
    have hlt : c.idx < p.metadataKinds.length := ht.metadataKinds ▸ t.metadata_lt c hc hk
    simp only [metadataResult, vec0ResultMetadataValueForRowid_eq h hx hlt]
    rfl

theorem vec0ColumnFullscan_eq (h : History ops p v contents) (ht : Describes t p)
    (hx : contents r = some x) :
    vec0ColumnFullscan t p v.dimensions v.shadow r false i = .ok (expected t p x i) := by
  unfold vec0ColumnFullscan expected
  by_cases hid : i = vec0ColumnId
  · rw [if_pos hid, if_pos hid, vec0ResultId_eq h hx]
    rfl
  · rw [if_neg hid, if_neg hid]
    cases hc : t.userColumn i with
    | none =>
      dsimp only
      split <;> rfl
    | some c =>
      have hmem := mem_of_userColumn hc
      dsimp only
      by_cases hkind : c.kind = .vector
      · rw [if_pos hkind, vectorResult_eq h ht hx hmem hkind]
        rfl
      · rw [if_neg hkind, if_neg (by simp), otherResult_eq h ht hx hmem hkind]
        rfl

theorem vec0ColumnPoint_eq (h : History ops p v contents) (ht : Describes t p)
    (hx : contents r = some x) {vectors : List (List α)}
    (hvectors : ∀ j < p.vectorColumns.length, vectors.getD j [] = x.vectors.getD j []) :
    vec0ColumnPoint t p v.shadow r vectors false i = .ok (expected t p x i) := by
  unfold vec0ColumnPoint expected
  by_cases hid : i = vec0ColumnId
  · rw [if_pos hid, if_pos hid, vec0ResultId_eq h hx]
    rfl
  · rw [if_neg hid, if_neg hid]
    cases hc : t.userColumn i with
    | none =>
      dsimp only
      split <;> rfl
    | some c =>
      have hmem := mem_of_userColumn hc
      dsimp only
      by_cases hkind : c.kind = .vector
      · rw [if_pos hkind, if_neg (by simp), hvectors c.idx (ht.vector_lt c hmem hkind), columnOf,
          hkind]
        rfl
      · rw [if_neg hkind, if_neg (by simp), otherResult_eq h ht hx hmem hkind]
        rfl

end Columns

section Fullscan

omit [Zero α] in
theorem visited_fullscan {rowids : List Rowid} {n : Nat} (hn : rowids.length ≤ n) :
    (visited n (.fullscan rowids : Vec0Cursor α)).map vec0Rowid = rowids.map .ok := by
  induction rowids generalizing n with
  | nil => cases n <;> rfl
  | cons r rowids ih =>
    obtain ⟨n, rfl⟩ := Nat.exists_eq_add_of_le' (Nat.le_trans (Nat.succ_pos _) hn)
    exact congrArg (.ok r :: ·) (ih (Nat.le_of_succ_le_succ hn))

omit [Zero α] in
theorem mem_visited_fullscan {rowids : List Rowid} {n : Nat} {c : Vec0Cursor α}
    (hc : c ∈ visited n (.fullscan rowids)) : ∃ r rest, c = .fullscan (r :: rest) ∧ r ∈ rowids := by
  induction n generalizing rowids with
  | zero => cases hc
  | succ n ih =>
    cases rowids with
    | nil => cases hc
    | cons r rowids =>
      obtain rfl | hc := List.mem_cons.mp hc
      · exact ⟨r, rowids, rfl, List.mem_cons_self⟩
      · obtain ⟨r', rest, rfl, hr'⟩ := ih hc
        exact ⟨r', rest, rfl, List.mem_cons_of_mem _ hr'⟩

theorem comesBefore_total (a b : RowidsRow) : comesBefore a b = true ∨ comesBefore b a = true := by
  unfold comesBefore
  cases ha : a.position with
  | none => exact .inl rfl
  | some x =>
    cases hb : b.position with
    | none => exact .inr rfl
    | some y =>
      simp only [Bool.or_eq_true, Bool.and_eq_true, decide_eq_true_eq]
      omega

theorem comesBefore_trans {a b c : RowidsRow} (hab : comesBefore a b = true)
    (hbc : comesBefore b c = true) : comesBefore a c = true := by
  unfold comesBefore at *
  cases ha : a.position with
  | none => rfl
  | some x =>
    cases hb : b.position with
    | none => simp [ha, hb] at hab
    | some y =>
      cases hc : c.position with
      | none => simp [hb, hc] at hbc
      | some z =>
        simp only [ha, hb, hc, Bool.or_eq_true, Bool.and_eq_true, decide_eq_true_eq] at *
        omega

def SlotBefore (x y : Rowid × Nat) : Prop := x.1.toInt < y.1.toInt ∨ x.1 = y.1 ∧ x.2 < y.2

def scanned (s : Shadow α) : List Rowid :=
  (s.rowids.rows.insertionSort fun a b => comesBefore a.2 b.2).map Prod.fst

omit [Zero α] in
theorem scanned_perm (s : Shadow α) : (scanned s).Perm s.rowids.keys :=
  (List.perm_insertionSort _ _).map Prod.fst

omit [Zero α] in
theorem mem_scanned {s : Shadow α} : r ∈ scanned s ↔ ∃ row, s.rowids.get r = some row := by
  rw [(scanned_perm s).mem_iff]
  cases hget : s.rowids.get r with
  | none => simpa using Table.get_eq_none.mp hget
  | some row =>
    refine iff_of_true ?_ ⟨row, rfl⟩
    by_contra hnot
    rw [Table.get_eq_none.mpr hnot] at hget
    cases hget

theorem scanned_positions (h : History ops p v contents) :
    (scanned v.shadow).Pairwise fun a b => ∀ x y, vec0GetChunkPosition v.shadow a = .ok x →
      vec0GetChunkPosition v.shadow b = .ok y → SlotBefore x y := by
  have : Std.Total fun a b : Rowid × RowidsRow => comesBefore a.2 b.2 = true :=
    ⟨fun a b => comesBefore_total a.2 b.2⟩
  have : IsTrans (Rowid × RowidsRow) fun a b => comesBefore a.2 b.2 = true :=
    ⟨fun _ _ _ => comesBefore_trans⟩
  have hsorted := List.pairwise_insertionSort
    (fun a b : Rowid × RowidsRow => comesBefore a.2 b.2 = true) v.shadow.rowids.rows
  have hperm := List.perm_insertionSort
    (fun a b : Rowid × RowidsRow => comesBefore a.2 b.2 = true) v.shadow.rowids.rows
  have hnodup := (hperm.map Prod.fst).nodup_iff.mpr v.shadow.rowids.nodup
  refine List.pairwise_map.mpr ?_
  refine (hsorted.and (List.pairwise_map.mp hnodup)).imp_of_mem ?_
  rintro ⟨a, row⟩ ⟨b, row'⟩ ha hb ⟨hle, hne⟩ x y hx hy
  have hrow := Table.get_eq_some.mpr (hperm.mem_iff.mp ha)
  have hrow' := Table.get_eq_some.mpr (hperm.mem_iff.mp hb)
  obtain ⟨k, off, _, _, hpos, -⟩ := h.slots.placed hrow
  obtain ⟨k', off', _, _, hpos', -⟩ := h.slots.placed hrow'
  obtain ⟨_, hget, rfl⟩ := vec0GetChunkPosition_eq_ok.mp hx
  obtain ⟨_, hget', rfl⟩ := vec0GetChunkPosition_eq_ok.mp hy
  obtain rfl := Option.some.inj (hrow.symm.trans hget)
  obtain rfl := Option.some.inj (hrow'.symm.trans hget')
  simp only [comesBefore, hpos, hpos', Bool.or_eq_true, Bool.and_eq_true, decide_eq_true_eq] at hle
  rw [hpos, hpos', Option.getD_some, Option.getD_some, SlotBefore]
  obtain hlt | ⟨hk, hoff⟩ := hle
  · exact .inl hlt
  · have hk := Int64.toInt_inj.mp hk
    subst hk
    refine .inr ⟨rfl, lt_of_le_of_ne hoff fun heq => hne ?_⟩
    subst heq
    exact h.slots.rowid_unique hrow hrow' hpos hpos'

variable [Inhabited α]

/-- After any run of statements a full scan ends, passes every row of the table once, in the order
of the slots, and reads in every column what was last written there. -/
theorem fullscan_reads (h : History ops p v contents) (ht : Describes t p) {n : Nat}
    (hn : v.shadow.rowids.rows.length ≤ n) :
    ∃ rowids : List Rowid,
      (visited n (vec0FilterFullscan v.shadow)).map vec0Rowid = rowids.map .ok ∧ rowids.Nodup ∧
      (∀ r, r ∈ rowids ↔ ∃ x, contents r = some x) ∧
      (rowids.Pairwise fun a b => ∀ x y, vec0GetChunkPosition v.shadow a = .ok x →
        vec0GetChunkPosition v.shadow b = .ok y → SlotBefore x y) ∧
      ∀ c ∈ visited n (vec0FilterFullscan v.shadow), ∃ r x, vec0Rowid c = .ok r ∧
        contents r = some x ∧
        ∀ i, vec0Column t p v.dimensions v.shadow false i c = .ok (expected t p x i) := by
  have hlen : (scanned v.shadow).length ≤ n := by
    rw [(scanned_perm v.shadow).length_eq, Table.keys, List.length_map]
    exact hn
  refine ⟨scanned v.shadow, visited_fullscan hlen,
    (scanned_perm v.shadow).nodup_iff.mpr v.shadow.rowids.nodup, fun r => ?_, scanned_positions h,
    fun c hc => ?_⟩
  · rw [mem_scanned]
    constructor
    · rintro ⟨row, hrow⟩
      exact contents_of_entry h hrow
    · rintro ⟨x, hx⟩
      exact entry_of_contents h hx
  · obtain ⟨r, rest, rfl, hr⟩ := mem_visited_fullscan hc
    obtain ⟨row, hrow⟩ := mem_scanned.mp hr
    obtain ⟨x, hx⟩ := contents_of_entry h hrow
    exact ⟨r, x, rfl, hx, fun i => vec0ColumnFullscan_eq h ht hx⟩

/-- The definition that goes with `sampleTable`. -/
def sampleDef : TableDef where
  userColumns := [⟨.partition, 0⟩, ⟨.vector, 0⟩, ⟨.metadata, 0⟩]
  metadataKinds := [.text]
  partition_lt := by decide
  metadata_lt := by decide
  metadata_le := by decide

theorem sampleDef_describes : Describes sampleDef sampleTable :=
  ⟨rfl, by decide, by decide, by decide⟩

theorem sample_fullscan : ∃ rowids : List Rowid,
    (visited 2 (vec0FilterFullscan sampleContents.1.shadow)).map vec0Rowid = rowids.map .ok ∧
      rowids.Nodup ∧ (∀ r, r ∈ rowids ↔ ∃ x, sampleContents.2 r = some x) ∧
      (rowids.Pairwise fun a b => ∀ x y,
        vec0GetChunkPosition sampleContents.1.shadow a = .ok x →
        vec0GetChunkPosition sampleContents.1.shadow b = .ok y → SlotBefore x y) ∧
      ∀ c ∈ visited 2 (vec0FilterFullscan sampleContents.1.shadow), ∃ r x, vec0Rowid c = .ok r ∧
        sampleContents.2 r = some x ∧
        ∀ i, vec0Column sampleDef sampleTable sampleContents.1.dimensions sampleContents.1.shadow
          false i c = .ok (expected sampleDef sampleTable x i) :=
  fullscan_reads sampleContents_history sampleDef_describes (by decide)

end Fullscan

section Point

variable {conv : Conversions} {id : SqlValue}

def Named (conv : Conversions) (p : Vec0Vtab) (id : SqlValue) (r : Rowid) (x : UserRow α) : Prop :=
  if p.pkIsText then x.id.eq id = true else conv.int64 id = r

theorem SqlValue.eq_of_text {a b c : SqlValue} (ha : a.type = .text) (hab : a.eq b = true)
    (hcb : c.eq b = true) : a.eq c = true := by
  cases a <;> cases b <;> cases c <;> simp_all [SqlValue.eq, SqlValue.type]

theorem pointRowid_eq_ok (h : History ops p v contents)
    (hr : pointRowid conv p v.shadow id = .ok r) (hx : contents r = some x) :
    Named conv p id r x := by
  unfold pointRowid at hr
  unfold Named
  split at hr
  next hpk =>
    rw [if_pos hpk]
    simp only [vec0RowidFromId, ofOption_eq_ok, Option.map_eq_some_iff] at hr
    obtain ⟨⟨k, row⟩, hfind, rfl⟩ := hr
    have hrow := Table.get_eq_some.mpr (List.mem_of_find?_eq_some hfind)
    have hid := List.find?_some hfind
    rw [h.stores.ids hrow hx, if_pos hpk]
    exact hid
  next hpk =>
    rw [if_neg hpk]
    exact pure_eq_ok.mp hr

theorem pointRowid_of_named (h : History ops p v contents) (hx : contents r = some x)
    (hnamed : Named conv p id r x) : pointRowid conv p v.shadow id = .ok r := by
  unfold Named at hnamed
  unfold pointRowid
  obtain ⟨row, hrow⟩ := entry_of_contents h hx
  split at hnamed
  next hpk =>
    rw [if_pos hpk]
    rw [h.stores.ids hrow hx, if_pos hpk] at hnamed
    simp only [vec0RowidFromId, ofOption_eq_ok, Option.map_eq_some_iff]
    cases hfind : v.shadow.rowids.rows.find? fun x => x.2.id.eq id with
    | none => exact absurd hnamed (List.find?_eq_none.mp hfind _ (Table.get_eq_some.mp hrow))
    | some y =>
      have hrow' := Table.get_eq_some.mpr (List.mem_of_find?_eq_some hfind)
      have hid := List.find?_some hfind
      have heq := SqlValue.eq_of_text (h.stores.keys hpk hrow') hid hnamed
      exact ⟨y, rfl, h.stores.unique hpk hrow' hrow heq⟩
  next hpk =>
    rw [if_neg hpk, hnamed]
    rfl

theorem pointVectors_eq (h : History ops p v contents) (hx : contents r = some x) :
    pointVectors p v.dimensions v.shadow r = .ok x.vectors := by
  have hlen := (h.stores.complete hx).vectors
  refine mapM_eq_ok.mpr (List.forall₂_iff_get.mpr ⟨?_, fun j hj hj' => ?_⟩)
  · rw [List.length_range, hlen]
  · rw [List.length_range] at hj
    have hget : x.vectors.getD j [] = x.vectors.get ⟨j, hj'⟩ := by
      rw [List.getD_eq_getElem?_getD, List.getElem?_eq_getElem hj']
      rfl
    rw [List.get_eq_getElem, List.getElem_range, vec0GetVectorData_eq h hx hj, hget]

theorem pointVectors_absent (h : History ops p v contents) (hx : contents r = none)
    (hpos : 0 < p.vectorColumns.length) :
    pointVectors p v.dimensions v.shadow r = .error sqliteEmpty := by
  obtain ⟨m, hm⟩ := Nat.exists_eq_add_of_lt hpos
  have hget : v.shadow.rowids.get r = none := by
    cases hget : v.shadow.rowids.get r with
    | none => rfl
    | some row =>
      obtain ⟨y, hy⟩ := contents_of_entry h hget
      exact absurd (hx.symm.trans hy) (by simp)
  have hdata : vec0GetVectorData v.dimensions v.shadow r 0 = .error sqliteEmpty := by
    rw [vec0GetVectorData, vec0GetChunkPosition, hget]
    rfl
  rw [pointVectors, hm, Nat.zero_add, List.range_succ_eq_map, List.mapM_cons, hdata]
  rfl

theorem vec0FilterPoint_found (h : History ops p v contents) (hx : contents r = some x)
    (hnamed : Named conv p id r x) :
    vec0FilterPoint conv p v.dimensions v.shadow id = .ok (.point r x.vectors false) := by
  unfold vec0FilterPoint
  rw [pointRowid_of_named h hx hnamed]
  dsimp only
  rw [pointVectors_eq h hx]
  rfl

theorem vec0FilterPoint_none (h : History ops p v contents) (hpos : 0 < p.vectorColumns.length)
    (hnone : ∀ r x, contents r = some x → ¬ Named conv p id r x) :
    ∃ r, vec0FilterPoint conv p v.dimensions v.shadow id = .ok (.point r [] true) := by
  unfold vec0FilterPoint
  cases hr : pointRowid conv p v.shadow id with
  | error rc =>
    have hrc : rc = sqliteEmpty := by
      unfold pointRowid vec0RowidFromId at hr
      split at hr
      · cases hfind : (v.shadow.rowids.rows.find? fun x => x.2.id.eq id).map Prod.fst with
        | none =>
          rw [hfind] at hr
          exact (Except.error.inj hr).symm
        | some k =>
          rw [hfind] at hr
          cases hr
      · cases hr
    exact ⟨0, by rw [hrc]; rfl⟩
  | ok r =>
    have hx : contents r = none := by
      cases hx : contents r with
      | none => rfl
      | some x => exact absurd (pointRowid_eq_ok h hr hx) (hnone r x hx)
    dsimp only
    rw [pointVectors_absent h hx hpos]
    exact ⟨r, rfl⟩

variable [Inhabited α]

/-- After any run of statements the look-up of an id succeeds, passes exactly the row that has the
id, at most once, and reads in every column what was last written there. -/
theorem point_reads (h : History ops p v contents) (ht : Describes t p)
    (hpos : 0 < p.vectorColumns.length) (id : SqlValue) {n : Nat} (hn : 1 ≤ n) :
    ∃ c, vec0FilterPoint conv p v.dimensions v.shadow id = .ok c ∧ (visited n c).length ≤ 1 ∧
      (∀ r x, contents r = some x → Named conv p id r x →
        ∃ c' ∈ visited n c, vec0Rowid c' = .ok r) ∧
      ∀ c' ∈ visited n c, ∃ r x, vec0Rowid c' = .ok r ∧ contents r = some x ∧ Named conv p id r x ∧
        ∀ i, vec0Column t p v.dimensions v.shadow false i c' = .ok (expected t p x i) := by
  obtain ⟨n, rfl⟩ := Nat.exists_eq_add_of_le' hn
  by_cases hfound : ∃ r x, contents r = some x ∧ Named conv p id r x
  · obtain ⟨r, x, hx, hnamed⟩ := hfound
    have hfilter := vec0FilterPoint_found h hx hnamed
    have hvisited : visited (n + 1) (.point r x.vectors false) = [.point r x.vectors false] := by
      cases n <;> rfl
    refine ⟨_, hfilter, by rw [hvisited]; exact Nat.le_refl 1, fun r' x' hx' hnamed' => ?_,
      fun c' hc' => ?_⟩
    · have hsame := hfilter.symm.trans (vec0FilterPoint_found h hx' hnamed')
      obtain ⟨rfl, -⟩ := Vec0Cursor.point.inj (Except.ok.inj hsame)
      exact ⟨_, hvisited ▸ List.mem_singleton_self _, rfl⟩
    · rw [hvisited, List.mem_singleton] at hc'
      subst hc'
      exact ⟨r, x, rfl, hx, hnamed, fun i => vec0ColumnPoint_eq h ht hx fun _ _ => rfl⟩
  · have hnone : ∀ r x, contents r = some x → ¬ Named conv p id r x := fun r x hx hnamed =>
      hfound ⟨r, x, hx, hnamed⟩
    obtain ⟨r, hfilter⟩ := vec0FilterPoint_none h hpos hnone
    refine ⟨_, hfilter, Nat.zero_le 1, fun r' x' hx' hnamed' => ?_, fun c' hc' => ?_⟩
    · exact absurd hnamed' (hnone r' x' hx')
    · cases hc'

theorem sample_point : ∃ c,
    vec0FilterPoint Knn.numberConversions sampleTable sampleContents.1.dimensions
        sampleContents.1.shadow (.integer 8) = .ok c ∧
      (visited 1 c).length ≤ 1 ∧
      (∀ r x, sampleContents.2 r = some x →
        Named Knn.numberConversions sampleTable (.integer 8) r x →
        ∃ c' ∈ visited 1 c, vec0Rowid c' = .ok r) ∧
      ∀ c' ∈ visited 1 c, ∃ r x, vec0Rowid c' = .ok r ∧ sampleContents.2 r = some x ∧
        Named Knn.numberConversions sampleTable (.integer 8) r x ∧
        ∀ i, vec0Column sampleDef sampleTable sampleContents.1.dimensions sampleContents.1.shadow
          false i c' = .ok (expected sampleDef sampleTable x i) :=
  point_reads sampleContents_history sampleDef_describes (by decide) (.integer 8) (by decide)

end Point

end SqliteMultimodal.Vec.Cursor
