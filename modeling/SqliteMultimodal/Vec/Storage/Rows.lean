import Mathlib.Logic.Function.Basic
import SqliteMultimodal.Vec.Storage.Steps

namespace SqliteMultimodal.Vec.Storage

open Except

structure Row (α : Type) where
  partitions : List SqlValue
  vectors : List (List α)
  metadata : List SqlValue

abbrev Rows (α : Type) := Rowid → Option (Row α)

variable {α ι : Type} {p : Vec0Vtab}

def elements (v : Option (ParsedVector α)) : List α := (v.map ParsedVector.elements).getD []

def InsertArgs.row (args : InsertArgs p α) : Row α :=
  ⟨args.partitions, args.vectors.map elements, args.metadata⟩

def overlay {β : Type} (new : List (Option β)) (old : List β) : List β :=
  List.zipWith (fun n o => n.getD o) new old

theorem getElem?_overlay {β : Type} {new : List (Option β)} {old : List β} {j : Nat} {n : Option β}
    {o : β} (hnew : new[j]? = some n) (hold : old[j]? = some o) :
    (overlay new old)[j]? = some (n.getD o) := by
  rw [overlay, List.getElem?_zipWith, hnew, hold]

def UpdateArgs.row (args : UpdateArgs p α) (row : Row α) : Row α :=
  { row with
    vectors := overlay (args.vectors.map (·.map elements)) row.vectors
    metadata := overlay args.metadata row.metadata }

/-- What a statement that has succeeded for `rowid` makes of the rows. -/
def Rows.apply (rows : Rows α) (rowid : Rowid) : Statement p α → Rows α
  | .insert args => Function.update rows rowid (some args.row)
  | .update args => Function.update rows rowid ((rows rowid).map args.row)
  | .delete _ => Function.update rows rowid none

section Specs

variable {dimensions : List Nat} {s s' : Shadow α}

theorem insertAuxiliary_frame {rowid : Rowid} {values : List SqlValue}
    (h : insertAuxiliary p s rowid values = .ok s') :
    ∃ auxiliary, s' = { s with auxiliary } := by
  unfold insertAuxiliary at h
  split at h
  · obtain rfl := pure_eq_ok.mp h
    exact ⟨_, rfl⟩
  · simp only [bind_eq_ok, require_eq_ok, ofOption_eq_ok, pure_eq_ok] at h
    obtain ⟨_, -, auxiliary, -, rfl⟩ := h
    exact ⟨auxiliary, rfl⟩

variable [Zero α]

/-- The chunk with the row `rowid` in the slot `chunkOffset`. -/
def ChunkRow.put (c : ChunkRow) (chunkOffset : Nat) (rowid : Rowid) : ChunkRow :=
  { c with
    validity := c.validity.set chunkOffset true
    rowids := c.rowids.set chunkOffset rowid }

/-- `s'` is `s` with a row written to a slot.  `s₁` has the slot but not the row, and `s₂` the row
without its metadata. -/
structure Inserted (p : Vec0Vtab) (dimensions : List Nat) (args : InsertArgs p α)
    (vectorDatas : List (List α)) (s s₁ s₂ s' : Shadow α) (rowid chunkId : Rowid)
    (chunkOffset : Nat) : Prop where
  partitions : ∀ x ∈ args.partitions.zip p.partitionTypes, x.1.type = .null ∨ x.1.type = x.2
  vectors : ((p.vectorColumns.zip dimensions).zip args.vectors).mapM (fun x =>
    readVector x.1.1 x.1.2 x.2) = .ok vectorDatas
  fresh : s.rowids.get rowid = none
  slot : SlotFound p dimensions args.partitions s s₁ chunkId chunkOffset
  rowids : ∃ id, ∀ r, s'.rowids.get r =
    if r = rowid then some ⟨id, some (chunkId, chunkOffset)⟩ else s.rowids.get r
  chunks : ∀ c, s'.chunks.get c =
    if c = chunkId then (s₁.chunks.get c).map (·.put chunkOffset rowid) else s₁.chunks.get c
  written : writeVectors p dimensions s₁ chunkId chunkOffset vectorDatas = .ok s'.vectorChunks
  column : ∀ j, s₂.column j = s₁.column j
  metadata : writeMetadata p s₂ rowid chunkId chunkOffset (args.metadata.map some) false = .ok s'

theorem insertShadow_spec {args : InsertArgs p α} {rowid : Rowid} {vectorDatas : List (List α)}
    (h : insertShadow p dimensions s args = .ok (s', rowid, vectorDatas)) :
    ∃ s₁ s₂ chunkId chunkOffset,
      Inserted p dimensions args vectorDatas s s₁ s₂ s' rowid chunkId chunkOffset := by
  simp only [insertShadow, checkPartitions, bind_eq_ok, require_eq_ok, pure_eq_ok, Prod.exists,
    Prod.mk.injEq] at h
  obtain ⟨_, hpart, vs, hvec, _, -, _, -, t₀, r, hrow, t₁, cid, off, hslot, t₂, hwrite, t₃, haux, t₄,
    hmeta, rfl, rfl, rfl⟩ := h
  obtain ⟨id, rowids, hins, rfl⟩ := vec0UpdateInsertRowidStep_spec hrow
  obtain ⟨hfresh, hget⟩ := AutoTable.insertRowid_eq_some hins
  obtain ⟨hrowids, hfound⟩ := vec0UpdateInsertNextAvailableStep_spec hslot
  simp only [vec0UpdateInsertWriteFinalStep, bind_eq_ok, ofOption_eq_ok, require_eq_ok,
    pure_eq_ok] at hwrite
  obtain ⟨c, hc, vectorChunks, hvectors, _, -, rfl⟩ := hwrite
  obtain ⟨auxiliary, rfl⟩ := insertAuxiliary_frame haux
  obtain ⟨hsame, hsame', hsame''⟩ := writeMetadata_sameRows hmeta
  refine ⟨t₁, _, cid, off, {
    partitions := hpart
    vectors := hvec
    fresh := hfresh
    slot := ?_
    rowids := ⟨id, fun k => ?_⟩
    chunks := fun k => ?_
    written := ?_
    column := fun j => ?_
    metadata := hmeta }⟩
  · cases hfound with
    | latest c get eq lt free chunks vectors metadata text =>
      exact .latest c get eq lt free chunks vectors metadata text
    | new grown zero => exact .new ⟨grown.1, grown.2, grown.3, grown.4, grown.5⟩ zero
  · rw [hsame]
    simp only [vec0RowidsUpdatePosition, hrowids, AutoTable.get_modify, hget]
    split <;> rfl
  · rw [hsame']
    exact AutoTable.get_modify t₁.chunks cid _ k
  · rw [hsame'']
    exact hvectors
  · rfl

end Specs

section Specs

variable {dimensions : List Nat} {s s' : Shadow α}

theorem vec0GetChunkPosition_eq_ok {rowid : Rowid} {position : Rowid × Nat} :
    vec0GetChunkPosition s rowid = .ok position ↔
      ∃ row, s.rowids.get rowid = some row ∧ row.position.getD (0, 0) = position := by
  simp only [vec0GetChunkPosition, bind_eq_ok, ofOption_eq_ok, pure_eq_ok]

def ChunkRow.free (c : ChunkRow) (chunkOffset : Nat) : ChunkRow :=
  { c with validity := c.validity.set chunkOffset false }

/-- `s'` is `s` without the row `rowid`. -/
structure Deleted (p : Vec0Vtab) (s s' : Shadow α) (rowid chunkId : Rowid) (chunkOffset : Nat) :
    Prop where
  row : ∃ row, s.rowids.get rowid = some row ∧ row.position.getD (0, 0) = (chunkId, chunkOffset)
  chunk : ∃ c, s.chunks.get chunkId = some c ∧ chunkOffset / 8 < c.validity.bytes.length
  rowids : ∀ r, s'.rowids.get r = if r = rowid then none else s.rowids.get r
  chunks : ∀ c, s'.chunks.get c =
    if c = chunkId then (s.chunks.get c).map (·.free chunkOffset) else s.chunks.get c
  vectorChunks : s'.vectorChunks = s.vectorChunks
  column : ∀ j < p.metadataKinds.length, ∃ s₁ : Shadow α, s₁.column j = s.column j ∧
    s'.column j = (vec0UpdateDeleteClearMetadata s₁ j rowid chunkId chunkOffset).column j

theorem deleteShadow_spec {id : SqlValue} {rowid : Rowid}
    (h : deleteShadow p s id = .ok (s', rowid)) :
    ∃ chunkId chunkOffset, Deleted p s s' rowid chunkId chunkOffset := by
  simp only [deleteShadow, bind_eq_ok, pure_eq_ok, Prod.exists, Prod.mk.injEq] at h
  obtain ⟨r, -, cid, off, hpos, t, hclear, rfl, rfl⟩ := h
  simp only [vec0UpdateDeleteClearValidity, bind_eq_ok, ofOption_eq_ok, require_eq_ok,
    pure_eq_ok] at hclear
  obtain ⟨c, hc, _, hlt, _, -, rfl⟩ := hclear
  generalize hs₁ : (if p.auxiliaryTypes.length > 0 then _ else _ : Shadow α) = s₁
  have hrowids : s₁.rowids = s.rowids.delete r := by
    subst hs₁
    split <;> rfl
  have hchunks : s₁.chunks = s.chunks.modify cid (·.free off) := by
    subst hs₁
    split <;> rfl
  have hvectors : s₁.vectorChunks = s.vectorChunks := by
    subst hs₁
    split <;> rfl
  have hcolumn : ∀ j, s₁.column j = s.column j := by
    subst hs₁
    intro j
    split <;> rfl
  obtain ⟨hsame, hsame', hsame''⟩ := clearMetadata_sameRows p s₁ r cid off
  exact ⟨cid, off, {
    row := vec0GetChunkPosition_eq_ok.mp hpos
    chunk := ⟨c, hc, hlt⟩
    rowids := fun k => by rw [hsame, hrowids, AutoTable.get_delete]
    chunks := fun k => by rw [hsame', hchunks, AutoTable.get_modify]
    vectorChunks := hsame''.trans hvectors
    column := fun j hj => by
      obtain ⟨s₂, hs₂, hcol⟩ := clearMetadata_column s₁ r cid off hj
      exact ⟨s₂, hs₂.trans (hcolumn j), hcol⟩ }⟩

/-- `s₁` is `s` with the values the statement gives to row `rowid`, but for its vectors. -/
structure Updated (p : Vec0Vtab) (args : UpdateArgs p α) (s s₁ : Shadow α) (rowid chunkId : Rowid)
    (chunkOffset : Nat) : Prop where
  row : ∃ row, s.rowids.get rowid = some row ∧ row.position.getD (0, 0) = (chunkId, chunkOffset)
  rowids : s₁.rowids = s.rowids
  chunks : s₁.chunks = s.chunks
  vectorChunks : s₁.vectorChunks = s.vectorChunks
  metadata : ∃ s₀ : Shadow α, (∀ j, s₀.column j = s.column j) ∧
    writeMetadata p s₀ rowid chunkId chunkOffset args.metadata true = .ok s₁

theorem updateAuxiliary_frame (s : Shadow α) (rowid : Rowid) (values : List (Option SqlValue)) :
    ∃ auxiliary, updateAuxiliary s rowid values = { s with auxiliary } := by
  unfold updateAuxiliary
  generalize values.zipIdx = xs
  induction xs generalizing s with
  | nil => exact ⟨s.auxiliary, rfl⟩
  | cons x xs ih =>
    obtain ⟨_ | v, i⟩ := x
    · exact ih s
    · obtain ⟨auxiliary, h⟩ := ih (vec0UpdateUpdateAuxColumn s i v rowid)
      exact ⟨auxiliary, h⟩

theorem updateShadow_spec {args : UpdateArgs p α} {rowid chunkId : Rowid} {chunkOffset : Nat}
    (h : updateShadow p s args = .ok (s', rowid, chunkId, chunkOffset)) :
    Updated p args s s' rowid chunkId chunkOffset := by
  simp only [updateShadow, bind_eq_ok, require_eq_ok, pure_eq_ok, Prod.exists, Prod.mk.injEq] at h
  obtain ⟨_, -, r, -, cid, off, hpos, _, -, t, hmeta, rfl, rfl, rfl, rfl⟩ := h
  obtain ⟨auxiliary, haux⟩ := updateAuxiliary_frame s r args.auxiliary
  rw [haux] at hmeta
  obtain ⟨hsame, hsame', hsame''⟩ := writeMetadata_sameRows hmeta
  exact ⟨vec0GetChunkPosition_eq_ok.mp hpos, hsame, hsame', hsame'', { s with auxiliary }, fun _ => rfl,
    hmeta⟩

theorem vec0UpdateUpdateVectorColumn_frame {column : VectorColumn} {chunkId : Rowid}
    {chunkOffset i : Nat} {v : ParsedVector α}
    (h : vec0UpdateUpdateVectorColumn dimensions s column chunkId chunkOffset i v = .ok s') :
    ∃ vectorChunks, s' = { s with vectorChunks } := by
  simp only [vec0UpdateUpdateVectorColumn, bind_eq_ok, ofOption_eq_ok, pure_eq_ok] at h
  obtain ⟨_, -, _, -, _, -, rfl⟩ := h
  exact ⟨_, rfl⟩

theorem updateVector_eq_ok {pzError : Nat → Bool} {column : VectorColumn} {chunkId : Rowid}
    {chunkOffset i : Nat} {v : ParsedVector α} :
    updateVector dimensions s pzError column chunkId chunkOffset i v = .ok s' ↔
      pzError i = false ∧
        vec0UpdateUpdateVectorColumn dimensions s column chunkId chunkOffset i v = .ok s' := by
  simp only [updateVector, bind_eq_ok, require_eq_ok, exists_const]

theorem updateVectors_frame {ops : IndexOps α ι} {pzError : Nat → Bool}
    {rowid chunkId : Rowid} {chunkOffset : Nat}
    {xs : List ((VectorColumn × Option (Option (ParsedVector α))) × Nat)} {index : ι}
    (h : (updateVectors ops pzError rowid chunkId chunkOffset xs dimensions index s).2.2 = .ok s') :
    ∃ vectorChunks, s' = { s with vectorChunks } := by
  induction xs generalizing dimensions index s with
  | nil =>
    obtain rfl := Except.ok.inj h
    exact ⟨_, rfl⟩
  | cons x xs ih =>
    obtain ⟨⟨column, _ | _ | v⟩, i⟩ := x
    · exact ih h
    · simp [updateVectors] at h
    · simp only [updateVectors] at h
      split at h
      · simp at h
      next t ht =>
        obtain ⟨vectorChunks, rfl⟩ := ih h
        obtain ⟨_, rfl⟩ := vec0UpdateUpdateVectorColumn_frame (updateVector_eq_ok.mp ht).2
        exact ⟨vectorChunks, rfl⟩

theorem updateVectors_none {ops : IndexOps α ι} {pzError : Nat → Bool}
    {rowid chunkId : Rowid} {chunkOffset : Nat}
    {xs : List ((VectorColumn × Option (Option (ParsedVector α))) × Nat)} {index : ι}
    (h : ∀ x ∈ xs, x.1.2 = none) :
    updateVectors ops pzError rowid chunkId chunkOffset xs dimensions index s =
      (dimensions, index, .ok s) := by
  induction xs with
  | nil => rfl
  | cons x xs ih =>
    obtain ⟨⟨column, v⟩, i⟩ := x
    obtain rfl : v = none := h _ List.mem_cons_self
    exact ih fun x hx => h x (List.mem_cons_of_mem _ hx)

theorem checkVector_of_ok {column : VectorColumn} {chunkId : Rowid} {chunkOffset i : Nat}
    {v : ParsedVector α}
    (h : vec0UpdateUpdateVectorColumn dimensions s column chunkId chunkOffset i v = .ok s') :
    checkVector column (dimensions.getD i 0) v = .ok () := by
  simp only [vec0UpdateUpdateVectorColumn, bind_eq_ok] at h
  obtain ⟨⟨⟩, hcheck, -⟩ := h
  exact hcheck

end Specs

section Statements

variable {ops : IndexOps α ι} {v v' : Vec0 α ι} {rowid : Rowid}

theorem finish_eq_ok {dimensions : List Nat} {index : ι}
    {result : Except ResultCode (Shadow α × Rowid)}
    (h : v.finish dimensions index result = (v', .ok rowid)) :
    result = .ok (v'.shadow, rowid) ∧ v'.dimensions = dimensions ∧ v'.index = index := by
  cases result with
  | error rc => simp [Vec0.finish] at h
  | ok x =>
    simp only [Vec0.finish, Prod.mk.injEq, Except.ok.injEq] at h
    obtain ⟨rfl, rfl⟩ := h
    exact ⟨rfl, rfl, rfl⟩

theorem finish_eq_error {dimensions : List Nat} {index : ι} {rc : ResultCode}
    {result : Except ResultCode (Shadow α × Rowid)}
    (h : v.finish dimensions index result = (v', .error rc)) :
    v'.shadow = v.shadow ∧ v'.dimensions = dimensions ∧ v'.index = index := by
  cases result with
  | error rc =>
    simp only [Vec0.finish, Prod.mk.injEq] at h
    obtain ⟨rfl, -⟩ := h
    exact ⟨rfl, rfl, rfl⟩
  | ok x => simp [Vec0.finish] at h

variable [Zero α]

theorem vec0Update_error {stmt : Statement p α} {rc : ResultCode}
    (h : vec0Update ops p v stmt = (v', .error rc)) : v'.shadow = v.shadow := by
  cases stmt with
  | insert args => exact (finish_eq_error h).1
  | update args => exact (finish_eq_error h).1
  | delete id => exact (finish_eq_error h).1

theorem vec0Update_insert {args : InsertArgs p α}
    (h : vec0Update ops p v (.insert args) = (v', .ok rowid)) :
    ∃ vectorDatas,
      insertShadow p v.dimensions v.shadow args = .ok (v'.shadow, rowid, vectorDatas) ∧
      v'.dimensions = v.dimensions ∧
      ((ops.column = none ∧ v'.index = v.index) ∨
        ∃ i, ops.column = some i ∧
          ops.insert v.index (vectorDatas.getD i []) rowid = (v'.index, sqliteOk)) := by
  simp only [vec0Update] at h
  obtain ⟨hresult, hdim, hindex⟩ := finish_eq_ok h
  generalize hins : vec0UpdateInsert ops p v args = x at hresult hindex
  obtain ⟨index, result⟩ := x
  subst hresult hindex
  unfold vec0UpdateInsert at hins
  split at hins
  · simp at hins
  next s r vs hs hcol =>
    simp only [Prod.mk.injEq, Except.ok.injEq] at hins
    obtain ⟨hindex, rfl, rfl⟩ := hins
    exact ⟨vs, hs, hdim, .inl ⟨hcol, hindex.symm⟩⟩
  next s r vs i hs hcol =>
    generalize hop : ops.insert v.index (vs.getD i []) r = y at hins
    obtain ⟨index, rc⟩ := y
    simp only [Prod.mk.injEq] at hins
    obtain ⟨hindex, hins⟩ := hins
    split at hins
    next hrc =>
      simp only [Except.ok.injEq, Prod.mk.injEq] at hins
      obtain ⟨rfl, rfl⟩ := hins
      exact ⟨vs, hs, hdim, .inr ⟨i, hcol, by rw [hop, hindex, hrc]⟩⟩
    next => simp at hins

theorem vec0Update_delete {id : SqlValue}
    (h : vec0Update ops p v (.delete id) = (v', .ok rowid)) :
    deleteShadow p v.shadow id = .ok (v'.shadow, rowid) ∧ v'.dimensions = v.dimensions ∧
      ((ops.column = none ∨ rowid = 0) ∧ v'.index = v.index ∨
        rowid ≠ 0 ∧ ops.delete v.index rowid = (v'.index, sqliteOk)) := by
  simp only [vec0Update] at h
  obtain ⟨hresult, hdim, hindex⟩ := finish_eq_ok h
  generalize hdel : vec0UpdateDelete ops p v id = x at hresult hindex
  obtain ⟨index, result⟩ := x
  subst hresult hindex
  unfold vec0UpdateDelete at hdel
  split at hdel
  · simp at hdel
  next s r hs hcol =>
    simp only [Prod.mk.injEq, Except.ok.injEq] at hdel
    obtain ⟨hindex, rfl, rfl⟩ := hdel
    exact ⟨hs, hdim, .inl ⟨.inl hcol, hindex.symm⟩⟩
  next s r i hs hcol =>
    split at hdel
    next hzero =>
      simp only [Prod.mk.injEq, Except.ok.injEq] at hdel
      obtain ⟨hindex, rfl, rfl⟩ := hdel
      exact ⟨hs, hdim, .inl ⟨.inr hzero, hindex.symm⟩⟩
    next hzero =>
      generalize hop : ops.delete v.index r = y at hdel
      obtain ⟨index, rc⟩ := y
      simp only [Prod.mk.injEq] at hdel
      obtain ⟨hindex, hdel⟩ := hdel
      split at hdel
      next hrc =>
        simp only [Except.ok.injEq, Prod.mk.injEq] at hdel
        obtain ⟨rfl, rfl⟩ := hdel
        exact ⟨hs, hdim, .inr ⟨hzero, by rw [hop, hindex, hrc]⟩⟩
      next => simp at hdel

theorem vec0Update_update {args : UpdateArgs p α}
    (h : vec0Update ops p v (.update args) = (v', .ok rowid)) :
    ∃ s₁ chunkId chunkOffset,
      updateShadow p v.shadow args = .ok (s₁, rowid, chunkId, chunkOffset) ∧
      updateVectors ops args.pzError rowid chunkId chunkOffset
      (p.vectorColumns.zip args.vectors).zipIdx
        v.dimensions v.index s₁ = (v'.dimensions, v'.index, .ok v'.shadow) := by
  simp only [vec0Update] at h
  obtain ⟨hresult, hdim, hindex⟩ := finish_eq_ok h
  generalize hupd : vec0UpdateUpdate ops p v args = x at hresult hdim hindex
  obtain ⟨dimensions, index, result⟩ := x
  subst hresult hdim hindex
  unfold vec0UpdateUpdate at hupd
  split at hupd
  · simp at hupd
  next s₁ r cid off hs =>
    generalize hloop : updateVectors ops args.pzError r cid off _ _ _ s₁ = y at hupd
    obtain ⟨dimensions, index, result⟩ := y
    simp only [Prod.mk.injEq] at hupd
    obtain ⟨rfl, rfl, hupd⟩ := hupd
    cases result with
    | error rc => simp [Except.map] at hupd
    | ok s =>
      simp only [Except.map, Except.ok.injEq, Prod.mk.injEq] at hupd
      obtain ⟨rfl, rfl⟩ := hupd
      exact ⟨s₁, cid, off, hs, hloop⟩

end Statements

inductive Run [Zero α] (ops : IndexOps α ι) (p : Vec0Vtab) : Vec0 α ι → Rows α → Prop
  | create (index : ι) : Run ops p (.create p index) fun _ => none
  | ok {v v' rows} (stmt : Statement p α) {rowid : Rowid} :
    Run ops p v rows → vec0Update ops p v stmt = (v', .ok rowid) →
      Run ops p v' (rows.apply rowid stmt)
  | error {v v' rows} (stmt : Statement p α) {rc : ResultCode} :
    Run ops p v rows → vec0Update ops p v stmt = (v', .error rc) → Run ops p v' rows

def exec [Zero α] (ops : IndexOps α ι) (v : Vec0 α ι) (rows : Rows α) :
    List (Statement p α) → Vec0 α ι × Rows α
  | [] => (v, rows)
  | stmt :: stmts =>
    match vec0Update ops p v stmt with
    | (v, .ok rowid) => exec ops v (rows.apply rowid stmt) stmts
    | (v, .error _) => exec ops v rows stmts

theorem Run.exec [Zero α] {ops : IndexOps α ι} {v : Vec0 α ι} {rows : Rows α}
    (h : Run ops p v rows) (stmts : List (Statement p α)) :
    Run ops p (exec ops v rows stmts).1 (exec ops v rows stmts).2 := by
  induction stmts generalizing v rows with
  | nil => exact h
  | cons stmt stmts ih =>
    unfold Storage.exec
    split
    next v' rowid hstmt => exact ih (.ok stmt h hstmt)
    next v' rc hstmt => exact ih (.error stmt h hstmt)

def noIndex : IndexOps α Unit :=
  ⟨none, fun i _ _ => (i, sqliteOk), fun i _ => (i, sqliteOk), fun i _ _ => i⟩

section Sample

def sampleTable : Vec0Vtab :=
  ⟨.least, false, [.integer], [⟨.float32, 1, 1⟩], [], [.text]⟩

def sampleInsert (id : SqlValue) (x : Int) (text : Bytes) (h : text.length < 2147483648) :
    Statement sampleTable Int :=
  .insert ⟨id, [.integer 1], [some ⟨.float32, [x]⟩], [], [.text text], .null, .null, rfl, rfl, rfl, rfl,
    fun t ht => by
      obtain rfl : t = text := by simpa using ht
      exact h⟩

def sampleUpdate (id : SqlValue) (text : Bytes) (h : text.length < 2147483648) :
    Statement sampleTable Int :=
  .update ⟨id, [], fun _ => false, [none], [none], [], [some (.text text)], rfl, rfl, rfl, fun t ht => by
    obtain rfl : t = text := by simpa using ht
    exact h⟩

def sampleStatements : List (Statement sampleTable Int) :=
  [sampleInsert (.integer 7) 5 (List.replicate 20 65#8) (by decide),
    sampleInsert .null 6 (List.replicate 3 66#8) (by decide), .delete (.integer 7),
    sampleInsert .null 4 [] (by decide), sampleUpdate (.integer 8) (List.replicate 13 67#8) (by decide)]

def sampleRun : Vec0 Int Unit × Rows Int :=
  exec noIndex (.create sampleTable ()) (fun _ => none) sampleStatements

def lineTable : Vec0Vtab :=
  ⟨.least, false, [], [⟨.float32, 1, 0⟩], [], []⟩

def lineInsert (rowid : Rowid) (x : ℚ) : Statement lineTable ℚ :=
  .insert ⟨.integer rowid, [], [some ⟨.float32, [x]⟩], [], [], .null, .null, rfl, rfl, rfl, rfl,
    fun _ h => by simp at h⟩

def lineUpdateTo (rowid : Rowid) (xs : List ℚ) : UpdateArgs lineTable ℚ :=
  ⟨.integer rowid, [], fun _ => false, [], [some (some ⟨.float32, xs⟩)], [], [], rfl, rfl, rfl,
    fun _ h => by simp at h⟩

end Sample

end SqliteMultimodal.Vec.Storage
