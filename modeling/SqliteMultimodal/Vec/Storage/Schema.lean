import Mathlib.Algebra.Field.Rat
import SqliteMultimodal.Vec.Storage.Vectors

namespace SqliteMultimodal.Vec.Storage

open Except

variable {α ι : Type} {p : Vec0Vtab} {s s' : Shadow α}

/-- The entries of the array `vector_columns`. -/
def vec0MaxVectorColumns : Nat := 16

def Vec0Vtab.dimensions (p : Vec0Vtab) : List Nat := p.vectorColumns.map VectorColumn.dimensions

section Run

def LengthKept (dimensions : List Nat) (column : VectorColumn) (v : ParsedVector α) : Prop :=
  column.userIdx < vec0MaxVectorColumns ∧
    dimensions.set column.userIdx v.elements.length = dimensions

def VectorsKept (pzError : Nat → Bool) (dimensions : List Nat) :
    List ((VectorColumn × Option (Option (ParsedVector α))) × Nat) → Prop
  | [] => True
  | ((_, none), _) :: xs => VectorsKept pzError dimensions xs
  | ((_, some none), _) :: _ => True
  | ((column, some (some v)), i) :: xs =>
    LengthKept dimensions column v ∧
      (pzError i = false → checkVector column (dimensions.getD i 0) v = .ok () →
        VectorsKept pzError dimensions xs)

def Statement.Kept (v : Vec0 α ι) : Statement p α → Prop
  | .update args => ∀ x, updateShadow p v.shadow args = .ok x →
      VectorsKept args.pzError v.dimensions (p.vectorColumns.zip args.vectors).zipIdx
  | _ => True

inductive KeptRun [Zero α] (ops : IndexOps α ι) (p : Vec0Vtab) : Vec0 α ι → Prop
  | create (index : ι) : KeptRun ops p (.create p index)
  | step {v} (stmt : Statement p α) :
    KeptRun ops p v → stmt.Kept v → KeptRun ops p (vec0Update ops p v stmt).1

theorem KeptRun.run [Zero α] {ops : IndexOps α ι} {v : Vec0 α ι} (h : KeptRun ops p v) :
    ∃ rows, Run ops p v rows := by
  induction h with
  | create index => exact ⟨_, .create index⟩
  | step stmt _ _ ih =>
    obtain ⟨rows, hrun⟩ := ih
    generalize hstmt : vec0Update ops p _ stmt = y
    obtain ⟨v', rc | rowid⟩ := y
    · exact ⟨rows, .error stmt hrun hstmt⟩
    · exact ⟨_, .ok stmt hrun hstmt⟩

end Run

section Dimensions

variable {ops : IndexOps α ι} {v : Vec0 α ι}

theorem updateVectors_dimensions {pzError : Nat → Bool} {rowid chunkId : Rowid}
    {chunkOffset : Nat} {dimensions : List Nat} {index : ι}
    {xs : List ((VectorColumn × Option (Option (ParsedVector α))) × Nat)}
    (h : VectorsKept pzError dimensions xs) :
    (updateVectors ops pzError rowid chunkId chunkOffset xs dimensions index s).1 = dimensions := by
  induction xs generalizing index s with
  | nil => rfl
  | cons x xs ih =>
    obtain ⟨⟨column, _ | _ | v⟩, i⟩ := x
    · exact ih h
    · rfl
    · obtain ⟨⟨-, hdims⟩, hrest⟩ := h
      simp only [updateVectors, hdims]
      cases hupd : updateVector dimensions s pzError column chunkId chunkOffset i v with
      | error rc => rfl
      | ok s' =>
        obtain ⟨hunset, hupd⟩ := updateVector_eq_ok.mp hupd
        exact ih (hrest hunset (checkVector_of_ok hupd))

theorem finish_dimensions (dimensions : List Nat) (index : ι)
    (result : Except ResultCode (Shadow α × Rowid)) :
    (v.finish dimensions index result).1.dimensions = dimensions := by
  cases result with
  | ok x => rfl
  | error rc => rfl

theorem vec0UpdateUpdate_dimensions {args : UpdateArgs p α}
    (h : (Statement.update args).Kept v) : (vec0UpdateUpdate ops p v args).1 = v.dimensions := by
  unfold vec0UpdateUpdate
  cases hs : updateShadow p v.shadow args with
  | error rc => rfl
  | ok x => exact updateVectors_dimensions (h x hs)

variable [Zero α]

theorem vec0Update_dimensions {stmt : Statement p α} (h : stmt.Kept v) :
    (vec0Update ops p v stmt).1.dimensions = v.dimensions := by
  cases stmt with
  | insert args => exact finish_dimensions ..
  | update args => exact (finish_dimensions ..).trans (vec0UpdateUpdate_dimensions h)
  | delete id => exact finish_dimensions ..

theorem KeptRun.dimensions (h : KeptRun ops p v) : v.dimensions = p.dimensions := by
  induction h with
  | create index => rfl
  | step stmt _ hkept ih => exact (vec0Update_dimensions hkept).trans ih

end Dimensions

section Shaped

def Shaped (p : Vec0Vtab) (s : Shadow α) : Prop :=
  ∀ chunkId c j column, s.chunks.get chunkId = some c → p.vectorColumns[j]? = some column →
    ∃ blob, s.vectorChunks.get (j, chunkId) = some blob ∧
      blob.length = p.chunkSize.val * column.dimensions

theorem Shaped.empty : Shaped p (.empty : Shadow α) := by
  intro chunkId c j column hc
  simp [Shadow.empty, AutoTable.empty] at hc

theorem Shaped.congr (h : Shaped p s)
    (hchunks : ∀ k c', s'.chunks.get k = some c' → ∃ c, s.chunks.get k = some c)
    (hlengths : ∀ k, (s'.vectorChunks.get k).map List.length =
      (s.vectorChunks.get k).map List.length) : Shaped p s' := by
  intro chunkId c' j column hc' hj
  obtain ⟨c, hc⟩ := hchunks chunkId c' hc'
  obtain ⟨blob, hblob, hlen⟩ := h chunkId c j column hc hj
  have hget := hlengths (j, chunkId)
  rw [hblob, Option.map_some, Option.map_eq_some_iff] at hget
  obtain ⟨blob', hblob', hlen'⟩ := hget
  exact ⟨blob', hblob', hlen'.trans hlen⟩

theorem vec0UpdateUpdateVectorColumn_lengths {dimensions : List Nat} {column : VectorColumn}
    {chunkId : Rowid} {chunkOffset i : Nat} {v : ParsedVector α}
    (h : vec0UpdateUpdateVectorColumn dimensions s column chunkId chunkOffset i v = .ok s')
    (k : Nat × Rowid) :
    (s'.vectorChunks.get k).map List.length = (s.vectorChunks.get k).map List.length := by
  simp only [vec0UpdateUpdateVectorColumn, bind_eq_ok, ofOption_eq_ok, pure_eq_ok] at h
  obtain ⟨_, -, chunk, hchunk, chunk', hwrite, rfl⟩ := h
  rw [Table.get_modify]
  split
  next heq => rw [heq, hchunk, Option.map_some, Option.map_some, Option.map_some,
    Blob.length_write hwrite]
  next => rfl

theorem updateVectors_lengths {ops : IndexOps α ι} {pzError : Nat → Bool}
    {rowid chunkId : Rowid} {chunkOffset : Nat}
    {xs : List ((VectorColumn × Option (Option (ParsedVector α))) × Nat)} {dimensions : List Nat}
    {index : ι}
    (h : (updateVectors ops pzError rowid chunkId chunkOffset xs dimensions index s).2.2 = .ok s')
    (k : Nat × Rowid) :
    (s'.vectorChunks.get k).map List.length = (s.vectorChunks.get k).map List.length := by
  induction xs generalizing dimensions index s with
  | nil =>
    obtain rfl := Except.ok.inj h
    rfl
  | cons x xs ih =>
    obtain ⟨⟨column, _ | _ | v⟩, i⟩ := x
    · exact ih h
    · simp [updateVectors] at h
    · simp only [updateVectors] at h
      split at h
      · simp at h
      next t ht =>
        exact (ih h).trans (vec0UpdateUpdateVectorColumn_lengths (updateVector_eq_ok.mp ht).2 k)

variable [Zero α]

theorem Shaped.slotFound {values : List SqlValue} {chunkId : Rowid} {chunkOffset : Nat}
    (h : Shaped p s) (hslot : SlotFound p p.dimensions values s s' chunkId chunkOffset) :
    Shaped p s' := by
  cases hslot with
  | latest c _ _ _ _ hchunks hvectors _ _ =>
    exact h.congr (fun k c' hc' => ⟨c', hchunks ▸ hc'⟩) fun k => by rw [hvectors]
  | new hgrown _ =>
    intro k c j column hc hj
    have hlt := (List.getElem?_eq_some_iff.mp hj).1
    have hd : p.dimensions[j]? = some column.dimensions := by
      rw [Vec0Vtab.dimensions, List.getElem?_map, hj, Option.map_some]
    rw [hgrown.chunks] at hc
    rw [hgrown.vectorChunks]
    by_cases hk : k = chunkId
    · rw [if_pos ⟨hk, by rwa [Vec0Vtab.dimensions, List.length_map]⟩, hd, Option.map_some]
      exact ⟨_, rfl, List.length_replicate⟩
    · rw [if_neg hk] at hc
      rw [if_neg fun h => hk h.1]
      exact h k c j column hc hj

theorem Shaped.insert {args : InsertArgs p α} {vectorDatas : List (List α)} {s₁ s₂ : Shadow α}
    {rowid chunkId : Rowid} {chunkOffset : Nat} (h : Shaped p s)
    (hins : Inserted p p.dimensions args vectorDatas s s₁ s₂ s' rowid chunkId chunkOffset) :
    Shaped p s' := by
  obtain ⟨hframe, hwritten⟩ := writeVectors_get hins.written
  intro k c j column hc hj
  have hlt := (List.getElem?_eq_some_iff.mp hj).1
  have hd : p.dimensions[j]? = some column.dimensions := by
    rw [Vec0Vtab.dimensions, List.getElem?_map, hj, Option.map_some]
  by_cases hk : k = chunkId
  · obtain ⟨vec, hdata, -, -⟩ := Vectors.vectorDatas_eq hins hlt hd
    obtain ⟨blob, blob', -, hlen, hwrite, hblob'⟩ := hwritten j _ vec hd hdata
    exact ⟨blob', hk ▸ hblob', (Blob.length_write hwrite).trans hlen⟩
  · rw [hins.chunks, if_neg hk] at hc
    rw [hframe j k hk]
    exact h.slotFound hins.slot k c j column hc hj

omit [Zero α] in
theorem Shaped.delete {rowid chunkId : Rowid} {chunkOffset : Nat} (h : Shaped p s)
    (hdel : Deleted p s s' rowid chunkId chunkOffset) : Shaped p s' := by
  refine h.congr (fun k c' hc' => ?_) fun k => by rw [hdel.vectorChunks]
  rw [hdel.chunks] at hc'
  split at hc'
  · obtain ⟨c, hc, -⟩ := Option.map_eq_some_iff.mp hc'
    exact ⟨c, hc⟩
  · exact ⟨c', hc'⟩

theorem Shaped.step {ops : IndexOps α ι} {v v' : Vec0 α ι} {stmt : Statement p α} {rowid : Rowid}
    (h : Shaped p v.shadow) (hdims : v.dimensions = p.dimensions)
    (hstmt : vec0Update ops p v stmt = (v', .ok rowid)) : Shaped p v'.shadow := by
  cases stmt with
  | insert args =>
    obtain ⟨_, hins, -⟩ := vec0Update_insert hstmt
    rw [hdims] at hins
    obtain ⟨_, _, _, _, hins⟩ := insertShadow_spec hins
    exact h.insert hins
  | update args =>
    obtain ⟨s₁, _, _, hupd, hloop⟩ := vec0Update_update hstmt
    have hupd := updateShadow_spec hupd
    have hloop := congrArg (fun x => x.2.2) hloop
    refine h.congr (fun k c' hc' => ⟨c', ?_⟩) fun k => ?_
    · obtain ⟨_, hs'⟩ := updateVectors_frame hloop
      rw [hs'] at hc'
      rwa [← hupd.chunks]
    · rw [updateVectors_lengths hloop k, hupd.vectorChunks]
  | delete id =>
    obtain ⟨_, _, hdel⟩ := deleteShadow_spec (vec0Update_delete hstmt).1
    exact h.delete hdel

theorem KeptRun.shaped {ops : IndexOps α ι} {v : Vec0 α ι} (h : KeptRun ops p v) :
    Shaped p v.shadow := by
  induction h with
  | create index => exact Shaped.empty
  | @step v stmt hrun _ ih =>
    generalize hstmt : vec0Update ops p v stmt = y
    obtain ⟨v', rc | rowid⟩ := y
    · rw [vec0Update_error hstmt]
      exact ih
    · exact ih.step hrun.dimensions hstmt

end Shaped

section Update

/-- The statement gives a new value to one vector column.  It is `none` if it is no vector. -/
structure UpdateArgs.Sets (args : UpdateArgs p α) (j : Nat) (w : Option (ParsedVector α)) :
    Prop where
  given : args.vectors[j]? = some (some w)
  others : ∀ i x, i ≠ j → args.vectors[i]? = some x → x = none

def VectorColumn.Accepts (column : VectorColumn) (w : Option (ParsedVector α)) : Prop :=
  ∃ u, w = some u ∧ u.elementType = column.elementType ∧ u.elements.length = column.dimensions

@[simp] theorem VectorColumn.accepts_some {column : VectorColumn} {u : ParsedVector α} :
    column.Accepts (some u) ↔
      u.elementType = column.elementType ∧ u.elements.length = column.dimensions := by
  simp [VectorColumn.Accepts]

/-- Of all the vectors, those of other rows included, the one in column `j` of the row has been
replaced. -/
structure SlotWritten (v v' : Vec0 α ι) (rowid chunkId : Rowid) (chunkOffset j d : Nat)
    (vec : List α) : Prop where
  slot : ∃ row, v.shadow.rowids.get rowid = some row ∧ row.position = some (chunkId, chunkOffset)
  chunk : ∃ blob blob', v.shadow.vectorChunks.get (j, chunkId) = some blob ∧
    Blob.write blob (chunkOffset * d) vec = some blob' ∧
    ∀ k, v'.shadow.vectorChunks.get k =
      if k = (j, chunkId) then some blob' else v.shadow.vectorChunks.get k
  own : vec0GetVectorData v'.dimensions v'.shadow rowid j = .ok vec
  rest : ∀ r i, r ≠ rowid → vec0GetVectorData v'.dimensions v'.shadow r i =
    vec0GetVectorData v.dimensions v.shadow r i

/-- What an UPDATE of vector column `j` is meant to do.  The element types are not written at
all. -/
structure SchemaKept [Zero α] (ops : IndexOps α ι) (v : Vec0 α ι) (args : UpdateArgs p α) (j : Nat)
    (column : VectorColumn) (w : Option (ParsedVector α)) : Prop where
  within : ∀ u x, w = some u → updateShadow p v.shadow args = .ok x →
    column.userIdx < vec0MaxVectorColumns
  dimensions : (vec0Update ops p v (.update args)).1.dimensions = p.dimensions
  rejected : ¬ column.Accepts w → (∃ rc, (vec0Update ops p v (.update args)).2 = .error rc) ∧
    (vec0Update ops p v (.update args)).1.shadow = v.shadow ∧
    (vec0Update ops p v (.update args)).1.index = v.index
  accepted : ∀ u s rowid chunkId chunkOffset, w = some u → column.Accepts w →
    updateShadow p v.shadow args = .ok (s, rowid, chunkId, chunkOffset) →
    (vec0Update ops p v (.update args)).2 = .ok rowid ∧
      SlotWritten v (vec0Update ops p v (.update args)).1 rowid chunkId chunkOffset j
        column.dimensions u.elements

section Loop

variable {ops : IndexOps α ι} {pzError : Nat → Bool} {rowid chunkId : Rowid} {chunkOffset n : Nat}
  {dimensions : List Nat}
  {index : ι} {xs : List ((VectorColumn × Option (Option (ParsedVector α))) × Nat)}
  {x : (VectorColumn × Option (Option (ParsedVector α))) × Nat}

theorem updateVectors_head (h : ∀ y ∈ xs, y.1.2 = none) :
    updateVectors ops pzError rowid chunkId chunkOffset (x :: xs) dimensions index s =
      updateVectors ops pzError rowid chunkId chunkOffset [x] dimensions index s := by
  obtain ⟨⟨column, _ | _ | v⟩, i⟩ := x
  · simp only [updateVectors]
    exact updateVectors_none h
  · rfl
  · simp only [updateVectors]
    split
    · rfl
    · exact updateVectors_none h

theorem updateVectors_only (hx : xs[n]? = some x)
    (hothers : ∀ m y, m ≠ n → xs[m]? = some y → y.1.2 = none) :
    updateVectors ops pzError rowid chunkId chunkOffset xs dimensions index s =
      updateVectors ops pzError rowid chunkId chunkOffset [x] dimensions index s := by
  induction xs generalizing n with
  | nil => simp at hx
  | cons y ys ih =>
    cases n with
    | zero =>
      obtain rfl := Option.some.inj hx
      refine updateVectors_head fun z hz => ?_
      obtain ⟨m, hm⟩ := List.mem_iff_getElem?.mp hz
      exact hothers (m + 1) z (by simp) hm
    | succ n =>
      obtain ⟨⟨column, w⟩, i⟩ := y
      obtain rfl : w = none := hothers 0 ((column, w), i) (by simp) rfl
      exact ih hx fun m z hm hz => hothers (m + 1) z (by simpa using hm) hz

end Loop

variable {ops : IndexOps α ι} {v : Vec0 α ι} {args : UpdateArgs p α} {j : Nat}
  {column : VectorColumn} {w : Option (ParsedVector α)} {rowid chunkId : Rowid} {chunkOffset : Nat}

theorem updateVectors_sets {dimensions : List Nat} {index : ι}
    (hj : p.vectorColumns[j]? = some column) (hsets : args.Sets j w) :
    updateVectors ops args.pzError rowid chunkId chunkOffset
      (p.vectorColumns.zip args.vectors).zipIdx
      dimensions index s =
    updateVectors ops args.pzError rowid chunkId chunkOffset [((column, some w), j)] dimensions index
      s := by
  refine updateVectors_only (n := j) ?_ fun m y hm hy => ?_
  · have hzip : (p.vectorColumns.zip args.vectors)[j]? = some (column, some w) :=
      List.getElem?_zip_eq_some.mpr ⟨hj, hsets.given⟩
    rw [List.getElem?_zipIdx, hzip, Option.map_some, Nat.zero_add]
  · rw [List.getElem?_zipIdx, Option.map_eq_some_iff] at hy
    obtain ⟨⟨c, z⟩, hz, rfl⟩ := hy
    exact hsets.others m z hm (List.getElem?_zip_eq_some.mp hz).2

variable [Zero α]

theorem vec0Update_update_error {rc : ResultCode} (h : updateShadow p v.shadow args = .error rc) :
    vec0Update ops p v (.update args) = (v, .error rc) := by
  simp only [vec0Update, vec0UpdateUpdate, h]
  rfl

theorem vec0Update_sets_none
    (h : updateShadow p v.shadow args = .ok (s, rowid, chunkId, chunkOffset))
    (hj : p.vectorColumns[j]? = some column) (hsets : args.Sets j none) :
    vec0Update ops p v (.update args) = (v, .error sqliteError) := by
  simp only [vec0Update, vec0UpdateUpdate, h, updateVectors_sets hj hsets]
  rfl

theorem vec0Update_sets_some (ops : IndexOps α ι) {u : ParsedVector α}
    (h : updateShadow p v.shadow args = .ok (s, rowid, chunkId, chunkOffset))
    (hj : p.vectorColumns[j]? = some column) (hsets : args.Sets j (some u)) :
    vec0Update ops p v (.update args) =
      match updateVector (v.dimensions.set column.userIdx u.elements.length) s args.pzError column
          chunkId chunkOffset j u with
      | .error rc => ({ v with
          dimensions := v.dimensions.set column.userIdx u.elements.length }, .error rc)
      | .ok s' => (⟨v.dimensions.set column.userIdx u.elements.length, s',
          ops.update v.index rowid u.elements⟩, .ok rowid) := by
  simp only [vec0Update, vec0UpdateUpdate, h, updateVectors_sets hj hsets, updateVectors]
  cases updateVector (v.dimensions.set column.userIdx u.elements.length) s args.pzError column
      chunkId chunkOffset j u with
  | error rc => rfl
  | ok s' => rfl

theorem vec0Update_sets_dimensions {u : ParsedVector α}
    (h : updateShadow p v.shadow args = .ok (s, rowid, chunkId, chunkOffset))
    (hj : p.vectorColumns[j]? = some column) (hsets : args.Sets j (some u)) :
    (vec0Update ops p v (.update args)).1.dimensions =
      v.dimensions.set column.userIdx u.elements.length := by
  rw [vec0Update_sets_some ops h hj hsets]
  split
  · rfl
  · rfl

theorem getD_dimensions (hj : p.vectorColumns[j]? = some column) :
    p.dimensions.getD j 0 = column.dimensions := by
  rw [Vec0Vtab.dimensions, List.getD_eq_getElem?_getD, List.getElem?_map, hj, Option.map_some,
    Option.getD_some]

omit [Zero α] in
theorem checkVector_eq_ok {u : ParsedVector α} (hj : p.vectorColumns[j]? = some column) :
    checkVector column (p.dimensions.getD j 0) u = .ok () ↔ column.Accepts (some u) := by
  simp only [checkVector, bind_eq_ok, require_eq_ok, getD_dimensions hj,
    VectorColumn.accepts_some, exists_const]

omit [Zero α] in
theorem vec0GetVectorData_of_ne {rows : Rows α} {blob blob' vec : List α} {row : RowidsRow}
    {r : Rowid} {i : Nat} (hslots : Slots p rows s) (hrowids : s'.rowids = s.rowids)
    (hrow : s.rowids.get rowid = some row) (hpos : row.position = some (chunkId, chunkOffset))
    (hj : p.vectorColumns[j]? = some column) (hlen : vec.length = column.dimensions)
    (hblob : s.vectorChunks.get (j, chunkId) = some blob)
    (hwrite : Blob.write blob (chunkOffset * column.dimensions) vec = some blob')
    (hchunks : ∀ k, s'.vectorChunks.get k =
      if k = (j, chunkId) then some blob' else s.vectorChunks.get k) (hne : r ≠ rowid) :
    vec0GetVectorData p.dimensions s' r i = vec0GetVectorData p.dimensions s r i := by
  simp only [vec0GetVectorData, vec0GetChunkPosition, hrowids]
  cases hr : s.rowids.get r with
  | none => rfl
  | some row' =>
    obtain ⟨k, off, _, _, hpos', -⟩ := hslots.placed hr
    simp only [ofOption, pure, Except.pure, ok_bind, hpos', Option.getD_some, hchunks]
    by_cases hk : (i, k) = (j, chunkId)
    · obtain ⟨rfl, rfl⟩ := Prod.mk.inj hk
      have hoff : off ≠ chunkOffset := fun heq => hne (hslots.rowid_unique hr hrow hpos' (heq ▸ hpos))
      rw [if_pos rfl, hblob, getD_dimensions hj]
      simp only [ok_bind]
      rw [Blob.read_write_of_disjoint hwrite]
      rw [hlen]
      rcases Nat.lt_or_gt_of_ne hoff with hlt | hlt
      · exact .inl (by rw [← Nat.succ_mul]; exact Nat.mul_le_mul_right _ hlt)
      · exact .inr (by rw [← Nat.succ_mul]; exact Nat.mul_le_mul_right _ hlt)
    · rw [if_neg hk]

omit [Zero α] in
theorem vec0UpdateUpdateVectorColumn_of_accepts {rows : Rows α} {u : ParsedVector α}
    (hslots : Slots p rows v.shadow) (hshaped : Shaped p v.shadow)
    (hupd : Updated p args v.shadow s rowid chunkId chunkOffset)
    (hj : p.vectorColumns[j]? = some column) (haccepts : column.Accepts (some u)) :
    ∃ row blob blob', v.shadow.rowids.get rowid = some row ∧
      row.position = some (chunkId, chunkOffset) ∧
      v.shadow.vectorChunks.get (j, chunkId) = some blob ∧
      Blob.write blob (chunkOffset * column.dimensions) u.elements = some blob' ∧
      vec0UpdateUpdateVectorColumn p.dimensions s column chunkId chunkOffset j u =
        .ok { s with vectorChunks := s.vectorChunks.modify (j, chunkId) fun _ => blob' } := by
  obtain ⟨row, hrow, hgetD⟩ := hupd.row
  obtain ⟨cid, off, c, x, hpos, hslot, -⟩ := hslots.placed hrow
  obtain ⟨rfl, rfl⟩ : cid = chunkId ∧ off = chunkOffset := by
    rwa [hpos, Option.getD_some, Prod.mk.injEq] at hgetD
  obtain ⟨blob, hblob, hlen⟩ := hshaped cid c j column hslot.chunk hj
  have hfits : off * column.dimensions + u.elements.length ≤ blob.length := by
    rw [(VectorColumn.accepts_some.mp haccepts).2, hlen, ← Nat.succ_mul]
    exact Nat.mul_le_mul_right _ hslot.lt
  have hwrite : ∃ blob', Blob.write blob (off * column.dimensions) u.elements = some blob' := by
    rw [Blob.write, if_pos hfits]
    exact ⟨_, rfl⟩
  obtain ⟨blob', hwrite⟩ := hwrite
  have hcheck : checkVector column column.dimensions u = .ok () :=
    getD_dimensions hj ▸ (checkVector_eq_ok hj).mpr haccepts
  refine ⟨row, blob, blob', hrow, hpos, hblob, hwrite, ?_⟩
  simp only [vec0UpdateUpdateVectorColumn, getD_dimensions hj, hcheck, hupd.vectorChunks, hblob,
    ofOption, ok_bind, hwrite]
  rfl

omit [Zero α] in
theorem SlotWritten.of_modify {rows : Rows α} {blob blob' vec : List α} {row : RowidsRow}
    {index : ι} (hdims : v.dimensions = p.dimensions) (hslots : Slots p rows v.shadow)
    (hupd : Updated p args v.shadow s rowid chunkId chunkOffset)
    (hrow : v.shadow.rowids.get rowid = some row)
    (hpos : row.position = some (chunkId, chunkOffset))
    (hj : p.vectorColumns[j]? = some column) (hlen : vec.length = column.dimensions)
    (hblob : v.shadow.vectorChunks.get (j, chunkId) = some blob)
    (hwrite : Blob.write blob (chunkOffset * column.dimensions) vec = some blob') :
    SlotWritten v ⟨p.dimensions,
        { s with vectorChunks := s.vectorChunks.modify (j, chunkId) fun _ => blob' }, index⟩
      rowid chunkId chunkOffset j column.dimensions vec := by
  have hchunks : ∀ k, (s.vectorChunks.modify (j, chunkId) fun _ => blob').get k =
      if k = (j, chunkId) then some blob' else v.shadow.vectorChunks.get k := by
    intro k
    rw [Table.get_modify, hupd.vectorChunks]
    split
    next hk => rw [hk, hblob, Option.map_some]
    next => rfl
  exact {
    slot := ⟨row, hrow, hpos⟩
    chunk := ⟨blob, blob', hblob, hwrite, hchunks⟩
    own := by
      simp only [vec0GetVectorData, vec0GetChunkPosition, hupd.rowids, hrow, ofOption, ok_bind,
        pure, Except.pure, hpos, Option.getD_some, hchunks, if_true, getD_dimensions hj, ← hlen,
        Blob.read_write_self (hlen ▸ hwrite)]
    rest := fun r i hne => by
      rw [hdims]
      exact vec0GetVectorData_of_ne hslots hupd.rowids hrow hpos hj hlen hblob hwrite hchunks hne }

namespace SchemaKept

theorem of_failed {rc : ResultCode} (hfailed : vec0Update ops p v (.update args) = (v, .error rc))
    (hdims : v.dimensions = p.dimensions)
    (hno : ∀ u x, w = some u → updateShadow p v.shadow args ≠ .ok x) :
    SchemaKept ops v args j column w where
  within u x hw hx := absurd hx (hno u x hw)
  dimensions := by rw [hfailed, hdims]
  rejected _ := by
    rw [hfailed]
    exact ⟨⟨rc, rfl⟩, rfl, rfl⟩
  accepted u s rowid chunkId chunkOffset hw _ hx := absurd hx (hno u _ hw)

theorem of_some {u : ParsedVector α} (hrun : KeptRun ops p v)
    (hj : p.vectorColumns[j]? = some column) (hsets : args.Sets j (some u))
    (hx : updateShadow p v.shadow args = .ok (s, rowid, chunkId, chunkOffset))
    (hkept : LengthKept p.dimensions column u)
    (hunset : column.Accepts (some u) → args.pzError j = false) :
    SchemaKept ops v args j column (some u) := by
  have hdims := hrun.dimensions
  obtain ⟨rows, hrows⟩ := hrun.run
  have hupd := updateShadow_spec hx
  have hstmt := vec0Update_sets_some ops hx hj hsets
  rw [hdims, hkept.2] at hstmt
  by_cases haccepts : column.Accepts (some u)
  · obtain ⟨row, blob, blob', hrow, hpos, hblob, hwrite, hok⟩ :=
      vec0UpdateUpdateVectorColumn_of_accepts (Slots.run hrows) hrun.shaped hupd hj haccepts
    simp only [updateVector_eq_ok.mpr ⟨hunset haccepts, hok⟩] at hstmt
    exact {
      within := fun _ _ _ _ => hkept.1
      dimensions := by rw [hstmt]
      rejected := fun h => absurd haccepts h
      accepted := fun u' s' r k off hw _ hx' => by
        obtain rfl := Option.some.inj hw
        rw [hx, Except.ok.injEq, Prod.mk.injEq, Prod.mk.injEq, Prod.mk.injEq] at hx'
        obtain ⟨rfl, rfl, rfl, rfl⟩ := hx'
        have hlen := (VectorColumn.accepts_some.mp haccepts).2
        rw [hstmt]
        exact ⟨rfl, .of_modify hdims (Slots.run hrows) hupd hrow hpos hj hlen hblob hwrite⟩ }
  · cases hcol : updateVector p.dimensions s args.pzError column chunkId chunkOffset j u with
    | ok s' =>
      have hcheck := checkVector_of_ok (updateVector_eq_ok.mp hcol).2
      exact absurd ((checkVector_eq_ok hj).mp hcheck) haccepts
    | error rc =>
      simp only [hcol] at hstmt
      exact {
        within := fun _ _ _ _ => hkept.1
        dimensions := by rw [hstmt]
        rejected := fun _ => by
          rw [hstmt]
          exact ⟨⟨rc, rfl⟩, rfl, rfl⟩
        accepted := fun _ _ _ _ _ _ h => absurd h haccepts }

end SchemaKept

theorem pzError_of_schemaKept {u : ParsedVector α} (h : SchemaKept ops v args j column (some u))
    (hj : p.vectorColumns[j]? = some column) (hsets : args.Sets j (some u))
    (hx : updateShadow p v.shadow args = .ok (s, rowid, chunkId, chunkOffset))
    (haccepts : column.Accepts (some u)) : args.pzError j = false := by
  have hok := (h.accepted u s rowid chunkId chunkOffset rfl haccepts hx).1
  rw [vec0Update_sets_some ops hx hj hsets] at hok
  split at hok
  · cases hok
  next hcol => exact (updateVector_eq_ok.mp hcol).1

/-- After any run whose updates stored no length but the declared one, an UPDATE does what it is
meant to if and only if it stores none either and `pzError` does not turn it away. -/
theorem schemaKept_iff (hrun : KeptRun ops p v) (hj : p.vectorColumns[j]? = some column)
    (hsets : args.Sets j w) :
    SchemaKept ops v args j column w ↔
      ∀ u x, w = some u → updateShadow p v.shadow args = .ok x →
        LengthKept p.dimensions column u ∧ (column.Accepts w → args.pzError j = false) := by
  have hdims := hrun.dimensions
  constructor
  · rintro h u ⟨s, rowid, chunkId, chunkOffset⟩ rfl hx
    refine ⟨⟨h.within u _ rfl hx, ?_⟩, pzError_of_schemaKept h hj hsets hx⟩
    rw [← h.dimensions, vec0Update_sets_dimensions hx hj hsets, hdims, List.set_set]
  · intro h
    cases hx : updateShadow p v.shadow args with
    | error rc =>
      refine .of_failed (vec0Update_update_error hx) hdims fun _ _ _ heq => ?_
      rw [hx] at heq
      cases heq
    | ok x =>
      obtain ⟨s, rowid, chunkId, chunkOffset⟩ := x
      cases w with
      | none => exact .of_failed (vec0Update_sets_none hx hj hsets) hdims fun _ _ hw => by cases hw
      | some u =>
        obtain ⟨hkept, hunset⟩ := h u _ rfl hx
        exact .of_some hrun hj hsets hx hkept hunset

end Update

section Sample

theorem lineUpdateTo_sets (rowid : Rowid) (xs : List ℚ) :
    (lineUpdateTo rowid xs).Sets 0 (some ⟨.float32, xs⟩) :=
  ⟨rfl, fun i x hi hx => by
    cases i with
    | zero => exact absurd rfl hi
    | succ i => simp [lineUpdateTo] at hx⟩

def lineRow : Vec0 ℚ Unit :=
  (vec0Update noIndex lineTable (.create lineTable ()) (lineInsert 1 2)).1

theorem lineRow_kept : KeptRun noIndex lineTable lineRow := .step _ (.create ()) trivial

theorem lineRow_schemaKept :
    SchemaKept noIndex lineRow (lineUpdateTo 1 [5]) 0 ⟨.float32, 1, 0⟩ (some ⟨.float32, [5]⟩) :=
  (schemaKept_iff lineRow_kept rfl (lineUpdateTo_sets 1 [5])).mpr fun u x hu _ => by
    obtain rfl := Option.some.inj hu
    exact ⟨⟨by decide, rfl⟩, fun _ => rfl⟩

theorem lineRow_widened : KeptRun noIndex lineTable lineRow ∧
    ¬ SchemaKept noIndex lineRow (lineUpdateTo 1 [5, 6]) 0 ⟨.float32, 1, 0⟩
      (some ⟨.float32, [5, 6]⟩) := by
  refine ⟨lineRow_kept, fun h => ?_⟩
  have hdims : (vec0Update noIndex lineTable lineRow (.update (lineUpdateTo 1 [5, 6]))).1.dimensions =
      [2] := by decide +kernel
  have hkept := h.dimensions
  rw [hdims] at hkept
  exact absurd hkept (by decide)

end Sample

end SqliteMultimodal.Vec.Storage
