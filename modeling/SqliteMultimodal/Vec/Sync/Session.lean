import SqliteMultimodal.Vec.Knn.Defs
import SqliteMultimodal.Vec.Storage.Vectors
import SqliteMultimodal.Vec.Sync.Index

namespace SqliteMultimodal.Vec

open Storage Except

variable {α : Type} {p : Vec0Vtab}

/-- `saved` are the shadow tables as they were when the open transaction began. -/
structure Session (α : Type) where
  table : Vec0 α (Index α)
  saved : Option (Shadow α)

inductive Command (p : Vec0Vtab) (α : Type)
  | statement (stmt : Statement p α)
  | begin
  | commit
  | rollback

def vec0Begin (v : Vec0 α (Index α)) : Vec0 α (Index α) × ResultCode := (v, sqliteOk)

def vec0Commit (v : Vec0 α (Index α)) : Vec0 α (Index α) × ResultCode := (v, sqliteOk)

def vec0Rollback (v : Vec0 α (Index α)) : Vec0 α (Index α) × ResultCode := (v, sqliteOk)

/-- The rows of the table, each with its vector in the column `col`. -/
def pairs (col : Nat) (v : Vec0 α (Index α)) : Set (Rowid × List α) :=
  {x | (∃ row, v.shadow.rowids.get x.1 = some row) ∧
    vec0GetVectorData v.dimensions v.shadow x.1 col = .ok x.2}

section Code

variable [LinearOrder α] [Inhabited α] [Field α] (m : IndexMeta α) (p : Vec0Vtab) (col : Nat)

def Session.step (s : Session α) : Command p α → Session α
  | .statement stmt => { s with table := (vec0Update m.ops p s.table stmt).1 }
  | .begin =>
    match s.saved with
    | none => ⟨(vec0Begin s.table).1, some s.table.shadow⟩
    | some _ => s
  | .commit =>
    match s.saved with
    | none => s
    | some _ => ⟨(vec0Commit s.table).1, none⟩
  | .rollback =>
    match s.saved with
    | none => s
    | some shadow => ⟨(vec0Rollback { s.table with shadow }).1, none⟩

def VectorsSafe (pzError : Nat → Bool) (dimensions : List Nat) (index : Index α) (rowid : Rowid) :
    List ((VectorColumn × Option (Option (ParsedVector α))) × Nat) → Prop
  | [] => True
  | ((_, none), _) :: xs => VectorsSafe pzError dimensions index rowid xs
  | ((_, some none), _) :: _ => True
  | ((column, some (some v)), i) :: xs =>
    dimensions.set column.userIdx v.elements.length = dimensions ∧
      (pzError i = false → checkVector column (dimensions.getD i 0) v = .ok () →
        i = col ∧ column.elementType = .float32 ∧ index.UpdateSafe m rowid v.elements ∧
          ∀ x ∈ xs, x.1.2 = none)

/-- The index reads every vector as one of floats. -/
def StatementSafe (v : Vec0 α (Index α)) : Statement p α → Prop
  | .insert args => ∀ s rowid vectorDatas,
    insertShadow p v.dimensions v.shadow args = .ok (s, rowid, vectorDatas) →
      (∀ column ∈ p.vectorColumns[col]?, column.elementType = .float32) ∧
        v.index.InsertSafe m rowid (vectorDatas.getD col [])
  | .update args => ∀ s rowid chunkId chunkOffset,
    updateShadow p v.shadow args = .ok (s, rowid, chunkId, chunkOffset) →
      VectorsSafe m col args.pzError v.dimensions v.index rowid
        (p.vectorColumns.zip args.vectors).zipIdx
  | .delete id => ∀ s rowid, deleteShadow p v.shadow id = .ok (s, rowid) → v.index.DeleteSafe rowid

def Session.Safe (s : Session α) : Command p α → Prop
  | .statement stmt => StatementSafe m p col s.table stmt
  | .rollback => ∀ shadow, s.saved = some shadow → pairs col { s.table with shadow } = pairs col s.table
  | _ => True

inductive SafeRun : Session α → Prop
  | create {index : Index α} : m.dim = indexDim p → index.Created (indexDim p) →
    SafeRun ⟨.create p index, none⟩
  | step {s : Session α} (c : Command p α) : SafeRun s → s.Safe m p col c → SafeRun (s.step m p c)

end Code

section Tables

variable {col : Nat} {s s' : Shadow α} {f : Rowid → Option (List α)}

/-- The shadow tables hold the vectors `f` in the column. -/
def Holds (p : Vec0Vtab) (col : Nat) (s : Shadow α) (f : Rowid → Option (List α)) : Prop :=
  ∃ d rows, (p.vectorColumns.map VectorColumn.dimensions)[col]? = some d ∧ Slots p rows s ∧
    Vectors p col d rows s ∧ vectorOf rows col = f

theorem Holds.empty (hcol : col < p.vectorColumns.length) :
    Holds p col (.empty : Shadow α) fun _ => none :=
  ⟨_, _, List.getElem?_eq_getElem (by simpa using hcol), Slots.empty, Vectors.empty, rfl⟩

theorem Holds.congr (h : Holds p col s f) (hrowids : s'.rowids = s.rowids)
    (hchunks : s'.chunks = s.chunks) (hvectors : s'.vectorChunks = s.vectorChunks) :
    Holds p col s' f := by
  obtain ⟨d, rows, hd, hslots, hV, hf⟩ := h
  exact ⟨d, rows, hd,
    hslots.congr (fun _ => by rw [hrowids]) (fun _ => by rw [hchunks]) fun _ => rfl,
    hV.congr (fun _ => by rw [hchunks]) (fun _ => by rw [hvectors]), hf⟩

theorem Holds.mem_pairs {v : Vec0 α (Index α)} (h : Holds p col v.shadow f)
    (hdims : v.dimensions = p.vectorColumns.map VectorColumn.dimensions) (r : Rowid)
    (vec : List α) : (r, vec) ∈ pairs col v ↔ f r = some vec := by
  obtain ⟨d, rows, hd, hslots, hV, rfl⟩ := h
  rw [← hdims] at hd
  constructor
  · rintro ⟨⟨row, hr⟩, hget⟩
    obtain ⟨vec', hvec, hget'⟩ := hV.read hslots hr hd
    exact hvec.trans (congrArg some (Except.ok.inj (hget'.symm.trans hget)))
  · intro hvec
    cases hr : v.shadow.rowids.get r with
    | none => simp [vectorOf, hslots.absent hr] at hvec
    | some row =>
      obtain ⟨vec', hvec', hget⟩ := hV.read hslots hr hd
      obtain rfl : vec' = vec := Option.some.inj (hvec'.symm.trans hvec)
      exact ⟨⟨row, hr⟩, hget⟩

theorem Holds.eq_none {r : Rowid} (h : Holds p col s f) (hr : s.rowids.get r = none) :
    f r = none := by
  obtain ⟨d, rows, -, hslots, -, rfl⟩ := h
  rw [vectorOf, hslots.absent hr, Option.bind_none]

theorem Holds.exists_of_row {r : Rowid} {row : RowidsRow} (h : Holds p col s f)
    (hr : s.rowids.get r = some row) : ∃ vec, f r = some vec := by
  obtain ⟨d, rows, hd, hslots, hV, rfl⟩ := h
  obtain ⟨vec, hvec, -⟩ := hV.read hslots hr hd
  exact ⟨vec, hvec⟩

theorem Holds.delete {rowid chunkId : Rowid} {chunkOffset : Nat} (h : Holds p col s f)
    (hdel : Deleted p s s' rowid chunkId chunkOffset) :
    Holds p col s' (Function.update f rowid none) := by
  obtain ⟨d, rows, hd, hslots, hV, rfl⟩ := h
  exact ⟨d, _, hd, hslots.delete hdel, hV.delete hslots hdel, vectorOf_update ..⟩

theorem Holds.insert [Zero α] {args : InsertArgs p α} {vectorDatas : List (List α)} {rowid : Rowid}
    (h : Holds p col s f)
    (hins : insertShadow p (p.vectorColumns.map VectorColumn.dimensions) s args =
      .ok (s', rowid, vectorDatas)) :
    f rowid = none ∧
      Holds p col s' (Function.update f rowid (some (vectorDatas.getD col []))) := by
  obtain ⟨s₁, s₂, chunkId, chunkOffset, hins⟩ := insertShadow_spec hins
  refine ⟨h.eq_none hins.fresh, ?_⟩
  obtain ⟨d, rows, hd, hslots, hV, rfl⟩ := h
  have hcol : col < p.vectorColumns.length := by
    simpa using (List.getElem?_eq_some_iff.mp hd).1
  obtain ⟨vec, hdata, hrow, -⟩ := Vectors.vectorDatas_eq hins hcol hd
  refine ⟨d, _, hd, hslots.insert hins, hV.insert hslots hins hcol hd, ?_⟩
  rw [vectorOf_update, Option.bind_some, hrow, List.getD_eq_getElem?_getD, hdata, Option.getD_some]

theorem Holds.update {rowid chunkId : Rowid} {chunkOffset : Nat} {row : RowidsRow}
    {column : VectorColumn} {v : ParsedVector α} (h : Holds p col s f)
    (hr : s.rowids.get rowid = some row)
    (hpos : row.position.getD (0, 0) = (chunkId, chunkOffset))
    (hupd : vec0UpdateUpdateVectorColumn (p.vectorColumns.map VectorColumn.dimensions) s column
      chunkId chunkOffset col v = .ok s') :
    Holds p col s' (Function.update f rowid (some v.elements)) := by
  obtain ⟨old, hold⟩ := h.exists_of_row hr
  obtain ⟨d, rows, hd, hslots, hV, rfl⟩ := h
  obtain ⟨x, hx, hget⟩ := Option.bind_eq_some_iff.mp hold
  have hlt : col < x.vectors.length := (List.getElem?_eq_some_iff.mp hget).1
  have hrows : vectorOf (Function.update rows rowid
      (some { x with vectors := x.vectors.set col v.elements })) col =
        Function.update (vectorOf rows col) rowid (some v.elements) := by
    rw [vectorOf_update, Option.bind_some, List.getElem?_set_self hlt]
  obtain ⟨vectorChunks, rfl⟩ := vec0UpdateUpdateVectorColumn_frame hupd
  refine ⟨d, _, hd, ?_, hV.update hslots hr hpos hd hupd hrows, hrows⟩
  refine hslots.congr (fun r => ?_) (fun c => ?_) fun r => ?_
  · rfl
  · rfl
  · by_cases hr : r = rowid
    · rw [hr, Function.update_self, hx]
      rfl
    · rw [Function.update_of_ne hr]

end Tables

section Run

variable [LinearOrder α] [Inhabited α] [Field α] {m : IndexMeta α} {col : Nat}

theorem updateVectors_safe {pzError : Nat → Bool} {rowid chunkId : Rowid} {chunkOffset : Nat}
    {dimensions : List Nat} {index : Index α}
    {xs : List ((VectorColumn × Option (Option (ParsedVector α))) × Nat)}
    {s : Shadow α} (h : VectorsSafe m col pzError dimensions index rowid xs) :
    (∃ result, updateVectors m.ops pzError rowid chunkId chunkOffset xs dimensions index s =
        (dimensions, index, result) ∧ ∀ s', result = .ok s' → s' = s) ∨
      ∃ column v s', index.UpdateSafe m rowid v.elements ∧
        vec0UpdateUpdateVectorColumn dimensions s column chunkId chunkOffset col v = .ok s' ∧
        updateVectors m.ops pzError rowid chunkId chunkOffset xs dimensions index s =
          (dimensions, indexUpdate m index rowid v.elements, .ok s') := by
  induction xs with
  | nil => exact .inl ⟨_, rfl, fun s' hs => (Except.ok.inj hs).symm⟩
  | cons x xs ih =>
    obtain ⟨⟨column, _ | _ | v⟩, i⟩ := x
    · exact ih h
    · exact .inl ⟨_, rfl, fun s' hs => by simp at hs⟩
    · obtain ⟨hdims, hsafe⟩ := h
      simp only [updateVectors, hdims]
      cases hupd : updateVector dimensions s pzError column chunkId chunkOffset i v with
      | error rc => exact .inl ⟨_, rfl, fun s' hs => by simp at hs⟩
      | ok s' =>
        obtain ⟨hnull, hupd⟩ := updateVector_eq_ok.mp hupd
        obtain ⟨rfl, -, hsafe, hrest⟩ := hsafe hnull (checkVector_of_ok hupd)
        exact .inr ⟨column, v, s', hsafe, hupd, updateVectors_none hrest⟩

structure Consistent (p : Vec0Vtab) (col : Nat) (v : Vec0 α (Index α)) : Prop where
  dimensions : v.dimensions = p.vectorColumns.map VectorColumn.dimensions
  clean : v.index.Clean
  held : ∃ f, Holds p col v.shadow f ∧ Keyed v.index.entries f

variable {v : Vec0 α (Index α)}

theorem Consistent.insert (h : Consistent p col v) (hcol : m.column = some col)
    {args : InsertArgs p α} (hsafe : StatementSafe m p col v (.insert args)) :
    Consistent p col (vec0Update m.ops p v (.insert args)).1 := by
  obtain ⟨f, hheld, hkeyed⟩ := h.held
  have hops : m.ops.column = some col := hcol
  simp only [vec0Update, vec0UpdateInsert, hops]
  cases hins : insertShadow p v.dimensions v.shadow args with
  | error rc => exact ⟨h.dimensions, h.clean, f, hheld, hkeyed⟩
  | ok x =>
    obtain ⟨s, rowid, vectorDatas⟩ := x
    obtain ⟨hclean, hcall⟩ := indexInsert_spec m h.clean (hsafe s rowid vectorDatas hins).2
    rw [h.dimensions] at hins
    obtain ⟨hfresh, hheld'⟩ := hheld.insert hins
    show Consistent p col (v.finish v.dimensions (indexInsert m v.index _ rowid).1
      (if (indexInsert m v.index _ rowid).2 = sqliteOk then _ else _)).1
    obtain ⟨hrc, hentries⟩ | ⟨hrc, heq⟩ := hcall
    · rw [if_pos hrc]
      refine ⟨h.dimensions, hclean, _, hheld', ?_⟩
      show Keyed (indexInsert m v.index _ rowid).1.entries _
      rw [hentries]
      exact hkeyed.cons hfresh _
    · rw [if_neg hrc, heq]
      exact ⟨h.dimensions, h.clean, f, hheld, hkeyed⟩

theorem Consistent.delete (h : Consistent p col v) (hcol : m.column = some col) {id : SqlValue}
    (hsafe : StatementSafe m p col v (.delete id)) :
    Consistent p col (vec0Update m.ops p v (.delete id)).1 := by
  obtain ⟨f, hheld, hkeyed⟩ := h.held
  have hops : m.ops.column = some col := hcol
  simp only [vec0Update, vec0UpdateDelete, hops]
  cases hdel : deleteShadow p v.shadow id with
  | error rc => exact ⟨h.dimensions, h.clean, f, hheld, hkeyed⟩
  | ok x =>
    obtain ⟨s, rowid⟩ := x
    have hsafe := hsafe s rowid hdel
    obtain ⟨chunkId, chunkOffset, hdel⟩ := deleteShadow_spec hdel
    obtain ⟨row, hr, -⟩ := hdel.row
    obtain ⟨old, hold⟩ := hheld.exists_of_row hr
    obtain ⟨hclean, hrc, hkeyed'⟩ := indexDelete_spec m h.clean hkeyed hold hsafe
    simp only [if_neg hsafe.ne_zero]
    show Consistent p col (v.finish v.dimensions (indexDelete m v.index rowid).1
      (if (indexDelete m v.index rowid).2 = sqliteOk then _ else _)).1
    rw [if_pos hrc]
    exact ⟨h.dimensions, hclean, _, hheld.delete hdel, hkeyed'⟩

theorem Consistent.update (h : Consistent p col v) {args : UpdateArgs p α}
    (hsafe : StatementSafe m p col v (.update args)) :
    Consistent p col (vec0Update m.ops p v (.update args)).1 := by
  obtain ⟨f, hheld, hkeyed⟩ := h.held
  simp only [vec0Update, vec0UpdateUpdate]
  cases hupd : updateShadow p v.shadow args with
  | error rc => exact ⟨h.dimensions, h.clean, f, hheld, hkeyed⟩
  | ok x =>
    obtain ⟨s₁, rowid, chunkId, chunkOffset⟩ := x
    have hsafe := hsafe s₁ rowid chunkId chunkOffset hupd
    have hupd := updateShadow_spec hupd
    obtain ⟨row, hr, hpos⟩ := hupd.row
    have hheld₁ := hheld.congr hupd.rowids hupd.chunks hupd.vectorChunks
    dsimp only
    obtain ⟨result, heq, hresult⟩ | ⟨column, w, s', hsafe, hwrite, heq⟩ :=
      @updateVectors_safe _ _ _ _ _ _ _ _ chunkId chunkOffset _ _ _ s₁ hsafe
    · rw [heq]
      cases result with
      | error rc => exact ⟨h.dimensions, h.clean, f, hheld, hkeyed⟩
      | ok s' =>
        obtain rfl := hresult s' rfl
        exact ⟨h.dimensions, h.clean, f, hheld₁, hkeyed⟩
    · rw [heq]
      obtain ⟨old, hold⟩ := hheld.exists_of_row hr
      obtain ⟨hclean, hkeyed'⟩ := indexUpdate_spec m h.clean hkeyed hold hsafe
      rw [h.dimensions] at hwrite
      exact ⟨h.dimensions, hclean, _, hheld₁.update (hupd.rowids ▸ hr) hpos hwrite, hkeyed'⟩

omit [LinearOrder α] [Inhabited α] [Field α] in
theorem Consistent.rollback {shadow : Shadow α} (h : Consistent p col v)
    (hshadow : ∃ g, Holds p col shadow g)
    (hsafe : pairs col { v with shadow } = pairs col v) :
    Consistent p col { v with shadow } := by
  obtain ⟨f, hheld, hkeyed⟩ := h.held
  obtain ⟨g, hg⟩ := hshadow
  obtain rfl : g = f := by
    funext r
    refine Option.ext fun vec => ?_
    rw [← hg.mem_pairs (v := { v with shadow }) h.dimensions, hsafe,
      hheld.mem_pairs h.dimensions]
  exact ⟨h.dimensions, h.clean, g, hg, hkeyed⟩

theorem SafeRun.consistent {s : Session α} (hcol : m.column = some col)
    (hlt : col < p.vectorColumns.length) (h : SafeRun m p col s) :
    Consistent p col s.table ∧ ∀ shadow, s.saved = some shadow → ∃ f, Holds p col shadow f := by
  induction h with
  | create _ hindex =>
    refine ⟨⟨rfl, hindex.clean, _, Holds.empty hlt, ?_⟩, fun _ h => by simp at h⟩
    rw [Vec0.create, hindex.entries]
    exact .zero
  | @step s c _ hsafe ih =>
    obtain ⟨hcons, hsaved⟩ := ih
    cases c with
    | statement stmt =>
      refine ⟨?_, hsaved⟩
      cases stmt with
      | insert args => exact hcons.insert hcol hsafe
      | update args => exact hcons.update hsafe
      | delete id => exact hcons.delete hcol hsafe
    | begin =>
      simp only [Session.step]
      split
      · refine ⟨hcons, fun shadow hshadow => ?_⟩
        obtain rfl := Option.some.inj hshadow
        obtain ⟨f, hheld, -⟩ := hcons.held
        exact ⟨f, hheld⟩
      · exact ⟨hcons, hsaved⟩
    | commit =>
      simp only [Session.step]
      split
      · exact ⟨hcons, hsaved⟩
      · exact ⟨hcons, fun _ h => by simp at h⟩
    | rollback =>
      simp only [Session.step]
      split
      · exact ⟨hcons, hsaved⟩
      next shadow hshadow =>
        exact ⟨hcons.rollback (hsaved shadow hshadow) (hsafe shadow hshadow),
          fun _ h => by simp at h⟩

end Run

section Sample

open Knn

theorem rowidOf_of_deleteShadow {s s' : Shadow α} {id : SqlValue} {rowid : Rowid}
    (h : deleteShadow p s id = .ok (s', rowid)) : rowidOf p s id = .ok rowid := by
  simp only [deleteShadow, bind_eq_ok, pure_eq_ok, Prod.exists, Prod.mk.injEq] at h
  obtain ⟨r, hr, _, _, -, _, -, -, rfl⟩ := h
  exact hr

end Sample

end SqliteMultimodal.Vec
