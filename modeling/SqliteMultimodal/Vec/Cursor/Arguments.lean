import SqliteMultimodal.Vec.Declare.Table
import SqliteMultimodal.Vec.Elements.Defs

namespace SqliteMultimodal.Vec.Cursor

open Storage Except
open Plan (TableDef UserColumn UserColumnKind vec0ColumnId)
open Declare (Numbered Definition)

/-- A value that `xUpdate` is given.  That of a column which the statement does not set is a NULL
that `sqlite3_value_nochange` can tell. -/
inductive Argument
  | nochange
  | value (v : SqlValue) (subtype : Nat)
  deriving DecidableEq

namespace Argument

def sql : Argument → SqlValue
  | nochange => .null
  | value v _ => v

def given : Argument → Option SqlValue
  | nochange => none
  | value v _ => some v

end Argument

section Routing

variable (t : TableDef) (kind : UserColumnKind)

def route (values : List Argument) (x : UserColumn × Argument) : List Argument :=
  if x.1.kind = kind then values.set x.1.idx x.2 else values

/-- The array of the arguments for the columns of one kind, of which there are `n`. -/
def routed (n : Nat) (argv : List Argument) : List Argument :=
  (t.userColumns.zip argv).foldl (route kind) (List.replicate n .nochange)

variable {kind}

theorem length_foldl_route (xs : List (UserColumn × Argument)) (values : List Argument) :
    (xs.foldl (route kind) values).length = values.length := by
  induction xs generalizing values with
  | nil => rfl
  | cons x xs ih =>
    rw [List.foldl_cons, ih, route]
    split
    · exact List.length_set
    · rfl

@[simp] theorem length_routed (n : Nat) (argv : List Argument) :
    (routed t kind n argv).length = n :=
  (length_foldl_route _ _).trans List.length_replicate

theorem foldl_route_of_forall_ne {xs : List (UserColumn × Argument)} {j : Nat}
    (h : ∀ x ∈ xs, x.1.kind = kind → x.1.idx ≠ j) (values : List Argument) :
    (xs.foldl (route kind) values)[j]? = values[j]? := by
  induction xs generalizing values with
  | nil => rfl
  | cons x xs ih =>
    rw [List.forall_mem_cons] at h
    rw [List.foldl_cons, ih h.2, route]
    split
    next hkind => exact List.getElem?_set_ne (h.1 hkind)
    next => rfl

theorem foldl_route_of_mem {xs : List (UserColumn × Argument)} {c : UserColumn} {a : Argument}
    (hnodup : ((xs.filter fun x => x.1.kind = kind).map (·.1.idx)).Nodup) (hx : (c, a) ∈ xs)
    (hkind : c.kind = kind) {values : List Argument} (hlt : c.idx < values.length) :
    (xs.foldl (route kind) values)[c.idx]? = some a := by
  induction xs generalizing values with
  | nil => cases hx
  | cons x xs ih =>
    obtain rfl | hx := List.mem_cons.mp hx
    · have hpos : ((c, a) :: xs).filter (fun x => x.1.kind = kind) =
          (c, a) :: xs.filter fun x => x.1.kind = kind :=
        List.filter_cons_of_pos (decide_eq_true hkind)
      rw [hpos, List.map_cons, List.nodup_cons] at hnodup
      rw [List.foldl_cons, foldl_route_of_forall_ne, route, if_pos hkind,
        List.getElem?_set_self hlt]
      intro y hy hykind heq
      refine hnodup.1 (List.mem_map.mpr ⟨y, List.mem_filter.mpr ⟨hy, decide_eq_true hykind⟩, heq⟩)
    · have hlen : (route kind values x).length = values.length := length_foldl_route [x] values
      have hrest : ((xs.filter fun x => x.1.kind = kind).map (·.1.idx)).Nodup :=
        hnodup.sublist (((List.sublist_cons_self x xs).filter _).map _)
      exact ih hrest hx (hlen ▸ hlt)

theorem routed_get {n : Nat} (h : Numbered t.userColumns kind n) {argv : List Argument}
    (hlen : argv.length = t.userColumns.length) {i : Nat} {c : UserColumn} {a : Argument}
    (hc : t.userColumns[i]? = some c) (hkind : c.kind = kind) (ha : argv[i]? = some a) :
    (routed t kind n argv)[c.idx]? = some a := by
  subst hkind
  have hmem : (c, a) ∈ t.userColumns.zip argv := by
    refine List.mem_of_getElem? (i := i) ?_
    rw [List.getElem?_zip_eq_some]
    exact ⟨hc, ha⟩
  refine foldl_route_of_mem ?_ hmem rfl ?_
  · have hcols : ((t.userColumns.zip argv).filter fun x => x.1.kind = c.kind).map (·.1.idx) =
        (t.userColumns.filter fun c' => c'.kind = c.kind).map UserColumn.idx := by
      have hfst : t.userColumns = (t.userColumns.zip argv).map Prod.fst :=
        (List.map_fst_zip hlen.ge).symm
      conv_rhs => rw [hfst, List.filter_map, List.map_map]
      rfl
    rw [hcols, h]
    exact List.nodup_range
  · rw [List.length_replicate]
    exact h.lt (List.mem_of_getElem? hc)

end Routing

section Arrays

variable {α : Type} (parse : Argument → Option (ParsedVector α)) (t : TableDef) (p : Vec0Vtab)

/-- No text that SQLite passes has `2 ^ 31` bytes. -/
def ShortTexts (argv : List Argument) : Prop :=
  ∀ a ∈ argv, ∀ text, a.sql = .text text → text.length < 2147483648

theorem mem_foldl_route {kind : UserColumnKind} {xs : List (UserColumn × Argument)}
    {values : List Argument} {a : Argument} (h : a ∈ xs.foldl (route kind) values) :
    a ∈ values ∨ ∃ x ∈ xs, x.2 = a := by
  induction xs generalizing values with
  | nil => exact .inl h
  | cons x xs ih =>
    obtain h | ⟨y, hy, rfl⟩ := ih h
    · rw [route] at h
      split at h
      · obtain h | rfl := List.mem_or_eq_of_mem_set h
        · exact .inl h
        · exact .inr ⟨x, List.mem_cons_self, rfl⟩
      · exact .inl h
    · exact .inr ⟨y, List.mem_cons_of_mem x hy, rfl⟩

theorem mem_routed {kind : UserColumnKind} {n : Nat} {argv : List Argument} {a : Argument}
    (h : a ∈ routed t kind n argv) : a = .nochange ∨ a ∈ argv := by
  obtain h | ⟨x, hx, rfl⟩ := mem_foldl_route h
  · exact .inl (List.eq_of_mem_replicate h)
  · exact .inr (List.of_mem_zip hx).2

def insertArgs (id : SqlValue) (argv : List Argument) (distance k : SqlValue)
    (htext : ShortTexts argv) : InsertArgs p α where
  id := id
  partitions := (routed t .partition p.partitionTypes.length argv).map Argument.sql
  vectors := (routed t .vector p.vectorColumns.length argv).map parse
  auxiliary := (routed t .auxiliary p.auxiliaryTypes.length argv).map Argument.sql
  metadata := (routed t .metadata p.metadataKinds.length argv).map Argument.sql
  distance := distance
  k := k
  length_partitions := by simp
  length_vectors := by simp
  length_auxiliary := by simp
  length_metadata := by simp
  text_lt text h := by
    obtain ⟨a, ha, hsql⟩ := List.mem_map.mp h
    obtain rfl | ha := mem_routed t ha
    · cases hsql
    · exact htext a ha text hsql

/-- A vector column is left alone where the value is NULL. -/
def givenVector (a : Argument) : Option (Option (ParsedVector α)) :=
  if a.sql.type = .null then none else some (parse a)

def updateArgs (oldId : SqlValue) (newIdText : Bytes) (pzError : Nat → Bool) (argv : List Argument)
    (htext : ShortTexts argv) : UpdateArgs p α where
  oldId := oldId
  newIdText := newIdText
  pzError := pzError
  partitions := (routed t .partition p.partitionTypes.length argv).map Argument.given
  vectors := (routed t .vector p.vectorColumns.length argv).map (givenVector parse)
  auxiliary := (routed t .auxiliary p.auxiliaryTypes.length argv).map Argument.given
  metadata := (routed t .metadata p.metadataKinds.length argv).map Argument.given
  length_vectors := by simp
  length_auxiliary := by simp
  length_metadata := by simp
  text_lt text h := by
    obtain ⟨a, ha, hgiven⟩ := List.mem_map.mp h
    obtain rfl | ha := mem_routed t ha
    · cases hgiven
    · cases a with
      | nochange => cases hgiven
      | value v subtype =>
        obtain rfl := Option.some.inj hgiven
        exact htext _ ha text rfl

end Arrays

section ReadBack

variable {α ι : Type} (parse : Argument → Option (ParsedVector α)) {p : Vec0Vtab} {t : TableDef}

def shown (p : Vec0Vtab) (c : UserColumn) (a : Argument) : Option (ColumnValue α) :=
  match c.kind with
  | .vector => (parse a).map fun u => .vector u.elementType u.elements
  | .metadata => some (.value ((p.metadataKinds.getD c.idx .text).stored a.sql))
  | .partition | .auxiliary => some (.value a.sql)

def columnCount (p : Vec0Vtab) : UserColumnKind → Nat
  | .vector => p.vectorColumns.length
  | .partition => p.partitionTypes.length
  | .auxiliary => p.auxiliaryTypes.length
  | .metadata => p.metadataKinds.length

theorem numbered {d : Definition} (hd : d.Accepted) (kind : UserColumnKind) :
    Numbered (d.tableDef hd.toSound).userColumns kind (columnCount (d.vtab hd) kind) := by
  have h := hd.numbered kind
  have hcount : columnCount (d.vtab hd) kind = d.count kind := by
    cases kind <;> simp [columnCount, Definition.vtab, Definition.count]
  rw [hcount]
  exact h

theorem userColumn_succ {i : Nat} {c : UserColumn} (hc : t.userColumns[i]? = some c) :
    t.userColumn ((i : Int) + 1) = some c := by
  have hlt := (List.getElem?_eq_some_iff.mp hc).1
  rw [TableDef.userColumn, if_pos (by omega)]
  have hi : ((i : Int) + 1 - 1).toNat = i := by omega
  rw [hi, hc]

theorem expected_userColumn {x : UserRow α} {i : Nat} {c : UserColumn}
    (hc : t.userColumns[i]? = some c) : expected t p x ((i : Int) + 1) = some (columnOf p x c) := by
  have hid : ((i : Int) + 1) ≠ vec0ColumnId := by
    rw [vec0ColumnId]
    omega
  rw [expected, if_neg hid, userColumn_succ hc]

theorem getD_of_get {β : Type} {xs : List β} {j : Nat} {b e : β} (h : xs[j]? = some b) :
    xs.getD j e = b := by
  rw [List.getD_eq_getElem?_getD, h, Option.getD_some]

variable [Zero α] {ops : IndexOps α ι} {v v' : Vec0 α ι} {contents : Contents α} {rowid : Rowid}

theorem inserted_vector {dimensions : List Nat} {args : InsertArgs p α}
    {vectorDatas : List (List α)} {s s₁ s₂ s' : Shadow α} {chunkId : Rowid} {chunkOffset : Nat}
    (hins : Inserted p dimensions args vectorDatas s s₁ s₂ s' rowid chunkId chunkOffset)
    {j dim : Nat} {column : VectorColumn} {o : Option (ParsedVector α)}
    (hcolumn : p.vectorColumns[j]? = some column) (hdim : dimensions[j]? = some dim)
    (ho : args.vectors[j]? = some o) : ∃ u, o = some u ∧ u.elementType = column.elementType := by
  have hall := mapM_eq_ok.mp hins.vectors
  have hzip : ((p.vectorColumns.zip dimensions).zip args.vectors)[j]? =
      some ((column, dim), o) := by
    rw [List.getElem?_zip_eq_some, List.getElem?_zip_eq_some]
    exact ⟨⟨hcolumn, hdim⟩, ho⟩
  obtain ⟨hlt, hget⟩ := List.getElem?_eq_some_iff.mp hzip
  have hread := List.Forall₂.get hall hlt (hall.length_eq ▸ hlt)
  simp only [List.get_eq_getElem, hget, readVector, checkVector, bind_eq_ok, ofOption_eq_ok,
    require_eq_ok] at hread
  obtain ⟨u, hu, _, ⟨_, htype, -⟩, -⟩ := hread
  exact ⟨u, hu, htype⟩

omit [Zero α] in
theorem elementType_of_get {j : Nat} {column : VectorColumn}
    (hcolumn : p.vectorColumns[j]? = some column) : elementType p j = column.elementType := by
  rw [elementType, hcolumn, Option.map_some, Option.getD_some]

section Columns

variable {d : Definition} (hd : d.Accepted) {argv : List Argument} (htext : ShortTexts argv)
  (hlen : argv.length = d.userColumns.length) {i : Nat} {kind : UserColumnKind} {idx : Nat}
  {a : Argument} (hc : d.userColumns[i]? = some ⟨kind, idx⟩) (ha : argv[i]? = some a)

omit [Zero α] in
include hlen hc ha in
theorem routed_map_get {β : Type} (f : Argument → β) :
    ((routed (d.tableDef hd.toSound) kind (columnCount (d.vtab hd) kind) argv).map f)[idx]? =
      some (f a) := by
  rw [List.getElem?_map, routed_get _ (numbered hd kind) hlen hc rfl ha, Option.map_some]

omit [Zero α] in
include hc in
theorem exists_vectorColumn (hkind : kind = .vector) :
    ∃ column, (d.vtab hd).vectorColumns[idx]? = some column := by
  subst hkind
  exact ⟨_, List.getElem?_eq_getElem ((numbered hd .vector).lt (List.mem_of_getElem? hc))⟩

include hlen hc ha in
theorem columnOf_insert {id distance k : SqlValue} {dimensions : List Nat}
    (hdims : dimensions = (d.vtab hd).dimensions) {vectorDatas : List (List α)}
    {s s₁ s₂ s' : Shadow α} {chunkId : Rowid} {chunkOffset : Nat}
    (hins : Inserted (d.vtab hd) dimensions
      (insertArgs parse (d.tableDef hd.toSound) (d.vtab hd) id argv distance k htext) vectorDatas
      s s₁ s₂ s' rowid chunkId chunkOffset) :
    some (columnOf (d.vtab hd) ((insertArgs parse (d.tableDef hd.toSound) (d.vtab hd) id argv
      distance k htext).userRow rowid) ⟨kind, idx⟩) = shown parse (d.vtab hd) ⟨kind, idx⟩ a := by
  have hget {β : Type} (f : Argument → β) := routed_map_get hd hlen hc ha f
  cases kind with
  | vector =>
    obtain ⟨column, hcolumn⟩ := exists_vectorColumn hd hc rfl
    have hdim : dimensions[idx]? = some column.dimensions := by
      rw [hdims, Vec0Vtab.dimensions, List.getElem?_map, hcolumn, Option.map_some]
    obtain ⟨u, hu, htype⟩ := inserted_vector hins hcolumn hdim (hget parse)
    have hrow : (((routed (d.tableDef hd.toSound) .vector (columnCount (d.vtab hd) .vector)
        argv).map parse).map elements)[idx]? = some u.elements := by
      rw [List.getElem?_map, hget parse, hu]
      rfl
    show some (ColumnValue.vector (elementType _ idx) (List.getD _ idx [])) = _
    rw [elementType_of_get hcolumn, ← htype]
    refine (congrArg (fun xs => some (ColumnValue.vector _ xs)) (getD_of_get hrow)).trans ?_
    show _ = (parse a).map fun u => ColumnValue.vector u.elementType u.elements
    rw [hu]
    rfl
  | partition | auxiliary =>
    exact congrArg (fun v => some (ColumnValue.value v)) (getD_of_get (hget Argument.sql))
  | metadata =>
    exact congrArg (fun v => some (ColumnValue.value (MetadataKind.stored _ v)))
      (getD_of_get (hget Argument.sql))

omit [Zero α] in
theorem updateShadow_checked {args : UpdateArgs p α} {s s' : Shadow α} {chunkId : Rowid}
    {chunkOffset : Nat} (h : updateShadow p s args = .ok (s', rowid, chunkId, chunkOffset)) :
    rowidOf p s args.oldId = .ok rowid ∧ ∀ x ∈ args.partitions, x = none := by
  simp only [updateShadow, bind_eq_ok, require_eq_ok, pure_eq_ok, Prod.exists, Prod.mk.injEq] at h
  obtain ⟨_, -, r, hid, _, _, -, _, hpart, _, -, -, rfl, -, -⟩ := h
  exact ⟨hid, hpart⟩

/-- The statement sets the column.  A vector column is not set to NULL. -/
def Argument.sets (a : Argument) (kind : UserColumnKind) : Bool :=
  if kind = .vector then a.sql.type ≠ .null else a.given.isSome

omit [Zero α] in
theorem updated_vector {ops : IndexOps α ι} {pzError : Nat → Bool} {chunkId : Rowid} {chunkOffset : Nat}
    {xs : List ((VectorColumn × Option (Option (ParsedVector α))) × Nat)} {dimensions : List Nat}
    {index : ι} {s s' : Shadow α}
    (h : (updateVectors ops pzError rowid chunkId chunkOffset xs dimensions index s).2.2 = .ok s')
    {column : VectorColumn} {o : Option (ParsedVector α)} {j : Nat}
    (hx : ((column, some o), j) ∈ xs) : ∃ u, o = some u ∧ u.elementType = column.elementType := by
  induction xs generalizing dimensions index s with
  | nil => cases hx
  | cons x xs ih =>
    obtain ⟨⟨column', _ | _ | u⟩, j'⟩ := x
    · obtain hx | hx := List.mem_cons.mp hx
      · cases hx
      · exact ih h hx
    · simp [updateVectors] at h
    · simp only [updateVectors] at h
      split at h
      · simp at h
      next s₁ hs₁ =>
        obtain hx | hx := List.mem_cons.mp hx
        · cases hx
          have hcheck := checkVector_of_ok (updateVector_eq_ok.mp hs₁).2
          simp only [checkVector, bind_eq_ok, require_eq_ok] at hcheck
          obtain ⟨⟨⟩, htype, -⟩ := hcheck
          exact ⟨u, rfl, htype⟩
        · exact ih h hx

omit [Zero α] in
theorem vectorEntry {args : UpdateArgs p α} {j : Nat} {column : VectorColumn}
    {w : Option (Option (ParsedVector α))} (hcolumn : p.vectorColumns[j]? = some column)
    (hw : args.vectors[j]? = some w) :
    ((column, w), j) ∈ (p.vectorColumns.zip args.vectors).zipIdx :=
  List.mem_zipIdx_iff_getElem?.mpr (List.getElem?_zip_eq_some.mpr ⟨hcolumn, hw⟩)

omit [Zero α] in
include hlen hc ha in
theorem columnOf_update {oldId : SqlValue} {newIdText : Bytes} {pzError : Nat → Bool}
    {x : UserRow α} (hx : x.Complete (d.vtab hd))
    (hpart : ∀ y ∈ (updateArgs parse (d.tableDef hd.toSound) (d.vtab hd) oldId newIdText pzError
      argv htext).partitions, y = none)
    (hvectors : ∀ {column o j}, ((column, some o), j) ∈ ((d.vtab hd).vectorColumns.zip
      (updateArgs parse (d.tableDef hd.toSound) (d.vtab hd) oldId newIdText pzError
        argv htext).vectors).zipIdx → ∃ u, o = some u ∧ u.elementType = column.elementType) :
    some (columnOf (d.vtab hd) ((updateArgs parse (d.tableDef hd.toSound) (d.vtab hd) oldId
      newIdText pzError argv htext).userRow x) ⟨kind, idx⟩) =
      if a.sets kind then shown parse (d.vtab hd) ⟨kind, idx⟩ a
      else some (columnOf (d.vtab hd) x ⟨kind, idx⟩) := by
  have hget {β : Type} (f : Argument → β) := routed_map_get hd hlen hc ha f
  have hlt := (numbered hd kind).lt (List.mem_of_getElem? hc)
  have hover : ∀ {old : List SqlValue}, idx < old.length → ∀ {e : SqlValue},
      (overlay ((routed (d.tableDef hd.toSound) kind (columnCount (d.vtab hd) kind) argv).map
        Argument.given) old).getD idx e = if a.given.isSome then a.sql else old.getD idx e := by
    intro old hidx e
    have hold : old[idx]? = some (old.get ⟨idx, hidx⟩) := List.getElem?_eq_getElem hidx
    rw [getD_of_get (getElem?_overlay (hget Argument.given) hold), getD_of_get hold]
    cases a <;> rfl
  cases kind with
  | vector =>
    obtain ⟨column, hcolumn⟩ := exists_vectorColumn hd hc rfl
    obtain ⟨old, hold⟩ : ∃ old, x.vectors[idx]? = some old :=
      ⟨_, List.getElem?_eq_getElem (hx.vectors ▸ hlt)⟩
    have hgiven := hget (givenVector parse)
    have hnew : (overlay (((routed (d.tableDef hd.toSound) .vector
        (columnCount (d.vtab hd) .vector) argv).map (givenVector parse)).map (·.map elements))
        x.vectors)[idx]? = some (((givenVector parse a).map elements).getD old) := by
      refine getElem?_overlay ?_ hold
      rw [List.getElem?_map, hgiven, Option.map_some]
    show some (ColumnValue.vector (elementType _ idx) (List.getD _ idx [])) = _
    refine (congrArg (fun xs => some (ColumnValue.vector _ xs)) (getD_of_get hnew)).trans ?_
    unfold givenVector
    by_cases hnull : a.sql.type = .null
    · have hsets : a.sets .vector = false := by simp [Argument.sets, hnull]
      rw [if_pos hnull, hsets, if_neg Bool.false_ne_true]
      show _ = some (ColumnValue.vector (elementType _ idx) (List.getD _ idx []))
      rw [getD_of_get hold]
      rfl
    · have hsets : a.sets .vector = true := by simp [Argument.sets, hnull]
      rw [if_neg hnull, hsets, if_pos rfl]
      rw [givenVector, if_neg hnull] at hgiven
      obtain ⟨u, hu, htype⟩ := hvectors (vectorEntry hcolumn hgiven)
      rw [elementType_of_get hcolumn, hu, ← htype]
      show _ = (parse a).map fun u => ColumnValue.vector u.elementType u.elements
      rw [hu]
      rfl
  | partition =>
    have hnone := hpart _ (List.mem_of_getElem? (hget Argument.given))
    have hsets : a.sets .partition = false := by simp [Argument.sets, hnone]
    rw [hsets, if_neg Bool.false_ne_true]
    rfl
  | auxiliary =>
    refine (congrArg (fun v => some (ColumnValue.value v))
      (hover (hx.auxiliary ▸ hlt) (e := .null))).trans ?_
    show _ = if a.given.isSome then _ else _
    split <;> rfl
  | metadata =>
    refine (congrArg (fun v => some (ColumnValue.value (MetadataKind.stored _ v)))
      (hover (hx.metadata ▸ hlt) (e := .null))).trans ?_
    show _ = if a.given.isSome then _ else _
    split <;> rfl

end Columns

section Statements

variable {d : Definition} (hd : d.Accepted) {argv : List Argument} (htext : ShortTexts argv)

def readColumn (v : Vec0 α ι) (r : Rowid) (i : Int) : Except ResultCode (Option (ColumnValue α)) :=
  vec0ColumnFullscan (d.tableDef hd.toSound) (d.vtab hd) v.dimensions v.shadow r false i

theorem readColumn_eq (h : History ops (d.vtab hd) v contents) {r : Rowid} {x : UserRow α}
    (hx : contents r = some x) (i : Int) :
    readColumn hd v r i = .ok (expected (d.tableDef hd.toSound) (d.vtab hd) x i) :=
  vec0ColumnFullscan_eq h (Definition.describes hd) hx

theorem readColumn_of_ne (h : History ops (d.vtab hd) v contents) {stmt : Statement (d.vtab hd) α}
    (hkept : stmt.Kept v) (hstmt : vec0Update ops (d.vtab hd) v stmt = (v', .ok rowid)) {r : Rowid}
    {x : UserRow α} (hx : contents r = some x) (hr : r ≠ rowid) (i : Int) :
    readColumn hd v' r i = readColumn hd v r i := by
  have hx' : contents.apply rowid stmt r = some x := by
    cases stmt <;> exact (Function.update_of_ne hr _ _).trans hx
  rw [readColumn_eq hd (History.ok stmt h hkept hstmt) hx', readColumn_eq hd h hx]

/-- In a table from any declaration that is accepted, each column of an inserted row shows the value
that stood in its place in the INSERT; the rows that were there are read as before. -/
theorem insert_columns (h : History ops (d.vtab hd) v contents)
    (hlen : argv.length = d.userColumns.length) {id distance k : SqlValue}
    (hins : vec0Update ops (d.vtab hd) v (.insert (insertArgs parse (d.tableDef hd.toSound)
      (d.vtab hd) id argv distance k htext)) = (v', .ok rowid)) :
    (∀ (i : Nat) c a, d.userColumns[i]? = some c → argv[i]? = some a →
      readColumn hd v' rowid ((i : Int) + 1) = .ok (shown parse (d.vtab hd) c a)) ∧
      readColumn hd v' rowid vec0ColumnId =
        .ok (some (.value (if (d.vtab hd).pkIsText then id else .integer rowid))) ∧
      ∀ r x, contents r = some x → r ≠ rowid ∧ ∀ i, readColumn hd v' r i = readColumn hd v r i := by
  have hkept : (Statement.insert (insertArgs parse (d.tableDef hd.toSound) (d.vtab hd) id argv
    distance k htext)).Kept v := trivial
  have hread := readColumn_eq hd (History.ok _ h hkept hins) (Function.update_self rowid _ contents)
  obtain ⟨vectorDatas, hshadow, -⟩ := vec0Update_insert hins
  obtain ⟨s₁, s₂, chunkId, chunkOffset, hinserted⟩ := insertShadow_spec hshadow
  refine ⟨fun i c a hc ha => ?_, hread vec0ColumnId, fun r x hx => ?_⟩
  · rw [hread, expected_userColumn (t := d.tableDef hd.toSound) hc]
    obtain ⟨kind, idx⟩ := c
    exact congrArg Except.ok
      (columnOf_insert parse hd htext hlen hc ha h.kept.dimensions hinserted)
  · have hr : r ≠ rowid := by
      rintro rfl
      obtain ⟨row, hrow⟩ := entry_of_contents h hx
      exact absurd (hinserted.fresh.symm.trans hrow) (by simp)
    exact ⟨hr, readColumn_of_ne hd h hkept hins hx hr⟩

/-- An UPDATE that succeeds changes, in the row with the id, the columns that it sets, of which none
is a partition key; all else is read as before. -/
theorem update_columns (h : History ops (d.vtab hd) v contents)
    (hlen : argv.length = d.userColumns.length) {oldId : SqlValue} {newIdText : Bytes}
    {pzError : Nat → Bool} (hkept : (Statement.update (updateArgs parse (d.tableDef hd.toSound)
      (d.vtab hd) oldId newIdText pzError argv htext)).Kept v)
    (hupd : vec0Update ops (d.vtab hd) v (.update (updateArgs parse (d.tableDef hd.toSound)
      (d.vtab hd) oldId newIdText pzError argv htext)) = (v', .ok rowid)) :
    rowidOf (d.vtab hd) v.shadow oldId = .ok rowid ∧
      (∀ (i : Nat) c a, d.userColumns[i]? = some c → argv[i]? = some a →
        (a.sets c.kind = true → c.kind ≠ .partition) ∧
        readColumn hd v' rowid ((i : Int) + 1) =
          if a.sets c.kind then .ok (shown parse (d.vtab hd) c a)
          else readColumn hd v rowid ((i : Int) + 1)) ∧
      readColumn hd v' rowid vec0ColumnId = readColumn hd v rowid vec0ColumnId ∧
      ∀ r x, contents r = some x → r ≠ rowid → ∀ i, readColumn hd v' r i = readColumn hd v r i := by
  obtain ⟨s₁, chunkId, chunkOffset, hshadow, hloop⟩ := vec0Update_update hupd
  obtain ⟨row, hrow, -⟩ := (updateShadow_spec hshadow).row
  obtain ⟨x, hx⟩ := contents_of_entry h hrow
  have hx' : contents.apply rowid (.update (updateArgs parse (d.tableDef hd.toSound) (d.vtab hd)
      oldId newIdText pzError argv htext)) rowid = some ((updateArgs parse (d.tableDef hd.toSound)
      (d.vtab hd) oldId newIdText pzError argv htext).userRow x) := by
    rw [Contents.apply, Function.update_self, hx, Option.map_some]
  have hread := readColumn_eq hd (History.ok _ h hkept hupd) hx'
  obtain ⟨hid, hpart⟩ := updateShadow_checked hshadow
  refine ⟨hid, fun i c a hc ha => ⟨fun hsets hkind => ?_, ?_⟩, ?_,
    fun r y hy hr => readColumn_of_ne hd h hkept hupd hy hr⟩
  · obtain ⟨kind, idx⟩ := c
    obtain rfl : kind = .partition := hkind
    have hnone := hpart _ (List.mem_of_getElem? (routed_map_get hd hlen hc ha Argument.given))
    simp [Argument.sets, hnone] at hsets
  · rw [hread, readColumn_eq hd h hx, expected_userColumn (t := d.tableDef hd.toSound) hc,
      expected_userColumn (t := d.tableDef hd.toSound) hc]
    obtain ⟨kind, idx⟩ := c
    refine (congrArg Except.ok (columnOf_update parse hd htext hlen hc ha (h.stores.complete hx)
      hpart (updated_vector (congrArg (fun x => x.2.2) hloop)))).trans ?_
    split <;> rfl
  · rw [hread, readColumn_eq hd h hx]
    rfl

end Statements

end ReadBack

section Sample

def sampleFloats : Elements.Floats Int where
  ofText _ := none
  ofBits := BitVec.toInt
  isnan _ := false
  positive x := 0 < x
  format := Text.ofInt

def sampleParse : Argument → Option (ParsedVector Int)
  | .value (.blob bytes) subtype =>
    match Elements.vectorFromValue sampleFloats subtype (.blob bytes) with
    | .ok (.float32 elements) => some ⟨.float32, elements⟩
    | _ => none
  | _ => none

theorem sampleDefinition_accepted : Declare.sampleDefinition.Accepted :=
  Declare.vec0Init_accepted (show Declare.vec0Init Declare.sampleConnection
    "main".toList "t".toList true ["v float[4]".toList, "id text primary key".toList,
      "+c text".toList, "r boolean".toList, "u integer partition key".toList,
      "chunk_size=16".toList, "create_index_hnsw=v".toList] =
      .ok Declare.sampleDefinition by decide)

def sampleVtab : Vec0Vtab := Declare.sampleDefinition.vtab sampleDefinition_accepted

def sampleTableDef : TableDef :=
  Declare.sampleDefinition.tableDef sampleDefinition_accepted.toSound

def sampleInserted : List Argument :=
  [.value (.blob (List.replicate 16 1#8)) 0, .value (.text [65#8]) 0, .value (.integer 1) 0,
    .value (.integer 7) 0]

def sampleUpdated : List Argument :=
  [.value (.blob (List.replicate 16 2#8)) 0, .nochange, .value (.integer 0) 0, .nochange]

theorem sampleInserted_short : ShortTexts sampleInserted := by
  simp [ShortTexts, sampleInserted, Argument.sql]

theorem sampleUpdated_short : ShortTexts sampleUpdated := by
  simp [ShortTexts, sampleUpdated, Argument.sql]

def sampleFirst : Vec0 Int Unit × Except ResultCode Rowid :=
  vec0Update noIndex sampleVtab (.create sampleVtab ())
    (.insert (insertArgs sampleParse sampleTableDef sampleVtab (.text [66#8])
      sampleInserted .null .null sampleInserted_short))

def sampleSecond : Vec0 Int Unit × Except ResultCode Rowid :=
  vec0Update noIndex sampleVtab sampleFirst.1
    (.update (updateArgs sampleParse sampleTableDef sampleVtab (.text [66#8])
      [66#8] (fun _ => false) sampleUpdated sampleUpdated_short))

theorem sampleFirst_ok : sampleFirst.2 = .ok 1 := by decide +kernel

theorem sampleSecond_ok : sampleSecond.2 = .ok 1 := by decide +kernel

theorem sampleInserted_history : History noIndex sampleVtab sampleFirst.1
    (Contents.apply (fun _ => none) 1 (.insert (insertArgs sampleParse sampleTableDef sampleVtab
      (.text [66#8]) sampleInserted .null .null sampleInserted_short))) :=
  .ok _ (.create ()) trivial (Prod.ext rfl sampleFirst_ok)

theorem sample_insert :
    readColumn sampleDefinition_accepted sampleFirst.1 1 1 =
        .ok (some (.vector .float32 (List.replicate 4 16843009))) ∧
      readColumn sampleDefinition_accepted sampleFirst.1 1 vec0ColumnId =
        .ok (some (.value (.text [66#8]))) := by
  have hread := insert_columns sampleParse sampleDefinition_accepted sampleInserted_short
    (History.create ()) rfl (Prod.ext rfl sampleFirst_ok)
  exact ⟨hread.1 0 _ _ rfl rfl, hread.2.1⟩

theorem sample_update :
    readColumn sampleDefinition_accepted sampleSecond.1 1 1 =
        .ok (some (.vector .float32 (List.replicate 4 33686018))) ∧
      readColumn sampleDefinition_accepted sampleSecond.1 1 2 =
        readColumn sampleDefinition_accepted sampleFirst.1 1 2 := by
  have hread := update_columns sampleParse sampleDefinition_accepted sampleUpdated_short
    sampleInserted_history rfl (fun x _ => ⟨⟨by decide, rfl⟩, fun _ _ => trivial⟩)
    (Prod.ext rfl sampleSecond_ok)
  exact ⟨(hread.2.1 0 _ _ rfl rfl).2, (hread.2.1 1 _ _ rfl rfl).2⟩

end Sample

end SqliteMultimodal.Vec.Cursor
