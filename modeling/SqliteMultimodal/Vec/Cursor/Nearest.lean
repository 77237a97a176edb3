import SqliteMultimodal.Vec.ChunkScan.Exact
import SqliteMultimodal.Vec.Cursor.Reads
import SqliteMultimodal.Vec.Knn.Sound
import SqliteMultimodal.Vec.Knn.Texts

namespace SqliteMultimodal.Vec.Cursor

open Storage Except ChunkScan Knn
open Plan (TableDef UserColumn UserColumnKind vec0ColumnId vec0ColumnDistanceIdx)

variable {α : Type} {conv : Conversions} {p : Vec0Vtab} {args : KnnArgs α}

section Constraints

instance decidableHolds (value : SqlValue) :
    (constraint : MetadataConstraint) → Decidable (constraint.Holds value)
  | .compare _ _ => inferInstanceAs (Decidable (_ = _))
  | .isIn _ => inferInstanceAs (Decidable (∃ _ ∈ _, _))

def Typed : MetadataKind → MetadataConstraint → Prop
  | .boolean, .compare _ v => v = .integer 0 ∨ v = .integer 1
  | .integer, .compare _ v => v.type = .integer
  | .integer, .isIn vs => ∀ v ∈ vs, v.type = .integer
  | .float, .compare _ v => v.type = .float
  | .text, .compare _ v => v.type = .text
  | .text, .isIn vs => ∀ v ∈ vs, v.type = .text
  | _, .isIn _ => False

def metadataValue (p : Vec0Vtab) (x : UserRow α) (i : Nat) : SqlValue :=
  (p.metadataKinds.getD i .text).stored (x.metadata.getD i .null)

structure Admitted (p : Vec0Vtab) (args : KnnArgs α) (x : UserRow α) : Prop where
  rowidIn : ∀ items, args.rowidIn = some items → ∃ item ∈ items, x.id.satisfies .eq item = true
  partitions : ∀ y ∈ args.partitions,
    (x.partitions.getD y.1 .null).satisfies y.2.1 y.2.2 = true
  metadata : ∀ y ∈ args.metadata, y.2.Holds (metadataValue p x y.1)

structure Clear (p : Vec0Vtab) (contents : Contents α) (s : Shadow α) (args : KnnArgs α) :
    Prop where
  ids : ∀ items, args.rowidIn = some items → ∀ item ∈ items,
    if p.pkIsText then ∃ r x, contents r = some x ∧ x.id.eq item = true else item.type = .integer
  typed : ∀ y ∈ args.metadata, ∀ kind, p.metadataKinds[y.1]? = some kind → Typed kind y.2
  decided : ∀ y ∈ args.metadata, ∀ constraint : TextConstraint, y.2 = constraint.constraint →
    ∀ r x t, contents r = some x → x.metadata[y.1]? = some (.text t) → constraint.Decided t
  chunkId : ∀ y ∈ args.metadata, p.metadataKinds[y.1]? = some .text →
    ∀ (k : Rowid) c, s.chunks.get k = some c → k.throughInt = k

def AtDistance (env : Env α) (p : Vec0Vtab) (contents : Contents α) (args : KnnArgs α)
    (query : List α) (r : Rowid) (d : α) : Prop :=
  ∃ x, contents r = some x ∧ Admitted p args x ∧
    d = env.distance (x.vectors.getD args.vectorColumnIdx []) query

end Constraints

section Tests

variable {s : Shadow α} {i off : Nat} {rowids : List Rowid} {constraint : MetadataConstraint}

theorem satisfies_eq_integer (a b : Int64) :
    (SqlValue.integer a).satisfies .eq (.integer b) = decide (a = b) := by
  simp only [SqlValue.satisfies, SqlValue.cmp, Option.any_some, CompareOp.holds]
  rw [Bool.eq_iff_iff, beq_iff_eq, decide_eq_true_iff, Int.compare_eq_eq, Int64.toInt_inj]

theorem booleanTest_eq {op : CompareOp} (hop : op = .eq ∨ op = .ne) {v : SqlValue}
    (hv : v = .integer 0 ∨ v = .integer 1) (bit : Bool) :
    booleanTest op bit (conv.int64 v).toInt32 =
      (SqlValue.integer (if bit then 1 else 0)).satisfies op v := by
  obtain rfl | rfl := hop <;> obtain rfl | rfl := hv <;> rw [conv.int64_integer] <;>
    cases bit <;> decide

theorem slotTest_of_value {chunk : MetadataChunk} (htyped : Typed chunk.kind constraint)
    (haccept : acceptsMetadata chunk.kind constraint = true) {value : SqlValue}
    (hvalue : chunk.value off = some value) :
    slotTest conv s i constraint rowids off chunk = .ok (decide (constraint.Holds value)) := by
  cases chunk with
  | boolean bits =>
    cases constraint with
    | isIn vs => exact htyped.elim
    | compare op v =>
      simp only [MetadataChunk.value, Option.ite_none_right_eq_some, Option.some.injEq] at hvalue
      obtain ⟨-, rfl⟩ := hvalue
      have hop : op = .eq ∨ op = .ne := by simpa [acceptsMetadata, MetadataChunk.kind] using haccept
      refine congrArg Except.ok ((booleanTest_eq hop htyped _).trans ?_)
      exact Bool.decide_eq_true.symm
  | integer values =>
    obtain ⟨w, hw, rfl⟩ := Option.map_eq_some_iff.mp hvalue
    have hget : values.getD off 0 = w := by rw [List.getD_eq_getElem?_getD, hw, Option.getD_some]
    cases constraint with
    | compare op v =>
      cases v with
      | integer n =>
        simp only [slotTest, hget, conv.int64_integer]
        exact congrArg Except.ok Bool.decide_eq_true.symm
      | null | real n | text n | blob n => cases htyped
    | isIn vs =>
      simp only [slotTest, hget]
      refine congrArg Except.ok (Bool.eq_iff_iff.mpr ?_)
      rw [List.any_eq_true, decide_eq_true_iff]
      refine exists_congr fun v => and_congr_right fun hv => ?_
      have hv := htyped v hv
      cases v with
      | integer n =>
        rw [conv.int64_integer, satisfies_eq_integer, decide_eq_true_iff, decide_eq_true_iff]
        exact eq_comm
      | null | real n | text n | blob n => cases hv
  | float values =>
    obtain ⟨w, hw, rfl⟩ := Option.map_eq_some_iff.mp hvalue
    have hget : values.getD off 0 = w := by rw [List.getD_eq_getElem?_getD, hw, Option.getD_some]
    cases constraint with
    | isIn vs => exact htyped.elim
    | compare op v =>
      cases v with
      | real n =>
        simp only [slotTest, hget, conv.double_real]
        exact congrArg Except.ok Bool.decide_eq_true.symm
      | null | integer n | text n | blob n => cases htyped
  | text views => cases hvalue

def textBytes : SqlValue → Bytes
  | .text t => t
  | _ => []

theorem exists_textConstraint (htyped : Typed .text constraint) :
    ∃ tc : TextConstraint, constraint = tc.constraint := by
  cases constraint with
  | compare op v =>
    cases v with
    | text t => exact ⟨.compare op t, rfl⟩
    | null | integer n | real n | blob n => cases htyped
  | isIn vs =>
    refine ⟨.isIn (vs.map textBytes), ?_⟩
    rw [TextConstraint.constraint, List.map_map]
    congr 1
    refine (List.map_id vs).symm.trans (List.map_congr_left fun v hv => ?_)
    have hv := htyped v hv
    cases v with
    | text t => rfl
    | null | integer n | real n | blob n => cases hv

theorem holds_text_iff (tc : TextConstraint) (t : Bytes) :
    tc.constraint.Holds (.text t) ↔ tc.holds t = true := by
  cases tc with
  | compare op target => exact Iff.rfl
  | isIn targets =>
    rw [TextConstraint.holds, List.contains_iff_mem]
    constructor
    · rintro ⟨v, hv, hsat⟩
      obtain ⟨target, htarget, rfl⟩ := List.mem_map.mp hv
      have hcmp : cmpBytes t target = .eq := by
        simpa [SqlValue.satisfies, SqlValue.cmp, CompareOp.holds] using hsat
      rwa [cmpBytes_eq_iff.mp hcmp]
    · intro hmem
      refine ⟨_, List.mem_map_of_mem hmem, ?_⟩
      simp [SqlValue.satisfies, SqlValue.cmp, CompareOp.holds, cmpBytes_self]

end Tests

section Filters

variable {ι : Type} [Zero α] {ops : IndexOps α ι} {v : Vec0 α ι} {contents : Contents α}
  {constraint : MetadataConstraint} {i : Nat} {kind : MetadataKind} {k r : Rowid} {c : ChunkRow}
  {x : UserRow α} {off : Nat}

omit [Zero α] in
theorem metadataValue_of_get (hkind : p.metadataKinds[i]? = some kind) {value : SqlValue}
    (hvalue : x.metadata[i]? = some value) : metadataValue p x i = kind.stored value := by
  rw [metadataValue, List.getD_eq_getElem?_getD, hkind, Option.getD_some,
    List.getD_eq_getElem?_getD, hvalue, Option.getD_some]

theorem exists_metadata (h : History ops p v contents) (hx : contents r = some x)
    (hkind : p.metadataKinds[i]? = some kind) : ∃ value, x.metadata[i]? = some value := by
  have hi := (List.getElem?_eq_some_iff.mp hkind).1
  exact ⟨_, List.getElem?_eq_getElem (by rw [(h.stores.complete hx).metadata]; exact hi)⟩

theorem exists_row (h : History ops p v contents) (hc : v.shadow.chunks.get k = some c)
    (hv : c.validity.get off = true) (hr : c.rowids[off]? = some r) : ∃ x, contents r = some x := by
  obtain ⟨row, hrow, -⟩ := h.slots.row_of_rowid hc hv hr
  exact contents_of_entry h hrow

def expectedBit (p : Vec0Vtab) (contents : Contents α) (constraint : MetadataConstraint) (i : Nat)
    (c : ChunkRow) (off : Nat) : Option Bool :=
  if c.validity.get off then
    (c.rowids[off]?.bind contents).map fun x => decide (constraint.Holds (metadataValue p x i))
  else none

theorem exists_value {chunk : MetadataChunk} (htext : chunk.kind ≠ .text)
    (hshape : chunk.shape = (zeroMetadataChunk p.chunkSize.val chunk.kind).shape)
    (hoff : off < p.chunkSize.val) : ∃ value, chunk.value off = some value := by
  have hdvd := p.chunkSize.dvd
  cases chunk with
  | boolean bits =>
    have hlen : bits.bytes.length = p.chunkSize.val / 8 := by
      simpa [MetadataChunk.shape, zeroMetadataChunk, MetadataChunk.kind, Bitmap.new] using hshape
    exact ⟨_, if_pos (by omega)⟩
  | integer values =>
    have hlen : values.length = p.chunkSize.val := by
      simpa [MetadataChunk.shape, zeroMetadataChunk, MetadataChunk.kind] using hshape
    exact ⟨_, by rw [MetadataChunk.value, List.getElem?_eq_getElem (hlen ▸ hoff)]; rfl⟩
  | float values =>
    have hlen : values.length = p.chunkSize.val := by
      simpa [MetadataChunk.shape, zeroMetadataChunk, MetadataChunk.kind] using hshape
    exact ⟨_, by rw [MetadataChunk.value, List.getElem?_eq_getElem (hlen ▸ hoff)]; rfl⟩
  | text views => exact absurd rfl htext

theorem fits_of_shape {chunk : MetadataChunk} {n : Nat}
    (hshape : chunk.shape = (zeroMetadataChunk n chunk.kind).shape) :
    MetadataChunk.fits n chunk = true := by
  cases chunk with
  | boolean bits =>
    simpa [MetadataChunk.shape, zeroMetadataChunk, MetadataChunk.kind, Bitmap.new,
      MetadataChunk.fits] using hshape
  | integer values | float values | text values =>
    simpa [MetadataChunk.shape, zeroMetadataChunk, MetadataChunk.kind, MetadataChunk.fits]
      using hshape

theorem slotTests (conv : Conversions) (h : History ops p v contents)
    (hkind : p.metadataKinds[i]? = some kind)
    (htyped : Typed kind constraint) (haccept : acceptsMetadata kind constraint = true)
    (hdecided : ∀ tc : TextConstraint, constraint = tc.constraint → ∀ r x t,
      contents r = some x → x.metadata[i]? = some (.text t) → tc.Decided t)
    (hfit : kind = .text → k.throughInt = k) (hc : v.shadow.chunks.get k = some c) :
    ∃ chunk rowids, v.shadow.metadataChunks.get (i, k) = some chunk ∧
      MetadataChunk.fits p.chunkSize.val chunk = true ∧
      filterRowids v.shadow k chunk = .ok rowids ∧
      ∀ off < p.chunkSize.val, ∃ t,
        slotTest conv v.shadow i constraint rowids off chunk = .ok t ∧
          ∀ e, expectedBit p contents constraint i c off = some e → t = e := by
  have hroomy := Roomy.run h.run hkind k c hc
  obtain ⟨chunk, hchunk, hshape⟩ := Option.map_eq_some_iff.mp hroomy
  have hget : v.shadow.metadataChunks.get (i, k) = some chunk := hchunk
  obtain rfl : chunk.kind = kind := Kinds.run h.run hkind k chunk hchunk
  by_cases htext : chunk.kind = .text
  · obtain ⟨tc, rfl⟩ := exists_textConstraint (htext ▸ htyped)
    obtain ⟨views, hviews, hslots⟩ := textSlots_of_run h.run (htext ▸ hkind) hc
    obtain rfl : chunk = .text views := Option.some.inj (hget.symm.trans hviews)
    have hrowids : filterRowids v.shadow k (.text views) = .ok c.rowids := by
      rw [filterRowids, hfit htext, hc]
      rfl
    refine ⟨_, _, hget, fits_of_shape hshape, hrowids, fun off hoff => ?_⟩
    have htexts : (slotTexts p contents.rows i c)[off]? = some
        (if c.validity.get off then (c.rowids[off]?.bind (textOf contents.rows i)).getD [] else []) := by
      rw [slotTexts, List.getElem?_map, List.getElem?_range hoff, Option.map_some]
    have hslot := hslots.slot off _ htexts
    cases hv : c.validity.get off with
    | false =>
      rw [hv] at hslot
      obtain ⟨t, ht⟩ := slotTest_text_ok conv tc hslot (by simp)
      exact ⟨t, ht, fun e he => by simp [expectedBit, hv] at he⟩
    | true =>
      obtain ⟨r, hr⟩ : ∃ r, c.rowids[off]? = some r :=
        ⟨_, List.getElem?_eq_getElem (by rw [(h.slots.sized hc).2]; exact hoff)⟩
      obtain ⟨x, hx⟩ := exists_row h hc hv hr
      obtain ⟨value, hvalue⟩ := exists_metadata h hx hkind
      have hrows : contents.rows r = some x.toRow := congrArg (Option.map UserRow.toRow) hx
      obtain ⟨t, ht, -⟩ := (Texts.run h.run (htext ▸ hkind)).typed hrows
      have hmeta : x.metadata[i]? = some (.text t) := (textOf_of_row hrows).mp ht
      rw [hv, if_pos rfl, hr, Option.bind_some, ht, Option.getD_some] at hslot
      refine ⟨_, (slotTest_text_iff tc hslot).mpr (hdecided tc rfl r x t hx hmeta), fun e he => ?_⟩
      rw [expectedBit, if_pos hv, hr, Option.bind_some, hx, Option.map_some, Option.some.injEq,
        metadataValue_of_get hkind hmeta] at he
      rw [← he, Bool.eq_iff_iff, decide_eq_true_iff]
      exact (holds_text_iff tc t).symm
  · refine ⟨chunk, [], hget, fits_of_shape hshape, ?_, fun off hoff => ?_⟩
    · cases chunk with
      | boolean _ | integer _ | float _ => rfl
      | text _ => exact absurd rfl htext
    · obtain ⟨value, hvalue⟩ := exists_value htext hshape hoff
      refine ⟨_, slotTest_of_value htyped haccept hvalue, fun e he => ?_⟩
      unfold expectedBit at he
      split at he
      next hv =>
        obtain ⟨x, hx, rfl⟩ := Option.map_eq_some_iff.mp he
        obtain ⟨r, hr, hx⟩ := Option.bind_eq_some_iff.mp hx
        obtain ⟨stored, hstored⟩ := exists_metadata h hx hkind
        have hat := h.stores.metadata hkind htext hc hv hr
        rw [Shadow.metadataAt, hchunk, Option.bind_some, hvalue, metadataOf, Contents.rows, hx,
          Option.map_some, Option.bind_some, hstored, Option.map_some, Option.some.injEq] at hat
        rw [metadataValue_of_get hkind hstored, hat]
      next => cases he

theorem filterBitmap (conv : Conversions) (h : History ops p v contents)
    (hkind : p.metadataKinds[i]? = some kind)
    (htyped : Typed kind constraint) (haccept : acceptsMetadata kind constraint = true)
    (hdecided : ∀ tc : TextConstraint, constraint = tc.constraint → ∀ r x t,
      contents r = some x → x.metadata[i]? = some (.text t) → tc.Decided t)
    (hfit : kind = .text → k.throughInt = k) (hc : v.shadow.chunks.get k = some c) :
    ∃ b, vec0SetMetadataFilterBitmap conv p v.shadow i constraint k = .ok b ∧
      ∀ off < p.chunkSize.val, ∀ e, expectedBit p contents constraint i c off = some e →
        b.get off = e := by
  obtain ⟨chunk, rowids, hchunk, hfits, hrowids, htests⟩ :=
    slotTests conv h hkind htyped haccept hdecided hfit hc
  exact (filterBitmap_iff conv constraint _ hchunk hfits hrowids).mpr htests

end Filters

section Ids

variable {ι : Type} [Zero α] {ops : IndexOps α ι} {v : Vec0 α ι} {contents : Contents α}
  {env : Env α} {rowidsIn : Option (List Rowid)} {r : Rowid} {x : UserRow α}

theorem satisfies_of_named (env : Env α) (h : History ops p v contents) (hx : contents r = some x)
    {item : SqlValue} (hitem : p.pkIsText = false → item.type = .integer) :
    Named env.conv p item r x ↔ x.id.satisfies .eq item = true := by
  obtain ⟨row, hrow⟩ := entry_of_contents h hx
  have hid := h.stores.ids hrow hx
  unfold Named
  cases hpk : p.pkIsText with
  | true =>
    rw [hpk, if_pos rfl] at hid
    have htype := h.stores.keys hpk hrow
    rw [if_pos rfl, hid]
    cases hrowid : row.id with
    | text a =>
      cases item with
      | text b =>
        simp [SqlValue.eq, SqlValue.satisfies, SqlValue.cmp, CompareOp.holds, cmpBytes_eq_iff]
      | null | integer b | real b | blob b =>
        simp [SqlValue.eq, SqlValue.satisfies, SqlValue.cmp, CompareOp.holds]
    | null | integer a | real a | blob a => simp [hrowid, SqlValue.type] at htype
  | false =>
    rw [hpk, if_neg Bool.false_ne_true] at hid
    have htype := hitem hpk
    cases item with
    | integer n =>
      rw [if_neg Bool.false_ne_true, env.conv.int64_integer, hid, satisfies_eq_integer,
        decide_eq_true_iff]
      exact eq_comm
    | null | real n | text n | blob n => cases htype

theorem arrayRowidsIn_spec (env : Env α) (h : History ops p v contents)
    (hclear : Clear p contents v.shadow args) :
    ∃ rowidsIn, arrayRowidsIn env p v.shadow args = .ok rowidsIn ∧
      ∀ r x, contents r = some x → (rowidsIn.all (fun arr => arr.contains r) = true ↔
        ∀ items, args.rowidIn = some items →
          ∃ item ∈ items, x.id.satisfies .eq item = true) := by
  unfold arrayRowidsIn
  cases hitems : args.rowidIn with
  | none => exact ⟨none, rfl, fun r x _ => by simp⟩
  | some items =>
    have hids := hclear.ids items hitems
    have hread : ∀ item ∈ items, ∃ r, readRowidIn env p v.shadow item = .ok r := by
      intro item hitem
      have hknown := hids item hitem
      split at hknown
      next hpk =>
        obtain ⟨r, x, hx, hid⟩ := hknown
        exact ⟨r, pointRowid_of_named h hx (by rw [Named, if_pos hpk]; exact hid)⟩
      next hpk => exact ⟨_, if_neg hpk⟩
    obtain ⟨arr, harr⟩ := exists_mapM_ok hread
    refine ⟨some (sortRowids arr), by simp only [harr]; rfl, fun r x hx => ?_⟩
    have hall := mapM_eq_ok.mp harr
    have hinteger : ∀ item ∈ items, p.pkIsText = false → item.type = .integer := by
      intro item hitem hpk
      have hknown := hids item hitem
      rwa [if_neg (by rw [hpk]; exact Bool.false_ne_true)] at hknown
    simp only [Option.all_some, List.contains_iff_mem, mem_sortRowids, Option.some.injEq,
      forall_eq']
    constructor
    · intro hmem
      obtain ⟨item, hitem, hr⟩ := exists_of_mem_mapM harr hmem
      exact ⟨item, hitem,
        (satisfies_of_named env h hx (hinteger item hitem)).mp (pointRowid_eq_ok h hr hx)⟩
    · rintro ⟨item, hitem, hsat⟩
      have hnamed := (satisfies_of_named env h hx (hinteger item hitem)).mpr hsat
      obtain ⟨n, hn, rfl⟩ := List.mem_iff_getElem.mp hitem
      have hn' : n < arr.length := hall.length_eq ▸ hn
      have hget := List.Forall₂.get hall hn hn'
      have hr := hget.symm.trans (pointRowid_of_named h hx hnamed)
      exact Except.ok.inj hr ▸ List.getElem_mem hn'

end Ids

section Candidates

variable {ι : Type} [Zero α] {ops : IndexOps α ι} {v : Vec0 α ι} {contents : Contents α}
  {env : Env α} {rowidsIn : Option (List Rowid)} {query : List α} {n dimension : Nat}
  {k r : Rowid} {c : ChunkRow} {x : UserRow α} {off : Nat}

theorem filter_ok (conv : Conversions) (h : History ops p v contents)
    (hclear : Clear p contents v.shadow args)
    (hbest : vec0BestIndex p args = .ok ()) (hc : v.shadow.chunks.get k = some c) {y}
    (hy : y ∈ args.metadata) :
    ∃ b, vec0SetMetadataFilterBitmap conv p v.shadow y.1 y.2 k = .ok b ∧
      ∀ off < p.chunkSize.val, ∀ e, expectedBit p contents y.2 y.1 c off = some e →
        b.get off = e := by
  obtain ⟨kind, hkind, haccept⟩ := (Option.any_eq_true _ _).mp (require_eq_ok.mp hbest y hy)
  exact filterBitmap conv h hkind (hclear.typed y hy kind hkind) haccept (hclear.decided y hy)
    (fun htext => hclear.chunkId y hy (htext ▸ hkind) k c hc) hc

theorem isCandidate_iff (h : History ops p v contents) (hclear : Clear p contents v.shadow args)
    (hbest : vec0BestIndex p args = .ok ())
    (hin : ∀ r x, contents r = some x → (rowidsIn.all (fun arr => arr.contains r) = true ↔
      ∀ items, args.rowidIn = some items → ∃ item ∈ items, x.id.satisfies .eq item = true))
    (hc : (k, c) ∈ vec0ChunksIter v.shadow args) (vectors : List (List α))
    (hoff : off < p.chunkSize.val) (hr : c.rowids[off]? = some r) :
    isCandidate (scanArgs env p v.shadow args query n rowidsIn) ⟨k, c.validity, c.rowids, vectors⟩
        off = true ↔
      c.validity.get off = true ∧ ∃ x, contents r = some x ∧ Admitted p args x := by
  obtain ⟨hmem, hpart⟩ := List.mem_filter.mp hc
  have hget : v.shadow.chunks.get k = some c := Table.get_eq_some.mpr hmem
  have hrowid : c.rowids.getD off 0 = r := by rw [List.getD_eq_getElem?_getD, hr, Option.getD_some]
  simp only [isCandidate, scanArgs, Bool.and_eq_true, hrowid, List.all_map, Function.comp_def,
    and_assoc]
  refine and_congr_right fun hv => ?_
  obtain ⟨x, hx⟩ := exists_row h hget hv hr
  obtain ⟨row, hrow, hpos⟩ := h.slots.row_of_rowid hget hv hr
  obtain ⟨c', y, hslot, hy, hpartitions⟩ := h.slots.position hrow hpos
  obtain rfl : c' = c := Option.some.inj (hslot.chunk.symm.trans hget)
  rw [Contents.rows, hx, Option.map_some, Option.some.injEq] at hy
  subst hy
  have hbits : ∀ y ∈ args.metadata,
      ((vec0SetMetadataFilterBitmap env.conv p v.shadow y.1 y.2 k).toOption.any
        (·.get off) = true ↔ y.2.Holds (metadataValue p x y.1)) := by
    intro y hy
    obtain ⟨b, hb, hbits⟩ := filter_ok env.conv h hclear hbest hget hy
    have hbit := hbits off hoff _ (by
      rw [expectedBit, if_pos hv, hr, Option.bind_some, hx, Option.map_some])
    rw [hb, Except.toOption, Option.any_some, hbit, decide_eq_true_iff]
  constructor
  · rintro ⟨hrowids, hfilters⟩
    exact ⟨x, hx, (hin r x hx).mp hrowids,
      fun y hy => by rw [hpartitions]; exact List.all_eq_true.mp hpart y hy,
      fun y hy => (hbits y hy).mp (List.all_eq_true.mp hfilters y hy)⟩
  · rintro ⟨x', hx', hadmitted⟩
    obtain rfl : x = x' := Option.some.inj (hx.symm.trans hx')
    exact ⟨(hin r x hx).mpr hadmitted.rowidIn,
      List.all_eq_true.mpr fun y hy => (hbits y hy).mpr (hadmitted.metadata y hy)⟩

theorem chunkVectors_get (h : History ops p v contents) (hget : v.shadow.chunks.get k = some c)
    {column : VectorColumn} (hcolumn : p.vectorColumns[args.vectorColumnIdx]? = some column) :
    (chunkVectors p v.shadow args column.dimensions k).length = p.chunkSize.val ∧
      ∀ off < p.chunkSize.val, c.validity.get off = true → ∀ r x, c.rowids[off]? = some r →
        contents r = some x → (chunkVectors p v.shadow args column.dimensions k)[off]? =
          some (x.vectors.getD args.vectorColumnIdx []) := by
  obtain ⟨blob, hblob, hlen⟩ := h.kept.shaped k c _ column hget hcolumn
  have hd : p.dimensions[args.vectorColumnIdx]? = some column.dimensions := by
    rw [Vec0Vtab.dimensions, List.getElem?_map, hcolumn, Option.map_some]
  simp only [chunkVectors, hblob, if_pos hlen]
  refine ⟨by simp, fun off hoff hv r x hr hx => ?_⟩
  have hvector := h.stores.vectors hd hget hv hr
  obtain ⟨vec, hvec⟩ : ∃ vec, x.vectors[args.vectorColumnIdx]? = some vec :=
    ⟨_, List.getElem?_eq_getElem (by
      rw [(h.stores.complete hx).vectors]
      exact (List.getElem?_eq_some_iff.mp hcolumn).1)⟩
  rw [Shadow.vectorAt, hblob, Option.bind_some, vectorOf, Contents.rows, hx, Option.map_some,
    Option.bind_some, hvec, Blob.read, Option.ite_none_right_eq_some] at hvector
  rw [List.getElem?_map, List.getElem?_range hoff, Option.map_some, List.getD_eq_getElem?_getD, hvec,
    Option.getD_some]
  exact hvector.2

section Query

variable (h : History ops p v contents) (hclear : Clear p contents v.shadow args)
  (hbest : vec0BestIndex p args = .ok ())
  (hin : ∀ r x, contents r = some x → (rowidsIn.all (fun arr => arr.contains r) = true ↔
    ∀ items, args.rowidIn = some items → ∃ item ∈ items, x.id.satisfies .eq item = true))

include h hclear hbest hin

theorem mem_candidates {column : VectorColumn}
    (hcolumn : p.vectorColumns[args.vectorColumnIdx]? = some column) (r : Rowid) (d : α) :
    (r, d) ∈ (scanChunks p v.shadow args column.dimensions).flatMap
        (candidates (scanArgs env p v.shadow args query n rowidsIn)) ↔
      AtDistance env p contents args query r d := by
  rw [List.mem_flatMap]
  constructor
  · rintro ⟨_, hchunk, hcand⟩
    obtain ⟨⟨k, c⟩, hc, rfl⟩ := List.mem_map.mp hchunk
    obtain ⟨off, hoff, hentry⟩ := List.mem_map.mp hcand
    obtain ⟨hoff, hcand⟩ := List.mem_filter.mp hoff
    have hoff : off < p.chunkSize.val := List.mem_range.mp hoff
    have hget : v.shadow.chunks.get k = some c := Table.get_eq_some.mpr (List.mem_filter.mp hc).1
    obtain ⟨r', hr⟩ : ∃ r', c.rowids[off]? = some r' :=
      ⟨_, List.getElem?_eq_getElem (by rw [(h.slots.sized hget).2]; exact hoff)⟩
    obtain ⟨hv, x, hx, hadmitted⟩ :=
      (isCandidate_iff h hclear hbest hin hc _ hoff hr).mp hcand
    have hvector := (chunkVectors_get h hget hcolumn).2 off hoff hv r' x hr hx
    simp only [slotEntry, List.getD_eq_getElem?_getD, hr, Option.getD_some, hvector, Option.elim_some,
      Prod.mk.injEq] at hentry
    obtain ⟨rfl, rfl⟩ := hentry
    exact ⟨x, hx, hadmitted, by rw [List.getD_eq_getElem?_getD]; rfl⟩
  · rintro ⟨x, hx, hadmitted, rfl⟩
    obtain ⟨row, hrow⟩ := entry_of_contents h hx
    obtain ⟨k, off, c, y, -, hslot, hy, hpartitions⟩ := h.slots.placed hrow
    rw [Contents.rows, hx, Option.map_some, Option.some.injEq] at hy
    subst hy
    have hc : (k, c) ∈ vec0ChunksIter v.shadow args :=
      List.mem_filter.mpr ⟨Table.get_eq_some.mp hslot.chunk, List.all_eq_true.mpr fun y hy => by
        rw [← hpartitions]
        exact hadmitted.partitions y hy⟩
    refine ⟨_, List.mem_map_of_mem hc, List.mem_map.mpr ⟨off, List.mem_filter.mpr ⟨?_, ?_⟩, ?_⟩⟩
    · exact List.mem_range.mpr hslot.lt
    · exact (isCandidate_iff h hclear hbest hin hc _ hslot.lt hslot.rowid).mpr
        ⟨hslot.valid, x, hx, hadmitted⟩
    · have hvector := (chunkVectors_get h hslot.chunk hcolumn).2 off hslot.lt hslot.valid r x
        hslot.rowid hx
      simp only [slotEntry, List.getD_eq_getElem?_getD, hslot.rowid, Option.getD_some, hvector,
        Option.elim_some]
      rfl

end Query

theorem candidate_position (h : History ops p v contents) (hc : (k, c) ∈ vec0ChunksIter v.shadow args)
    {vectors : List (List α)} (hoff : off < p.chunkSize.val)
    (hcand : isCandidate (scanArgs env p v.shadow args query n rowidsIn)
      ⟨k, c.validity, c.rowids, vectors⟩ off = true) :
    vec0GetChunkPosition v.shadow (c.rowids.getD off 0) = .ok (k, off) := by
  have hget : v.shadow.chunks.get k = some c := Table.get_eq_some.mpr (List.mem_filter.mp hc).1
  simp only [isCandidate, Bool.and_eq_true] at hcand
  have hr : c.rowids[off]? = some (c.rowids.getD off 0) := by
    rw [List.getD_eq_getElem?_getD,
      List.getElem?_eq_getElem (by rw [(h.slots.sized hget).2]; exact hoff), Option.getD_some]
  obtain ⟨row, hrow, hpos⟩ := h.slots.row_of_rowid hget hcand.1.1 hr
  exact vec0GetChunkPosition_eq_ok.mpr ⟨row, hrow, by rw [hpos, Option.getD_some]⟩

theorem nodup_candidates (h : History ops p v contents) :
    (((scanChunks p v.shadow args dimension).flatMap
      (candidates (scanArgs env p v.shadow args query n rowidsIn))).map Prod.fst).Nodup := by
  rw [List.map_flatMap, scanChunks, List.flatMap_map, List.nodup_flatMap]
  have hmem : ∀ {k c}, (k, c) ∈ vec0ChunksIter v.shadow args → ∀ {r vectors},
      r ∈ (candidates (scanArgs env p v.shadow args query n rowidsIn)
        ⟨k, c.validity, c.rowids, vectors⟩).map Prod.fst →
      ∃ off, vec0GetChunkPosition v.shadow r = .ok (k, off) := by
    intro k c hc r vectors hr
    obtain ⟨_, hentry, rfl⟩ := List.mem_map.mp hr
    obtain ⟨off, hoff, rfl⟩ := List.mem_map.mp hentry
    obtain ⟨hoff, hcand⟩ := List.mem_filter.mp hoff
    exact ⟨off, candidate_position h hc (List.mem_range.mp hoff) hcand⟩
  constructor
  · rintro ⟨k, c⟩ hc
    rw [candidates, List.map_map]
    refine List.Nodup.map_on (fun i hi j hj heq => ?_) (List.nodup_range.filter _)
    obtain ⟨hi, hcandi⟩ := List.mem_filter.mp hi
    obtain ⟨hj, hcandj⟩ := List.mem_filter.mp hj
    have hposi := candidate_position h hc (List.mem_range.mp hi) hcandi
    have hposj := candidate_position h hc (List.mem_range.mp hj) hcandj
    have hrowid : c.rowids.getD i 0 = c.rowids.getD j 0 := heq
    rw [hrowid] at hposi
    exact (Prod.mk.inj (Except.ok.inj (hposi.symm.trans hposj))).2
  · have hkeys : (vec0ChunksIter v.shadow args).Pairwise fun x y => x.1 ≠ y.1 :=
      (List.pairwise_map.mp v.shadow.chunks.nodup).filter _
    refine hkeys.imp_of_mem ?_
    rintro ⟨k, c⟩ ⟨k', c'⟩ hc hc' hne r hr hr'
    obtain ⟨off, hpos⟩ := hmem hc hr
    obtain ⟨off', hpos'⟩ := hmem hc' hr'
    exact hne (Prod.mk.inj (Except.ok.inj (hpos.symm.trans hpos'))).1

theorem scannable (h : History ops p v contents) (hclear : Clear p contents v.shadow args)
    (hbest : vec0BestIndex p args = .ok ()) {column : VectorColumn}
    (hcolumn : p.vectorColumns[args.vectorColumnIdx]? = some column) :
    ∀ c ∈ scanChunks p v.shadow args column.dimensions,
      Scannable (scanArgs env p v.shadow args query n rowidsIn) c := by
  intro _ hchunk
  obtain ⟨⟨k, c⟩, hc, rfl⟩ := List.mem_map.mp hchunk
  have hget : v.shadow.chunks.get k = some c := Table.get_eq_some.mpr (List.mem_filter.mp hc).1
  obtain ⟨hvalidity, hrowids⟩ := h.slots.sized hget
  refine ⟨⟨hvalidity, hrowids, (chunkVectors_get h hget hcolumn).1⟩, fun filter hfilter => ?_⟩
  obtain ⟨y, hy, rfl⟩ := List.mem_map.mp hfilter
  obtain ⟨b, hb, -⟩ := filter_ok env.conv h hclear hbest hget hy
  exact ⟨b, hb⟩

end Candidates

section Reads

variable [LinearOrder α] [Inhabited α] [Zero α] [Sub α] [Mul α] {ops : IndexOps α (Index α)}
  {v : Vec0 α (Index α)} {contents : Contents α} {env : Env α} {query : List α} {k n : Nat}
  {t : TableDef}

omit [LinearOrder α] [Inhabited α] [Zero α] [Sub α] [Mul α] in
theorem checkQuery_column (hcheck : checkQuery p v args = .ok (query, k)) :
    vec0BestIndex p args = .ok () ∧
      ∃ column, p.vectorColumns[args.vectorColumnIdx]? = some column := by
  simp only [checkQuery, bind_eq_ok, ofOption_eq_ok] at hcheck
  obtain ⟨⟨⟩, hbest, column, hcolumn, -⟩ := hcheck
  exact ⟨hbest, column, hcolumn⟩

theorem vec0FilterKnn_nearest (env : Env α) (h : History ops p v contents)
    (hindex : v.index = .none)
    (hclear : Clear p contents v.shadow args) (hcheck : checkQuery p v args = .ok (query, k)) :
    ∃ rows, vec0FilterKnn env p v args = some (.ok ⟨k, rows.length, rows, 0⟩) ∧
      Nearest k (AtDistance env p contents args query) rows := by
  obtain ⟨hbest, column, hcolumn⟩ := checkQuery_column hcheck
  by_cases hk : k = 0
  · subst hk
    refine ⟨[], vec0FilterKnn_eq_ok.mpr (.inl ⟨query, hcheck, rfl⟩), by simp, List.nodup_nil,
      List.Pairwise.nil, Nat.le_refl 0, fun _ _ _ _ => ⟨rfl, by simp⟩⟩
  · obtain ⟨rowidsIn, hread, hin⟩ := arrayRowidsIn_spec env h hclear
    have hdimension : v.dimensions.getD args.vectorColumnIdx 0 = column.dimensions := by
      rw [h.kept.dimensions, Vec0Vtab.dimensions, List.getD_eq_getElem?_getD, List.getElem?_map,
        hcolumn]
      rfl
    obtain ⟨rows, hrows, hsorted, hsmallest⟩ := vec0FilterKnnChunksIter_spec
      (scanArgs env p v.shadow args query k rowidsIn) (scannable h hclear hbest hcolumn)
    have hsearch : searchRows env p v args query k rowidsIn = some (.ok rows) := by
      simp only [searchRows, hindex, hdimension, hrows]
    refine ⟨rows, vec0FilterKnn_eq_ok.mpr (.inr (.inr ⟨query, k, rowidsIn, rows,
      Nat.pos_of_ne_zero hk, hcheck, hread, hsearch, rfl⟩)), ?_⟩
    exact hsmallest.nearest (fun r d => (mem_candidates h hclear hbest hin hcolumn r d).symm)
      (nodup_candidates h) hsorted

omit [LinearOrder α] [Inhabited α] [Sub α] [Mul α] in
theorem vec0ColumnKnn_eq (h : History ops p v contents) (ht : Describes t p) {r : Rowid}
    {x : UserRow α} (hx : contents r = some x) (d : α) (i : Int) :
    vec0ColumnKnn t p v.dimensions v.shadow (r, d) i =
      .ok (if i = vec0ColumnDistanceIdx t then some (.distance d) else expected t p x i) := by
  have hnone : i = vec0ColumnDistanceIdx t → i ≠ vec0ColumnId ∧ t.userColumn i = none := by
    rintro rfl
    refine ⟨?_, if_neg ?_⟩
    · rw [vec0ColumnDistanceIdx, vec0ColumnId]
      omega
    · rw [vec0ColumnDistanceIdx]
      omega
  unfold vec0ColumnKnn expected
  by_cases hid : i = vec0ColumnId
  · rw [if_pos hid, if_pos hid, if_neg fun hdist => (hnone hdist).1 hid, vec0ResultId_eq h hx]
    rfl
  · rw [if_neg hid, if_neg hid]
    cases hc : t.userColumn i with
    | none =>
      dsimp only
      split <;> rfl
    | some c =>
      have hmem := mem_of_userColumn hc
      have hdist : i ≠ vec0ColumnDistanceIdx t := fun hdist => by
        rw [(hnone hdist).2] at hc
        cases hc
      dsimp only
      rw [if_neg hdist]
      by_cases hkind : c.kind = .vector
      · rw [if_pos hkind, vectorResult_eq h ht hx hmem hkind]
        rfl
      · rw [if_neg hkind, otherResult_eq h ht hx hmem hkind]
        rfl

omit [LinearOrder α] [Inhabited α] [Zero α] [Sub α] [Mul α] in
theorem visited_knn {R : Vec0Cursor α → Rowid × α → Prop} {rows : List (Rowid × α)} {n m : Nat}
    (hn : rows.length ≤ n + m) (hm : m ≤ rows.length)
    (hR : ∀ i y, rows[i]? = some y → R (.knn ⟨k, rows.length, rows, i⟩) y) :
    List.Forall₂ R (visited n (.knn ⟨k, rows.length, rows, m⟩)) (rows.drop m) := by
  induction n generalizing m with
  | zero =>
    rw [List.drop_eq_nil_of_le (by omega)]
    exact .nil
  | succ n ih =>
    obtain hlt | rfl := Nat.lt_or_eq_of_le hm
    · have hvisited : visited (n + 1) (.knn ⟨k, rows.length, rows, m⟩) =
          .knn ⟨k, rows.length, rows, m⟩ :: visited n (.knn ⟨k, rows.length, rows, m + 1⟩) := by
        rw [visited, if_neg]
        · rfl
        · simpa [vec0Eof, Knn.vec0Eof] using hlt
      rw [hvisited, List.drop_eq_getElem_cons hlt]
      exact .cons (hR m _ (List.getElem?_eq_getElem hlt)) (ih (by omega) hlt)
    · rw [List.drop_length, visited, if_pos (by simp [vec0Eof, Knn.vec0Eof])]
      exact .nil

def Shows (t : TableDef) (p : Vec0Vtab) (v : Vec0 α (Index α)) (contents : Contents α)
    (c : Vec0Cursor α) (y : Rowid × α) : Prop :=
  ∃ x, contents y.1 = some x ∧ ∀ nochange i, vec0Column t p v.dimensions v.shadow nochange i c =
    .ok (if i = vec0ColumnDistanceIdx t then some (.distance y.2) else expected t p x i)

/-- After any run of statements on a table without an index a query passes, nearest first, the `k`
nearest of the rows that its constraints admit, each with its distance and with the values that were
last written. -/
theorem knn_reads (h : History ops p v contents) (hindex : v.index = .none) (ht : Describes t p)
    (hclear : Clear p contents v.shadow args) (hcheck : checkQuery p v args = .ok (query, k))
    (hn : k ≤ n) :
    ∃ data rows, vec0FilterKnn env p v args = some (.ok data) ∧
      Nearest k (AtDistance env p contents args query) rows ∧
      List.Forall₂ (Shows t p v contents) (visited n (.knn data)) rows := by
  obtain ⟨rows, hfilter, hnearest⟩ := vec0FilterKnn_nearest env h hindex hclear hcheck
  refine ⟨_, rows, hfilter, hnearest, ?_⟩
  refine visited_knn (m := 0) (hnearest.length_le.trans hn) (Nat.zero_le _) fun i y hy => ?_
  obtain ⟨x, hx, -⟩ := hnearest.entries y (List.mem_of_getElem? hy)
  refine ⟨x, hx, fun nochange i' => ?_⟩
  have hcurrent : rows.getD i default = y := by rw [List.getD_eq_getElem?_getD, hy, Option.getD_some]
  rw [vec0Column, hcurrent]
  exact vec0ColumnKnn_eq h ht hx y.2 i'

end Reads

section Sample

def unindexed : IndexOps Int (Index Int) :=
  ⟨none, fun i _ _ => (i, sqliteOk), fun i _ => (i, sqliteOk), fun i _ _ => i⟩

def sampleSearch : Vec0 Int (Index Int) × Contents Int :=
  execContents unindexed (.create sampleTable .none) (fun _ => none) sampleStatements

def sampleEnv : Env Int :=
  ⟨numberConversions, fun a b => |a.headD 0 - b.headD 0|, fun a b => |a.headD 0 - b.headD 0|, 1000⟩

/-- Rows 8 and 9, in the partition 1, with a text that is not less than `'C'`. -/
def sampleQuery : KnnArgs Int :=
  ⟨0, some ⟨.float32, [0]⟩, 2, some [.integer 8, .integer 9], [(0, .eq, .integer 1)],
    [(0, .compare .ge (.text [67#8]))]⟩

theorem sampleSearch_history :
    History unindexed sampleTable sampleSearch.1 sampleSearch.2 := by
  refine (History.create Index.none).exec fun stmt hstmt v => ?_
  simp only [sampleStatements, List.mem_cons, List.not_mem_nil, or_false] at hstmt
  obtain rfl | rfl | rfl | rfl | rfl := hstmt
  · trivial
  · trivial
  · trivial
  · trivial
  · intro x _
    trivial

theorem sampleQuery_decided (constraint : TextConstraint)
    (heq : MetadataConstraint.compare .ge (.text [67#8]) = constraint.constraint) (r : Rowid)
    (x : UserRow Int) (t : Bytes) (hx : sampleSearch.2 r = some x)
    (ht : x.metadata[0]? = some (.text t)) : constraint.Decided t := by
  obtain rfl : constraint = .compare .ge [67#8] := by
    cases constraint with
    | compare op target =>
      obtain ⟨rfl, htarget⟩ := MetadataConstraint.compare.inj heq
      rw [SqlValue.text.inj htarget]
    | isIn targets => cases heq
  obtain ⟨row, hrow⟩ := entry_of_contents sampleSearch_history hx
  have hkeys : sampleSearch.1.shadow.rowids.keys = [8, 9] := by decide +kernel
  have hr : r = 8 ∨ r = 9 := by
    have hmem : r ∈ sampleSearch.1.shadow.rowids.keys := by
      by_contra hnone
      rw [Table.get_eq_none.mpr hnone] at hrow
      cases hrow
    rw [hkeys] at hmem
    simpa using hmem
  have htext : (sampleSearch.2 r).bind (fun x => x.metadata[0]?) = some (.text t) := by
    rw [hx]
    exact ht
  obtain rfl | rfl := hr
  · have h8 : (sampleSearch.2 8).bind (fun x => x.metadata[0]?) =
        some (.text (List.replicate 13 67#8)) := by decide +kernel
    obtain rfl := SqlValue.text.inj (Option.some.inj (h8.symm.trans htext))
    decide
  · have h9 : (sampleSearch.2 9).bind (fun x => x.metadata[0]?) = some (.text []) := by
      decide +kernel
    obtain rfl := SqlValue.text.inj (Option.some.inj (h9.symm.trans htext))
    decide

theorem sampleQuery_clear : Clear sampleTable sampleSearch.2 sampleSearch.1.shadow sampleQuery where
  ids items hitems item hitem := by
    obtain rfl := Option.some.inj hitems
    simp only [List.mem_cons, List.not_mem_nil, or_false] at hitem
    obtain rfl | rfl := hitem <;> rfl
  typed y hy kind hkind := by
    obtain rfl := List.mem_singleton.mp hy
    obtain rfl := Option.some.inj hkind
    rfl
  decided y hy constraint heq r x t hx ht := by
    obtain rfl := List.mem_singleton.mp hy
    exact sampleQuery_decided constraint heq r x t hx ht
  chunkId y hy hkind k c hc := by
    have hkeys : sampleSearch.1.shadow.chunks.keys = [1] := by decide +kernel
    have hmem : k ∈ sampleSearch.1.shadow.chunks.keys := by
      by_contra hnone
      rw [Table.get_eq_none.mpr hnone] at hc
      cases hc
    rw [hkeys, List.mem_singleton] at hmem
    subst hmem
    decide

theorem sample_knn : ∃ data rows,
    vec0FilterKnn sampleEnv sampleTable sampleSearch.1 sampleQuery = some (.ok data) ∧
      Nearest 2 (AtDistance sampleEnv sampleTable sampleSearch.2 sampleQuery [0]) rows ∧
      List.Forall₂ (Shows sampleDef sampleTable sampleSearch.1 sampleSearch.2)
        (visited 2 (.knn data)) rows :=
  knn_reads sampleSearch_history (by decide +kernel) sampleDef_describes sampleQuery_clear
    (by decide +kernel) (by decide)

end Sample

end SqliteMultimodal.Vec.Cursor
