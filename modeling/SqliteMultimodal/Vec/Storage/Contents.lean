import SqliteMultimodal.Vec.Storage.Schema
import SqliteMultimodal.Vec.Storage.Text

namespace SqliteMultimodal.Vec.Storage

open Except

variable {α ι : Type} {p : Vec0Vtab}

structure UserRow (α : Type) extends Row α where
  id : SqlValue
  auxiliary : List SqlValue

abbrev Contents (α : Type) := Rowid → Option (UserRow α)

def Contents.rows (contents : Contents α) : Rows α := fun r => (contents r).map UserRow.toRow

def InsertArgs.key (args : InsertArgs p α) (rowid : Rowid) : SqlValue :=
  if p.pkIsText then args.id else .integer rowid

def InsertArgs.userRow (args : InsertArgs p α) (rowid : Rowid) : UserRow α :=
  ⟨args.row, args.key rowid, args.auxiliary⟩

def UpdateArgs.userRow (args : UpdateArgs p α) (x : UserRow α) : UserRow α :=
  ⟨args.row x.toRow, x.id, overlay args.auxiliary x.auxiliary⟩

/-- What a statement that has succeeded for `rowid` makes of the table. -/
def Contents.apply (contents : Contents α) (rowid : Rowid) : Statement p α → Contents α
  | .insert args => Function.update contents rowid (some (args.userRow rowid))
  | .update args => Function.update contents rowid ((contents rowid).map args.userRow)
  | .delete _ => Function.update contents rowid none

inductive History [Zero α] (ops : IndexOps α ι) (p : Vec0Vtab) : Vec0 α ι → Contents α → Prop
  | create (index : ι) : History ops p (.create p index) fun _ => none
  | ok {v v' contents} (stmt : Statement p α) {rowid : Rowid} :
    History ops p v contents → stmt.Kept v → vec0Update ops p v stmt = (v', .ok rowid) →
      History ops p v' (contents.apply rowid stmt)
  | error {v v' contents} (stmt : Statement p α) {rc : ResultCode} :
    History ops p v contents → stmt.Kept v → vec0Update ops p v stmt = (v', .error rc) →
      History ops p v' contents

theorem Contents.rows_update (contents : Contents α) (rowid : Rowid) (x : Option (UserRow α)) :
    Contents.rows (Function.update contents rowid x) =
      Function.update contents.rows rowid (x.map UserRow.toRow) := by
  funext r
  by_cases hr : r = rowid
  · rw [hr, Function.update_self, rows, Function.update_self]
  · rw [Function.update_of_ne hr, rows, Function.update_of_ne hr, rows]

theorem Contents.rows_apply (contents : Contents α) (rowid : Rowid) (stmt : Statement p α) :
    (contents.apply rowid stmt).rows = contents.rows.apply rowid stmt := by
  cases stmt with
  | insert args => exact rows_update contents rowid _
  | update args =>
    refine (rows_update contents rowid _).trans ?_
    rw [Rows.apply, rows, Option.map_map, Option.map_map]
    rfl
  | delete id => exact rows_update contents rowid none

namespace History

variable [Zero α] {ops : IndexOps α ι} {v : Vec0 α ι} {contents : Contents α}

theorem run (h : History ops p v contents) : Run ops p v contents.rows := by
  induction h with
  | create index => exact .create index
  | ok stmt _ _ hstmt ih =>
    rw [Contents.rows_apply]
    exact .ok stmt ih hstmt
  | error stmt _ _ hstmt ih => exact .error stmt ih hstmt

theorem kept (h : History ops p v contents) : KeptRun ops p v := by
  induction h with
  | create index => exact .create index
  | ok stmt _ hkept hstmt ih =>
    have hstep := ih.step stmt hkept
    rw [hstmt] at hstep
    exact hstep
  | error stmt _ hkept hstmt ih =>
    have hstep := ih.step stmt hkept
    rw [hstmt] at hstep
    exact hstep

theorem slots (h : History ops p v contents) : Slots p contents.rows v.shadow := Slots.run h.run

end History

section Live

variable {rows : Rows α} {s s' : Shadow α} {rowid chunkId k r : Rowid} {chunkOffset off : Nat}
  {c' : ChunkRow}

theorem Inserted.live [Zero α] {dimensions : List Nat} {args : InsertArgs p α}
    {vectorDatas : List (List α)} {s₁ s₂ : Shadow α}
    (hins : Inserted p dimensions args vectorDatas s s₁ s₂ s' rowid chunkId chunkOffset)
    (hslots : Slots p rows s) (hk : s'.chunks.get k = some c') (hv : c'.validity.get off = true)
    (hr : c'.rowids[off]? = some r) :
    (k, off) = (chunkId, chunkOffset) ∧ r = rowid ∨
      (k, off) ≠ (chunkId, chunkOffset) ∧ r ≠ rowid ∧
        ∃ c, s.chunks.get k = some c ∧ c.validity.get off = true ∧ c.rowids[off]? = some r := by
  obtain ⟨hslots₁, hlt, c, hc, -, -⟩ :=
    hslots.slotFound ⟨args.length_partitions, hins.partitions⟩ hins.slot
  have hsize := hslots₁.sized hc
  have hold : ∀ {d}, s₁.chunks.get k = some d → d.validity.get off = true →
      d.rowids[off]? = some r → (k, off) ≠ (chunkId, chunkOffset) → r ≠ rowid ∧
        ∃ c, s.chunks.get k = some c ∧ c.validity.get off = true ∧ c.rowids[off]? = some r := by
    intro d hd hbit hrow _
    refine ⟨hslots₁.ne_of_fresh hins.fresh hd hbit hrow, ?_⟩
    cases hins.slot with
    | latest _ _ _ _ _ hchunks _ _ _ => exact ⟨d, hchunks ▸ hd, hbit, hrow⟩
    | new hgrown _ =>
      rw [hgrown.chunks] at hd
      split at hd
      · obtain rfl := Option.some.inj hd
        exact absurd ((Bitmap.get_new _ _).symm.trans hbit) (by simp)
      · exact ⟨d, hd, hbit, hrow⟩
  rw [hins.chunks] at hk
  by_cases hplace : (k, off) = (chunkId, chunkOffset)
  · obtain ⟨rfl, rfl⟩ := Prod.mk.inj hplace
    rw [if_pos rfl, hc, Option.map_some, Option.some.injEq] at hk
    subst hk
    rw [ChunkRow.put, List.getElem?_set_self (by omega)] at hr
    exact .inl ⟨rfl, (Option.some.inj hr).symm⟩
  · refine .inr ⟨hplace, ?_⟩
    by_cases hkid : k = chunkId
    · subst hkid
      have hoff : off ≠ chunkOffset := fun heq => hplace (by rw [heq])
      rw [if_pos rfl, hc, Option.map_some, Option.some.injEq] at hk
      subst hk
      rw [ChunkRow.put, List.getElem?_set_ne hoff.symm] at hr
      have hbit := (hslots₁.valid_set hc hlt true off).trans (if_neg hoff)
      exact hold hc (hbit.symm.trans hv) hr hplace
    · rw [if_neg hkid] at hk
      exact hold hk hv hr hplace

theorem Deleted.live (hdel : Deleted p s s' rowid chunkId chunkOffset) (hslots : Slots p rows s)
    (hk : s'.chunks.get k = some c') (hv : c'.validity.get off = true)
    (hr : c'.rowids[off]? = some r) :
    (k, off) ≠ (chunkId, chunkOffset) ∧ r ≠ rowid ∧
      ∃ c, s.chunks.get k = some c ∧ c.validity.get off = true ∧ c.rowids[off]? = some r := by
  obtain ⟨row, hrow, hgetD⟩ := hdel.row
  obtain ⟨cid, coff, c, x, hpos, hslot, -⟩ := hslots.placed hrow
  obtain ⟨rfl, rfl⟩ : cid = chunkId ∧ coff = chunkOffset := by
    rwa [hpos, Option.getD_some, Prod.mk.injEq] at hgetD
  have hold : ∀ {d}, s.chunks.get k = some d → d.validity.get off = true →
      d.rowids[off]? = some r → (k, off) ≠ (cid, coff) → (k, off) ≠ (cid, coff) ∧ r ≠ rowid ∧
        ∃ c, s.chunks.get k = some c ∧ c.validity.get off = true ∧ c.rowids[off]? = some r :=
    fun hd hbit hrid hne =>
      ⟨hne, hslots.ne_of_slot_ne hrow hpos hd hbit hrid hne, _, hd, hbit, hrid⟩
  rw [hdel.chunks] at hk
  by_cases hkid : k = cid
  · subst hkid
    rw [if_pos rfl, hslot.chunk, Option.map_some, Option.some.injEq] at hk
    subst hk
    have hbit := (hslots.valid_set hslot.chunk hslot.lt false off).symm.trans hv
    split at hbit
    · cases hbit
    next hoff => exact hold hslot.chunk hbit hr fun heq => hoff (Prod.mk.inj heq).2
  · rw [if_neg hkid] at hk
    exact hold hk hv hr fun heq => hkid (Prod.mk.inj heq).1

theorem Updated.live {args : UpdateArgs p α} (hupd : Updated p args s s' rowid chunkId chunkOffset)
    (hslots : Slots p rows s) (hk : s.chunks.get k = some c') (hv : c'.validity.get off = true)
    (hr : c'.rowids[off]? = some r) :
    (k, off) = (chunkId, chunkOffset) ∧ r = rowid ∨ (k, off) ≠ (chunkId, chunkOffset) ∧ r ≠ rowid := by
  obtain ⟨row, hrow, hgetD⟩ := hupd.row
  obtain ⟨cid, coff, c, x, hpos, hslot, -⟩ := hslots.placed hrow
  obtain ⟨rfl, rfl⟩ : cid = chunkId ∧ coff = chunkOffset := by
    rwa [hpos, Option.getD_some, Prod.mk.injEq] at hgetD
  by_cases hplace : (k, off) = (cid, coff)
  · obtain ⟨rfl, rfl⟩ := Prod.mk.inj hplace
    obtain rfl : c = c' := Option.some.inj (hslot.chunk.symm.trans hk)
    exact .inl ⟨rfl, (Option.some.inj (hslot.rowid.symm.trans hr)).symm⟩
  · exact .inr ⟨hplace, hslots.ne_of_slot_ne hrow hpos hk hv hr hplace⟩

end Live

section Holds

variable {β : Type} {content content' : Rowid → Nat → Option β} {value : Rowid → Option β}
  {rows : Rows α} {s s' : Shadow α} {rowid chunkId : Rowid} {chunkOffset : Nat} {b : Option β}

def Holds (content : Rowid → Nat → Option β) (value : Rowid → Option β) (s : Shadow α) : Prop :=
  ∀ ⦃k c off r⦄, s.chunks.get k = some c → c.validity.get off = true → c.rowids[off]? = some r →
    content k off = value r

namespace Holds

theorem empty : Holds content value (.empty : Shadow α) := by
  intro k c off r hk
  simp [Shadow.empty, AutoTable.empty] at hk

theorem read {r : Rowid} {row : RowidsRow} (h : Holds content value s) (hslots : Slots p rows s)
    (hr : s.rowids.get r = some row) :
    ∃ k off, vec0GetChunkPosition s r = .ok (k, off) ∧ content k off = value r := by
  obtain ⟨k, off, c, x, hpos, hslot, -⟩ := hslots.placed hr
  refine ⟨k, off, vec0GetChunkPosition_eq_ok.mpr ⟨row, hr, ?_⟩,
    h hslot.chunk hslot.valid hslot.rowid⟩
  rw [hpos, Option.getD_some]

theorem insert [Zero α] {dimensions : List Nat} {args : InsertArgs p α}
    {vectorDatas : List (List α)} {s₁ s₂ : Shadow α} (h : Holds content value s)
    (hslots : Slots p rows s)
    (hins : Inserted p dimensions args vectorDatas s s₁ s₂ s' rowid chunkId chunkOffset)
    (hown : content' chunkId chunkOffset = b)
    (hother : ∀ k c off, s.chunks.get k = some c → (k, off) ≠ (chunkId, chunkOffset) →
      content' k off = content k off) : Holds content' (Function.update value rowid b) s' := by
  intro k c' off r hk hv hr
  obtain ⟨hplace, rfl⟩ | ⟨hplace, hne, c, hc, hbit, hrow⟩ := hins.live hslots hk hv hr
  · obtain ⟨rfl, rfl⟩ := Prod.mk.inj hplace
    rw [Function.update_self, hown]
  · rw [Function.update_of_ne hne, hother k c off hc hplace, h hc hbit hrow]

theorem delete (h : Holds content value s) (hslots : Slots p rows s)
    (hdel : Deleted p s s' rowid chunkId chunkOffset)
    (hother : ∀ k off, (k, off) ≠ (chunkId, chunkOffset) → content' k off = content k off) :
    Holds content' (Function.update value rowid b) s' := by
  intro k c' off r hk hv hr
  obtain ⟨hplace, hne, c, hc, hbit, hrow⟩ := hdel.live hslots hk hv hr
  rw [Function.update_of_ne hne, hother k off hplace, h hc hbit hrow]

theorem update {args : UpdateArgs p α} {s₁ : Shadow α} (h : Holds content value s)
    (hslots : Slots p rows s) (hupd : Updated p args s s₁ rowid chunkId chunkOffset)
    (hchunks : s'.chunks = s.chunks) (hown : content' chunkId chunkOffset = b)
    (hother : ∀ k off, (k, off) ≠ (chunkId, chunkOffset) → content' k off = content k off) :
    Holds content' (Function.update value rowid b) s' := by
  intro k c' off r hk hv hr
  rw [hchunks] at hk
  obtain ⟨hplace, rfl⟩ | ⟨hplace, hne⟩ := hupd.live hslots hk hv hr
  · obtain ⟨rfl, rfl⟩ := Prod.mk.inj hplace
    rw [Function.update_self, hown]
  · rw [Function.update_of_ne hne, hother k off hplace, h hk hv hr]

end Holds

end Holds

section Metadata

variable {rows : Rows α} {s s' : Shadow α} {i : Nat} {kind : MetadataKind} {v : SqlValue}
  {rowid chunkId : Rowid} {chunkOffset : Nat} {isupdate : Bool}

def MetadataKind.stored : MetadataKind → SqlValue → SqlValue
  | .boolean, .integer v => .integer (if v.toInt32 ≠ 0 then 1 else 0)
  | _, v => v

def MetadataChunk.value (off : Nat) : MetadataChunk → Option SqlValue
  | .boolean bits =>
    if off / 8 < bits.bytes.length then some (.integer (if bits.get off then 1 else 0)) else none
  | .integer values => values[off]?.map .integer
  | .float values => values[off]?.map .real
  | .text _ => none

def Shadow.metadataAt (s : Shadow α) (i : Nat) (chunkId : Rowid) (off : Nat) : Option SqlValue :=
  ((s.column i).1 chunkId).bind (MetadataChunk.value off)

def metadataOf (rows : Rows α) (i : Nat) (kind : MetadataKind) (r : Rowid) : Option SqlValue :=
  (rows r).bind fun x => x.metadata[i]?.map kind.stored

theorem metadataAt_congr (h : s'.column i = s.column i) : s'.metadataAt i = s.metadataAt i := by
  funext k off
  rw [Shadow.metadataAt, h, Shadow.metadataAt]

theorem metadataAt_replace {old new : MetadataChunk} {w : Option SqlValue}
    (hold : s.metadataChunks.get (i, chunkId) = some old)
    (hs' : s'.metadataChunks = s.metadataChunks.modify (i, chunkId) fun _ => new)
    (hown : new.value chunkOffset = w)
    (hother : ∀ off, off ≠ chunkOffset → new.value off = old.value off) (k : Rowid) (off : Nat) :
    s'.metadataAt i k off = if (k, off) = (chunkId, chunkOffset) then w else s.metadataAt i k off := by
  have hget : (s'.column i).1 k = if k = chunkId then some new else (s.column i).1 k := by
    show s'.metadataChunks.get (i, k) = _
    rw [hs', get_replace hold]
    rfl
  rw [Shadow.metadataAt, hget, Shadow.metadataAt]
  by_cases hk : k = chunkId
  · subst hk
    have hcol : (s.column i).1 k = some old := hold
    rw [if_pos rfl, hcol, Option.bind_some, Option.bind_some]
    by_cases hoff : off = chunkOffset
    · rw [if_pos (by rw [hoff]), hoff, hown]
    · rw [if_neg fun heq => hoff (Prod.mk.inj heq).2, hother off hoff]
  · rw [if_neg hk, if_neg fun heq => hk (Prod.mk.inj heq).1]

theorem value_boolean_set {bits : Bitmap} {off : Nat} {b : Bool}
    (hlt : chunkOffset / 8 < bits.bytes.length) :
    (MetadataChunk.boolean (bits.set chunkOffset b)).value off =
      if off = chunkOffset then some (.integer (if b then 1 else 0))
      else (MetadataChunk.boolean bits).value off := by
  simp only [MetadataChunk.value, Bitmap.length_set, Bitmap.get_set _ _ off b hlt]
  by_cases hoff : off = chunkOffset
  · rw [if_pos hoff, if_pos hoff, hoff, if_pos hlt]
  · rw [if_neg hoff, if_neg hoff]

theorem vec0WriteMetadataValue_value (hkind : p.metadataKinds[i]? = some kind)
    (htext : kind ≠ .text)
    (h : vec0WriteMetadataValue p s i rowid chunkId chunkOffset v isupdate = .ok s') (k : Rowid)
    (off : Nat) : s'.metadataAt i k off =
      if (k, off) = (chunkId, chunkOffset) then some (kind.stored v) else s.metadataAt i k off := by
  unfold vec0WriteMetadataValue at h
  rw [hkind] at h
  cases kind with
  | boolean =>
    cases v with
    | integer v =>
      simp only [bind_eq_ok, require_eq_ok] at h
      obtain ⟨_, -, h⟩ := h
      split at h
      next bits hget =>
        simp only [bind_eq_ok, require_eq_ok, pure_eq_ok] at h
        obtain ⟨_, hlt, rfl⟩ := h
        refine metadataAt_replace hget rfl ?_ (fun off hoff => ?_) k off
        · rw [value_boolean_set hlt, if_pos rfl]
          simp only [decide_eq_true_eq, MetadataKind.stored]
        · rw [value_boolean_set hlt, if_neg hoff]
      next => simp at h
    | _ => simp at h
  | integer =>
    cases v with
    | integer v =>
      dsimp only at h
      split at h
      next values hget =>
        simp only [bind_eq_ok, require_eq_ok, pure_eq_ok] at h
        obtain ⟨_, hlt, rfl⟩ := h
        refine metadataAt_replace hget rfl ?_ (fun off hoff => ?_) k off
        · rw [MetadataChunk.value, List.getElem?_set_self hlt]
          rfl
        · rw [MetadataChunk.value, MetadataChunk.value, List.getElem?_set_ne hoff.symm]
      next => simp at h
    | _ => simp at h
  | float =>
    cases v with
    | real v =>
      dsimp only at h
      split at h
      next values hget =>
        simp only [bind_eq_ok, require_eq_ok, pure_eq_ok] at h
        obtain ⟨_, hlt, rfl⟩ := h
        refine metadataAt_replace hget rfl ?_ (fun off hoff => ?_) k off
        · rw [MetadataChunk.value, List.getElem?_set_self hlt]
          rfl
        · rw [MetadataChunk.value, MetadataChunk.value, List.getElem?_set_ne hoff.symm]
      next => simp at h
    | _ => simp at h
  | text => exact absurd rfl htext

theorem vec0UpdateDeleteClearMetadata_value (k : Rowid) (off : Nat)
    (hne : (k, off) ≠ (chunkId, chunkOffset)) :
    (vec0UpdateDeleteClearMetadata s i rowid chunkId chunkOffset).metadataAt i k off =
      s.metadataAt i k off := by
  unfold vec0UpdateDeleteClearMetadata
  dsimp only
  split
  next bits hget =>
    refine (metadataAt_replace hget rfl rfl (fun off hoff => ?_) k off).trans (if_neg hne)
    simp only [MetadataChunk.value, Bitmap.length_set, Bitmap.get_set_false, hoff, decide_false,
      Bool.not_false, Bool.and_true]
  next values hget =>
    refine (metadataAt_replace hget rfl rfl (fun off hoff => ?_) k off).trans (if_neg hne)
    rw [MetadataChunk.value, MetadataChunk.value, List.getElem?_set_ne hoff.symm]
  next values hget =>
    refine (metadataAt_replace hget rfl rfl (fun off hoff => ?_) k off).trans (if_neg hne)
    rw [MetadataChunk.value, MetadataChunk.value, List.getElem?_set_ne hoff.symm]
  next views hget =>
    have hother : ∀ off, off ≠ chunkOffset →
        (MetadataChunk.text (views.set chunkOffset zeroView)).value off =
          (MetadataChunk.text views).value off := fun _ _ => rfl
    exact (metadataAt_replace hget rfl rfl hother k off).trans (if_neg hne)
  next => rfl

theorem metadataAt_slotFound [Zero α] {dimensions : List Nat} {values : List SqlValue} {k : Rowid}
    {c : ChunkRow} (hslot : SlotFound p dimensions values s s' chunkId chunkOffset)
    (hk : s.chunks.get k = some c) (off : Nat) : s'.metadataAt i k off = s.metadataAt i k off := by
  have hget : s'.metadataChunks.get (i, k) = s.metadataChunks.get (i, k) := by
    cases hslot with
    | latest _ _ _ _ _ _ _ hmetadata _ => rw [hmetadata]
    | new hgrown _ =>
      rw [hgrown.metadataChunks, if_neg]
      rintro ⟨rfl, -⟩
      exact absurd (hgrown.fresh.symm.trans hk) (by simp)
  exact congrArg (Option.bind · (MetadataChunk.value off)) hget

theorem metadataOf_update (rows : Rows α) (r : Rowid) (x : Option (Row α)) :
    metadataOf (Function.update rows r x) i kind =
      Function.update (metadataOf rows i kind) r (x.bind fun x => x.metadata[i]?.map kind.stored) := by
  funext r'
  by_cases hr : r' = r
  · subst hr
    rw [metadataOf, Function.update_self, Function.update_self]
  · rw [metadataOf, Function.update_of_ne hr, Function.update_of_ne hr, metadataOf]

theorem Holds.metadata_update {args : UpdateArgs p α} {s₁ : Shadow α} {x : Row α}
    (h : Holds (s.metadataAt i) (metadataOf rows i kind) s) (hslots : Slots p rows s)
    (hupd : Updated p args s s₁ rowid chunkId chunkOffset) (hchunks : s'.chunks = s.chunks)
    (hkind : p.metadataKinds[i]? = some kind) (htext : kind ≠ .text) (hx : rows rowid = some x)
    (hlen : x.metadata.length = p.metadataKinds.length) :
    Holds (s₁.metadataAt i) (metadataOf (Function.update rows rowid (some (args.row x))) i kind)
      s' := by
  have hi := (List.getElem?_eq_some_iff.mp hkind).1
  obtain ⟨w, hgiven⟩ : ∃ w, args.metadata[i]? = some w :=
    ⟨_, List.getElem?_eq_getElem (by rw [args.length_metadata]; exact hi)⟩
  obtain ⟨o, hold⟩ : ∃ o, x.metadata[i]? = some o :=
    ⟨_, List.getElem?_eq_getElem (by rw [hlen]; exact hi)⟩
  have hnew : (args.row x).metadata[i]? = some (w.getD o) :=
    getElem?_overlay hgiven hold
  obtain ⟨s₀, hcol₀, hmeta⟩ := hupd.metadata
  rw [metadataOf_update, Option.bind_some, hnew, Option.map_some]
  cases w with
  | none =>
    have hself : metadataOf rows i kind rowid = some (kind.stored o) := by
      rw [metadataOf, hx, Option.bind_some, hold, Option.map_some]
    have hkeep : s₁.metadataAt i = s.metadataAt i :=
      metadataAt_congr ((writeMetadata_column_none hmeta hgiven).trans (hcol₀ i))
    rw [Option.getD_none, ← hself, Function.update_eq_self, hkeep]
    intro k c off r hk
    rw [hchunks] at hk
    exact h hk
  | some w =>
    obtain ⟨t₁, t₂, hwrite, hcol₁, hcol⟩ := writeMetadata_column_some hmeta hgiven
    have hat := vec0WriteMetadataValue_value hkind htext hwrite
    rw [metadataAt_congr hcol]
    refine h.update hslots hupd hchunks ((hat _ _).trans (if_pos rfl)) fun k off hne => ?_
    rw [hat, if_neg hne, metadataAt_congr (hcol₁.trans (hcol₀ i))]

end Metadata

section Vectors

variable {rows : Rows α} {s s' : Shadow α} {j d : Nat} {rowid chunkId : Rowid} {chunkOffset : Nat}

def Shadow.vectorAt (s : Shadow α) (j d : Nat) (chunkId : Rowid) (off : Nat) : Option (List α) :=
  (s.vectorChunks.get (j, chunkId)).bind fun blob => Blob.read blob (off * d) d

theorem vectorAt_congr (h : ∀ k, s'.vectorChunks.get (j, k) = s.vectorChunks.get (j, k)) :
    s'.vectorAt j d = s.vectorAt j d := by
  funext k off
  rw [Shadow.vectorAt, h, Shadow.vectorAt]

theorem vectorAt_write {blob blob' vec : List α} (hlen : vec.length = d)
    (hblob : s.vectorChunks.get (j, chunkId) = some blob)
    (hwrite : Blob.write blob (chunkOffset * d) vec = some blob') {k : Rowid}
    (hget : s'.vectorChunks.get (j, k) =
      if k = chunkId then some blob' else s.vectorChunks.get (j, k)) (off : Nat) :
    s'.vectorAt j d k off =
      if (k, off) = (chunkId, chunkOffset) then some vec else s.vectorAt j d k off := by
  rw [Shadow.vectorAt, hget, Shadow.vectorAt]
  by_cases hk : k = chunkId
  · subst hk
    rw [if_pos rfl, hblob, Option.bind_some, Option.bind_some]
    by_cases hoff : off = chunkOffset
    · rw [if_pos (by rw [hoff]), hoff, ← Blob.read_write_self hwrite, hlen]
    · rw [if_neg fun heq => hoff (Prod.mk.inj heq).2, Blob.read_write_of_disjoint hwrite]
      rw [hlen]
      rcases Nat.lt_or_gt_of_ne hoff with hlt | hlt
      · exact .inl (by rw [← Nat.succ_mul]; exact Nat.mul_le_mul_right d hlt)
      · exact .inr (by rw [← Nat.succ_mul]; exact Nat.mul_le_mul_right d hlt)
  · rw [if_neg hk, if_neg fun heq => hk (Prod.mk.inj heq).1]

theorem vec0UpdateUpdateVectorColumn_at {dimensions : List Nat} {column : VectorColumn} {i : Nat}
    {u : ParsedVector α}
    (h : vec0UpdateUpdateVectorColumn dimensions s column chunkId chunkOffset i u = .ok s') :
    (∀ j d, j ≠ i → s'.vectorAt j d = s.vectorAt j d) ∧
      ∀ d, dimensions[i]? = some d → ∀ k off, s'.vectorAt i d k off =
        if (k, off) = (chunkId, chunkOffset) then some u.elements else s.vectorAt i d k off := by
  simp only [vec0UpdateUpdateVectorColumn, checkVector, bind_eq_ok, ofOption_eq_ok, require_eq_ok,
    pure_eq_ok] at h
  obtain ⟨_, ⟨_, -, hlen⟩, blob, hblob, blob', hwrite, rfl⟩ := h
  refine ⟨fun j d hj => vectorAt_congr fun k => ?_, fun d hd k off => ?_⟩
  · rw [Table.get_modify, if_neg fun heq => hj (Prod.mk.inj heq).1]
  · have hsize : dimensions.getD i 0 = d := by
      rw [List.getD_eq_getElem?_getD, hd, Option.getD_some]
    rw [hsize] at hlen hwrite
    exact vectorAt_write hlen hblob hwrite (get_replace hblob blob' k) off

theorem updateVectors_at {ops : IndexOps α ι} {pzError : Nat → Bool}
    {dimensions dimensions' : List Nat} {index index' : ι}
    {xs : List ((VectorColumn × Option (Option (ParsedVector α))) × Nat)}
    (hkept : VectorsKept pzError dimensions xs) (hnodup : (xs.map Prod.snd).Nodup)
    (h : updateVectors ops pzError rowid chunkId chunkOffset xs dimensions index s =
      (dimensions', index', .ok s')) (hd : dimensions[j]? = some d) :
    ((∀ x ∈ xs, x.2 = j → x.1.2 = none) → s'.vectorAt j d = s.vectorAt j d) ∧
      ∀ column u, ((column, some (some u)), j) ∈ xs → ∀ k off, s'.vectorAt j d k off =
        if (k, off) = (chunkId, chunkOffset) then some u.elements else s.vectorAt j d k off := by
  induction xs generalizing index s with
  | nil =>
    obtain ⟨-, -, hs⟩ := by simpa [updateVectors] using h
    subst hs
    exact ⟨fun _ => rfl, fun _ _ hx => absurd hx List.not_mem_nil⟩
  | cons x xs ih =>
    obtain ⟨⟨column, _ | _ | u⟩, i⟩ := x
    · obtain ⟨hunset, hset⟩ := ih hkept (List.nodup_cons.mp hnodup).2 h
      refine ⟨fun hall => hunset fun x hx => hall x (List.mem_cons_of_mem _ hx),
        fun c w hw => hset c w ?_⟩
      obtain heq | hw := List.mem_cons.mp hw
      · simp at heq
      · exact hw
    · simp [updateVectors] at h
    · obtain ⟨⟨-, hdims⟩, hrest⟩ := hkept
      simp only [updateVectors, hdims] at h
      split at h
      · simp at h
      next s₁ hs₁ =>
        obtain ⟨hnull, hs₁⟩ := updateVector_eq_ok.mp hs₁
        obtain ⟨hother, hown⟩ := vec0UpdateUpdateVectorColumn_at hs₁
        obtain ⟨hx, hnodup⟩ := List.nodup_cons.mp hnodup
        obtain ⟨hunset, hset⟩ := ih (hrest hnull (checkVector_of_ok hs₁)) hnodup h
        by_cases hi : j = i
        · subst hi
          have hlast : s'.vectorAt j d = s₁.vectorAt j d := hunset fun x hmem heq =>
            absurd (List.mem_map.mpr ⟨x, hmem, heq⟩) hx
          refine ⟨fun hall => ?_, fun c w hw k off => ?_⟩
          · cases hall _ List.mem_cons_self rfl
          · obtain heq | hw := List.mem_cons.mp hw
            · obtain rfl : w = u := by simpa using congrArg (fun x => x.1.2) heq
              rw [hlast, hown d hd]
            · exact absurd (List.mem_map.mpr ⟨_, hw, rfl⟩) hx
        · rw [← hother j d hi]
          refine ⟨fun hall => hunset fun x hx => hall x (List.mem_cons_of_mem _ hx),
            fun c w hw => hset c w ?_⟩
          obtain heq | hw := List.mem_cons.mp hw
          · exact absurd (congrArg Prod.snd heq) hi
          · exact hw

theorem Holds.vectors_insert [Zero α] {dimensions : List Nat} {args : InsertArgs p α}
    {vectorDatas : List (List α)} {s₁ s₂ : Shadow α}
    (h : Holds (s.vectorAt j d) (vectorOf rows j) s) (hslots : Slots p rows s)
    (hins : Inserted p dimensions args vectorDatas s s₁ s₂ s' rowid chunkId chunkOffset)
    (hj : j < p.vectorColumns.length) (hd : dimensions[j]? = some d) :
    Holds (s'.vectorAt j d) (vectorOf (Function.update rows rowid (some args.row)) j) s' := by
  obtain ⟨vec, hdata, hrow, hlen⟩ := Vectors.vectorDatas_eq hins hj hd
  obtain ⟨hframe, hwritten⟩ := writeVectors_get hins.written
  obtain ⟨blob, blob', hblob, -, hwrite, hblob'⟩ := hwritten j d vec hd hdata
  have hat : ∀ k off, s'.vectorAt j d k off =
      if (k, off) = (chunkId, chunkOffset) then some vec else s₁.vectorAt j d k off := by
    refine fun k off => vectorAt_write hlen hblob hwrite ?_ off
    split
    next hk => rw [hk, hblob']
    next hk => exact hframe j k hk
  rw [vectorOf_update, Option.bind_some, hrow]
  refine h.insert hslots hins ((hat _ _).trans (if_pos rfl)) fun k c off hk hne => ?_
  rw [hat, if_neg hne, Shadow.vectorAt, Shadow.vectorAt]
  cases hins.slot with
  | latest _ _ _ _ _ _ hvectors _ _ => rw [hvectors]
  | new hgrown _ =>
    rw [hgrown.vectorChunks, if_neg]
    rintro ⟨rfl, -⟩
    exact absurd (hgrown.fresh.symm.trans hk) (by simp)

theorem updateVectors_ne_some_none {ops : IndexOps α ι} {pzError : Nat → Bool}
    {dimensions dimensions' : List Nat} {index index' : ι}
    {xs : List ((VectorColumn × Option (Option (ParsedVector α))) × Nat)}
    (h : updateVectors ops pzError rowid chunkId chunkOffset xs dimensions index s =
      (dimensions', index', .ok s')) : ∀ x ∈ xs, x.1.2 ≠ some none := by
  induction xs generalizing dimensions index s with
  | nil => exact fun x hx => absurd hx List.not_mem_nil
  | cons x xs ih =>
    obtain ⟨⟨column, _ | _ | u⟩, i⟩ := x
    · exact List.forall_mem_cons.mpr ⟨by simp, ih h⟩
    · simp [updateVectors] at h
    · simp only [updateVectors] at h
      split at h
      · simp at h
      · exact List.forall_mem_cons.mpr ⟨by simp, ih h⟩

theorem Holds.vectors_update {ops : IndexOps α ι} {args : UpdateArgs p α} {s₁ : Shadow α}
    {dimensions dimensions' : List Nat} {index index' : ι} {x : Row α}
    (h : Holds (s.vectorAt j d) (vectorOf rows j) s) (hslots : Slots p rows s)
    (hupd : Updated p args s s₁ rowid chunkId chunkOffset)
    (hkept : VectorsKept args.pzError dimensions (p.vectorColumns.zip args.vectors).zipIdx)
    (hloop : updateVectors ops args.pzError rowid chunkId chunkOffset
      (p.vectorColumns.zip args.vectors).zipIdx
      dimensions index s₁ = (dimensions', index', .ok s'))
    (hj : j < p.vectorColumns.length) (hd : dimensions[j]? = some d) (hx : rows rowid = some x)
    (hlen : x.vectors.length = p.vectorColumns.length) :
    Holds (s'.vectorAt j d) (vectorOf (Function.update rows rowid (some (args.row x))) j) s' := by
  obtain ⟨w, hgiven⟩ : ∃ w, args.vectors[j]? = some w :=
    ⟨_, List.getElem?_eq_getElem (by rw [args.length_vectors]; exact hj)⟩
  obtain ⟨o, hold⟩ : ∃ o, x.vectors[j]? = some o :=
    ⟨_, List.getElem?_eq_getElem (by rw [hlen]; exact hj)⟩
  have hzip : (p.vectorColumns.zip args.vectors)[j]? = some (p.vectorColumns[j], w) := by
    rw [List.getElem?_zip_eq_some]
    exact ⟨List.getElem?_eq_getElem hj, hgiven⟩
  have hmem : ((p.vectorColumns[j], w), j) ∈ (p.vectorColumns.zip args.vectors).zipIdx :=
    List.mem_zipIdx_iff_getElem?.mpr hzip
  have hnodup : ((p.vectorColumns.zip args.vectors).zipIdx.map Prod.snd).Nodup := by
    rw [List.zipIdx_map_snd]
    exact List.nodup_range'
  obtain ⟨hunset, hset⟩ := updateVectors_at hkept hnodup hloop hd
  have hsame : s₁.vectorAt j d = s.vectorAt j d := vectorAt_congr fun k => by rw [hupd.vectorChunks]
  have hnew : (args.row x).vectors[j]? = some ((w.map elements).getD o) :=
    getElem?_overlay (by rw [List.getElem?_map, hgiven, Option.map_some]) hold
  obtain ⟨_, hs'⟩ := updateVectors_frame (congrArg (fun x => x.2.2) hloop)
  have hchunks : s'.chunks = s.chunks := by rw [hs', hupd.chunks]
  rw [vectorOf_update, Option.bind_some, hnew]
  cases w with
  | none =>
    have hself : vectorOf rows j rowid = some o := by
      rw [vectorOf, hx, Option.bind_some, hold]
    have hkeep : s'.vectorAt j d = s.vectorAt j d := by
      refine (hunset fun y hy hyj => ?_).trans hsame
      have hy := List.mem_zipIdx_iff_getElem?.mp hy
      rw [hyj, hzip] at hy
      rw [← Option.some.inj hy]
    rw [Option.map_none, Option.getD_none, ← hself, Function.update_eq_self, hkeep]
    intro k c off r hk
    rw [hchunks] at hk
    exact h hk
  | some w =>
    cases w with
    | none => exact absurd rfl (updateVectors_ne_some_none hloop _ hmem)
    | some u =>
      refine h.update hslots hupd hchunks ((hset _ u hmem _ _).trans (if_pos rfl)) fun k off hne => ?_
      rw [hset _ u hmem, if_neg hne, hsame]

end Vectors

section Auxiliary

variable {s s' : Shadow α} {rowid chunkId : Rowid} {chunkOffset : Nat}

theorem writeMetadata_auxiliary {values : List (Option SqlValue)} {isupdate : Bool}
    (h : writeMetadata p s rowid chunkId chunkOffset values isupdate = .ok s') :
    s'.auxiliary = s.auxiliary := by
  refine foldlM_eq (g := Shadow.auxiliary) (fun s s' x _ hx => ?_) h
  split at hx
  · obtain rfl := pure_eq_ok.mp hx
    rfl
  · obtain ⟨_, _, -, rfl⟩ := vec0WriteMetadataValue_frame hx
    rfl

theorem clearMetadata_auxiliary (s : Shadow α) (rowid chunkId : Rowid) (chunkOffset : Nat) :
    (clearMetadata p s rowid chunkId chunkOffset).auxiliary = s.auxiliary := by
  refine foldlM_eq (g := Shadow.auxiliary) (fun s s' i _ hi => ?_)
    (clearMetadata_eq_foldlM p s rowid chunkId chunkOffset)
  obtain rfl := Except.ok.inj hi
  unfold vec0UpdateDeleteClearMetadata
  dsimp only
  split <;> rfl

def setGiven {β : Type} (row : List β) (x : Option β × Nat) : List β := x.1.elim row (row.set x.2)

theorem foldl_setGiven {β : Type} (values : List (Option β)) (before row : List β)
    (h : values.length = row.length) :
    (values.zipIdx before.length).foldl setGiven (before ++ row) = before ++ overlay values row := by
  induction values generalizing before row with
  | nil =>
    obtain rfl := List.length_eq_zero_iff.mp h.symm
    rfl
  | cons o values ih =>
    cases row with
    | nil => simp at h
    | cons x row =>
      have hset : setGiven (before ++ x :: row) (o, before.length) =
          (before ++ [o.getD x]) ++ row := by
        cases o <;> simp [setGiven]
      have hlen : before.length + 1 = (before ++ [o.getD x]).length := by simp
      rw [List.zipIdx_cons, List.foldl_cons, hset, hlen, ih _ row (Nat.succ.inj h)]
      simp [overlay]

theorem updateAuxiliary_get (s : Shadow α) (rowid : Rowid) (values : List (Option SqlValue))
    (r : Rowid) : (updateAuxiliary s rowid values).auxiliary.get r =
      if r = rowid then (s.auxiliary.get r).map fun row => values.zipIdx.foldl setGiven row
      else s.auxiliary.get r := by
  unfold updateAuxiliary
  generalize values.zipIdx = xs
  induction xs generalizing s with
  | nil =>
    split
    · exact Option.map_id'.symm
    · rfl
  | cons x xs ih =>
    obtain ⟨_ | v, i⟩ := x
    · exact ih s
    · refine (ih (vec0UpdateUpdateAuxColumn s i v rowid)).trans ?_
      simp only [vec0UpdateUpdateAuxColumn, Table.get_modify, List.foldl_cons]
      split
      · exact Option.map_map ..
      · rfl

theorem deleteShadow_auxiliary {id : SqlValue} (h : deleteShadow p s id = .ok (s', rowid))
    (haux : p.auxiliaryTypes.length ≠ 0) (r : Rowid) :
    s'.auxiliary.get r = if r = rowid then none else s.auxiliary.get r := by
  simp only [deleteShadow, bind_eq_ok, pure_eq_ok, Prod.exists, Prod.mk.injEq] at h
  obtain ⟨_, -, cid, off, -, t, hclear, rfl, rfl⟩ := h
  simp only [vec0UpdateDeleteClearValidity, bind_eq_ok, ofOption_eq_ok, require_eq_ok,
    pure_eq_ok] at hclear
  obtain ⟨_, -, _, -, _, -, rfl⟩ := hclear
  rw [clearMetadata_auxiliary, if_pos (Nat.pos_of_ne_zero haux)]
  exact Table.get_delete ..

theorem updateShadow_auxiliary {args : UpdateArgs p α}
    (h : updateShadow p s args = .ok (s', rowid, chunkId, chunkOffset)) (r : Rowid) :
    s'.auxiliary.get r = (updateAuxiliary s rowid args.auxiliary).auxiliary.get r := by
  simp only [updateShadow, bind_eq_ok, require_eq_ok, pure_eq_ok, Prod.exists, Prod.mk.injEq] at h
  obtain ⟨_, -, r, -, cid, off, -, _, -, t, hmeta, rfl, rfl, rfl, rfl⟩ := h
  rw [writeMetadata_auxiliary hmeta]

end Auxiliary

section Insert

variable {s s' : Shadow α} {rowid : Rowid} {dimensions : List Nat}

theorem vec0UpdateInsertRowidStep_entry {id : SqlValue}
    (h : vec0UpdateInsertRowidStep p s id = .ok (s', rowid)) :
    (p.pkIsText = true → id.type = .text ∧ ∀ x ∈ s.rowids.rows, x.2.id.eq id = false) ∧
      s.rowids.insertRowid rowid ⟨if p.pkIsText then id else .null, none⟩ = some s'.rowids ∧
      s'.auxiliary = s.auxiliary := by
  unfold vec0UpdateInsertRowidStep at h
  split at h
  next htext =>
    simp only [vec0RowidsInsertId, bind_eq_ok, require_eq_ok, ofOption_eq_ok, pure_eq_ok,
      Prod.exists, Prod.mk.injEq] at h
    obtain ⟨_, htype, _, hunique, r, rowids, hins, rfl, rfl⟩ := h
    rw [if_pos htext]
    exact ⟨fun _ => ⟨htype, hunique htext⟩, (AutoTable.insertAuto_eq_some hins).1, rfl⟩
  next htext =>
    rw [if_neg htext]
    cases id with
    | integer r =>
      simp only [vec0RowidsInsertRowid, bind_eq_ok, ofOption_eq_ok, pure_eq_ok, Prod.mk.injEq] at h
      obtain ⟨_, ⟨rowids, hins, rfl⟩, rfl, rfl⟩ := h
      exact ⟨fun h => absurd h htext, hins, rfl⟩
    | null =>
      simp only [vec0RowidsInsertId, bind_eq_ok, require_eq_ok, ofOption_eq_ok, pure_eq_ok,
        Prod.exists, Prod.mk.injEq] at h
      obtain ⟨_, -, r, rowids, hins, rfl, rfl⟩ := h
      exact ⟨fun h => absurd h htext, (AutoTable.insertAuto_eq_some hins).1, rfl⟩
    | real v | text v | blob v => simp at h

theorem vec0UpdateInsertNextAvailableStep_auxiliary [Zero α] {partitions : List SqlValue}
    {chunkId : Rowid} {chunkOffset : Nat}
    (h : vec0UpdateInsertNextAvailableStep p dimensions s partitions =
      .ok (s', chunkId, chunkOffset)) : s'.auxiliary = s.auxiliary := by
  have hnew : ∀ {t : Shadow α × Rowid × Nat},
      (vec0NewChunk p dimensions s partitions >>= fun x => pure (x.1, x.2, 0)) = Except.ok t →
      t.1.auxiliary = s.auxiliary := by
    intro t ht
    simp only [vec0NewChunk, bind_eq_ok, ofOption_eq_ok, pure_eq_ok] at ht
    obtain ⟨_, ⟨_, -, _, -, _, -, rfl⟩, rfl⟩ := ht
    rfl
  unfold vec0UpdateInsertNextAvailableStep at h
  split at h
  · exact hnew h
  · simp only [bind_eq_ok, ofOption_eq_ok, require_eq_ok] at h
    obtain ⟨_, -, _, -, h⟩ := h
    split at h
    · simp only [pure_eq_ok, Prod.mk.injEq] at h
      obtain ⟨rfl, -, -⟩ := h
      rfl
    · exact hnew h

theorem insertShadow_entries [Zero α] {args : InsertArgs p α} {vectorDatas : List (List α)}
    (h : insertShadow p dimensions s args = .ok (s', rowid, vectorDatas)) :
    (p.pkIsText = true → args.id.type = .text ∧ ∀ x ∈ s.rowids.rows, x.2.id.eq args.id = false) ∧
      (∃ position, s'.rowids.get rowid = some ⟨if p.pkIsText then args.id else .null, position⟩) ∧
      (p.auxiliaryTypes.length ≠ 0 → ∀ r, s'.auxiliary.get r =
        if r = rowid then some args.auxiliary else s.auxiliary.get r) := by
  simp only [insertShadow, bind_eq_ok, pure_eq_ok, Prod.exists, Prod.mk.injEq] at h
  obtain ⟨_, -, vs, -, _, -, _, -, t₀, r, hrow, t₁, cid, off, hslot, t₂, hwrite, t₃, haux, t₄, hmeta,
    rfl, rfl, rfl⟩ := h
  obtain ⟨hkey, hins, haux₀⟩ := vec0UpdateInsertRowidStep_entry hrow
  have hget := (AutoTable.insertRowid_eq_some hins).2
  have hslotted := (vec0UpdateInsertNextAvailableStep_spec hslot).1
  have haux₁ := vec0UpdateInsertNextAvailableStep_auxiliary hslot
  simp only [vec0UpdateInsertWriteFinalStep, bind_eq_ok, ofOption_eq_ok, require_eq_ok,
    pure_eq_ok] at hwrite
  obtain ⟨_, -, vectorChunks, -, _, -, rfl⟩ := hwrite
  have hrowids := (writeMetadata_sameRows hmeta).1
  obtain ⟨auxiliary, hframe⟩ := insertAuxiliary_frame haux
  refine ⟨hkey, ⟨some (cid, off), ?_⟩, fun hne k => ?_⟩
  · rw [hrowids, hframe]
    simp only [vec0RowidsUpdatePosition, hslotted, AutoTable.get_modify, hget, if_true]
    rfl
  · rw [writeMetadata_auxiliary hmeta]
    unfold insertAuxiliary at haux
    rw [if_neg hne] at haux
    simp only [bind_eq_ok, require_eq_ok, ofOption_eq_ok, pure_eq_ok] at haux
    obtain ⟨_, -, auxiliary, hins, rfl⟩ := haux
    rw [Table.get_insert hins]
    simp only [vec0RowidsUpdatePosition, haux₁, haux₀]

end Insert

structure UserRow.Complete (p : Vec0Vtab) (x : UserRow α) : Prop where
  partitions : x.partitions.length = p.partitionTypes.length
  vectors : x.vectors.length = p.vectorColumns.length
  auxiliary : x.auxiliary.length = p.auxiliaryTypes.length
  metadata : x.metadata.length = p.metadataKinds.length

/-- The shadow tables hold the rows of the table.  Texts are left to `Texts`. -/
structure Stores (p : Vec0Vtab) (contents : Contents α) (s : Shadow α) : Prop where
  vectors : ∀ {j d}, p.dimensions[j]? = some d →
    Holds (s.vectorAt j d) (vectorOf contents.rows j) s
  metadata : ∀ {i kind}, p.metadataKinds[i]? = some kind → kind ≠ .text →
    Holds (s.metadataAt i) (metadataOf contents.rows i kind) s
  auxiliary : p.auxiliaryTypes.length ≠ 0 → ∀ r,
    s.auxiliary.get r = (contents r).map UserRow.auxiliary
  ids : ∀ {r row x}, s.rowids.get r = some row → contents r = some x →
    x.id = if p.pkIsText then row.id else .integer r
  keys : p.pkIsText = true → ∀ {r row}, s.rowids.get r = some row → row.id.type = .text
  unique : p.pkIsText = true → ∀ {r r' row row'}, s.rowids.get r = some row →
    s.rowids.get r' = some row' → row.id.eq row'.id = true → r = r'
  complete : ∀ {r x}, contents r = some x → x.Complete p

theorem Stores.empty : Stores p (fun _ => none) (.empty : Shadow α) where
  vectors _ := Holds.empty
  metadata _ _ := Holds.empty
  auxiliary _ _ := rfl
  ids h := by simp [Shadow.empty, AutoTable.empty] at h
  keys _ _ _ h := by simp [Shadow.empty, AutoTable.empty] at h
  unique _ _ _ _ _ h := by simp [Shadow.empty, AutoTable.empty] at h
  complete h := by simp at h

section Complete

theorem InsertArgs.complete (args : InsertArgs p α) (rowid : Rowid) :
    (args.userRow rowid).Complete p where
  partitions := args.length_partitions
  vectors := (List.length_map ..).trans args.length_vectors
  auxiliary := args.length_auxiliary
  metadata := args.length_metadata

theorem length_overlay {β : Type} {new : List (Option β)} {old : List β} {n : Nat}
    (hnew : new.length = n) (hold : old.length = n) : (overlay new old).length = n := by
  rw [overlay, List.length_zipWith, hnew, hold, Nat.min_self]

theorem UpdateArgs.complete (args : UpdateArgs p α) {x : UserRow α} (h : x.Complete p) :
    (args.userRow x).Complete p where
  partitions := h.partitions
  vectors := length_overlay ((List.length_map ..).trans args.length_vectors) h.vectors
  auxiliary := length_overlay args.length_auxiliary h.auxiliary
  metadata := length_overlay args.length_metadata h.metadata

theorem complete_update {contents : Contents α} {rowid : Rowid} {o : Option (UserRow α)}
    (h : ∀ {r x}, contents r = some x → x.Complete p) (ho : ∀ x, o = some x → x.Complete p)
    {r : Rowid} {x : UserRow α} (hx : Function.update contents rowid o r = some x) :
    x.Complete p := by
  by_cases hr : r = rowid
  · subst hr
    rw [Function.update_self] at hx
    exact ho x hx
  · rw [Function.update_of_ne hr] at hx
    exact h hx

end Complete

theorem SqlValue.eq_swap (a b : SqlValue) : a.eq b = b.eq a := by
  cases a <;> cases b <;> simp [SqlValue.eq, eq_comm]

namespace Stores

variable {contents : Contents α} {s s' : Shadow α} {rowid chunkId : Rowid} {chunkOffset : Nat}

theorem insert [Zero α] {args : InsertArgs p α} {vectorDatas : List (List α)}
    (h : Stores p contents s) (hslots : Slots p contents.rows s)
    (hins : insertShadow p p.dimensions s args = .ok (s', rowid, vectorDatas)) :
    Stores p (Function.update contents rowid (some (args.userRow rowid))) s' := by
  obtain ⟨hkey, ⟨position, hentry⟩, haux⟩ := insertShadow_entries hins
  obtain ⟨s₁, s₂, chunkId, chunkOffset, hins⟩ := insertShadow_spec hins
  obtain ⟨_, hrowids⟩ := hins.rowids
  have hother : ∀ {r}, r ≠ rowid → s'.rowids.get r = s.rowids.get r := fun hne =>
    (hrowids _).trans (if_neg hne)
  exact {
    vectors := fun {j d} hd => by
      rw [Contents.rows_update]
      have hj := (List.getElem?_eq_some_iff.mp hd).1
      rw [Vec0Vtab.dimensions, List.length_map] at hj
      exact (h.vectors hd).vectors_insert hslots hins hj hd
    metadata := fun {i kind} hkind htext => by
      have hi : i < args.metadata.length := by
        rw [args.length_metadata]
        exact (List.getElem?_eq_some_iff.mp hkind).1
      have hmeta : args.metadata[i]? = some args.metadata[i] := List.getElem?_eq_getElem hi
      obtain ⟨t₁, t₂, hwrite, hcol₁, hcol⟩ := writeMetadata_column_some hins.metadata
        (by rw [List.getElem?_map, hmeta, Option.map_some])
      have hat := vec0WriteMetadataValue_value hkind htext hwrite
      have hbefore : t₁.metadataAt i = s₁.metadataAt i :=
        metadataAt_congr (hcol₁.trans (hins.column i))
      rw [Contents.rows_update, metadataOf_update, metadataAt_congr hcol]
      refine (h.metadata hkind htext).insert hslots hins ((hat _ _).trans (if_pos rfl) |>.trans ?_)
        fun k c off hk hne => ?_
      · rw [Option.map_some, Option.bind_some]
        show _ = args.metadata[i]?.map kind.stored
        rw [hmeta, Option.map_some]
      · rw [hat, if_neg hne, hbefore]
        exact metadataAt_slotFound hins.slot hk off
    auxiliary := fun hne r => by
      rw [haux hne]
      by_cases hr : r = rowid
      · rw [if_pos hr, hr, Function.update_self]
        rfl
      · rw [if_neg hr, Function.update_of_ne hr, h.auxiliary hne]
    ids := fun {r row x} hrow hx => by
      by_cases hr : r = rowid
      · subst hr
        rw [Function.update_self] at hx
        obtain rfl := Option.some.inj (hentry.symm.trans hrow)
        obtain rfl := Option.some.inj hx
        show args.key r = _
        rw [InsertArgs.key]
        split <;> rfl
      · rw [Function.update_of_ne hr] at hx
        exact h.ids (hother hr ▸ hrow) hx
    keys := fun htext {r row} hrow => by
      by_cases hr : r = rowid
      · subst hr
        obtain rfl := Option.some.inj (hentry.symm.trans hrow)
        rw [if_pos htext]
        exact (hkey htext).1
      · exact h.keys htext (hother hr ▸ hrow)
    unique := fun htext {r r' row row'} hrow hrow' heq => by
      have hnew : ∀ {k entry}, k ≠ rowid → s'.rowids.get k = some entry →
          entry.id.eq args.id = false := fun hk hget =>
        (hkey htext).2 _ (Table.get_eq_some.mp ((hother hk).symm.trans hget))
      by_cases hr : r = rowid
      · by_cases hr' : r' = rowid
        · rw [hr, hr']
        · obtain rfl := Option.some.inj (hentry.symm.trans (hr ▸ hrow))
          rw [if_pos htext, SqlValue.eq_swap, hnew hr' hrow'] at heq
          cases heq
      · by_cases hr' : r' = rowid
        · obtain rfl := Option.some.inj (hentry.symm.trans (hr' ▸ hrow'))
          rw [if_pos htext, hnew hr hrow] at heq
          cases heq
        · exact h.unique htext (hother hr ▸ hrow) (hother hr' ▸ hrow') heq
    complete := complete_update h.complete fun x hx => by
      obtain rfl := Option.some.inj hx
      exact args.complete rowid }

theorem delete {id : SqlValue} (h : Stores p contents s) (hslots : Slots p contents.rows s)
    (hdel : deleteShadow p s id = .ok (s', rowid)) :
    Stores p (Function.update contents rowid none) s' := by
  have haux := deleteShadow_auxiliary hdel
  obtain ⟨chunkId, chunkOffset, hdel⟩ := deleteShadow_spec hdel
  have hold : ∀ {r row}, s'.rowids.get r = some row → r ≠ rowid ∧ s.rowids.get r = some row := by
    intro r row hrow
    rw [hdel.rowids] at hrow
    split at hrow
    · cases hrow
    next hr => exact ⟨hr, hrow⟩
  exact {
    vectors := fun {j d} hd => by
      rw [Contents.rows_update, vectorOf_update,
        vectorAt_congr (s := s) fun k => by rw [hdel.vectorChunks]]
      exact (h.vectors hd).delete hslots hdel fun _ _ _ => rfl
    metadata := fun {i kind} hkind htext => by
      obtain ⟨t₁, hcol₁, hcol⟩ := hdel.column i (List.getElem?_eq_some_iff.mp hkind).1
      rw [Contents.rows_update, metadataOf_update, metadataAt_congr hcol]
      refine (h.metadata hkind htext).delete hslots hdel fun k off hne => ?_
      rw [vec0UpdateDeleteClearMetadata_value k off hne, metadataAt_congr hcol₁]
    auxiliary := fun hne r => by
      rw [haux hne]
      by_cases hr : r = rowid
      · rw [if_pos hr, hr, Function.update_self]
        rfl
      · rw [if_neg hr, Function.update_of_ne hr, h.auxiliary hne]
    ids := fun hrow hx => by
      obtain ⟨hr, hrow⟩ := hold hrow
      rw [Function.update_of_ne hr] at hx
      exact h.ids hrow hx
    keys := fun htext _ _ hrow => h.keys htext (hold hrow).2
    unique := fun htext _ _ _ _ hrow hrow' heq => h.unique htext (hold hrow).2 (hold hrow').2 heq
    complete := complete_update h.complete fun x hx => by cases hx }

theorem update {ops : IndexOps α ι} {v v' : Vec0 α ι} {args : UpdateArgs p α}
    (h : Stores p contents v.shadow) (hslots : Slots p contents.rows v.shadow)
    (hdims : v.dimensions = p.dimensions) (hkept : (Statement.update args).Kept v)
    {s₁ : Shadow α} (hupd : updateShadow p v.shadow args = .ok (s₁, rowid, chunkId, chunkOffset))
    (hloop : updateVectors ops args.pzError rowid chunkId chunkOffset
      (p.vectorColumns.zip args.vectors).zipIdx
      v.dimensions v.index s₁ = (v'.dimensions, v'.index, .ok v'.shadow)) :
    Stores p (Function.update contents rowid ((contents rowid).map args.userRow)) v'.shadow := by
  have haux := updateShadow_auxiliary hupd
  have hkept := hkept _ hupd
  have hupd := updateShadow_spec hupd
  obtain ⟨vectorChunks, hs'⟩ := updateVectors_frame (congrArg (fun x => x.2.2) hloop)
  obtain ⟨row, hrow, -⟩ := hupd.row
  obtain ⟨x, hx⟩ : ∃ x, contents rowid = some x := by
    obtain ⟨_, _, _, y, -, -, hy, -⟩ := hslots.placed hrow
    obtain ⟨x, hx, -⟩ := Option.map_eq_some_iff.mp hy
    exact ⟨x, hx⟩
  have hcomplete := h.complete hx
  have hrows : contents.rows rowid = some x.toRow := congrArg (Option.map UserRow.toRow) hx
  have hrowids : v'.shadow.rowids = v.shadow.rowids := by rw [hs', hupd.rowids]
  have hchunks : v'.shadow.chunks = v.shadow.chunks := by rw [hs', hupd.chunks]
  rw [hx, Option.map_some]
  exact {
    vectors := fun {j d} hd => by
      rw [hdims] at hkept hloop
      have hj := (List.getElem?_eq_some_iff.mp hd).1
      rw [Vec0Vtab.dimensions, List.length_map] at hj
      rw [Contents.rows_update]
      exact (h.vectors hd).vectors_update hslots hupd hkept hloop hj hd hrows hcomplete.vectors
    metadata := fun {i kind} hkind htext => by
      have hcol : v'.shadow.column i = s₁.column i := by rw [hs']; rfl
      rw [Contents.rows_update, metadataAt_congr hcol]
      exact (h.metadata hkind htext).metadata_update hslots hupd hchunks hkind htext hrows
        hcomplete.metadata
    auxiliary := fun hne r => by
      rw [hs']
      show s₁.auxiliary.get r = _
      rw [haux, updateAuxiliary_get]
      by_cases hr : r = rowid
      · have hset := foldl_setGiven args.auxiliary [] x.auxiliary
          (args.length_auxiliary.trans hcomplete.auxiliary.symm)
        rw [if_pos hr, hr, Function.update_self, h.auxiliary hne, hx, Option.map_some,
          Option.map_some, Option.map_some]
        exact congrArg some hset
      · rw [if_neg hr, Function.update_of_ne hr, h.auxiliary hne]
    ids := fun {r entry y} hget hy => by
      rw [hrowids] at hget
      by_cases hr : r = rowid
      · subst hr
        rw [Function.update_self] at hy
        obtain rfl := Option.some.inj hy
        have hid := h.ids hget hx
        exact hid
      · rw [Function.update_of_ne hr] at hy
        exact h.ids hget hy
    keys := fun htext _ _ hget => h.keys htext (hrowids ▸ hget)
    unique := fun htext _ _ _ _ hget hget' heq =>
      h.unique htext (hrowids ▸ hget) (hrowids ▸ hget') heq
    complete := complete_update h.complete fun y hy => by
      obtain rfl := Option.some.inj hy
      exact args.complete hcomplete }

theorem step [Zero α] {ops : IndexOps α ι} {v v' : Vec0 α ι} {stmt : Statement p α}
    (h : Stores p contents v.shadow) (hslots : Slots p contents.rows v.shadow)
    (hdims : v.dimensions = p.dimensions) (hkept : stmt.Kept v)
    (hstmt : vec0Update ops p v stmt = (v', .ok rowid)) :
    Stores p (contents.apply rowid stmt) v'.shadow := by
  cases stmt with
  | insert args =>
    obtain ⟨_, hins, -⟩ := vec0Update_insert hstmt
    exact h.insert hslots (hdims ▸ hins)
  | update args =>
    obtain ⟨s₁, _, _, hupd, hloop⟩ := vec0Update_update hstmt
    exact h.update hslots hdims hkept hupd hloop
  | delete id => exact h.delete hslots (vec0Update_delete hstmt).1

end Stores

theorem History.stores [Zero α] {ops : IndexOps α ι} {v : Vec0 α ι} {contents : Contents α}
    (h : History ops p v contents) : Stores p contents v.shadow := by
  induction h with
  | create index => exact Stores.empty
  | ok stmt hrun hkept hstmt ih => exact ih.step hrun.slots hrun.kept.dimensions hkept hstmt
  | error stmt _ _ hstmt ih =>
    rw [vec0Update_error hstmt]
    exact ih

section Sample

def execContents [Zero α] (ops : IndexOps α ι) (v : Vec0 α ι) (contents : Contents α) :
    List (Statement p α) → Vec0 α ι × Contents α
  | [] => (v, contents)
  | stmt :: stmts =>
    match vec0Update ops p v stmt with
    | (v, .ok rowid) => execContents ops v (contents.apply rowid stmt) stmts
    | (v, .error _) => execContents ops v contents stmts

theorem History.exec [Zero α] {ops : IndexOps α ι} {v : Vec0 α ι} {contents : Contents α}
    (h : History ops p v contents) {stmts : List (Statement p α)}
    (hkept : ∀ stmt ∈ stmts, ∀ v : Vec0 α ι, stmt.Kept v) :
    History ops p (execContents ops v contents stmts).1 (execContents ops v contents stmts).2 := by
  induction stmts generalizing v contents with
  | nil => exact h
  | cons stmt stmts ih =>
    have hrest : ∀ stmt ∈ stmts, ∀ v : Vec0 α ι, stmt.Kept v := fun s hs =>
      hkept s (List.mem_cons_of_mem stmt hs)
    have hfirst := hkept stmt List.mem_cons_self v
    unfold execContents
    split
    next v' rowid hstmt => exact ih (.ok stmt h hfirst hstmt) hrest
    next v' rc hstmt => exact ih (.error stmt h hfirst hstmt) hrest

def sampleContents : Vec0 Int Unit × Contents Int :=
  execContents noIndex (.create sampleTable ()) (fun _ => none) sampleStatements

theorem sampleContents_history :
    History noIndex sampleTable sampleContents.1 sampleContents.2 := by
  refine (History.create ()).exec fun stmt hstmt v => ?_
  simp only [sampleStatements, List.mem_cons, List.not_mem_nil, or_false] at hstmt
  obtain rfl | rfl | rfl | rfl | rfl := hstmt
  · trivial
  · trivial
  · trivial
  · trivial
  · intro x _
    trivial

end Sample

end SqliteMultimodal.Vec.Storage
