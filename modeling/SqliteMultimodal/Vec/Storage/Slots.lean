import SqliteMultimodal.Vec.Storage.Rows

namespace SqliteMultimodal.Vec.Storage

variable {α ι : Type} {p : Vec0Vtab} {rows : Rows α} {s s' : Shadow α}

/-- Values for the partition columns, each NULL or of the type of its column. -/
structure TypedPartitions (p : Vec0Vtab) (values : List SqlValue) : Prop where
  length : values.length = p.partitionTypes.length
  type : ∀ x ∈ values.zip p.partitionTypes, x.1.type = .null ∨ x.1.type = x.2

theorem SqlValue.eq_of_type {a b : SqlValue} {t : SqlType} (h : a.eq b = true)
    (ha : a.type = .null ∨ a.type = t) (hb : b.type = .null ∨ b.type = t) : a = b := by
  cases a <;> cases b <;> simp_all [SqlValue.eq, SqlValue.type] <;> (subst ha; cases hb)

theorem TypedPartitions.eq_of_all {xs ys : List SqlValue} (hxs : TypedPartitions p xs)
    (hys : TypedPartitions p ys) (h : (xs.zip ys).all (fun x => x.1.eq x.2) = true) : xs = ys := by
  have hlen : xs.length = ys.length := hxs.length.trans hys.length.symm
  refine List.ext_getElem hlen fun i hi hi' => ?_
  have ht : i < p.partitionTypes.length := hxs.length ▸ hi
  have hmem : ∀ {β : Type} (zs : List β) (hz : i < zs.length) (us : List SqlValue)
      (hu : i < us.length), (us[i], zs[i]) ∈ us.zip zs := fun zs hz us hu =>
    List.mem_iff_getElem.mpr ⟨i, by rw [List.length_zip]; omega, by simp⟩
  rw [List.all_eq_true] at h
  exact SqlValue.eq_of_type (h _ (hmem ys hi' xs hi)) (hxs.type _ (hmem _ ht xs hi))
    (hys.type _ (hmem _ ht ys hi'))

structure InSlot (p : Vec0Vtab) (s : Shadow α) (r : Rowid) (chunkId : Rowid) (chunkOffset : Nat)
    (c : ChunkRow) : Prop where
  lt : chunkOffset < p.chunkSize.val
  chunk : s.chunks.get chunkId = some c
  valid : c.validity.get chunkOffset = true
  rowid : c.rowids[chunkOffset]? = some r

structure Slots (p : Vec0Vtab) (rows : Rows α) (s : Shadow α) : Prop where
  typed : ∀ {chunkId c}, s.chunks.get chunkId = some c → TypedPartitions p c.partitions
  sized : ∀ {chunkId c}, s.chunks.get chunkId = some c →
    c.validity.bytes.length = p.chunkSize.val / 8 ∧ c.rowids.length = p.chunkSize.val
  absent : ∀ {r}, s.rowids.get r = none → rows r = none
  placed : ∀ {r row}, s.rowids.get r = some row → ∃ chunkId chunkOffset c x,
    row.position = some (chunkId, chunkOffset) ∧ InSlot p s r chunkId chunkOffset c ∧
    rows r = some x ∧ x.partitions = c.partitions
  owned : ∀ {chunkId c chunkOffset}, s.chunks.get chunkId = some c →
    c.validity.get chunkOffset = true →
    ∃ r row, s.rowids.get r = some row ∧ row.position = some (chunkId, chunkOffset)

theorem Slots.empty : Slots p (fun _ => none) (.empty : Shadow α) where
  typed h := by simp [Shadow.empty, AutoTable.empty] at h
  sized h := by simp [Shadow.empty, AutoTable.empty] at h
  absent _ := rfl
  placed h := by simp [Shadow.empty, AutoTable.empty] at h
  owned h := by simp [Shadow.empty, AutoTable.empty] at h

theorem InSlot.rowid_unique {r r' chunkId : Rowid} {chunkOffset : Nat} {c c' : ChunkRow}
    (h : InSlot p s r chunkId chunkOffset c) (h' : InSlot p s r' chunkId chunkOffset c') :
    r = r' := by
  obtain rfl : c = c' := Option.some.inj (h.chunk.symm.trans h'.chunk)
  exact Option.some.inj (h.rowid.symm.trans h'.rowid)

namespace Slots

theorem position {r : Rowid} {row : RowidsRow} {x : Rowid × Nat} (h : Slots p rows s)
    (hr : s.rowids.get r = some row) (hx : row.position = some x) :
    ∃ c y, InSlot p s r x.1 x.2 c ∧ rows r = some y ∧ y.partitions = c.partitions := by
  obtain ⟨chunkId, chunkOffset, c, y, hpos, hslot, hy, hpart⟩ := h.placed hr
  obtain rfl := Option.some.inj (hx.symm.trans hpos)
  exact ⟨c, y, hslot, hy, hpart⟩

theorem rowid_unique {r r' : Rowid} {row row' : RowidsRow} {x : Rowid × Nat} (h : Slots p rows s)
    (hr : s.rowids.get r = some row) (hr' : s.rowids.get r' = some row')
    (hx : row.position = some x) (hx' : row'.position = some x) : r = r' := by
  obtain ⟨c, _, hslot, -⟩ := h.position hr hx
  obtain ⟨c', _, hslot', -⟩ := h.position hr' hx'
  exact hslot.rowid_unique hslot'

theorem row_of_rowid {r chunkId : Rowid} {chunkOffset : Nat} {c : ChunkRow} (h : Slots p rows s)
    (hc : s.chunks.get chunkId = some c) (hv : c.validity.get chunkOffset = true)
    (hr : c.rowids[chunkOffset]? = some r) :
    ∃ row, s.rowids.get r = some row ∧ row.position = some (chunkId, chunkOffset) := by
  obtain ⟨r', row, hr', hpos⟩ := h.owned hc hv
  obtain ⟨c', _, hslot, -⟩ := h.position hr' hpos
  obtain rfl : c = c' := Option.some.inj (hc.symm.trans hslot.chunk)
  obtain rfl : r = r' := Option.some.inj (hr.symm.trans hslot.rowid)
  exact ⟨row, hr', hpos⟩

theorem ne_of_fresh {r rowid k : Rowid} {off : Nat} {c : ChunkRow} (h : Slots p rows s)
    (hfresh : s.rowids.get rowid = none) (hk : s.chunks.get k = some c)
    (hv : c.validity.get off = true) (hr : c.rowids[off]? = some r) : r ≠ rowid := by
  rintro rfl
  obtain ⟨row, hrow, -⟩ := h.row_of_rowid hk hv hr
  exact absurd (hfresh.symm.trans hrow) (by simp)

theorem ne_of_slot_ne {r rowid k : Rowid} {off : Nat} {c : ChunkRow} {row : RowidsRow}
    {x : Rowid × Nat} (h : Slots p rows s) (hrow : s.rowids.get rowid = some row)
    (hx : row.position = some x) (hk : s.chunks.get k = some c) (hv : c.validity.get off = true)
    (hr : c.rowids[off]? = some r) (hne : (k, off) ≠ x) : r ≠ rowid := by
  rintro rfl
  obtain ⟨row', hrow', hpos⟩ := h.row_of_rowid hk hv hr
  obtain rfl : row = row' := Option.some.inj (hrow.symm.trans hrow')
  exact hne (Option.some.inj (hpos.symm.trans hx))

theorem congr (h : Slots p rows s) (hrowids : ∀ r, s'.rowids.get r = s.rowids.get r)
    (hchunks : ∀ c, s'.chunks.get c = s.chunks.get c) {rows' : Rows α}
    (hrows : ∀ r, (rows' r).map Row.partitions = (rows r).map Row.partitions) :
    Slots p rows' s' where
  typed hc := h.typed (hchunks _ ▸ hc)
  sized hc := h.sized (hchunks _ ▸ hc)
  absent {r} hr := by
    have := hrows r
    rw [h.absent (hrowids r ▸ hr)] at this
    simpa using this
  placed {r row} hr := by
    obtain ⟨chunkId, chunkOffset, c, x, hpos, hslot, hx, hpart⟩ := h.placed (hrowids r ▸ hr)
    have hr' := hrows r
    rw [hx, Option.map_some, Option.map_eq_some_iff] at hr'
    obtain ⟨x', hx', hpart'⟩ := hr'
    exact ⟨chunkId, chunkOffset, c, x', hpos,
      ⟨hslot.lt, (hchunks _).trans hslot.chunk, hslot.valid, hslot.rowid⟩, hx', hpart'.trans hpart⟩
  owned hc hv := by
    obtain ⟨r, row, hr, hpos⟩ := h.owned (hchunks _ ▸ hc) hv
    exact ⟨r, row, (hrowids r).trans hr, hpos⟩

theorem grow [Zero α] {dimensions : List Nat} {values : List SqlValue} {s₁ : Shadow α}
    {chunkId : Rowid} (h : Slots p rows s) (hvalues : TypedPartitions p values)
    (hgrown : Grown p dimensions values s s₁ chunkId) :
    Slots p rows { s with chunks := s₁.chunks } := by
  have hnew : ∀ {k c}, s₁.chunks.get k = some c → c.validity.bytes.length = p.chunkSize.val / 8 ∧
      c.rowids.length = p.chunkSize.val ∧ TypedPartitions p c.partitions ∧
      ((∀ i, c.validity.get i = false) ∨ s.chunks.get k = some c) := by
    intro k c hc
    rw [hgrown.chunks] at hc
    split at hc
    · obtain rfl := Option.some.inj hc
      exact ⟨by simp [Bitmap.new], by simp, hvalues, .inl fun i => Bitmap.get_new _ i⟩
    · exact ⟨(h.sized hc).1, (h.sized hc).2, h.typed hc, .inr hc⟩
  exact {
    typed := fun hc => (hnew hc).2.2.1
    sized := fun hc => ⟨(hnew hc).1, (hnew hc).2.1⟩
    absent := h.absent
    placed := fun {r row} hr => by
      obtain ⟨k, off, c, x, hpos, hslot, hx, hpart⟩ := h.placed hr
      refine ⟨k, off, c, x, hpos, ⟨hslot.lt, ?_, hslot.valid, hslot.rowid⟩, hx, hpart⟩
      have hne : k ≠ chunkId := by
        rintro rfl
        exact absurd (hgrown.fresh.symm.trans hslot.chunk) (by simp)
      show s₁.chunks.get k = some c
      rw [hgrown.chunks, if_neg hne, hslot.chunk]
    owned := fun {k c off} hc hv => by
      obtain hfree | hc := (hnew hc).2.2.2
      · simp [hfree] at hv
      · exact h.owned hc hv }

structure Replaced (p : Vec0Vtab) (s s' : Shadow α) (chunkId : Rowid) (chunkOffset : Nat)
    (c c' : ChunkRow) (bit : Bool) : Prop where
  chunk : s.chunks.get chunkId = some c
  chunks : ∀ k, s'.chunks.get k = if k = chunkId then some c' else s.chunks.get k
  partitions : c'.partitions = c.partitions
  sized : c'.validity.bytes.length = p.chunkSize.val / 8 ∧ c'.rowids.length = p.chunkSize.val
  valid : ∀ i, c'.validity.get i = if i = chunkOffset then bit else c.validity.get i
  rowid : ∀ i, i ≠ chunkOffset → c'.rowids[i]? = c.rowids[i]?

section Replaced

variable {r chunkId : Rowid} {chunkOffset : Nat} {c c' : ChunkRow} {bit : Bool}

theorem valid_set (h : Slots p rows s) (hc : s.chunks.get chunkId = some c)
    (hlt : chunkOffset < p.chunkSize.val) (bit : Bool) (i : Nat) :
    (c.validity.set chunkOffset bit).get i = if i = chunkOffset then bit else c.validity.get i := by
  have hsize := h.sized hc
  have hdvd := p.chunkSize.dvd
  exact Bitmap.get_set _ _ i bit (by omega)

theorem replaced_put (h : Slots p rows s) (hlt : chunkOffset < p.chunkSize.val)
    (hc : s.chunks.get chunkId = some c)
    (hchunks : ∀ k, s'.chunks.get k =
      if k = chunkId then some (c.put chunkOffset r) else s.chunks.get k) :
    Replaced p s s' chunkId chunkOffset c (c.put chunkOffset r) true where
  chunk := hc
  chunks := hchunks
  partitions := rfl
  sized := by simpa [ChunkRow.put] using h.sized hc
  valid := h.valid_set hc hlt true
  rowid i hi := List.getElem?_set_ne hi.symm

theorem replaced_free (h : Slots p rows s) (hlt : chunkOffset < p.chunkSize.val)
    (hc : s.chunks.get chunkId = some c)
    (hchunks : ∀ k, s'.chunks.get k =
      if k = chunkId then some (c.free chunkOffset) else s.chunks.get k) :
    Replaced p s s' chunkId chunkOffset c (c.free chunkOffset) false where
  chunk := hc
  chunks := hchunks
  partitions := rfl
  sized := by simpa [ChunkRow.free] using h.sized hc
  valid := h.valid_set hc hlt false
  rowid _ _ := rfl

theorem typed_of_replaced (h : Slots p rows s) (hrep : Replaced p s s' chunkId chunkOffset c c' bit)
    {k : Rowid} {d : ChunkRow} (hk : s'.chunks.get k = some d) :
    TypedPartitions p d.partitions := by
  rw [hrep.chunks] at hk
  split at hk
  next =>
    obtain rfl := Option.some.inj hk
    rw [hrep.partitions]
    exact h.typed hrep.chunk
  next => exact h.typed hk

theorem sized_of_replaced (h : Slots p rows s) (hrep : Replaced p s s' chunkId chunkOffset c c' bit)
    {k : Rowid} {d : ChunkRow} (hk : s'.chunks.get k = some d) :
    d.validity.bytes.length = p.chunkSize.val / 8 ∧ d.rowids.length = p.chunkSize.val := by
  rw [hrep.chunks] at hk
  split at hk
  next =>
    obtain rfl := Option.some.inj hk
    exact hrep.sized
  next => exact h.sized hk

theorem inSlot_of_replaced (hrep : Replaced p s s' chunkId chunkOffset c c' bit) {k : Rowid}
    {off : Nat} {d : ChunkRow} (hslot : InSlot p s r k off d)
    (hne : (k, off) ≠ (chunkId, chunkOffset)) :
    ∃ d', InSlot p s' r k off d' ∧ d'.partitions = d.partitions := by
  by_cases hk : k = chunkId
  · subst hk
    obtain rfl : c = d := Option.some.inj (hrep.chunk.symm.trans hslot.chunk)
    have hoff : off ≠ chunkOffset := fun heq => hne (by rw [heq])
    refine ⟨c', ⟨hslot.lt, ?_, ?_, ?_⟩, hrep.partitions⟩
    · rw [hrep.chunks, if_pos rfl]
    · rw [hrep.valid, if_neg hoff, hslot.valid]
    · rw [hrep.rowid off hoff, hslot.rowid]
  · refine ⟨d, ⟨hslot.lt, ?_, hslot.valid, hslot.rowid⟩, rfl⟩
    rw [hrep.chunks, if_neg hk, hslot.chunk]

theorem owned_of_replaced (h : Slots p rows s) (hrep : Replaced p s s' chunkId chunkOffset c c' bit)
    {k : Rowid} {off : Nat} {d : ChunkRow} (hk : s'.chunks.get k = some d)
    (hv : d.validity.get off = true) (hne : (k, off) ≠ (chunkId, chunkOffset)) :
    ∃ r row, s.rowids.get r = some row ∧ row.position = some (k, off) := by
  rw [hrep.chunks] at hk
  split at hk
  next heq =>
    subst heq
    obtain rfl := Option.some.inj hk
    rw [hrep.valid, if_neg fun heq => hne (by rw [heq])] at hv
    exact h.owned hrep.chunk hv
  next => exact h.owned hk hv

end Replaced

theorem put {r chunkId : Rowid} {chunkOffset : Nat} {c : ChunkRow} {id : SqlValue} {x : Row α}
    (h : Slots p rows s) (hfresh : s.rowids.get r = none) (hlt : chunkOffset < p.chunkSize.val)
    (hc : s.chunks.get chunkId = some c) (hfree : c.validity.get chunkOffset = false)
    (hx : x.partitions = c.partitions)
    (hrowids : ∀ k, s'.rowids.get k =
      if k = r then some ⟨id, some (chunkId, chunkOffset)⟩ else s.rowids.get k)
    (hchunks : ∀ k, s'.chunks.get k =
      if k = chunkId then some (c.put chunkOffset r) else s.chunks.get k) :
    Slots p (Function.update rows r (some x)) s' := by
  have hrep := h.replaced_put hlt hc hchunks
  refine ⟨h.typed_of_replaced hrep, h.sized_of_replaced hrep, fun {k} hk => ?_,
    fun {k row} hk => ?_, fun {k d off} hk hv => ?_⟩
  · rw [hrowids] at hk
    split at hk
    next => cases hk
    next hne =>
      rw [Function.update_of_ne hne]
      exact h.absent hk
  · rw [hrowids] at hk
    split at hk
    next heq =>
      subst heq
      obtain rfl := Option.some.inj hk
      refine ⟨chunkId, chunkOffset, c.put chunkOffset k, x, rfl, ⟨hlt, ?_, ?_, ?_⟩, ?_, hx⟩
      · rw [hchunks, if_pos rfl]
      · rw [hrep.valid, if_pos rfl]
      · simp [ChunkRow.put, (h.sized hc).2, hlt]
      · rw [Function.update_self]
    next hne =>
      obtain ⟨cid, off, d, y, hpos, hslot, hy, hpart⟩ := h.placed hk
      have hplace : (cid, off) ≠ (chunkId, chunkOffset) := fun heq => by
        obtain ⟨rfl, rfl⟩ := Prod.mk.inj heq
        obtain rfl : c = d := Option.some.inj (hc.symm.trans hslot.chunk)
        exact absurd (hfree.symm.trans hslot.valid) (by simp)
      obtain ⟨d', hslot', hpart'⟩ := inSlot_of_replaced hrep hslot hplace
      rw [Function.update_of_ne hne]
      exact ⟨cid, off, d', y, hpos, hslot', hy, hpart.trans hpart'.symm⟩
  · by_cases hplace : (k, off) = (chunkId, chunkOffset)
    · rw [hplace]
      exact ⟨r, _, by rw [hrowids, if_pos rfl], rfl⟩
    · obtain ⟨r', row, hr', hpos⟩ := h.owned_of_replaced hrep hk hv hplace
      have hne : r' ≠ r := fun heq => by
        rw [heq, hfresh] at hr'
        cases hr'
      exact ⟨r', row, by rw [hrowids, if_neg hne, hr'], hpos⟩

theorem free {r chunkId : Rowid} {chunkOffset : Nat} {c : ChunkRow} {row : RowidsRow}
    (h : Slots p rows s) (hr : s.rowids.get r = some row)
    (hpos : row.position = some (chunkId, chunkOffset)) (hc : s.chunks.get chunkId = some c)
    (hrowids : ∀ k, s'.rowids.get k = if k = r then none else s.rowids.get k)
    (hchunks : ∀ k, s'.chunks.get k =
      if k = chunkId then some (c.free chunkOffset) else s.chunks.get k) :
    Slots p (Function.update rows r none) s' := by
  obtain ⟨_, _, hslot, -, -⟩ := h.position hr hpos
  have hrep := h.replaced_free hslot.lt hc hchunks
  refine ⟨h.typed_of_replaced hrep, h.sized_of_replaced hrep, fun {k} hk => ?_,
    fun {k row'} hk => ?_, fun {k d off} hk hv => ?_⟩
  · rw [hrowids] at hk
    split at hk
    next heq => rw [heq, Function.update_self]
    next hne =>
      rw [Function.update_of_ne hne]
      exact h.absent hk
  · rw [hrowids] at hk
    split at hk
    next => cases hk
    next hne =>
      obtain ⟨cid, off, d, y, hpos', hslot', hy, hpart⟩ := h.placed hk
      have hplace : (cid, off) ≠ (chunkId, chunkOffset) := fun heq =>
        hne (h.rowid_unique hk hr (hpos'.trans (congrArg some heq)) hpos)
      obtain ⟨d', hslot', hpart'⟩ := inSlot_of_replaced hrep hslot' hplace
      rw [Function.update_of_ne hne]
      exact ⟨cid, off, d', y, hpos', hslot', hy, hpart.trans hpart'.symm⟩
  · have hplace : (k, off) ≠ (chunkId, chunkOffset) := fun heq => by
      obtain ⟨rfl, rfl⟩ := Prod.mk.inj heq
      rw [hchunks, if_pos rfl] at hk
      obtain rfl := Option.some.inj hk
      rw [hrep.valid, if_pos rfl] at hv
      cases hv
    obtain ⟨r', row', hr', hpos'⟩ := h.owned_of_replaced hrep hk hv hplace
    refine ⟨r', row', ?_, hpos'⟩
    rw [hrowids, if_neg, hr']
    rintro rfl
    obtain rfl : row = row' := Option.some.inj (hr.symm.trans hr')
    exact hplace (Option.some.inj (hpos'.symm.trans hpos))

section Statements

variable [Zero α]

theorem slotFound {dimensions : List Nat} {values : List SqlValue} {s₁ : Shadow α} {chunkId : Rowid}
    {chunkOffset : Nat} (h : Slots p rows s) (hvalues : TypedPartitions p values)
    (hslot : SlotFound p dimensions values s s₁ chunkId chunkOffset) :
    Slots p rows { s with chunks := s₁.chunks } ∧ chunkOffset < p.chunkSize.val ∧
      ∃ c, s₁.chunks.get chunkId = some c ∧ c.validity.get chunkOffset = false ∧
        c.partitions = values := by
  cases hslot with
  | latest c hget hpart hlt hfree hchunks _ _ _ =>
    rw [hchunks]
    exact ⟨h, hlt, c, hget, hfree, (h.typed hget).eq_of_all hvalues hpart⟩
  | new hgrown hzero =>
    have hget := (hgrown.chunks chunkId).trans (if_pos rfl)
    exact ⟨h.grow hvalues hgrown, hzero ▸ p.chunkSize.pos, _, hget, Bitmap.get_new _ _, rfl⟩

theorem insert {dimensions : List Nat} {args : InsertArgs p α} {vectorDatas : List (List α)}
    {s₁ s₂ : Shadow α} {rowid chunkId : Rowid} {chunkOffset : Nat} (h : Slots p rows s)
    (hins : Inserted p dimensions args vectorDatas s s₁ s₂ s' rowid chunkId chunkOffset) :
    Slots p (Function.update rows rowid (some args.row)) s' := by
  obtain ⟨hs, hlt, c, hc, hfree, hpart⟩ :=
    h.slotFound ⟨args.length_partitions, hins.partitions⟩ hins.slot
  obtain ⟨id, hrowids⟩ := hins.rowids
  refine hs.put (x := args.row) hins.fresh hlt hc hfree hpart.symm hrowids fun k => ?_
  rw [hins.chunks]
  split
  next heq => rw [heq, hc, Option.map_some]
  next => rfl

omit [Zero α] in
theorem delete {rowid chunkId : Rowid} {chunkOffset : Nat} (h : Slots p rows s)
    (hdel : Deleted p s s' rowid chunkId chunkOffset) :
    Slots p (Function.update rows rowid none) s' := by
  obtain ⟨row, hr, hpos⟩ := hdel.row
  obtain ⟨cid, off, c, x, hpos', hslot, -⟩ := h.placed hr
  obtain ⟨rfl, rfl⟩ : cid = chunkId ∧ off = chunkOffset := by
    rwa [hpos', Option.getD_some, Prod.mk.injEq] at hpos
  refine h.free hr hpos' hslot.chunk hdel.rowids fun k => ?_
  rw [hdel.chunks]
  split
  next heq => rw [heq, hslot.chunk, Option.map_some]
  next => rfl

theorem step {ops : IndexOps α ι} {v v' : Vec0 α ι} {stmt : Statement p α} {rowid : Rowid}
    (h : Slots p rows v.shadow) (hstmt : vec0Update ops p v stmt = (v', .ok rowid)) :
    Slots p (rows.apply rowid stmt) v'.shadow := by
  cases stmt with
  | insert args =>
    obtain ⟨_, hins, -⟩ := vec0Update_insert hstmt
    obtain ⟨_, _, _, _, hins⟩ := insertShadow_spec hins
    exact h.insert hins
  | update args =>
    obtain ⟨s₁, _, _, hupd, hloop⟩ := vec0Update_update hstmt
    have hupd := updateShadow_spec hupd
    obtain ⟨_, hs'⟩ := updateVectors_frame (congrArg (fun x => x.2.2) hloop)
    refine h.congr (fun r => ?_) (fun c => ?_) fun r => ?_
    · rw [hs']
      exact congrArg (fun t => t.get r) hupd.rowids
    · rw [hs']
      exact congrArg (fun t => t.get c) hupd.chunks
    · by_cases hr : r = rowid
      · subst hr
        rw [Rows.apply, Function.update_self, Option.map_map]
        rfl
      · rw [Rows.apply, Function.update_of_ne hr]
  | delete id =>
    obtain ⟨_, _, hdel⟩ := deleteShadow_spec (vec0Update_delete hstmt).1
    exact h.delete hdel

theorem run {ops : IndexOps α ι} {v : Vec0 α ι} (h : Run ops p v rows) :
    Slots p rows v.shadow := by
  induction h with
  | create index => exact Slots.empty
  | ok stmt _ hstmt ih => exact ih.step hstmt
  | error stmt _ hstmt ih =>
    rw [vec0Update_error hstmt]
    exact ih

end Statements

end Slots

section

variable [Zero α] {ops : IndexOps α ι} {v : Vec0 α ι}

/-- Rows and live slots are in bijection, and a new row is never given a slot that is taken. -/
theorem run_slots (h : Run ops p v rows) :
    (∀ r row, v.shadow.rowids.get r = some row → ∃ chunkId chunkOffset c x,
      row.position = some (chunkId, chunkOffset) ∧ chunkOffset < p.chunkSize.val ∧
      v.shadow.chunks.get chunkId = some c ∧ c.validity.get chunkOffset = true ∧
      c.rowids[chunkOffset]? = some r ∧ rows r = some x ∧ c.partitions = x.partitions) ∧
    (∀ chunkId c chunkOffset, v.shadow.chunks.get chunkId = some c →
      c.validity.get chunkOffset = true →
      ∃! r, ∃ row, v.shadow.rowids.get r = some row ∧
        row.position = some (chunkId, chunkOffset)) ∧
    ∀ args v' r, vec0Update ops p v (.insert args) = (v', .ok r) →
      ∃ row chunkId chunkOffset, v'.shadow.rowids.get r = some row ∧
        row.position = some (chunkId, chunkOffset) ∧
        ∀ r' row', v.shadow.rowids.get r' = some row' →
          row'.position ≠ some (chunkId, chunkOffset) := by
  have hslots := Slots.run h
  refine ⟨fun r row hr => ?_, fun chunkId c chunkOffset hc hv => ?_, fun args v' r hins => ?_⟩
  · obtain ⟨chunkId, chunkOffset, c, x, hpos, hslot, hx, hpart⟩ := hslots.placed hr
    exact ⟨chunkId, chunkOffset, c, x, hpos, hslot.lt, hslot.chunk, hslot.valid, hslot.rowid, hx,
      hpart.symm⟩
  · obtain ⟨r, row, hr, hpos⟩ := hslots.owned hc hv
    refine ⟨r, ⟨row, hr, hpos⟩, ?_⟩
    rintro r' ⟨row', hr', hpos'⟩
    exact hslots.rowid_unique hr' hr hpos' hpos
  · have hslots' := hslots.step hins
    obtain ⟨_, hins, -⟩ := vec0Update_insert hins
    obtain ⟨s₁, _, cid, off, hins⟩ := insertShadow_spec hins
    obtain ⟨id, hrowids⟩ := hins.rowids
    have hr := (hrowids r).trans (if_pos rfl)
    refine ⟨_, cid, off, hr, rfl, fun r' row' hr' hpos' => ?_⟩
    have hne : r' ≠ r := by
      rintro rfl
      exact absurd (hins.fresh.symm.trans hr') (by simp)
    have hr'' := (hrowids r').trans ((if_neg hne).trans hr')
    exact hne (hslots'.rowid_unique hr'' hr hpos' rfl)

end

theorem sampleRun_slots :
    sampleRun.1.shadow.rowids.keys = [8, 9] ∧
    (∀ r row, sampleRun.1.shadow.rowids.get r = some row → ∃ chunkId chunkOffset c x,
      row.position = some (chunkId, chunkOffset) ∧ chunkOffset < 8 ∧
      sampleRun.1.shadow.chunks.get chunkId = some c ∧ c.validity.get chunkOffset = true ∧
      c.rowids[chunkOffset]? = some r ∧ sampleRun.2 r = some x ∧ c.partitions = x.partitions) :=
  ⟨by decide, (run_slots ((Run.create ()).exec sampleStatements)).1⟩

end SqliteMultimodal.Vec.Storage
