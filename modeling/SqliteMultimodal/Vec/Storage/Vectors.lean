import SqliteMultimodal.Vec.Storage.Slots

namespace SqliteMultimodal.Vec.Storage

open Except

variable {α ι : Type} {p : Vec0Vtab} {j d : Nat} {rows : Rows α} {s s' : Shadow α}

/-- The vector that the row is meant to have in column `j`. -/
def vectorOf (rows : Rows α) (j : Nat) (r : Rowid) : Option (List α) :=
  (rows r).bind fun x => x.vectors[j]?

theorem vectorOf_update (rows : Rows α) (j : Nat) (r : Rowid) (x : Option (Row α)) :
    vectorOf (Function.update rows r x) j =
      Function.update (vectorOf rows j) r (x.bind fun x => x.vectors[j]?) := by
  funext r'
  by_cases hr : r' = r
  · subst hr
    simp [vectorOf]
  · simp [vectorOf, hr]

structure SlotVectors (p : Vec0Vtab) (j d : Nat) (rows : Rows α) (c : ChunkRow) (blob : List α) :
    Prop where
  length : blob.length = p.chunkSize.val * d
  live : ∀ {off r}, c.validity.get off = true → c.rowids[off]? = some r →
    ∃ vec, vectorOf rows j r = some vec ∧ Blob.read blob (off * d) d = some vec

def Vectors (p : Vec0Vtab) (j d : Nat) (rows : Rows α) (s : Shadow α) : Prop :=
  ∀ chunkId c, s.chunks.get chunkId = some c →
    ∃ blob, s.vectorChunks.get (j, chunkId) = some blob ∧ SlotVectors p j d rows c blob

theorem Vectors.empty : Vectors p j d (fun _ => none) (.empty : Shadow α) := by
  intro chunkId c hc
  simp [Shadow.empty, AutoTable.empty] at hc

namespace SlotVectors

variable {c c' : ChunkRow} {blob blob' : List α} {rows' : Rows α}

theorem congr (h : SlotVectors p j d rows c blob)
    (hrows : ∀ {off r}, c.validity.get off = true → c.rowids[off]? = some r →
      vectorOf rows' j r = vectorOf rows j r) : SlotVectors p j d rows' c blob where
  length := h.length
  live hv hr := by
    rw [hrows hv hr]
    exact h.live hv hr

theorem shrink (off : Nat) (h : SlotVectors p j d rows c blob)
    (hbits : ∀ o, c'.validity.get o = true → o ≠ off ∧ c.validity.get o = true)
    (hrowids : c'.rowids = c.rowids)
    (hrows : ∀ {o r}, o ≠ off → c.validity.get o = true → c.rowids[o]? = some r →
      vectorOf rows' j r = vectorOf rows j r) : SlotVectors p j d rows' c' blob where
  length := h.length
  live {o r} hv hr := by
    obtain ⟨hne, hv⟩ := hbits o hv
    rw [hrowids] at hr
    rw [hrows hne hv hr]
    exact h.live hv hr

theorem write {off : Nat} {vec : List α} (h : SlotVectors p j d rows c blob)
    (hblob : Blob.write blob (off * d) vec = some blob') (hlen : vec.length = d)
    (hbits : ∀ o, o ≠ off → c'.validity.get o = c.validity.get o ∧ c'.rowids[o]? = c.rowids[o]?)
    (hrows : ∀ {o r}, o ≠ off → c.validity.get o = true → c.rowids[o]? = some r →
      vectorOf rows' j r = vectorOf rows j r)
    (hvec : ∀ {r}, c'.rowids[off]? = some r → vectorOf rows' j r = some vec) :
    SlotVectors p j d rows' c' blob' where
  length := (Blob.length_write hblob).trans h.length
  live {o r} hv hr := by
    by_cases ho : o = off
    · subst ho
      refine ⟨vec, hvec hr, ?_⟩
      rw [← Blob.read_write_self hblob, hlen]
    · obtain ⟨hbit, hrowid⟩ := hbits o ho
      rw [hbit] at hv
      rw [hrowid] at hr
      obtain ⟨w, hw, hread⟩ := h.live hv hr
      refine ⟨w, (hrows ho hv hr).trans hw, ?_⟩
      rw [Blob.read_write_of_disjoint hblob, hread]
      rw [hlen]
      rcases Nat.lt_or_gt_of_ne ho with hlt | hlt
      · exact .inl (by rw [← Nat.succ_mul]; exact Nat.mul_le_mul_right d hlt)
      · exact .inr (by rw [← Nat.succ_mul]; exact Nat.mul_le_mul_right d hlt)

end SlotVectors

namespace Vectors

theorem congr (h : Vectors p j d rows s) (hchunks : ∀ c, s'.chunks.get c = s.chunks.get c)
    (hvectors : ∀ c, s'.vectorChunks.get (j, c) = s.vectorChunks.get (j, c)) :
    Vectors p j d rows s' := by
  intro chunkId c hc
  rw [hvectors]
  exact h chunkId c (hchunks chunkId ▸ hc)

theorem read {dimensions : List Nat} {r : Rowid} {row : RowidsRow} (h : Vectors p j d rows s)
    (hslots : Slots p rows s) (hr : s.rowids.get r = some row) (hd : dimensions[j]? = some d) :
    ∃ vec, vectorOf rows j r = some vec ∧ vec0GetVectorData dimensions s r j = .ok vec := by
  obtain ⟨chunkId, off, c, x, hpos, hslot, hx, -⟩ := hslots.placed hr
  obtain ⟨blob, hblob, hV⟩ := h chunkId c hslot.chunk
  obtain ⟨vec, hvec, hread⟩ := hV.live hslot.valid hslot.rowid
  refine ⟨vec, hvec, ?_⟩
  have hposition : vec0GetChunkPosition s r = .ok (chunkId, off) :=
    vec0GetChunkPosition_eq_ok.mpr ⟨row, hr, by rw [hpos, Option.getD_some]⟩
  have hsize : dimensions.getD j 0 = d := by
    rw [List.getD_eq_getElem?_getD, hd, Option.getD_some]
  simp only [vec0GetVectorData, bind_eq_ok, ofOption_eq_ok, hsize]
  exact ⟨_, hposition, blob, hblob, hread⟩

theorem vectorOf_update_of_ne {r rowid : Rowid} (hne : r ≠ rowid) (x : Option (Row α)) :
    vectorOf (Function.update rows rowid x) j r = vectorOf rows j r := by
  rw [vectorOf_update, Function.update_of_ne hne]

section Insert

variable [Zero α] {dimensions : List Nat} {args : InsertArgs p α} {vectorDatas : List (List α)}
  {s₁ s₂ : Shadow α} {rowid chunkId : Rowid} {chunkOffset : Nat}

theorem vectorDatas_eq
    (hins : Inserted p dimensions args vectorDatas s s₁ s₂ s' rowid chunkId chunkOffset)
    (hj : j < p.vectorColumns.length) (hd : dimensions[j]? = some d) :
    ∃ vec, vectorDatas[j]? = some vec ∧ args.row.vectors[j]? = some vec ∧ vec.length = d := by
  have hall := mapM_eq_ok.mp hins.vectors
  have hlen := hall.length_eq
  obtain ⟨hdlt, hdim⟩ := List.getElem?_eq_some_iff.mp hd
  have hv : j < args.vectors.length := args.length_vectors ▸ hj
  have hlt : j < vectorDatas.length := by
    rw [← hlen]
    simp only [List.length_zip]
    omega
  have hread := List.Forall₂.get hall (i := j) (by rw [hlen]; exact hlt) hlt
  simp only [List.get_eq_getElem, List.getElem_zip, hdim, readVector, checkVector, bind_eq_ok,
    ofOption_eq_ok, require_eq_ok, pure_eq_ok] at hread
  obtain ⟨v, hargs, _, ⟨_, -, hlength⟩, helements⟩ := hread
  refine ⟨vectorDatas[j], List.getElem?_eq_getElem hlt, ?_, ?_⟩
  · rw [InsertArgs.row, List.getElem?_map, List.getElem?_eq_getElem hv, hargs, Option.map_some,
      ← helements]
    rfl
  · rw [← helements, hlength]

theorem slotFound {values : List SqlValue} (h : Vectors p j d rows s)
    (hd : dimensions[j]? = some d)
    (hslot : SlotFound p dimensions values s s₁ chunkId chunkOffset) : Vectors p j d rows s₁ := by
  cases hslot with
  | latest c _ _ _ _ hchunks hvectors _ _ =>
    exact h.congr (fun c => by rw [hchunks]) fun c => by rw [hvectors]
  | new hgrown _ =>
    have hj := (List.getElem?_eq_some_iff.mp hd).1
    intro k c hc
    rw [hgrown.chunks] at hc
    rw [hgrown.vectorChunks]
    split at hc
    next hk =>
      obtain rfl := Option.some.inj hc
      refine ⟨_, by rw [if_pos ⟨hk, hj⟩, hd, Option.map_some], List.length_replicate, fun hv => ?_⟩
      exact absurd ((Bitmap.get_new _ _).symm.trans hv) (by simp)
    next hk =>
      rw [if_neg fun h => hk h.1]
      exact h k c hc

theorem insert (h : Vectors p j d rows s) (hslots : Slots p rows s)
    (hins : Inserted p dimensions args vectorDatas s s₁ s₂ s' rowid chunkId chunkOffset)
    (hj : j < p.vectorColumns.length) (hd : dimensions[j]? = some d) :
    Vectors p j d (Function.update rows rowid (some args.row)) s' := by
  obtain ⟨vec, hdata, hrow, hlen⟩ := vectorDatas_eq hins hj hd
  obtain ⟨hframe, hwritten⟩ := writeVectors_get hins.written
  obtain ⟨blob, blob', hblob, -, hwrite, hblob'⟩ := hwritten j d vec hd hdata
  have hs₁ := h.slotFound hd hins.slot
  obtain ⟨hslots₁, hlt, c, hc, hfree, -⟩ :=
    hslots.slotFound ⟨args.length_partitions, hins.partitions⟩ hins.slot
  have hne : ∀ {k c off r}, s₁.chunks.get k = some c → c.validity.get off = true →
      c.rowids[off]? = some r → r ≠ rowid := fun hk hv hr => hslots₁.ne_of_fresh hins.fresh hk hv hr
  have hsize := hslots₁.sized hc
  have hdvd := p.chunkSize.dvd
  intro k c' hk
  rw [hins.chunks] at hk
  split at hk
  next heq =>
    subst heq
    rw [hc, Option.map_some, Option.some.injEq] at hk
    subst hk
    obtain ⟨blob₁, hblob₁, hV⟩ := hs₁ k c hc
    obtain rfl : blob₁ = blob := Option.some.inj (hblob₁.symm.trans hblob)
    refine ⟨blob', hblob', hV.write hwrite hlen (fun o ho => ⟨?_, ?_⟩)
      (fun {o r} _ hv hr => vectorOf_update_of_ne (hne hc hv hr) _) fun {r} hr => ?_⟩
    · exact (Bitmap.get_set _ _ o true (by omega)).trans (if_neg ho)
    · rw [ChunkRow.put, List.getElem?_set_ne (Ne.symm ho)]
    · rw [ChunkRow.put, List.getElem?_set_self (by omega)] at hr
      rw [← Option.some.inj hr, vectorOf_update, Function.update_self]
      exact hrow
  next heq =>
    obtain ⟨blob₁, hblob₁, hV⟩ := hs₁ k c' hk
    refine ⟨blob₁, (hframe j k heq).trans hblob₁, hV.congr fun hv hr => ?_⟩
    exact vectorOf_update_of_ne (hne hk hv hr) _

end Insert

theorem delete {rowid chunkId : Rowid} {chunkOffset : Nat} (h : Vectors p j d rows s)
    (hslots : Slots p rows s) (hdel : Deleted p s s' rowid chunkId chunkOffset) :
    Vectors p j d (Function.update rows rowid none) s' := by
  obtain ⟨row, hr, hpos⟩ := hdel.row
  obtain ⟨cid, off, c, x, hpos', hslot, -⟩ := hslots.placed hr
  obtain ⟨rfl, rfl⟩ : cid = chunkId ∧ off = chunkOffset := by
    rwa [hpos', Option.getD_some, Prod.mk.injEq] at hpos
  have hsize := hslots.sized hslot.chunk
  have hdvd := p.chunkSize.dvd
  have hlt := hslot.lt
  intro k c' hk
  rw [hdel.chunks] at hk
  rw [hdel.vectorChunks]
  split at hk
  next heq =>
    subst heq
    rw [hslot.chunk, Option.map_some, Option.some.injEq] at hk
    subst hk
    obtain ⟨blob, hblob, hV⟩ := h k c hslot.chunk
    refine ⟨blob, hblob, hV.shrink off (fun o hv => ?_) rfl fun {o r} ho hv hr' => ?_⟩
    · have hget : (c.validity.set off false).get o = if o = off then false else c.validity.get o :=
        Bitmap.get_set _ _ o false (by omega)
      rw [ChunkRow.free] at hv
      split at hget
      · exact absurd (hget.symm.trans hv) (by simp)
      next ho => exact ⟨ho, hget.symm.trans hv⟩
    · exact vectorOf_update_of_ne (hslots.ne_of_slot_ne hr hpos' hslot.chunk hv hr'
        fun heq => ho (Prod.mk.inj heq).2) _
  next heq =>
    obtain ⟨blob, hblob, hV⟩ := h k c' hk
    refine ⟨blob, hblob, hV.congr fun hv hr' => ?_⟩
    exact vectorOf_update_of_ne (hslots.ne_of_slot_ne hr hpos' hk hv hr'
      fun h => heq (Prod.mk.inj h).1) _

theorem update {dimensions : List Nat} {rowid chunkId : Rowid} {chunkOffset : Nat}
    {row : RowidsRow} {column : VectorColumn} {v : ParsedVector α} {rows' : Rows α}
    (h : Vectors p j d rows s) (hslots : Slots p rows s) (hr : s.rowids.get rowid = some row)
    (hpos : row.position.getD (0, 0) = (chunkId, chunkOffset)) (hd : dimensions[j]? = some d)
    (hupd : vec0UpdateUpdateVectorColumn dimensions s column chunkId chunkOffset j v = .ok s')
    (hrows : vectorOf rows' j = Function.update (vectorOf rows j) rowid (some v.elements)) :
    Vectors p j d rows' s' := by
  have hsize : dimensions.getD j 0 = d := by
    rw [List.getD_eq_getElem?_getD, hd, Option.getD_some]
  simp only [vec0UpdateUpdateVectorColumn, checkVector, bind_eq_ok, ofOption_eq_ok, require_eq_ok,
    pure_eq_ok, hsize] at hupd
  obtain ⟨_, ⟨_, -, hlen⟩, blob, hblob, blob', hwrite, rfl⟩ := hupd
  obtain ⟨cid, off, c, x, hpos', hslot, -⟩ := hslots.placed hr
  obtain ⟨rfl, rfl⟩ : cid = chunkId ∧ off = chunkOffset := by
    rwa [hpos', Option.getD_some, Prod.mk.injEq] at hpos
  have hother : ∀ {k c o r}, s.chunks.get k = some c → c.validity.get o = true →
      c.rowids[o]? = some r → (k, o) ≠ (cid, off) → vectorOf rows' j r = vectorOf rows j r :=
    fun hk hv hr' hne => by
      rw [hrows, Function.update_of_ne (hslots.ne_of_slot_ne hr hpos' hk hv hr' hne)]
  intro k c' hk
  have hget := get_replace hblob blob' k
  by_cases heq : k = cid
  · subst heq
    obtain rfl : c = c' := Option.some.inj (hslot.chunk.symm.trans hk)
    obtain ⟨blob₁, hblob₁, hV⟩ := h k c hk
    obtain rfl : blob₁ = blob := Option.some.inj (hblob₁.symm.trans hblob)
    refine ⟨blob', by rw [hget, if_pos rfl], hV.write hwrite hlen (fun _ _ => ⟨rfl, rfl⟩)
      (fun ho hv hr' => hother hk hv hr' fun h => ho (Prod.mk.inj h).2) fun {r} hr' => ?_⟩
    obtain rfl : rowid = r := Option.some.inj (hslot.rowid.symm.trans hr')
    rw [hrows, Function.update_self]
  · obtain ⟨blob₁, hblob₁, hV⟩ := h k c' hk
    refine ⟨blob₁, by rw [hget, if_neg heq, hblob₁], hV.congr fun hv hr' => ?_⟩
    exact hother hk hv hr' fun h => heq (Prod.mk.inj h).1

end Vectors

end SqliteMultimodal.Vec.Storage
