import SqliteMultimodal.Vec.Storage.Defs

namespace SqliteMultimodal.Vec.Storage

open Except

variable {α ι : Type} {p : Vec0Vtab} {dimensions : List Nat} {s s' : Shadow α}

section Rowids

variable {id : SqlValue} {r : Rowid}

theorem vec0RowidsInsertRowid_spec (h : vec0RowidsInsertRowid s r = .ok s') :
    ∃ rowids, s.rowids.insertRowid r ⟨.null, none⟩ = some rowids ∧ s' = { s with rowids } := by
  simp only [vec0RowidsInsertRowid, bind_eq_ok, ofOption_eq_ok, pure_eq_ok] at h
  obtain ⟨rowids, hins, rfl⟩ := h
  exact ⟨rowids, hins, rfl⟩

theorem vec0RowidsInsertId_spec (h : vec0RowidsInsertId p s id = .ok (s', r)) :
    ∃ rowids, s.rowids.insertRowid r ⟨id, none⟩ = some rowids ∧ s' = { s with rowids } := by
  simp only [vec0RowidsInsertId, bind_eq_ok, require_eq_ok, ofOption_eq_ok, pure_eq_ok,
    Prod.mk.injEq] at h
  obtain ⟨_, -, ⟨k, rowids⟩, hins, rfl, rfl⟩ := h
  exact ⟨rowids, (AutoTable.insertAuto_eq_some hins).1, rfl⟩

theorem vec0UpdateInsertRowidStep_spec (h : vec0UpdateInsertRowidStep p s id = .ok (s', r)) :
    ∃ id' rowids, s.rowids.insertRowid r ⟨id', none⟩ = some rowids ∧ s' = { s with rowids } := by
  unfold vec0UpdateInsertRowidStep at h
  split at h
  · simp only [bind_eq_ok, require_eq_ok] at h
    obtain ⟨_, -, h⟩ := h
    exact ⟨id, vec0RowidsInsertId_spec h⟩
  · cases id with
    | integer v =>
      simp only [bind_eq_ok, pure_eq_ok, Prod.mk.injEq] at h
      obtain ⟨_, h, rfl, rfl⟩ := h
      exact ⟨.null, vec0RowidsInsertRowid_spec h⟩
    | null => exact ⟨.null, vec0RowidsInsertId_spec h⟩
    | real v | text v | blob v => simp at h

end Rowids

section Chunks

theorem insertEach_get {ρ : Type} {t t' : Table (Nat × Rowid) ρ} {key : Rowid} {rows : List ρ}
    (h : insertEach t key rows = .ok t') (j : Nat) (c : Rowid) :
    t'.get (j, c) = if c = key ∧ j < rows.length then rows[j]? else t.get (j, c) := by
  have hstep : ∀ (t t' : Table (Nat × Rowid) ρ) (x : ρ × Nat),
      (ofOption sqliteError (t.insert (x.2, key) x.1) : Except ResultCode _) = .ok t' →
      ∀ i, i ≠ x.2 → (fun c => t'.get (i, c)) = fun c => t.get (i, c) := by
    intro t t' x hx i hi
    funext c
    rw [Table.get_insert (ofOption_eq_ok.mp hx), if_neg fun heq => hi (Prod.mk.inj heq).1]
  rcases Nat.lt_or_ge j rows.length with hj | hj
  · have hrow := List.getElem?_eq_getElem hj
    obtain ⟨t₁, t₂, hx, hget₁, hget⟩ :=
      foldlM_zipIdx_at (fun t i c => t.get (i, c)) hstep h hrow
    rw [congrFun hget c, Table.get_insert (ofOption_eq_ok.mp hx), congrFun hget₁ c, hrow]
    simp [hj]
  · rw [if_neg (by omega)]
    exact congrFun (foldlM_zipIdx_of_le (fun t i c => t.get (i, c)) hstep h hj) c

/-- The shadow tables `s'` are `s` with the empty chunk `chunkId`. -/
structure Grown (p : Vec0Vtab) (dimensions : List Nat) (partitions : List SqlValue)
    (s s' : Shadow α) (chunkId : Rowid) [Zero α] : Prop where
  fresh : s.chunks.get chunkId = none
  metadataText : s'.metadataText = s.metadataText
  chunks : ∀ c, s'.chunks.get c = if c = chunkId
    then some ⟨Bitmap.new p.chunkSize.val, List.replicate p.chunkSize.val 0, partitions⟩
    else s.chunks.get c
  vectorChunks : ∀ j c, s'.vectorChunks.get (j, c) = if c = chunkId ∧ j < dimensions.length
    then dimensions[j]?.map fun d => List.replicate (p.chunkSize.val * d) 0
    else s.vectorChunks.get (j, c)
  metadataChunks : ∀ j c, s'.metadataChunks.get (j, c) =
    if c = chunkId ∧ j < p.metadataKinds.length
    then p.metadataKinds[j]?.map (zeroMetadataChunk p.chunkSize.val)
    else s.metadataChunks.get (j, c)

theorem vec0NewChunk_spec [Zero α] {partitions : List SqlValue} {chunkId : Rowid}
    (h : vec0NewChunk p dimensions s partitions = .ok (s', chunkId)) :
    s'.rowids = s.rowids ∧ Grown p dimensions partitions s s' chunkId := by
  simp only [vec0NewChunk, bind_eq_ok, ofOption_eq_ok, pure_eq_ok, Prod.mk.injEq] at h
  obtain ⟨⟨k, chunks⟩, hins, vectorChunks, hvec, metadataChunks, hmeta, rfl, rfl⟩ := h
  obtain ⟨hfresh, hget⟩ := AutoTable.insertRowid_eq_some (AutoTable.insertAuto_eq_some hins).1
  exact ⟨rfl, {
    fresh := hfresh
    metadataText := rfl
    chunks := hget
    vectorChunks := fun j c => by rw [insertEach_get hvec, List.length_map, List.getElem?_map]
    metadataChunks := fun j c => by
      rw [insertEach_get hmeta, List.length_map, List.getElem?_map] }⟩

theorem nextAvailableBit_spec {bytes : List (BitVec 8)} {i : Nat}
    (h : nextAvailableBit bytes = some i) :
    i < 8 * bytes.length ∧ (Bitmap.mk bytes).get i = false := by
  induction bytes generalizing i with
  | nil => simp [nextAvailableBit] at h
  | cons byte bytes ih =>
    unfold nextAvailableBit at h
    split at h
    next j hj =>
      obtain rfl := Option.some.inj h
      split at hj
      · simp at hj
      · have hlt : j < 8 := List.mem_range.mp (List.mem_of_find?_eq_some hj)
        have hbit := List.find?_some hj
        refine ⟨by rw [List.length_cons]; omega, ?_⟩
        simpa [Bitmap.get, Bitmap.byte, Nat.div_eq_of_lt hlt, Nat.mod_eq_of_lt hlt] using hbit
    next =>
      obtain ⟨k, hk, rfl⟩ := Option.map_eq_some_iff.mp h
      obtain ⟨hlt, hbit⟩ := ih hk
      refine ⟨by rw [List.length_cons]; omega, ?_⟩
      have hdiv : (8 + k) / 8 = k / 8 + 1 := by omega
      have hmod : (8 + k) % 8 = k % 8 := by omega
      simpa [Bitmap.get, Bitmap.byte, hdiv, hmod] using hbit

inductive SlotFound [Zero α] (p : Vec0Vtab) (dimensions : List Nat) (partitions : List SqlValue)
    (s s' : Shadow α) (chunkId : Rowid) (chunkOffset : Nat) : Prop
  | latest (c : ChunkRow) (get : s.chunks.get chunkId = some c)
    (partitions_eq : (c.partitions.zip partitions).all (fun x => x.1.eq x.2) = true)
    (lt : chunkOffset < p.chunkSize.val) (free : c.validity.get chunkOffset = false)
    (chunks : s'.chunks = s.chunks) (vectorChunks : s'.vectorChunks = s.vectorChunks)
    (metadataChunks : s'.metadataChunks = s.metadataChunks)
    (metadataText : s'.metadataText = s.metadataText)
  | new (grown : Grown p dimensions partitions s s' chunkId) (zero : chunkOffset = 0)

theorem vec0UpdateInsertNextAvailableStep_spec [Zero α] {partitions : List SqlValue}
    {chunkId : Rowid} {chunkOffset : Nat}
    (h : vec0UpdateInsertNextAvailableStep p dimensions s partitions =
      .ok (s', chunkId, chunkOffset)) :
    s'.rowids = s.rowids ∧ SlotFound p dimensions partitions s s' chunkId chunkOffset := by
  have hnew : ∀ {t : Shadow α × Rowid × Nat},
      (vec0NewChunk p dimensions s partitions >>= fun x => pure (x.1, x.2, 0)) = Except.ok t →
      t.1.rowids = s.rowids ∧ SlotFound p dimensions partitions s t.1 t.2.1 t.2.2 := by
    intro t ht
    simp only [bind_eq_ok, pure_eq_ok] at ht
    obtain ⟨⟨s₁, k⟩, hk, rfl⟩ := ht
    obtain ⟨hrowids, hgrown⟩ := vec0NewChunk_spec hk
    exact ⟨hrowids, .new hgrown rfl⟩
  unfold vec0UpdateInsertNextAvailableStep at h
  split at h
  · exact hnew h
  next latest hlatest =>
    simp only [bind_eq_ok, ofOption_eq_ok, require_eq_ok] at h
    obtain ⟨c, hc, _, hlen, h⟩ := h
    split at h
    next i hi =>
      simp only [pure_eq_ok, Prod.mk.injEq] at h
      obtain ⟨rfl, rfl, rfl⟩ := h
      obtain ⟨hlt, hfree⟩ := nextAvailableBit_spec hi
      obtain ⟨c', hc', hpart⟩ := AutoTable.maxWhere_eq_some hlatest
      obtain rfl : c = c' := Option.some.inj (hc.symm.trans hc')
      have hdvd := p.chunkSize.dvd
      exact ⟨rfl, .latest c hc hpart (by omega) hfree rfl rfl rfl rfl⟩
    next => exact hnew h

theorem writeVectors_get {chunkId : Rowid} {chunkOffset : Nat} {vectorDatas : List (List α)}
    {t : Table (Nat × Rowid) (List α)}
    (h : writeVectors p dimensions s chunkId chunkOffset vectorDatas = .ok t) :
    (∀ j c, c ≠ chunkId → t.get (j, c) = s.vectorChunks.get (j, c)) ∧
    ∀ j d v, dimensions[j]? = some d → vectorDatas[j]? = some v →
      ∃ chunk chunk', s.vectorChunks.get (j, chunkId) = some chunk ∧
        chunk.length = p.chunkSize.val * d ∧
        Blob.write chunk (chunkOffset * d) v = some chunk' ∧ t.get (j, chunkId) = some chunk' := by
  have hstep : ∀ (t t' : Table (Nat × Rowid) (List α)) (x : (Nat × List α) × Nat), (do
        let chunk ← ofOption sqliteError (t.get (x.2, chunkId))
        require (chunk.length = p.chunkSize.val * x.1.1) sqliteError
        let chunk ← ofOption sqliteError (Blob.write chunk (chunkOffset * x.1.1) x.1.2)
        return t.modify (x.2, chunkId) fun _ => chunk) = Except.ok t' →
      ∃ chunk chunk', t.get (x.2, chunkId) = some chunk ∧
        chunk.length = p.chunkSize.val * x.1.1 ∧
        Blob.write chunk (chunkOffset * x.1.1) x.1.2 = some chunk' ∧
        t' = t.modify (x.2, chunkId) fun _ => chunk' := by
    intro t t' x hx
    simp only [bind_eq_ok, ofOption_eq_ok, require_eq_ok, pure_eq_ok] at hx
    obtain ⟨chunk, hget, _, hlen, chunk', hwrite, rfl⟩ := hx
    exact ⟨chunk, chunk', hget, hlen, hwrite, rfl⟩
  refine ⟨fun j c hc => ?_, fun j d v hd hv => ?_⟩
  · refine foldlM_eq (g := fun t => t.get (j, c)) (fun t t' x _ hx => ?_) h
    obtain ⟨_, _, -, -, -, rfl⟩ := hstep t t' x hx
    rw [Table.get_modify, if_neg fun heq => hc (Prod.mk.inj heq).2]
  · have hzip : (dimensions.zip vectorDatas)[j]? = some (d, v) := by
      rw [List.getElem?_zip_eq_some]
      exact ⟨hd, hv⟩
    obtain ⟨t₁, t₂, hx, hget₁, hget⟩ :=
      foldlM_zipIdx_at (fun t i => t.get (i, chunkId)) (fun t t' x hx i hi => by
        obtain ⟨_, _, -, -, -, rfl⟩ := hstep t t' x hx
        rw [Table.get_modify, if_neg fun heq => hi (Prod.mk.inj heq).1]) h hzip
    obtain ⟨chunk, chunk', hchunk, hlen, hwrite, rfl⟩ := hstep t₁ t₂ _ hx
    refine ⟨chunk, chunk', hget₁ ▸ hchunk, hlen, hwrite, ?_⟩
    rw [hget, Table.get_modify, if_pos rfl, hchunk]
    rfl

end Chunks

section Metadata

theorem get_replace {ρ : Type} {t : Table (Nat × Rowid) ρ} {i : Nat} {chunkId : Rowid} {a : ρ}
    (h : t.get (i, chunkId) = some a) (b : ρ) (c : Rowid) :
    (t.modify (i, chunkId) fun _ => b).get (i, c) =
      if c = chunkId then some b else t.get (i, c) := by
  rw [Table.get_modify]
  by_cases hc : c = chunkId
  · rw [if_pos (by rw [hc]), if_pos hc, hc, h]
    rfl
  · rw [if_neg fun heq => hc (Prod.mk.inj heq).2, if_neg hc]

def Shadow.column (s : Shadow α) (j : Nat) :
    (Rowid → Option MetadataChunk) × (Rowid → Option Bytes) :=
  (fun c => s.metadataChunks.get (j, c), fun r => s.metadataText.get (j, r))

/-- `s'` differs from `s` in the metadata alone. -/
def Shadow.SameRows (s s' : Shadow α) : Prop :=
  s'.rowids = s.rowids ∧ s'.chunks = s.chunks ∧ s'.vectorChunks = s.vectorChunks

theorem writeOverflow_get {t t' : Table (Nat × Rowid) Bytes} {key : Nat × Rowid} {prevN : Int}
    {text : Bytes} {isupdate : Bool} (h : writeOverflow t key prevN text isupdate = .ok t') :
    (∀ k, k ≠ key → t'.get k = t.get k) ∧
    (text.length > 12 → isupdate = true ∧ prevN > 12 ∧ t'.get key = (t.get key).map (fun _ => text) ∨
      t'.get key = some text) ∧
    (text.length ≤ 12 → t'.get key = if prevN > 12 then none else t.get key) := by
  unfold writeOverflow at h
  split at h
  next hlong =>
    split at h
    next hupd =>
      obtain rfl := pure_eq_ok.mp h
      refine ⟨fun k hk => by rw [Table.get_modify, if_neg hk], fun _ => .inl ⟨hupd.1, hupd.2, ?_⟩,
        fun hle => by omega⟩
      rw [Table.get_modify, if_pos rfl]
    next =>
      have hget := Table.get_insert (ofOption_eq_ok.mp h)
      exact ⟨fun k hk => by rw [hget, if_neg hk], fun _ => .inr (by rw [hget, if_pos rfl]),
        fun hle => by omega⟩
  next hshort =>
    split at h
    next hprev =>
      obtain rfl := pure_eq_ok.mp h
      refine ⟨fun k hk => by rw [Table.get_delete, if_neg hk], fun hlt => by omega, fun _ => ?_⟩
      rw [Table.get_delete, if_pos rfl, if_pos hprev]
    next hprev =>
      obtain rfl := pure_eq_ok.mp h
      exact ⟨fun _ _ => rfl, fun hlt => by omega, fun _ => by rw [if_neg hprev]⟩

variable {i : Nat} {rowid chunkId : Rowid} {chunkOffset : Nat} {v : SqlValue} {isupdate : Bool}

theorem vec0WriteMetadataValue_frame
    (h : vec0WriteMetadataValue p s i rowid chunkId chunkOffset v isupdate = .ok s') :
    ∃ chunk metadataText, (∀ k, k ≠ (i, rowid) → metadataText.get k = s.metadataText.get k) ∧
      s' = { s with
        metadataChunks := s.metadataChunks.modify (i, chunkId) fun _ => chunk, metadataText } := by
  unfold vec0WriteMetadataValue at h
  dsimp only at h
  split at h
  · simp only [bind_eq_ok, require_eq_ok] at h
    obtain ⟨_, -, h⟩ := h
    split at h
    · simp only [bind_eq_ok, require_eq_ok, pure_eq_ok] at h
      obtain ⟨_, -, rfl⟩ := h
      exact ⟨_, _, fun _ _ => rfl, rfl⟩
    · simp at h
  · split at h
    · simp only [bind_eq_ok, require_eq_ok, pure_eq_ok] at h
      obtain ⟨_, -, rfl⟩ := h
      exact ⟨_, _, fun _ _ => rfl, rfl⟩
    · simp at h
  · split at h
    · simp only [bind_eq_ok, require_eq_ok, pure_eq_ok] at h
      obtain ⟨_, -, rfl⟩ := h
      exact ⟨_, _, fun _ _ => rfl, rfl⟩
    · simp at h
  · split at h
    · simp only [bind_eq_ok, require_eq_ok, pure_eq_ok] at h
      obtain ⟨_, -, t, ht, rfl⟩ := h
      exact ⟨_, t, (writeOverflow_get ht).1, rfl⟩
    · simp at h
  · simp at h

theorem vec0WriteMetadataValue_sameRows
    (h : vec0WriteMetadataValue p s i rowid chunkId chunkOffset v isupdate = .ok s') :
    s.SameRows s' := by
  obtain ⟨_, _, -, rfl⟩ := vec0WriteMetadataValue_frame h
  exact ⟨rfl, rfl, rfl⟩

theorem vec0WriteMetadataValue_column
    (h : vec0WriteMetadataValue p s i rowid chunkId chunkOffset v isupdate = .ok s') {j : Nat}
    (hj : j ≠ i) : s'.column j = s.column j := by
  obtain ⟨_, _, htext, rfl⟩ := vec0WriteMetadataValue_frame h
  refine Prod.ext (funext fun c => ?_) (funext fun r => ?_)
  · show (s.metadataChunks.modify _ _).get (j, c) = _
    rw [Table.get_modify, if_neg fun heq => hj (Prod.mk.inj heq).1]
    rfl
  · exact htext _ fun heq => hj (Prod.mk.inj heq).1

theorem vec0WriteMetadataValue_text (hkind : p.metadataKinds[i]? = some .text)
    (h : vec0WriteMetadataValue p s i rowid chunkId chunkOffset v isupdate = .ok s') :
    ∃ text views, v = .text text ∧ (s.column i).1 chunkId = some (.text views) ∧
      chunkOffset < views.length ∧
      (∀ c, (s'.column i).1 c = if c = chunkId
        then some (.text (views.set chunkOffset (textView text))) else (s.column i).1 c) ∧
      writeOverflow s.metadataText (i, rowid) (viewLength (views.getD chunkOffset [])) text isupdate =
        .ok s'.metadataText := by
  unfold vec0WriteMetadataValue at h
  rw [hkind] at h
  cases v with
  | text text =>
    dsimp only at h
    split at h
    next views hviews =>
      simp only [bind_eq_ok, require_eq_ok, pure_eq_ok] at h
      obtain ⟨_, hlt, t, ht, rfl⟩ := h
      exact ⟨text, views, rfl, hviews, hlt, get_replace hviews _, ht⟩
    · simp at h
  | _ => simp at h

theorem writeMetadata_sameRows {values : List (Option SqlValue)}
    (h : writeMetadata p s rowid chunkId chunkOffset values isupdate = .ok s') : s.SameRows s' := by
  have heq := foldlM_eq (g := fun s : Shadow α => (s.rowids, s.chunks, s.vectorChunks))
    (fun s s' x _ hx => ?_) h
  · simpa only [Prod.mk.injEq, Shadow.SameRows] using heq
  · split at hx
    · obtain rfl := pure_eq_ok.mp hx
      rfl
    · simpa only [Prod.mk.injEq, Shadow.SameRows] using vec0WriteMetadataValue_sameRows hx

section Columns

variable {values : List (Option SqlValue)} {j : Nat}

theorem writeMetadata_step (s s' : Shadow α) (x : Option SqlValue × Nat)
    (hx : (match x.1 with
      | none => pure s
      | some v => vec0WriteMetadataValue p s x.2 rowid chunkId chunkOffset v isupdate) =
        Except.ok s') (j : Nat) (hj : j ≠ x.2) : s'.column j = s.column j := by
  split at hx
  · obtain rfl := pure_eq_ok.mp hx
    rfl
  · exact vec0WriteMetadataValue_column hx hj

theorem writeMetadata_column_none
    (h : writeMetadata p s rowid chunkId chunkOffset values isupdate = .ok s')
    (hj : values[j]? = some none) : s'.column j = s.column j := by
  obtain ⟨s₁, s₂, hx, hview₁, hview⟩ := foldlM_zipIdx_at Shadow.column writeMetadata_step h hj
  obtain rfl := pure_eq_ok.mp hx
  rw [hview, hview₁]

theorem writeMetadata_column_some
    (h : writeMetadata p s rowid chunkId chunkOffset values isupdate = .ok s')
    (hj : values[j]? = some (some v)) :
    ∃ s₁ s₂ : Shadow α,
      vec0WriteMetadataValue p s₁ j rowid chunkId chunkOffset v isupdate = .ok s₂ ∧
      s₁.column j = s.column j ∧ s'.column j = s₂.column j :=
  foldlM_zipIdx_at Shadow.column writeMetadata_step h hj

end Columns

theorem vec0UpdateDeleteClearMetadata_sameRows (s : Shadow α) (i : Nat) (rowid chunkId : Rowid)
    (chunkOffset : Nat) :
    s.SameRows (vec0UpdateDeleteClearMetadata s i rowid chunkId chunkOffset) := by
  unfold vec0UpdateDeleteClearMetadata
  dsimp only
  split <;> exact ⟨rfl, rfl, rfl⟩

theorem column_setMetadataChunk (s : Shadow α) (i j : Nat) (chunkId : Rowid) (chunk : MetadataChunk)
    (hj : j ≠ i) : (s.setMetadataChunk (i, chunkId) chunk).column j = s.column j := by
  refine Prod.ext (funext fun c => ?_) rfl
  show (s.metadataChunks.modify _ _).get (j, c) = _
  rw [Table.get_modify, if_neg fun heq => hj (Prod.mk.inj heq).1]
  rfl

theorem vec0UpdateDeleteClearMetadata_column (s : Shadow α) (i j : Nat) (rowid chunkId : Rowid)
    (chunkOffset : Nat) (hj : j ≠ i) :
    (vec0UpdateDeleteClearMetadata s i rowid chunkId chunkOffset).column j = s.column j := by
  unfold vec0UpdateDeleteClearMetadata
  dsimp only
  split
  · exact column_setMetadataChunk s i j chunkId _ hj
  · exact column_setMetadataChunk s i j chunkId _ hj
  · exact column_setMetadataChunk s i j chunkId _ hj
  next views _ =>
    have hchunk := column_setMetadataChunk s i j chunkId (.text (views.set chunkOffset zeroView)) hj
    refine Prod.ext (congrArg Prod.fst hchunk :) (funext fun r => ?_)
    show (if _ then s.metadataText.delete _ else s.metadataText).get (j, r) = _
    split
    · rw [Table.get_delete, if_neg fun heq => hj (Prod.mk.inj heq).1]
      rfl
    · rfl
  · rfl

theorem vec0UpdateDeleteClearMetadata_text {views : List Bytes} (rowid : Rowid) (chunkOffset : Nat)
    (hviews : (s.column i).1 chunkId = some (.text views)) :
    (∀ c, ((vec0UpdateDeleteClearMetadata s i rowid chunkId chunkOffset).column i).1 c =
      if c = chunkId then some (.text (views.set chunkOffset zeroView)) else (s.column i).1 c) ∧
    ∀ r, ((vec0UpdateDeleteClearMetadata s i rowid chunkId chunkOffset).column i).2 r =
      if r = rowid ∧ viewLength (views.getD chunkOffset []) > 12 then none
      else (s.column i).2 r := by
  have hget : s.metadataChunks.get (i, chunkId) = some (.text views) := hviews
  unfold vec0UpdateDeleteClearMetadata
  dsimp only
  rw [hget]
  refine ⟨get_replace hget _, fun r => ?_⟩
  · show (if _ then s.metadataText.delete _ else s.metadataText).get (i, r) = _
    by_cases hlong : viewLength (views.getD chunkOffset []) > 12
    · rw [if_pos hlong, Table.get_delete]
      simp only [Prod.mk.injEq, true_and, hlong, and_true]
      rfl
    · rw [if_neg hlong, if_neg fun h => hlong h.2]
      rfl

theorem clearMetadata_eq_foldlM (p : Vec0Vtab) (s : Shadow α) (rowid chunkId : Rowid)
    (chunkOffset : Nat) :
    (List.range p.metadataKinds.length).foldlM (fun s i =>
      (.ok (vec0UpdateDeleteClearMetadata s i rowid chunkId chunkOffset) : Except ResultCode _)) s =
      .ok (clearMetadata p s rowid chunkId chunkOffset) :=
  List.foldlM_pure ..

theorem clearMetadata_sameRows (p : Vec0Vtab) (s : Shadow α) (rowid chunkId : Rowid)
    (chunkOffset : Nat) : s.SameRows (clearMetadata p s rowid chunkId chunkOffset) := by
  have heq := foldlM_eq (g := fun s : Shadow α => (s.rowids, s.chunks, s.vectorChunks))
    (fun s s' i _ hi => ?_) (clearMetadata_eq_foldlM p s rowid chunkId chunkOffset)
  · simpa only [Prod.mk.injEq, Shadow.SameRows] using heq
  · obtain rfl := Except.ok.inj hi
    simpa only [Prod.mk.injEq, Shadow.SameRows] using
      vec0UpdateDeleteClearMetadata_sameRows s i rowid chunkId _

theorem clearMetadata_column (s : Shadow α) (rowid chunkId : Rowid) (chunkOffset : Nat) {j : Nat}
    (hj : j < p.metadataKinds.length) :
    ∃ s₁ : Shadow α, s₁.column j = s.column j ∧
      (clearMetadata p s rowid chunkId chunkOffset).column j =
        (vec0UpdateDeleteClearMetadata s₁ j rowid chunkId chunkOffset).column j := by
  obtain ⟨s₁, s₂, hx, hview₁, hview⟩ := foldlM_at Shadow.column (fun i => i)
    (fun s s' i hi j hj => by
      obtain rfl := Except.ok.inj hi
      exact vec0UpdateDeleteClearMetadata_column s i j rowid chunkId _ hj)
    (by simpa using List.nodup_range) (clearMetadata_eq_foldlM p s rowid chunkId chunkOffset)
    (List.mem_range.mpr hj)
  obtain rfl := Except.ok.inj hx
  exact ⟨s₁, hview₁, hview⟩

end Metadata

end SqliteMultimodal.Vec.Storage
