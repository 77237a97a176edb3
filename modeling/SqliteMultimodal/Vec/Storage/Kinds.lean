import SqliteMultimodal.Vec.Storage.Rows

namespace SqliteMultimodal.Vec.Storage

open Except

def MetadataChunk.kind : MetadataChunk → MetadataKind
  | .boolean _ => .boolean
  | .integer _ => .integer
  | .float _ => .float
  | .text _ => .text

variable {α ι : Type} {p : Vec0Vtab} {s s' : Shadow α} {i : Nat} {kind : MetadataKind}

def Kinds (i : Nat) (kind : MetadataKind) (s : Shadow α) : Prop :=
  ∀ chunkId chunk, (s.column i).1 chunkId = some chunk → chunk.kind = kind

theorem Kinds.congr (h : Kinds i kind s) (hcolumn : s'.column i = s.column i) :
    Kinds i kind s' := by
  intro chunkId chunk hchunk
  rw [hcolumn] at hchunk
  exact h _ _ hchunk

theorem kind_zeroMetadataChunk (n : Nat) : (zeroMetadataChunk n kind).kind = kind := by
  cases kind <;> rfl

theorem Kinds.replace {chunkId : Rowid} {old : MetadataChunk} (h : Kinds i kind s)
    (hold : s.metadataChunks.get (i, chunkId) = some old) (new : MetadataChunk)
    (hs' : s'.metadataChunks = s.metadataChunks.modify (i, chunkId) fun _ => new)
    (hnew : new.kind = old.kind) : Kinds i kind s' := by
  intro c chunk hchunk
  have hget : s'.metadataChunks.get (i, c) = some chunk := hchunk
  rw [hs', get_replace hold] at hget
  split at hget
  · obtain rfl := Option.some.inj hget
    exact hnew.trans (h _ _ hold)
  · exact h _ _ hget

theorem Kinds.write {rowid chunkId : Rowid} {chunkOffset : Nat} {v : SqlValue} {isupdate : Bool}
    (h : Kinds i kind s)
    (hwrite : vec0WriteMetadataValue p s i rowid chunkId chunkOffset v isupdate = .ok s') :
    Kinds i kind s' := by
  unfold vec0WriteMetadataValue at hwrite
  dsimp only at hwrite
  split at hwrite
  · simp only [bind_eq_ok] at hwrite
    obtain ⟨_, -, hwrite⟩ := hwrite
    split at hwrite
    next hget =>
      simp only [bind_eq_ok, pure_eq_ok] at hwrite
      obtain ⟨_, -, rfl⟩ := hwrite
      exact h.replace hget (.boolean _) rfl rfl
    · simp at hwrite
  · split at hwrite
    next hget =>
      simp only [bind_eq_ok, pure_eq_ok] at hwrite
      obtain ⟨_, -, rfl⟩ := hwrite
      exact h.replace hget (.integer _) rfl rfl
    · simp at hwrite
  · split at hwrite
    next hget =>
      simp only [bind_eq_ok, pure_eq_ok] at hwrite
      obtain ⟨_, -, rfl⟩ := hwrite
      exact h.replace hget (.float _) rfl rfl
    · simp at hwrite
  · split at hwrite
    next hget =>
      simp only [bind_eq_ok, pure_eq_ok] at hwrite
      obtain ⟨_, -, _, -, rfl⟩ := hwrite
      exact h.replace hget (.text _) rfl rfl
    · simp at hwrite
  · simp at hwrite

theorem Kinds.writeMetadata {rowid chunkId : Rowid} {chunkOffset : Nat}
    {values : List (Option SqlValue)} {isupdate : Bool} (h : Kinds i kind s)
    (hi : i < values.length)
    (hwrite : writeMetadata p s rowid chunkId chunkOffset values isupdate = .ok s') :
    Kinds i kind s' := by
  cases hv : values[i] with
  | none =>
    exact h.congr (writeMetadata_column_none hwrite (by rw [List.getElem?_eq_getElem hi, hv]))
  | some v =>
    obtain ⟨s₁, s₂, hstep, hcol₁, hcol⟩ :=
      writeMetadata_column_some hwrite (by rw [List.getElem?_eq_getElem hi, hv])
    exact ((h.congr hcol₁).write hstep).congr hcol

theorem Kinds.clear (h : Kinds i kind s) (rowid chunkId : Rowid) (chunkOffset : Nat) :
    Kinds i kind (vec0UpdateDeleteClearMetadata s i rowid chunkId chunkOffset) := by
  unfold vec0UpdateDeleteClearMetadata
  dsimp only
  split
  next hget => exact h.replace hget (.boolean _) rfl rfl
  next hget => exact h.replace hget (.integer _) rfl rfl
  next hget => exact h.replace hget (.float _) rfl rfl
  next hget => exact h.replace hget (.text _) rfl rfl
  next => exact h

section Statements

variable [Zero α] {ops : IndexOps α ι} {v v' : Vec0 α ι}

theorem Kinds.slotFound {dimensions : List Nat} {values : List SqlValue} {chunkId : Rowid}
    {chunkOffset : Nat} (h : Kinds i kind s) (hkind : p.metadataKinds[i]? = some kind)
    (hslot : SlotFound p dimensions values s s' chunkId chunkOffset) : Kinds i kind s' := by
  cases hslot with
  | latest c _ _ _ _ _ _ hmetadata htext =>
    exact h.congr (by simp only [Shadow.column, hmetadata, htext])
  | new hgrown _ =>
    intro c chunk hchunk
    have hget : s'.metadataChunks.get (i, c) = some chunk := hchunk
    rw [hgrown.metadataChunks, hkind] at hget
    split at hget
    · obtain rfl := Option.some.inj hget
      exact kind_zeroMetadataChunk _
    · exact h _ _ hget

theorem Kinds.step {stmt : Statement p α} {rowid : Rowid} (h : Kinds i kind v.shadow)
    (hkind : p.metadataKinds[i]? = some kind)
    (hstmt : vec0Update ops p v stmt = (v', .ok rowid)) : Kinds i kind v'.shadow := by
  have hi := (List.getElem?_eq_some_iff.mp hkind).1
  cases stmt with
  | insert args =>
    obtain ⟨_, hins, -⟩ := vec0Update_insert hstmt
    obtain ⟨s₁, s₂, _, _, hins⟩ := insertShadow_spec hins
    refine ((h.slotFound hkind hins.slot).congr (hins.column i)).writeMetadata ?_ hins.metadata
    rw [List.length_map, args.length_metadata]
    exact hi
  | update args =>
    obtain ⟨s₁, _, _, hupd, hloop⟩ := vec0Update_update hstmt
    obtain ⟨_, hs'⟩ := updateVectors_frame (congrArg (fun x => x.2.2) hloop)
    obtain ⟨s₀, hcol₀, hmeta⟩ := (updateShadow_spec hupd).metadata
    have hs₁ := (h.congr (hcol₀ i)).writeMetadata (args.length_metadata ▸ hi) hmeta
    rw [hs']
    exact hs₁.congr rfl
  | delete id =>
    obtain ⟨chunkId, chunkOffset, hdel⟩ := deleteShadow_spec (vec0Update_delete hstmt).1
    obtain ⟨s₁, hcol₁, hcol⟩ := hdel.column i hi
    exact ((h.congr hcol₁).clear rowid chunkId chunkOffset).congr hcol

theorem Kinds.run {rows : Rows α} (h : Run ops p v rows) (hkind : p.metadataKinds[i]? = some kind) :
    Kinds i kind v.shadow := by
  induction h with
  | create index =>
    intro chunkId chunk hchunk
    simp [Vec0.create, Shadow.empty, Shadow.column] at hchunk
  | ok stmt _ hstmt ih => exact ih.step hkind hstmt
  | error stmt _ hstmt ih =>
    rw [vec0Update_error hstmt]
    exact ih

end Statements

section Shape

def MetadataChunk.shape : MetadataChunk → MetadataKind × Nat
  | .boolean bits => (.boolean, bits.bytes.length)
  | .integer values => (.integer, values.length)
  | .float values => (.float, values.length)
  | .text views => (.text, views.length)

def Shadow.shapeAt (s : Shadow α) (i : Nat) (k : Rowid) : Option (MetadataKind × Nat) :=
  ((s.column i).1 k).map MetadataChunk.shape

theorem shapeAt_congr (h : s'.column i = s.column i) : s'.shapeAt i = s.shapeAt i := by
  funext k
  rw [Shadow.shapeAt, h, Shadow.shapeAt]

theorem shapeAt_replace {chunkId : Rowid} {old new : MetadataChunk}
    (hold : s.metadataChunks.get (i, chunkId) = some old)
    (hs' : s'.metadataChunks = s.metadataChunks.modify (i, chunkId) fun _ => new)
    (hnew : new.shape = old.shape) : s'.shapeAt i = s.shapeAt i := by
  funext k
  have hget : (s'.column i).1 k = if k = chunkId then some new else (s.column i).1 k := by
    show s'.metadataChunks.get (i, k) = _
    rw [hs', get_replace hold]
    rfl
  rw [Shadow.shapeAt, hget, Shadow.shapeAt]
  split
  next hk =>
    have hcol : (s.column i).1 k = some old := hk ▸ hold
    rw [hcol, Option.map_some, Option.map_some, hnew]
  next => rfl

theorem vec0WriteMetadataValue_shape {rowid chunkId : Rowid} {chunkOffset : Nat} {v : SqlValue}
    {isupdate : Bool}
    (h : vec0WriteMetadataValue p s i rowid chunkId chunkOffset v isupdate = .ok s') :
    s'.shapeAt i = s.shapeAt i := by
  unfold vec0WriteMetadataValue at h
  dsimp only at h
  split at h
  · simp only [bind_eq_ok] at h
    obtain ⟨_, -, h⟩ := h
    split at h
    next hget =>
      simp only [bind_eq_ok, pure_eq_ok] at h
      obtain ⟨_, -, rfl⟩ := h
      exact shapeAt_replace hget rfl (by rw [MetadataChunk.shape, Bitmap.length_set]; rfl)
    · simp at h
  · split at h
    next hget =>
      simp only [bind_eq_ok, pure_eq_ok] at h
      obtain ⟨_, -, rfl⟩ := h
      exact shapeAt_replace hget rfl (by rw [MetadataChunk.shape, List.length_set]; rfl)
    · simp at h
  · split at h
    next hget =>
      simp only [bind_eq_ok, pure_eq_ok] at h
      obtain ⟨_, -, rfl⟩ := h
      exact shapeAt_replace hget rfl (by rw [MetadataChunk.shape, List.length_set]; rfl)
    · simp at h
  · split at h
    next hget =>
      simp only [bind_eq_ok, pure_eq_ok] at h
      obtain ⟨_, -, _, -, rfl⟩ := h
      exact shapeAt_replace hget rfl (by rw [MetadataChunk.shape, List.length_set]; rfl)
    · simp at h
  · simp at h

theorem writeMetadata_shape {rowid chunkId : Rowid} {chunkOffset : Nat}
    {values : List (Option SqlValue)} {isupdate : Bool} (hi : i < values.length)
    (h : writeMetadata p s rowid chunkId chunkOffset values isupdate = .ok s') :
    s'.shapeAt i = s.shapeAt i := by
  cases hv : values[i] with
  | none =>
    exact shapeAt_congr (writeMetadata_column_none h (by rw [List.getElem?_eq_getElem hi, hv]))
  | some v =>
    obtain ⟨s₁, s₂, hstep, hcol₁, hcol⟩ :=
      writeMetadata_column_some h (by rw [List.getElem?_eq_getElem hi, hv])
    rw [shapeAt_congr hcol, vec0WriteMetadataValue_shape hstep, shapeAt_congr hcol₁]

theorem vec0UpdateDeleteClearMetadata_shape (s : Shadow α) (i : Nat) (rowid chunkId : Rowid)
    (chunkOffset : Nat) :
    (vec0UpdateDeleteClearMetadata s i rowid chunkId chunkOffset).shapeAt i = s.shapeAt i := by
  unfold vec0UpdateDeleteClearMetadata
  dsimp only
  split
  next hget =>
    exact shapeAt_replace hget rfl (by rw [MetadataChunk.shape, Bitmap.length_set]; rfl)
  next hget =>
    exact shapeAt_replace hget rfl (by rw [MetadataChunk.shape, List.length_set]; rfl)
  next hget =>
    exact shapeAt_replace hget rfl (by rw [MetadataChunk.shape, List.length_set]; rfl)
  next hget =>
    exact shapeAt_replace hget rfl (by rw [MetadataChunk.shape, List.length_set]; rfl)
  next => rfl

def Roomy (p : Vec0Vtab) (i : Nat) (kind : MetadataKind) (s : Shadow α) : Prop :=
  ∀ k c, s.chunks.get k = some c →
    s.shapeAt i k = some (zeroMetadataChunk p.chunkSize.val kind).shape

namespace Roomy

theorem congr (h : Roomy p i kind s)
    (hchunks : ∀ k c', s'.chunks.get k = some c' → ∃ c, s.chunks.get k = some c)
    (hshape : s'.shapeAt i = s.shapeAt i) : Roomy p i kind s' := by
  intro k c' hc'
  obtain ⟨c, hc⟩ := hchunks k c' hc'
  rw [hshape]
  exact h k c hc

variable [Zero α] {ops : IndexOps α ι} {v v' : Vec0 α ι}

theorem slotFound {dimensions : List Nat} {values : List SqlValue} {chunkId : Rowid}
    {chunkOffset : Nat} (h : Roomy p i kind s) (hkind : p.metadataKinds[i]? = some kind)
    (hslot : SlotFound p dimensions values s s' chunkId chunkOffset) : Roomy p i kind s' := by
  cases hslot with
  | latest c _ _ _ _ hchunks _ hmetadata htext =>
    exact h.congr (fun k c' hc' => ⟨c', hchunks ▸ hc'⟩)
      (shapeAt_congr (by simp only [Shadow.column, hmetadata, htext]))
  | new hgrown _ =>
    have hi := (List.getElem?_eq_some_iff.mp hkind).1
    intro k c hc
    have hget : (s'.column i).1 k = s'.metadataChunks.get (i, k) := rfl
    rw [Shadow.shapeAt, hget, hgrown.metadataChunks]
    rw [hgrown.chunks] at hc
    by_cases hk : k = chunkId
    · rw [if_pos ⟨hk, hi⟩, hkind]
      rfl
    · rw [if_neg hk] at hc
      rw [if_neg fun heq => hk heq.1]
      exact h k c hc

theorem insert {dimensions : List Nat} {args : InsertArgs p α} {vectorDatas : List (List α)}
    {s₁ s₂ : Shadow α} {rowid chunkId : Rowid} {chunkOffset : Nat} (h : Roomy p i kind s)
    (hkind : p.metadataKinds[i]? = some kind)
    (hins : Inserted p dimensions args vectorDatas s s₁ s₂ s' rowid chunkId chunkOffset) :
    Roomy p i kind s' := by
  have hi : i < (args.metadata.map some).length := by
    rw [List.length_map, args.length_metadata]
    exact (List.getElem?_eq_some_iff.mp hkind).1
  refine (h.slotFound hkind hins.slot).congr (fun k c' hc' => ?_) ?_
  · rw [hins.chunks] at hc'
    split at hc'
    · obtain ⟨c, hc, -⟩ := Option.map_eq_some_iff.mp hc'
      exact ⟨c, hc⟩
    · exact ⟨c', hc'⟩
  · rw [writeMetadata_shape hi hins.metadata, shapeAt_congr (hins.column i)]

omit [Zero α] in
theorem delete {rowid chunkId : Rowid} {chunkOffset : Nat} (h : Roomy p i kind s)
    (hkind : p.metadataKinds[i]? = some kind)
    (hdel : Deleted p s s' rowid chunkId chunkOffset) : Roomy p i kind s' := by
  obtain ⟨s₁, hcol₁, hcol⟩ := hdel.column i (List.getElem?_eq_some_iff.mp hkind).1
  refine h.congr (fun k c' hc' => ?_) ?_
  · rw [hdel.chunks] at hc'
    split at hc'
    · obtain ⟨c, hc, -⟩ := Option.map_eq_some_iff.mp hc'
      exact ⟨c, hc⟩
    · exact ⟨c', hc'⟩
  · rw [shapeAt_congr hcol, vec0UpdateDeleteClearMetadata_shape, shapeAt_congr hcol₁]

theorem step {stmt : Statement p α} {rowid : Rowid} (h : Roomy p i kind v.shadow)
    (hkind : p.metadataKinds[i]? = some kind)
    (hstmt : vec0Update ops p v stmt = (v', .ok rowid)) : Roomy p i kind v'.shadow := by
  cases stmt with
  | insert args =>
    obtain ⟨_, hins, -⟩ := vec0Update_insert hstmt
    obtain ⟨_, _, _, _, hins⟩ := insertShadow_spec hins
    exact h.insert hkind hins
  | update args =>
    have hi : i < args.metadata.length := by
      rw [args.length_metadata]
      exact (List.getElem?_eq_some_iff.mp hkind).1
    obtain ⟨s₁, _, _, hupd, hloop⟩ := vec0Update_update hstmt
    obtain ⟨_, hs'⟩ := updateVectors_frame (congrArg (fun x => x.2.2) hloop)
    have hupd := updateShadow_spec hupd
    obtain ⟨s₀, hcol₀, hmeta⟩ := hupd.metadata
    refine h.congr (fun k c' hc' => ⟨c', ?_⟩) ?_
    · rw [hs'] at hc'
      rwa [← hupd.chunks]
    · rw [hs']
      exact (writeMetadata_shape hi hmeta).trans (shapeAt_congr (hcol₀ i))
  | delete id =>
    obtain ⟨_, _, hdel⟩ := deleteShadow_spec (vec0Update_delete hstmt).1
    exact h.delete hkind hdel

theorem run {rows : Rows α} (h : Run ops p v rows) (hkind : p.metadataKinds[i]? = some kind) :
    Roomy p i kind v.shadow := by
  induction h with
  | create index =>
    intro k c hc
    simp [Vec0.create, Shadow.empty, AutoTable.empty] at hc
  | ok stmt _ hstmt ih => exact ih.step hkind hstmt
  | error stmt _ hstmt ih =>
    rw [vec0Update_error hstmt]
    exact ih

end Roomy

end Shape

end SqliteMultimodal.Vec.Storage
