import SqliteMultimodal.Vec.Storage.Slots

namespace SqliteMultimodal.Vec.Storage

open Except

variable {α ι : Type} {p : Vec0Vtab} {s s' : Shadow α} {values : List SqlValue} {rowid : Rowid}

/-- The chunk has no `0` bit. -/
def ChunkRow.Full (c : ChunkRow) : Prop :=
  ∀ i < 8 * c.validity.bytes.length, c.validity.get i = true

def NeedsChunk (s : Shadow α) (values : List SqlValue) : Prop :=
  (∀ k c, s.chunks.get k = some c → c.partitions ≠ values) ∨
    ∃ k c, s.chunks.get k = some c ∧ c.partitions = values ∧ c.Full ∧
      ∀ k' c', s.chunks.get k' = some c' → c'.partitions = values → k'.toInt ≤ k.toInt

def AddsChunk (s s' : Shadow α) : Prop :=
  ∃ k c, s.chunks.get k = none ∧ s'.chunks.get k = some c

def chunksOf (s : Shadow α) (values : List SqlValue) : Nat :=
  (s.chunks.rows.filter fun x => x.2.partitions = values).length

section Latest

theorem get_cons_of_lt (byte : BitVec 8) (bytes : List (BitVec 8)) {i : Nat} (h : i < 8) :
    (Bitmap.mk (byte :: bytes)).get i = !((byte >>> i) &&& 1#8 == 0#8) := by
  simp [Bitmap.get, Bitmap.byte, Nat.div_eq_of_lt h, Nat.mod_eq_of_lt h, bne]

theorem get_cons_add (byte : BitVec 8) (bytes : List (BitVec 8)) (i : Nat) :
    (Bitmap.mk (byte :: bytes)).get (8 + i) = (Bitmap.mk bytes).get i := by
  have hdiv : (8 + i) / 8 = i / 8 + 1 := by omega
  have hmod : (8 + i) % 8 = i % 8 := by omega
  simp [Bitmap.get, Bitmap.byte, hdiv, hmod]

theorem nextAvailableBit_eq_none {bytes : List (BitVec 8)} :
    nextAvailableBit bytes = none ↔ ∀ i < 8 * bytes.length, (Bitmap.mk bytes).get i = true := by
  induction bytes with
  | nil => simp [nextAvailableBit]
  | cons byte bytes ih =>
    have hbyte : (if byte = 0b11111111#8 then none else
        (List.range 8).find? fun j => ((byte >>> j) &&& 1#8) == 0#8) = none ↔
        ∀ i < 8, (Bitmap.mk (byte :: bytes)).get i = true := by
      split
      next hfull =>
        subst hfull
        refine iff_of_true rfl fun i hi => ?_
        rw [get_cons_of_lt _ _ hi]
        have hall : ∀ i < 8, (!((0b11111111#8 >>> i) &&& 1#8 == 0#8)) = true := by decide
        exact hall i hi
      next =>
        rw [List.find?_eq_none]
        constructor
        · intro h i hi
          rw [get_cons_of_lt _ _ hi]
          simpa using h i (List.mem_range.mpr hi)
        · intro h i hi
          have hget := h i (List.mem_range.mp hi)
          rw [get_cons_of_lt _ _ (List.mem_range.mp hi)] at hget
          simpa using hget
    have hsplit : nextAvailableBit (byte :: bytes) = none ↔
        (∀ i < 8, (Bitmap.mk (byte :: bytes)).get i = true) ∧ nextAvailableBit bytes = none := by
      rw [← hbyte, nextAvailableBit]
      split
      next j hj => simp [hj]
      next hj => simp [hj]
    rw [hsplit, ih, List.length_cons]
    constructor
    · rintro ⟨hlow, hhigh⟩ i hi
      by_cases hlt : i < 8
      · exact hlow i hlt
      · obtain ⟨j, rfl⟩ := Nat.exists_eq_add_of_le (Nat.not_lt.mp hlt)
        rw [get_cons_add]
        exact hhigh j (by omega)
    · intro h
      refine ⟨fun i hi => h i (by omega), fun i hi => ?_⟩
      rw [← get_cons_add byte]
      exact h (8 + i) (by omega)

theorem SqlValue.eq_null (a : SqlValue) : a.eq .null = false := by
  cases a <;> rfl

theorem SqlValue.eq_self {a : SqlValue} (h : a ≠ .null) : a.eq a = true := by
  cases a with
  | null => exact absurd rfl h
  | integer v => exact decide_eq_true rfl
  | real v => exact decide_eq_true rfl
  | text v => exact decide_eq_true rfl
  | blob v => exact decide_eq_true rfl

theorem TypedPartitions.all_eq_iff {xs : List SqlValue} (hxs : TypedPartitions p xs)
    (hvalues : TypedPartitions p values) :
    (xs.zip values).all (fun x => x.1.eq x.2) = true ↔ .null ∉ values ∧ xs = values := by
  constructor
  · intro h
    obtain rfl := hxs.eq_of_all hvalues h
    refine ⟨fun hnull => ?_, rfl⟩
    have hmem : (SqlValue.null, SqlValue.null) ∈ xs.zip xs := by
      rw [List.zip_eq_zipWith, List.zipWith_self]
      exact List.mem_map.mpr ⟨_, hnull, rfl⟩
    have heq := List.all_eq_true.mp h _ hmem
    rw [SqlValue.eq_null] at heq
    exact Bool.false_ne_true heq
  · rintro ⟨hnull, rfl⟩
    rw [List.all_eq_true]
    rintro ⟨a, b⟩ hmem
    rw [List.zip_eq_zipWith, List.zipWith_self] at hmem
    obtain ⟨c, hc, heq⟩ := List.mem_map.mp hmem
    obtain ⟨rfl, rfl⟩ := Prod.mk.inj heq
    refine SqlValue.eq_self ?_
    rintro rfl
    exact hnull hc

def TypedChunks (p : Vec0Vtab) (s : Shadow α) : Prop :=
  ∀ k c, s.chunks.get k = some c → TypedPartitions p c.partitions

theorem latest_eq_none (htyped : TypedChunks p s) (hvalues : TypedPartitions p values) :
    vec0GetLatestChunkRowid s values = none ↔
      .null ∈ values ∨ ∀ k c, s.chunks.get k = some c → c.partitions ≠ values := by
  rw [vec0GetLatestChunkRowid, AutoTable.maxWhere_eq_none]
  constructor
  · intro h
    refine or_iff_not_imp_left.mpr fun hnull k c hc heq => ?_
    have hall := ((htyped k c hc).all_eq_iff hvalues).mpr ⟨hnull, heq⟩
    rw [h k c hc] at hall
    exact Bool.false_ne_true hall
  · intro h k c hc
    rw [Bool.eq_false_iff]
    intro hall
    obtain ⟨hnull, heq⟩ := ((htyped k c hc).all_eq_iff hvalues).mp hall
    exact h.elim hnull fun hne => hne k c hc heq

theorem latest_eq_some (htyped : TypedChunks p s) (hvalues : TypedPartitions p values) {k : Rowid}
    (h : vec0GetLatestChunkRowid s values = some k) :
    .null ∉ values ∧ ∃ c, s.chunks.get k = some c ∧ c.partitions = values ∧
      ∀ k' c', s.chunks.get k' = some c' → c'.partitions = values → k'.toInt ≤ k.toInt := by
  obtain ⟨c, hc, hall⟩ := AutoTable.maxWhere_eq_some h
  obtain ⟨hnull, heq⟩ := ((htyped k c hc).all_eq_iff hvalues).mp hall
  refine ⟨hnull, c, hc, heq, fun k' c' hc' heq' => ?_⟩
  exact AutoTable.le_maxWhere h hc' (((htyped k' c' hc').all_eq_iff hvalues).mpr ⟨hnull, heq'⟩)

end Latest

section Step

variable [Zero α] {dimensions : List Nat} {args : InsertArgs p α} {vectorDatas : List (List α)}

def emptyChunk (p : Vec0Vtab) (values : List SqlValue) : ChunkRow :=
  ⟨Bitmap.new p.chunkSize.val, List.replicate p.chunkSize.val 0, values⟩

inductive ChunkStep (p : Vec0Vtab) (values : List SqlValue) (s s' : Shadow α) : Prop
  | filled (k : Rowid) (c : ChunkRow) (chunkOffset : Nat) (rowid : Rowid)
    (latest : vec0GetLatestChunkRowid s values = some k) (get : s.chunks.get k = some c)
    (free : nextAvailableBit c.validity.bytes = some chunkOffset)
    (chunks : ∀ j, s'.chunks.get j =
      if j = k then some (c.put chunkOffset rowid) else s.chunks.get j)
  | added (k rowid : Rowid)
    (reason : ∀ j c, vec0GetLatestChunkRowid s values = some j → s.chunks.get j = some c →
      nextAvailableBit c.validity.bytes = none)
    (fresh : ∀ j c, s.chunks.get j = some c → j.toInt < k.toInt)
    (chunks : ∀ j, s'.chunks.get j =
      if j = k then some ((emptyChunk p values).put 0 rowid) else s.chunks.get j)

theorem vec0NewChunk_chunks {k : Rowid} (h : vec0NewChunk p dimensions s values = .ok (s', k)) :
    (∀ j c, s.chunks.get j = some c → j.toInt < k.toInt) ∧
      ∀ j, s'.chunks.get j = if j = k then some (emptyChunk p values) else s.chunks.get j := by
  simp only [vec0NewChunk, bind_eq_ok, ofOption_eq_ok, pure_eq_ok, Prod.mk.injEq] at h
  obtain ⟨⟨k', chunks⟩, hins, vectorChunks, -, metadataChunks, -, rfl, rfl⟩ := h
  obtain ⟨hrow, hlt⟩ := AutoTable.insertAuto_eq_some hins
  refine ⟨fun j c hc => ?_, (AutoTable.insertRowid_eq_some hrow).2⟩
  have hkey : j ∈ s.chunks.keys := List.mem_map.mpr ⟨(j, c), Table.get_eq_some.mp hc, rfl⟩
  exact lt_of_le_of_lt (s.chunks.le_seq j hkey) hlt

theorem nextAvailableStep_cases {k : Rowid} {chunkOffset : Nat}
    (h : vec0UpdateInsertNextAvailableStep p dimensions s values = .ok (s', k, chunkOffset)) :
    (∃ c, vec0GetLatestChunkRowid s values = some k ∧ s.chunks.get k = some c ∧
        nextAvailableBit c.validity.bytes = some chunkOffset ∧ s' = s) ∨
      (∀ j c, vec0GetLatestChunkRowid s values = some j → s.chunks.get j = some c →
        nextAvailableBit c.validity.bytes = none) ∧
      vec0NewChunk p dimensions s values = .ok (s', k) ∧ chunkOffset = 0 := by
  unfold vec0UpdateInsertNextAvailableStep at h
  split at h
  next hlatest =>
    simp only [bind_eq_ok, pure_eq_ok, Prod.mk.injEq] at h
    obtain ⟨⟨s₁, k₁⟩, hnew, rfl, rfl, rfl⟩ := h
    refine .inr ⟨fun j c hj => ?_, hnew, rfl⟩
    rw [hlatest] at hj
    cases hj
  next latest hlatest =>
    simp only [bind_eq_ok, ofOption_eq_ok, require_eq_ok] at h
    obtain ⟨c, hc, -, -, h⟩ := h
    split at h
    next i hi =>
      simp only [pure_eq_ok, Prod.mk.injEq] at h
      obtain ⟨rfl, rfl, rfl⟩ := h
      exact .inl ⟨c, hlatest, hc, hi, rfl⟩
    next hnone =>
      simp only [bind_eq_ok, pure_eq_ok, Prod.mk.injEq] at h
      obtain ⟨⟨s₁, k₁⟩, hnew, rfl, rfl, rfl⟩ := h
      refine .inr ⟨fun j c' hj hc' => ?_, hnew, rfl⟩
      obtain rfl := Option.some.inj (hlatest.symm.trans hj)
      obtain rfl := Option.some.inj (hc.symm.trans hc')
      exact hnone

theorem insertShadow_chunkStep
    (h : insertShadow p dimensions s args = .ok (s', rowid, vectorDatas)) :
    TypedPartitions p args.partitions ∧ ChunkStep p args.partitions s s' := by
  simp only [insertShadow, checkPartitions, bind_eq_ok, require_eq_ok, pure_eq_ok, Prod.exists,
    Prod.mk.injEq] at h
  obtain ⟨_, hpart, vs, -, _, -, _, -, t₀, r, hrow, t₁, k, off, hslot, t₂, hwrite, t₃, haux, t₄,
    hmeta, rfl, -, -⟩ := h
  obtain ⟨id, rowids, -, rfl⟩ := vec0UpdateInsertRowidStep_spec hrow
  simp only [vec0UpdateInsertWriteFinalStep, bind_eq_ok, ofOption_eq_ok, require_eq_ok,
    pure_eq_ok] at hwrite
  obtain ⟨c, hc, vectorChunks, -, _, -, rfl⟩ := hwrite
  obtain ⟨auxiliary, rfl⟩ := insertAuxiliary_frame haux
  obtain ⟨-, hsame, -⟩ := writeMetadata_sameRows hmeta
  have hchunks : ∀ j, t₄.chunks.get j =
      if j = k then (t₁.chunks.get j).map (·.put off r) else t₁.chunks.get j := by
    intro j
    rw [hsame]
    exact AutoTable.get_modify t₁.chunks k _ j
  refine ⟨⟨args.length_partitions, hpart⟩, ?_⟩
  obtain ⟨c', hlatest, hc', hfree, rfl⟩ | ⟨hreason, hnew, rfl⟩ := nextAvailableStep_cases hslot
  · refine .filled k c' off r hlatest hc' hfree fun j => ?_
    rw [hchunks]
    by_cases hj : j = k
    · subst hj
      rw [if_pos rfl, if_pos rfl]
      exact congrArg (Option.map _) hc'
    · rw [if_neg hj, if_neg hj]
  · obtain ⟨hfresh, hget⟩ := vec0NewChunk_chunks hnew
    refine .added k r hreason hfresh fun j => ?_
    rw [hchunks, hget]
    by_cases hj : j = k
    · rw [if_pos hj, if_pos hj, if_pos hj]
      rfl
    · rw [if_neg hj, if_neg hj, if_neg hj]

end Step

section Adds

theorem full_iff {c : ChunkRow} : nextAvailableBit c.validity.bytes = none ↔ c.Full :=
  nextAvailableBit_eq_none

theorem ChunkStep.adds_iff (h : ChunkStep p values s s') (htyped : TypedChunks p s)
    (hvalues : TypedPartitions p values) :
    AddsChunk s s' ↔ .null ∈ values ∨ NeedsChunk s values := by
  cases h with
  | filled k c off rowid latest get free chunks =>
    obtain ⟨hnull, c', hc', heq, hmax⟩ := latest_eq_some htyped hvalues latest
    obtain rfl : c = c' := Option.some.inj (get.symm.trans hc')
    refine iff_of_false ?_ ?_
    · rintro ⟨j, d, hnone, hsome⟩
      rw [chunks] at hsome
      split at hsome
      next hj => rw [hj, get] at hnone; cases hnone
      next hj => rw [hnone] at hsome; cases hsome
    · rintro (hmem | hnone | ⟨j, d, hd, hpart, hfull, hlast⟩)
      · exact hnull hmem
      · exact hnone k c get heq
      · have heq' := le_antisymm (hmax j d hd hpart) (hlast k c get heq)
        obtain rfl : j = k := Int64.toInt_inj.mp heq'
        obtain rfl : c = d := Option.some.inj (get.symm.trans hd)
        rw [full_iff.mpr hfull] at free
        cases free
  | added k rowid reason fresh chunks =>
    refine iff_of_true ⟨k, _, ?_, by rw [chunks, if_pos rfl]⟩ ?_
    · cases hk : s.chunks.get k with
      | none => rfl
      | some c => exact absurd (fresh k c hk) (lt_irrefl _)
    · cases hlatest : vec0GetLatestChunkRowid s values with
      | none => exact ((latest_eq_none htyped hvalues).mp hlatest).imp_right .inl
      | some j =>
        obtain ⟨-, c, hc, heq, hmax⟩ := latest_eq_some htyped hvalues hlatest
        exact .inr (.inr ⟨j, c, hc, heq, full_iff.mp (reason j c hlatest hc), hmax⟩)

end Adds

section Bits

variable {c : ChunkRow} {chunkOffset : Nat}

def ChunkRow.bits (c : ChunkRow) : Nat :=
  (List.range (8 * c.validity.bytes.length)).countP c.validity.get

theorem bits_le (c : ChunkRow) : c.bits ≤ 8 * c.validity.bytes.length :=
  List.countP_le_length.trans_eq List.length_range

theorem full_iff_bits : c.Full ↔ c.bits = 8 * c.validity.bytes.length := by
  have hall := List.countP_eq_length (p := c.validity.get)
    (l := List.range (8 * c.validity.bytes.length))
  rw [List.length_range] at hall
  refine Iff.trans ?_ hall.symm
  simp only [List.mem_range]
  rfl

theorem bits_emptyChunk (p : Vec0Vtab) (values : List SqlValue) :
    (emptyChunk p values).bits = 0 := by
  refine List.countP_eq_zero.mpr fun i _ => ?_
  simp [emptyChunk]

theorem bits_put (hlt : chunkOffset < 8 * c.validity.bytes.length)
    (hfree : c.validity.get chunkOffset = false) (rowid : Rowid) :
    (c.put chunkOffset rowid).bits = c.bits + 1 := by
  have hget (i : Nat) : (c.put chunkOffset rowid).validity.get i =
      if i = chunkOffset then true else c.validity.get i :=
    Bitmap.get_set _ _ i true (by omega)
  have hlen : (c.put chunkOffset rowid).validity.bytes.length = c.validity.bytes.length :=
    Bitmap.length_set _ _ _
  have hmem : chunkOffset ∈ List.range (8 * c.validity.bytes.length) := List.mem_range.mpr hlt
  have hperm := List.perm_cons_erase hmem
  have hnotin : ∀ i ∈ (List.range (8 * c.validity.bytes.length)).erase chunkOffset,
      i ≠ chunkOffset := by
    rintro i hi rfl
    exact List.nodup_range.not_mem_erase hi
  rw [ChunkRow.bits, ChunkRow.bits, hlen, hperm.countP_eq, hperm.countP_eq, List.countP_cons_of_pos,
    List.countP_cons_of_neg (by simp [hfree])]
  · refine congrArg (· + 1) (List.countP_congr fun i hi => ?_)
    rw [hget, if_neg (hnotin i hi)]
  · rw [hget, if_pos rfl]

end Bits

section Tally

variable {hist hist' : List (List SqlValue)}

def occupied (s : Shadow α) : List (List SqlValue) :=
  s.chunks.rows.flatMap fun x => List.replicate x.2.bits x.2.partitions

structure Tallied (p : Vec0Vtab) (hist : List (List SqlValue)) (s : Shadow α) : Prop where
  typed : TypedChunks p s
  sized : ∀ k c, s.chunks.get k = some c → 8 * c.validity.bytes.length = p.chunkSize.val
  pos : ∀ k c, s.chunks.get k = some c → 0 < c.bits
  single : ∀ k c, s.chunks.get k = some c → .null ∈ c.partitions → c.bits = 1
  full : ∀ k c k' c', s.chunks.get k = some c → s.chunks.get k' = some c' →
    c.partitions = c'.partitions → .null ∉ c.partitions → k.toInt < k'.toInt → c.Full
  tally : (occupied s).Perm hist

theorem Tallied.empty : Tallied p [] (.empty : Shadow α) where
  typed k c h := by simp [Shadow.empty, AutoTable.empty] at h
  sized k c h := by simp [Shadow.empty, AutoTable.empty] at h
  pos k c h := by simp [Shadow.empty, AutoTable.empty] at h
  single k c h := by simp [Shadow.empty, AutoTable.empty] at h
  full k c k' c' h := by simp [Shadow.empty, AutoTable.empty] at h
  tally := List.Perm.nil

section Changed

variable {k : Rowid} {c c' : ChunkRow}

theorem chunks_cases {P : Rowid → ChunkRow → Prop}
    (hchunks : ∀ j, s'.chunks.get j = if j = k then some c' else s.chunks.get j) (hnew : P k c')
    (hold : ∀ j d, j ≠ k → s.chunks.get j = some d → P j d) (j : Rowid) (d : ChunkRow)
    (hd : s'.chunks.get j = some d) : P j d := by
  rw [hchunks] at hd
  split at hd
  next hj =>
    obtain rfl := Option.some.inj hd
    exact hj ▸ hnew
  next hj => exact hold j d hj hd

theorem occupied_replace (hget : s.chunks.get k = some c)
    (hchunks : ∀ j, s'.chunks.get j = if j = k then some c' else s.chunks.get j)
    (hpart : c'.partitions = c.partitions) (hbits : c'.bits = c.bits + 1) :
    (occupied s').Perm (c.partitions :: occupied s) := by
  have hflat := (Table.perm_delete hget).flatMap_right fun x =>
    List.replicate x.2.bits x.2.partitions
  have hflat' := (Table.perm_replace hchunks).flatMap_right fun x =>
    List.replicate x.2.bits x.2.partitions
  rw [List.flatMap_cons] at hflat hflat'
  refine hflat'.trans ((List.Perm.of_eq ?_).trans (hflat.symm.cons _))
  rw [hpart, hbits, List.replicate_succ, List.cons_append]

theorem occupied_cons (hget : s.chunks.get k = none)
    (hchunks : ∀ j, s'.chunks.get j = if j = k then some c' else s.chunks.get j)
    (hbits : c'.bits = 1) : (occupied s').Perm (c'.partitions :: occupied s) := by
  have hflat := (Table.perm_cons hget hchunks).flatMap_right fun x =>
    List.replicate x.2.bits x.2.partitions
  rw [List.flatMap_cons, hbits, List.replicate_one, List.singleton_append] at hflat
  exact hflat

end Changed

theorem Tallied.filled (h : Tallied p hist s) (hvalues : TypedPartitions p values) {k : Rowid}
    {c : ChunkRow} {chunkOffset : Nat} (hlatest : vec0GetLatestChunkRowid s values = some k)
    (hget : s.chunks.get k = some c)
    (hfree : nextAvailableBit c.validity.bytes = some chunkOffset)
    (hchunks : ∀ j, s'.chunks.get j =
      if j = k then some (c.put chunkOffset rowid) else s.chunks.get j) :
    Tallied p (values :: hist) s' := by
  obtain ⟨hlt, hbit⟩ := nextAvailableBit_spec hfree
  have hbits := bits_put hlt hbit rowid
  obtain ⟨hnull, c', hc', heq, hmax⟩ := latest_eq_some h.typed hvalues hlatest
  obtain rfl : c = c' := Option.some.inj (hget.symm.trans hc')
  constructor
  case typed => exact chunks_cases hchunks (h.typed k c hget) fun j d _ => h.typed j d
  case sized =>
    refine chunks_cases hchunks ?_ fun j d _ => h.sized j d
    rw [← h.sized k c hget]
    exact congrArg (8 * ·) (Bitmap.length_set _ _ _)
  case pos =>
    refine chunks_cases hchunks ?_ fun j d _ => h.pos j d
    rw [hbits]
    exact Nat.succ_pos _
  case single =>
    refine chunks_cases hchunks (fun hmem => ?_) fun j d _ => h.single j d
    exact absurd (heq ▸ (hmem : .null ∈ c.partitions)) hnull
  case full =>
    intro j d j' d' hd hd' hpart hnot hlt
    refine chunks_cases
      (P := fun j' d' => d.partitions = d'.partitions → j.toInt < j'.toInt → d.Full) hchunks
      (fun hpart hlt => ?_) (fun j' d' _ hd' hpart hlt => ?_) j' d' hd' hpart hlt
    · rw [hchunks, if_neg (fun hj => absurd (hj ▸ hlt) (lt_irrefl _))] at hd
      exact h.full j d k c hd hget hpart hnot hlt
    · rw [hchunks] at hd
      split at hd
      next hj =>
        obtain rfl := Option.some.inj hd
        have hle := hmax j' d' hd' (hpart.symm.trans heq)
        rw [hj] at hlt
        exact absurd hlt (not_lt.mpr hle)
      next => exact h.full j d j' d' hd hd' hpart hnot hlt
  case tally =>
    have hperm := occupied_replace hget hchunks rfl hbits
    rw [heq] at hperm
    exact hperm.trans (h.tally.cons _)

theorem Tallied.added (h : Tallied p hist s) (hvalues : TypedPartitions p values) {k : Rowid}
    (hreason : ∀ j c, vec0GetLatestChunkRowid s values = some j → s.chunks.get j = some c →
      nextAvailableBit c.validity.bytes = none)
    (hfresh : ∀ j c, s.chunks.get j = some c → j.toInt < k.toInt)
    (hchunks : ∀ j, s'.chunks.get j =
      if j = k then some ((emptyChunk p values).put 0 rowid) else s.chunks.get j) :
    Tallied p (values :: hist) s' := by
  have hsize : 8 * (emptyChunk p values).validity.bytes.length = p.chunkSize.val := by
    have hdvd := p.chunkSize.dvd
    simp only [emptyChunk, Bitmap.new, List.length_replicate]
    omega
  have hbits : ((emptyChunk p values).put 0 rowid).bits = 1 := by
    rw [bits_put (hsize ▸ p.chunkSize.pos) (by simp [emptyChunk]), bits_emptyChunk]
  constructor
  case typed => exact chunks_cases hchunks hvalues fun j d _ => h.typed j d
  case sized =>
    refine chunks_cases hchunks ?_ fun j d _ => h.sized j d
    rw [← hsize]
    exact congrArg (8 * ·) (Bitmap.length_set _ _ _)
  case pos =>
    refine chunks_cases hchunks ?_ fun j d _ => h.pos j d
    rw [hbits]
    exact Nat.one_pos
  case single => exact chunks_cases hchunks (fun _ => hbits) fun j d _ => h.single j d
  case full =>
    intro j d j' d' hd hd' hpart hnot hlt
    refine chunks_cases
      (P := fun j' d' => d.partitions = d'.partitions → j.toInt < j'.toInt → d.Full) hchunks
      (fun hpart hlt => ?_) (fun j' d' _ hd' hpart hlt => ?_) j' d' hd' hpart hlt
    · rw [hchunks, if_neg (fun hj => absurd (hj ▸ hlt) (lt_irrefl _))] at hd
      have hpart : d.partitions = values := hpart
      cases hlatest : vec0GetLatestChunkRowid s values with
      | none =>
        obtain hmem | hnone := (latest_eq_none h.typed hvalues).mp hlatest
        · exact absurd (hpart ▸ hmem) hnot
        · exact absurd hpart (hnone j d hd)
      | some m =>
        obtain ⟨-, c, hc, heq, hmax⟩ := latest_eq_some h.typed hvalues hlatest
        obtain hlt | heq' := lt_or_eq_of_le (hmax j d hd hpart)
        · exact h.full j d m c hd hc (hpart.trans heq.symm) hnot hlt
        · obtain rfl := Int64.toInt_inj.mp heq'
          obtain rfl : d = c := Option.some.inj (hd.symm.trans hc)
          exact full_iff.mp (hreason j d hlatest hd)
    · rw [hchunks] at hd
      split at hd
      next hj =>
        rw [hj] at hlt
        exact absurd (hlt.trans (hfresh j' d' hd')) (lt_irrefl _)
      next => exact h.full j d j' d' hd hd' hpart hnot hlt
  case tally =>
    have hnone : s.chunks.get k = none := by
      cases hk : s.chunks.get k with
      | none => rfl
      | some c => exact absurd (hfresh k c hk) (lt_irrefl _)
    exact (occupied_cons hnone hchunks hbits).trans (h.tally.cons _)

theorem Tallied.chunkStep (h : Tallied p hist s) (hvalues : TypedPartitions p values)
    (hstep : ChunkStep p values s s') : Tallied p (values :: hist) s' := by
  cases hstep with
  | filled k c off rowid latest get free chunks => exact h.filled hvalues latest get free chunks
  | added k rowid reason fresh chunks => exact h.added hvalues reason fresh chunks

end Tally

section Count

variable {hist : List (List SqlValue)}

theorem count_flatMap {n : Nat} (rows : List (Rowid × ChunkRow))
    (h : ∀ x ∈ rows, x.2.partitions = values → x.2.bits = n) :
    (rows.flatMap fun x => List.replicate x.2.bits x.2.partitions).count values =
      n * (rows.filter fun x => x.2.partitions = values).length := by
  induction rows with
  | nil => rfl
  | cons x rows ih =>
    rw [List.flatMap_cons, List.count_append, ih fun y hy => h y (List.mem_cons_of_mem x hy),
      List.count_replicate]
    by_cases hx : x.2.partitions = values
    · rw [List.filter_cons_of_pos (by simpa using hx), if_pos (by simpa using hx),
        h x List.mem_cons_self hx, List.length_cons, Nat.mul_succ, Nat.add_comm]
    · rw [List.filter_cons_of_neg (by simpa using hx), if_neg (by simpa using hx), Nat.zero_add]

theorem Tallied.chunksOf_of_null (h : Tallied p hist s) (hnull : .null ∈ values) :
    chunksOf s values = hist.count values := by
  rw [← h.tally.count_eq, occupied, count_flatMap (n := 1), Nat.one_mul]
  · rfl
  · rintro ⟨k, c⟩ hx rfl
    exact h.single k c (Table.get_eq_some.mpr hx) hnull

theorem Tallied.chunksOf_of_not_null (h : Tallied p hist s) (hnull : .null ∉ values) :
    chunksOf s values = (hist.count values + p.chunkSize.val - 1) / p.chunkSize.val := by
  have hpos := p.chunkSize.pos
  by_cases hnone : ∀ x ∈ s.chunks.rows, x.2.partitions ≠ values
  · have hzero : chunksOf s values = 0 := by
      rw [chunksOf, List.length_eq_zero_iff, List.filter_eq_nil_iff]
      simpa using hnone
    have hcount := count_flatMap (n := 0) s.chunks.rows fun x hx heq => absurd heq (hnone x hx)
    rw [Nat.zero_mul] at hcount
    rw [hzero, ← h.tally.count_eq, occupied, hcount, Nat.zero_add,
      Nat.div_eq_of_lt (Nat.sub_lt hpos Nat.one_pos)]
  · obtain ⟨k, c, hget, hpart, hlast⟩ : ∃ k c, s.chunks.get k = some c ∧ c.partitions = values ∧
        ∀ k' c', s.chunks.get k' = some c' → c'.partitions = values → k'.toInt ≤ k.toInt := by
      push Not at hnone
      obtain ⟨⟨j, d⟩, hx, hd⟩ := hnone
      have hj : s.chunks.get j = some d := Table.get_eq_some.mpr hx
      have hvalues : TypedPartitions p values := hd ▸ h.typed j d hj
      cases hlatest : vec0GetLatestChunkRowid s values with
      | none =>
        obtain hmem | hall := (latest_eq_none h.typed hvalues).mp hlatest
        · exact absurd hmem hnull
        · exact absurd hd (hall j d hj)
      | some k =>
        obtain ⟨-, c, hc⟩ := latest_eq_some h.typed hvalues hlatest
        exact ⟨k, c, hc⟩
    have hothers : ∀ x ∈ (s.chunks.toTable.delete k).rows, x.2.partitions = values →
        x.2.bits = p.chunkSize.val := by
      rintro ⟨j, d⟩ hx hd
      have hj := Table.get_eq_some.mpr hx
      rw [Table.get_delete] at hj
      split at hj
      next => cases hj
      next hne =>
        have hlt : j.toInt < k.toInt :=
          lt_of_le_of_ne (hlast j d hj hd) fun heq => hne (Int64.toInt_inj.mp heq)
        have hfull := h.full j d k c hj hget (hd.trans hpart.symm) (hd ▸ hnull) hlt
        rw [full_iff_bits.mp hfull, h.sized j d hj]
    have hperm := Table.perm_delete hget
    have hcount : hist.count values = c.bits + p.chunkSize.val *
        ((s.chunks.toTable.delete k).rows.filter fun x => x.2.partitions = values).length := by
      rw [← h.tally.count_eq, occupied, (hperm.flatMap_right _).count_eq, List.flatMap_cons,
        List.count_append, hpart, List.count_replicate_self, count_flatMap _ hothers]
    have hchunks : chunksOf s values =
        ((s.chunks.toTable.delete k).rows.filter fun x => x.2.partitions = values).length + 1 := by
      rw [chunksOf, (hperm.filter _).length_eq, List.filter_cons_of_pos (by simpa using hpart),
        List.length_cons]
    have hbits := h.pos k c hget
    have hle := bits_le c
    rw [h.sized k c hget] at hle
    rw [hchunks, hcount, show ∀ m, c.bits + p.chunkSize.val * m + p.chunkSize.val - 1 =
      c.bits - 1 + p.chunkSize.val * (m + 1) from fun m => by rw [Nat.mul_succ]; omega,
      Nat.add_mul_div_left _ _ hpos, Nat.div_eq_of_lt (by omega), Nat.zero_add]

theorem Tallied.needs_iff_of_null (h : Tallied p hist s) (hnull : .null ∈ values) :
    NeedsChunk s values ↔ values ∉ hist := by
  have hnone : (∀ k c, s.chunks.get k = some c → c.partitions ≠ values) ↔
      values ∉ hist := by
    rw [← h.tally.mem_iff, occupied, List.mem_flatMap]
    constructor
    · rintro hall ⟨⟨k, c⟩, hx, hmem⟩
      exact hall k c (Table.get_eq_some.mpr hx) (List.eq_of_mem_replicate hmem).symm
    · rintro hnot k c hc rfl
      refine hnot ⟨(k, c), Table.get_eq_some.mp hc, List.mem_replicate.mpr ⟨?_, rfl⟩⟩
      exact (h.pos k c hc).ne'
  rw [← hnone]
  refine ⟨?_, .inl⟩
  rintro (hall | ⟨k, c, hc, rfl, hfull, -⟩)
  · exact hall
  · have hbits := full_iff_bits.mp hfull
    rw [h.single k c hc hnull, h.sized k c hc] at hbits
    have hdvd := p.chunkSize.dvd
    omega

end Count

section Runs

variable [Zero α] {ops : IndexOps α ι} {v v' : Vec0 α ι} {hist : List (List SqlValue)}
  {args : List (InsertArgs p α)}

inductive Inserts (ops : IndexOps α ι) (p : Vec0Vtab) :
    Vec0 α ι → List (InsertArgs p α) → Vec0 α ι → Prop
  | nil {v : Vec0 α ι} : Inserts ops p v [] v
  | cons {v v₁ v' : Vec0 α ι} {a : InsertArgs p α} {args : List (InsertArgs p α)} {rowid : Rowid} :
    vec0Update ops p v (.insert a) = (v₁, .ok rowid) → Inserts ops p v₁ args v' →
      Inserts ops p v (a :: args) v'

def AddsWhenNeeded (ops : IndexOps α ι) (p : Vec0Vtab) :
    Vec0 α ι → List (InsertArgs p α) → Prop
  | _, [] => True
  | v, a :: args =>
    let v' := (vec0Update ops p v (.insert a)).1
    (AddsChunk v.shadow v'.shadow ↔ NeedsChunk v.shadow a.partitions) ∧
      AddsWhenNeeded ops p v' args

def withNull (values : List (List SqlValue)) : List (List SqlValue) :=
  values.filter fun x => .null ∈ x

theorem withNull_of_null {rest : List (List SqlValue)} (h : .null ∈ values) :
    withNull (values :: rest) = values :: withNull rest :=
  List.filter_cons_of_pos (by simpa using h)

theorem withNull_of_not_null {rest : List (List SqlValue)} (h : .null ∉ values) :
    withNull (values :: rest) = withNull rest :=
  List.filter_cons_of_neg (by simpa using h)

theorem null_of_mem_withNull {rest : List (List SqlValue)} (h : values ∈ withNull rest) :
    .null ∈ values := by
  simpa using (List.mem_filter.mp h).2

/-- No two rows have the same partition values with a NULL among them. -/
def NullsOnce (args : List (InsertArgs p α)) : Prop :=
  (withNull (args.map InsertArgs.partitions)).Nodup

instance (args : List (InsertArgs p α)) : Decidable (NullsOnce args) :=
  inferInstanceAs (Decidable (withNull (args.map InsertArgs.partitions)).Nodup)

theorem Tallied.step {a : InsertArgs p α} (h : Tallied p hist v.shadow)
    (hstep : vec0Update ops p v (.insert a) = (v', .ok rowid)) :
    Tallied p (a.partitions :: hist) v'.shadow ∧
      (AddsChunk v.shadow v'.shadow ↔ .null ∈ a.partitions ∨ NeedsChunk v.shadow a.partitions) := by
  obtain ⟨vectorDatas, hins, -⟩ := vec0Update_insert hstep
  obtain ⟨hvalues, hchunk⟩ := insertShadow_chunkStep hins
  exact ⟨h.chunkStep hvalues hchunk, hchunk.adds_iff h.typed hvalues⟩

theorem Tallied.inserts (h : Tallied p hist v.shadow) (hrun : Inserts ops p v args v') :
    Tallied p ((args.map InsertArgs.partitions).reverse ++ hist) v'.shadow := by
  induction hrun generalizing hist with
  | nil => exact h
  | cons hstep _ ih =>
    rw [List.map_cons, List.reverse_cons, List.append_assoc]
    exact ih (h.step hstep).1

theorem Tallied.addsWhenNeeded_iff (h : Tallied p hist v.shadow) (hrun : Inserts ops p v args v') :
    AddsWhenNeeded ops p v args ↔
      NullsOnce args ∧ ∀ x ∈ withNull (args.map InsertArgs.partitions), x ∉ hist := by
  induction hrun generalizing hist with
  | nil => simp [AddsWhenNeeded, NullsOnce, withNull]
  | @cons v v₁ v' a args rowid hstep _ ih =>
    obtain ⟨htally, hadds⟩ := h.step hstep
    rw [AddsWhenNeeded, hstep, hadds, ih htally, NullsOnce, NullsOnce, List.map_cons]
    by_cases hnull : .null ∈ a.partitions
    · rw [withNull_of_null hnull, h.needs_iff_of_null hnull, List.forall_mem_cons]
      simp only [hnull, true_or, true_iff, List.nodup_cons, List.mem_cons, not_or]
      constructor
      · rintro ⟨hnew, hnodup, hrest⟩
        exact ⟨⟨fun hmem => (hrest _ hmem).1 rfl, hnodup⟩, hnew, fun x hx => (hrest x hx).2⟩
      · rintro ⟨⟨hnotin, hnodup⟩, hnew, hrest⟩
        refine ⟨hnew, hnodup, fun x hx => ⟨?_, hrest x hx⟩⟩
        rintro rfl
        exact hnotin hx
    · rw [withNull_of_not_null hnull]
      have hne : ∀ x ∈ withNull (args.map InsertArgs.partitions), x ≠ a.partitions := by
        rintro x hx rfl
        exact hnull (null_of_mem_withNull hx)
      simp only [hnull, false_or, true_and, List.mem_cons, not_or]
      refine and_congr_right fun _ => forall₂_congr fun x hx => ?_
      exact and_iff_right (hne x hx)

/-- From a new table on, chunks are added where they are needed, and each partition has as many as
its rows fill, as long as no partition with a NULL has two rows. -/
theorem inserts_chunks_iff {index : ι} (hrun : Inserts ops p (.create p index) args v) :
    (AddsWhenNeeded ops p (.create p index) args ∧ ∀ values, chunksOf v.shadow values =
      ((args.map InsertArgs.partitions).count values + p.chunkSize.val - 1) / p.chunkSize.val) ↔
      NullsOnce args := by
  have hempty : Tallied p [] (Vec0.create p index : Vec0 α ι).shadow := .empty
  rw [hempty.addsWhenNeeded_iff hrun]
  refine ⟨fun h => h.1.1, fun hnulls => ⟨⟨hnulls, fun x _ => List.not_mem_nil⟩, fun values => ?_⟩⟩
  have htally := hempty.inserts hrun
  have hcount : ((args.map InsertArgs.partitions).reverse ++ []).count values =
      (args.map InsertArgs.partitions).count values := by
    rw [List.append_nil, List.count_reverse]
  by_cases hnull : .null ∈ values
  · have hpos := p.chunkSize.pos
    have hle : (args.map InsertArgs.partitions).count values ≤ 1 := by
      have hle := List.nodup_iff_count_le_one.mp hnulls values
      rwa [withNull, List.count_filter (by simpa using hnull)] at hle
    rw [htally.chunksOf_of_null hnull, hcount]
    obtain hzero | hone := Nat.le_one_iff_eq_zero_or_eq_one.mp hle
    · rw [hzero, Nat.zero_add, Nat.div_eq_of_lt (Nat.sub_lt hpos Nat.one_pos)]
    · rw [hone, Nat.add_sub_cancel_left, Nat.div_self hpos]
  · rw [htally.chunksOf_of_not_null hnull, hcount]

end Runs

section Sample

theorem noAuxiliary : ([] : List SqlValue).length = sampleTable.auxiliaryTypes.length := rfl

theorem emptyText_lt (t : Bytes) (h : SqlValue.text t ∈ [SqlValue.text []]) :
    t.length < 2147483648 := by
  obtain rfl : t = [] := by simpa using h
  decide

def partitionInsert (value : SqlValue) (rowid : Rowid) : InsertArgs sampleTable Int :=
  ⟨.integer rowid, [value], [some ⟨.float32, [5]⟩], [], [.text []], .null, .null, rfl, rfl,
    noAuxiliary, rfl, emptyText_lt⟩

def nullInsert (rowid : Rowid) : InsertArgs sampleTable Int := partitionInsert .null rowid

def afterInserts : Vec0 Int Unit → List (InsertArgs sampleTable Int) → Vec0 Int Unit
  | v, [] => v
  | v, a :: args => afterInserts (vec0Update noIndex sampleTable v (.insert a)).1 args

def allInserted : Vec0 Int Unit → List (InsertArgs sampleTable Int) → Bool
  | _, [] => true
  | v, a :: args => (vec0Update noIndex sampleTable v (.insert a)).2.toOption.isSome &&
    allInserted (vec0Update noIndex sampleTable v (.insert a)).1 args

theorem inserts_of_allInserted {v : Vec0 Int Unit} {args : List (InsertArgs sampleTable Int)}
    (h : allInserted v args = true) : Inserts noIndex sampleTable v args (afterInserts v args) := by
  induction args generalizing v with
  | nil => exact .nil
  | cons a args ih =>
    obtain ⟨hok, hrest⟩ := Bool.and_eq_true_iff.mp h
    cases hstep : (vec0Update noIndex sampleTable v (.insert a)).2 with
    | error rc =>
      rw [hstep] at hok
      cases hok
    | ok rowid => exact .cons (Prod.ext rfl hstep) (ih hrest)

def nullRun : Vec0 Int Unit :=
  afterInserts (.create sampleTable ()) [nullInsert 1, nullInsert 2]

theorem nullRun_inserts :
    Inserts noIndex sampleTable (.create sampleTable ()) [nullInsert 1, nullInsert 2] nullRun :=
  inserts_of_allInserted (by decide +kernel)

/-- Rows of two partitions, and one with NULL among them. -/
def mixedInserts : List (InsertArgs sampleTable Int) :=
  [partitionInsert (.integer 1) 1, partitionInsert .null 2, partitionInsert (.integer 2) 3,
    partitionInsert (.integer 1) 4]

theorem mixedInserts_chunks :
    AddsWhenNeeded noIndex sampleTable (.create sampleTable () : Vec0 Int Unit) mixedInserts ∧
      ∀ values, chunksOf (afterInserts (.create sampleTable ()) mixedInserts).shadow values =
        ((mixedInserts.map InsertArgs.partitions).count values + 8 - 1) / 8 :=
  (inserts_chunks_iff (inserts_of_allInserted (by decide +kernel))).mpr (by decide)

theorem nullRun_not_chunks :
    ¬∀ (args : List (InsertArgs sampleTable Int)) (v : Vec0 Int Unit),
      Inserts noIndex sampleTable (.create sampleTable ()) args v →
        AddsWhenNeeded noIndex sampleTable (.create sampleTable () : Vec0 Int Unit) args ∧
          ∀ values, chunksOf v.shadow values =
            ((args.map InsertArgs.partitions).count values + sampleTable.chunkSize.val - 1) /
              sampleTable.chunkSize.val := by
  intro h
  have hchunks := (h _ _ nullRun_inserts).2 [.null]
  revert hchunks
  decide +kernel

end Sample

end SqliteMultimodal.Vec.Storage
