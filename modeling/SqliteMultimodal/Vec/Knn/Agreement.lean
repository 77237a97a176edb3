import SqliteMultimodal.Vec.ChunkScan.Select
import SqliteMultimodal.Vec.Knn.Integers
import SqliteMultimodal.Vec.Knn.Loops
import SqliteMultimodal.Vec.Storage.Schema

namespace SqliteMultimodal.Vec.Knn.Loops

open Storage Except ChunkScan

variable {α : Type} {conv : Conversions} {p : Vec0Vtab} {s : Shadow α} {args : FilterArgs}

def SameCode (e : Failure) (rc : ResultCode) : Prop := e.code = rc

section Scratch

structure Scratch.Sized (n : Nat) (x : Scratch) : Prop where
  b : x.b.bytes.length = n / 8
  bmRowids : x.bmRowids.bytes.length = n / 8
  bmMetadata : x.bmMetadata.bytes.length = n / 8

theorem Scratch.Sized.init (n : Nat) : (Scratch.init n).Sized n :=
  ⟨List.length_replicate, List.length_replicate, List.length_replicate⟩

theorem length_foldl_set (cond value : Nat → Bool) (l : List Nat) (bm : Bitmap) :
    (l.foldl (fun bm i => if !cond i then bm else bm.set i (value i)) bm).bytes.length =
      bm.bytes.length := by
  induction l generalizing bm with
  | nil => rfl
  | cons i l ih =>
    rw [List.foldl_cons, ih]
    split
    next => rfl
    next => exact Bitmap.length_set ..

end Scratch

section Pure

variable (conv p s args) (vector : VectorArgs α)

def scanOf : ScanArgs (List α) α where
  chunkSize := p.chunkSize
  k := vector.k
  arrayRowidsIn := args.arrayRowidsIn
  metadataFilters := args.argv.reduceOption.map fun x c =>
    vec0SetMetadataFilterBitmap conv p s x.1 x.2 c.chunkId
  distance := vector.distance

def slotVectors (chunkId : Rowid) : List (List α) :=
  match s.vectorChunks.get (vector.vectorColumnIdx, chunkId) with
  | none => []
  | some blob =>
    if blob.length = p.chunkSize.val * vector.dimensions then
      (List.range p.chunkSize.val).map fun i =>
        (blob.drop (i * vector.dimensions)).take vector.dimensions
    else []

def chunkOf (x : Rowid × ChunkRow) : Chunk (List α) :=
  ⟨x.1, x.2.validity, x.2.rowids, slotVectors p s vector x.1⟩

def HasVectors (x : Rowid × ChunkRow) : Prop :=
  ∃ blob : List α, s.vectorChunks.get (vector.vectorColumnIdx, x.1) = some blob ∧
    blob.length = p.chunkSize.val * vector.dimensions

end Pure

section Blocks

variable {vector : VectorArgs α} {x : Scratch} {chunkId : Rowid} {b : Bitmap}

theorem filterRowids_eq (conv : Conversions) (s : Shadow α) (args : FilterArgs)
    (vector : VectorArgs α) (row : Rowid × ChunkRow) (arr : List Rowid)
    (hx : x.Sized p.chunkSize.val) :
    filterRowids p row.2 arr x =
      { x with
        b := x.b.andInplace (rowidBitmap (scanOf conv p s args vector) (chunkOf p s vector row) arr)
        bmRowids := rowidBitmap (scanOf conv p s args vector) (chunkOf p s vector row) arr } := by
  rw [filterRowids, Bitmap.clear_eq_new hx.bmRowids]
  rfl

theorem length_rowidBitmap (scan : ScanArgs (List α) α) (c : Chunk (List α)) (arr : List Rowid) :
    (rowidBitmap scan c arr).bytes.length = scan.chunkSize.val / 8 :=
  (length_foldl_set c.validity.get (fun i => bsearch (c.rowids.getD i 0) arr) _ _).trans
    List.length_replicate

theorem admitted_spec (conv : Conversions) (s : Shadow α) (args : FilterArgs)
    (vector : VectorArgs α) (row : Rowid × ChunkRow) (hx : x.Sized p.chunkSize.val)
    (hb : x.b = row.2.validity) :
    (args.arrayRowidsIn.elim x fun arr => filterRowids p row.2 arr x).Sized p.chunkSize.val ∧
      (args.arrayRowidsIn.elim x fun arr => filterRowids p row.2 arr x).b =
        validRowids (scanOf conv p s args vector) (chunkOf p s vector row) := by
  cases harr : args.arrayRowidsIn with
  | none =>
    have hnone : (scanOf conv p s args vector).arrayRowidsIn = none := harr
    refine ⟨hx, ?_⟩
    rw [validRowids, hnone]
    exact hb
  | some arr =>
    have hsome : (scanOf conv p s args vector).arrayRowidsIn = some arr := harr
    have hlen := length_rowidBitmap (scanOf conv p s args vector) (chunkOf p s vector row) arr
    rw [Option.elim_some, filterRowids_eq conv s args vector row arr hx, validRowids, hsome]
    refine ⟨⟨?_, hlen, hx.bmMetadata⟩, congrArg (Bitmap.andInplace · _) hb⟩
    rw [Bitmap.length_andInplace (hx.b.trans hlen.symm)]
    exact hx.b

theorem setMetadataFilterBitmap_eq (metadataIdx : Nat) (constraint : MetadataConstraint)
    (hx : x.Sized p.chunkSize.val) :
    setMetadataFilterBitmap conv p s metadataIdx constraint chunkId x.bmMetadata.clear =
      vec0SetMetadataFilterBitmap conv p s metadataIdx constraint chunkId := by
  rw [Bitmap.clear_eq_new hx.bmMetadata]
  rfl

theorem length_metadataBitmap {metadataIdx : Nat} {constraint : MetadataConstraint}
    (h : vec0SetMetadataFilterBitmap conv p s metadataIdx constraint chunkId = .ok b) :
    b.bytes.length = p.chunkSize.val / 8 := by
  simp only [vec0SetMetadataFilterBitmap, bind_eq_ok] at h
  obtain ⟨_, -, _, -, _, -, h⟩ := h
  exact (get_foldlM_set p.chunkSize.dvd le_rfl h).1

theorem Scratch.Sized.filtered (metadataIdx : Nat) (hx : x.Sized p.chunkSize.val)
    (hb : b.bytes.length = p.chunkSize.val / 8) :
    (x.filtered metadataIdx chunkId b).Sized p.chunkSize.val where
  b := by
    rw [Scratch.filtered, Bitmap.length_andInplace (hx.b.trans hb.symm)]
    exact hx.b
  bmRowids := hx.bmRowids
  bmMetadata := hb

theorem blobOpen_ok {metadataIdx : Nat} {constraint : MetadataConstraint}
    (h : vec0SetMetadataFilterBitmap conv p s metadataIdx constraint chunkId = .ok b) :
    blobOpen s metadataIdx chunkId = .ok () := by
  simp only [vec0SetMetadataFilterBitmap, bind_eq_ok, ofOption_eq_ok] at h
  obtain ⟨_, hget, -⟩ := h
  rw [blobOpen, hget]
  rfl

theorem blobOpen_error {metadataIdx : Nat} {constraint : MetadataConstraint} {rc : ResultCode}
    (h : blobOpen s metadataIdx chunkId = .error rc) :
    vec0SetMetadataFilterBitmap conv p s metadataIdx constraint chunkId = .error rc := by
  unfold blobOpen require at h
  split at h
  next => cases h
  next hget =>
    cases h
    rw [vec0SetMetadataFilterBitmap, Option.not_isSome_iff_eq_none.mp hget]
    rfl

theorem mapMetadata_sim (metadataIdx : Nat) (constraint : MetadataConstraint)
    (hx : x.Sized p.chunkSize.val) :
    Sim SameCode (fun x' b => x'.Sized p.chunkSize.val ∧ x'.b = b)
      (mapMetadata conv p s chunkId x (some (metadataIdx, constraint)))
      (vec0SetMetadataFilterBitmap conv p s metadataIdx constraint chunkId >>= fun bmMetadata =>
        pure (x.b.andInplace bmMetadata)) := by
  rw [mapMetadata, setMetadataFilterBitmap_eq metadataIdx constraint hx]
  cases hresult : vec0SetMetadataFilterBitmap conv p s metadataIdx constraint chunkId with
  | error rc =>
    cases hopen : blobOpen s metadataIdx chunkId with
    | error rc' =>
      obtain rfl : rc' = rc := by
        have hfail : vec0SetMetadataFilterBitmap conv p s metadataIdx constraint chunkId =
          .error rc' := blobOpen_error hopen
        rw [hresult] at hfail
        exact (Except.error.inj hfail).symm
      split
      next => exact .error rfl
      next => exact .error rfl
    | ok =>
      split
      next => exact .error rfl
      next => exact .error rfl
  | ok b =>
    rw [blobOpen_ok hresult]
    have hsized : (x.filtered metadataIdx chunkId b).Sized p.chunkSize.val :=
      hx.filtered metadataIdx (length_metadataBitmap hresult)
    split
    next => exact .ok ⟨hsized, rfl⟩
    next => exact .ok ⟨hsized, rfl⟩

theorem mapMetadata_foldlM (conv : Conversions) (s : Shadow α) (args : FilterArgs)
    (vector : VectorArgs α) (row : Rowid × ChunkRow) (hx : x.Sized p.chunkSize.val) :
    Sim SameCode (fun x' b => x'.Sized p.chunkSize.val ∧ x'.b = b)
      (args.argv.foldlM (mapMetadata conv p s row.1) x)
      ((scanOf conv p s args vector).metadataFilters.foldlM
        (fun b filter => do return b.andInplace (← filter (chunkOf p s vector row))) x.b) := by
  change Sim _ _ _ ((args.argv.reduceOption.map _).foldlM _ _)
  generalize args.argv = argv
  induction argv generalizing x with
  | nil => exact .ok ⟨hx, rfl⟩
  | cons arg argv ih =>
    cases arg with
    | none =>
      rw [List.reduceOption_cons_of_none, List.foldlM_cons]
      exact ih hx
    | some constraint =>
      rw [List.reduceOption_cons_of_some, List.map_cons, List.foldlM_cons, List.foldlM_cons]
      refine (mapMetadata_sim constraint.1 constraint.2 hx).bind fun x' b hx' => ?_
      rw [← hx'.2]
      exact ih hx'.1

theorem forArgv_eq {σ : Type} {f : σ → Option (Nat × MetadataConstraint) → Except Failure σ}
    (hf : ∀ x, f x none = .ok x) (x : σ) : forArgv args f x = args.argv.foldlM f x := by
  unfold forArgv
  split
  next => rfl
  next h =>
    rw [FilterArgs.hasMetadataFilters, Bool.not_eq_true, List.any_eq_false] at h
    generalize args.argv = argv at h
    induction argv with
    | nil => rfl
    | cons arg argv ih =>
      have harg : arg = none := by simpa using h arg List.mem_cons_self
      rw [List.foldlM_cons, harg, hf]
      exact ih fun y hy => h y (List.mem_cons_of_mem _ hy)

theorem knnMetadata_sim (y : Scratch × Option String) (arg : Option (Nat × MetadataConstraint)) :
    Sim Eq (fun y x => y.1 = x) (knnMetadata conv p s chunkId y arg)
      (mapMetadata conv p s chunkId y.1 arg) := by
  cases arg with
  | none => exact .ok rfl
  | some constraint =>
    have hset : ∀ msg : Option String, Sim Eq (fun y x => y.1 = x)
        (withMessage "Could not filter metadata fields" (setMetadataFilterBitmap conv p s
          constraint.1 constraint.2 chunkId y.1.bmMetadata.clear) >>= fun bmMetadata =>
            (pure (y.1.filtered constraint.1 chunkId bmMetadata, msg) : Except Failure _))
        (withMessage "Could not filter metadata fields" (setMetadataFilterBitmap conv p s
          constraint.1 constraint.2 chunkId y.1.bmMetadata.clear) >>= fun bmMetadata =>
            pure (y.1.filtered constraint.1 chunkId bmMetadata)) := by
      intro msg
      cases withMessage "Could not filter metadata fields" (setMetadataFilterBitmap conv p s
          constraint.1 constraint.2 chunkId y.1.bmMetadata.clear) with
      | error e => exact .error rfl
      | ok bmMetadata => exact .ok rfl
    simp only [knnMetadata, mapMetadata]
    split
    next =>
      cases withMessage "Could not open metadata blob" (blobOpen s constraint.1 chunkId) with
      | error e => exact .error rfl
      | ok => exact hset _
    next => exact hset _

theorem knnMetadata_foldlM (conv : Conversions) (s : Shadow α) (args : FilterArgs)
    (vector : VectorArgs α) (row : Rowid × ChunkRow) (hx : x.Sized p.chunkSize.val)
    (msg : Option String) :
    Sim SameCode (fun y b => y.1.Sized p.chunkSize.val ∧ y.1.b = b)
      (args.argv.foldlM (knnMetadata conv p s row.1) (x, msg))
      ((scanOf conv p s args vector).metadataFilters.foldlM
        (fun b filter => do return b.andInplace (← filter (chunkOf p s vector row))) x.b) := by
  have hmap : Sim Eq (fun y x => y.1 = x) (args.argv.foldlM (knnMetadata conv p s row.1) (x, msg))
      (args.argv.foldlM (mapMetadata conv p s row.1) x) := by
    refine Sim.foldlM (fun y x arg _ hy => ?_) rfl
    subst hy
    exact knnMetadata_sim y arg
  refine (hmap.comp (mapMetadata_foldlM conv s args vector row hx)).mono ?_ ?_
  · rintro y b ⟨x', rfl, hx'⟩
    exact hx'
  · rintro e rc ⟨e', rfl, he⟩
    exact he

end Blocks

section RowidMap

variable {vector : VectorArgs α} {map : RowidBuffer}

def RowidBuffer.contents (map : RowidBuffer) : List Rowid := map.rowids.take map.count

def RowidBuffer.Fits (map : RowidBuffer) : Prop := map.count ≤ map.rowids.length

theorem take_set_succ {xs : List Rowid} {n : Nat} (rowid : Rowid) (h : n < xs.length) :
    (xs.set n rowid).take (n + 1) = xs.take n ++ [rowid] := by
  rw [List.take_add_one, List.take_set_of_le le_rfl, List.getElem?_set_self h]
  rfl

theorem rowidMapAdd_spec (h : map.Fits) (rowid : Rowid) :
    (rowidMapAdd map rowid).Fits ∧
      (rowidMapAdd map rowid).contents = map.contents ++ [rowid] := by
  unfold RowidBuffer.Fits at h ⊢
  rw [rowidMapAdd]
  split
  next hfull =>
    have hlt : map.count < (map.rowids ++
        List.replicate (map.rowids.length * 2 + 16 - map.rowids.length) 0).length := by
      rw [List.length_append, List.length_replicate]
      omega
    refine ⟨by rw [List.length_set]; exact hlt, ?_⟩
    exact (take_set_succ rowid hlt).trans (by rw [List.take_append_of_le_length h]; rfl)
  next hroom =>
    have hlt : map.count < map.rowids.length := Nat.lt_of_not_ge hroom
    exact ⟨by rw [List.length_set]; exact hlt, take_set_succ rowid hlt⟩

theorem addRowids_spec (h : map.Fits) (admitted : Nat → Bool) (rowid : Nat → Rowid)
    (slots : List Nat) :
    let map' := slots.foldl (fun map i => if admitted i then rowidMapAdd map (rowid i) else map) map
    map'.Fits ∧ map'.contents = map.contents ++ (slots.filter admitted).map rowid := by
  induction slots generalizing map with
  | nil => exact ⟨h, by simp⟩
  | cons i slots ih =>
    rw [List.foldl_cons]
    by_cases hi : admitted i = true
    · obtain ⟨hfits, hcontents⟩ := rowidMapAdd_spec h (rowid i)
      obtain ⟨hfits', hcontents'⟩ := ih hfits
      rw [if_pos hi, List.filter_cons_of_pos hi]
      refine ⟨hfits', ?_⟩
      rw [hcontents', hcontents, List.append_assoc]
      rfl
    · rw [if_neg hi, List.filter_cons_of_neg hi]
      exact ih h

theorem validity_copy {x : Scratch} {row : ChunkRow} (hx : x.Sized p.chunkSize.val)
    (hrow : row.validity.bytes.length = p.chunkSize.val / 8) :
    x.b.clear.copy row.validity p.chunkSize.val = row.validity := by
  refine Bitmap.copy_eq ?_ hrow
  rw [Bitmap.clear_eq_new hx.b]
  exact List.length_replicate

theorem mapChunk_sim (vector : VectorArgs α) {st : MapState} (x : Rowid × ChunkRow)
    (hst : st.scratch.Sized p.chunkSize.val) (hmap : st.outMap.Fits) :
    Sim SameCode (fun st' rowids => st'.scratch.Sized p.chunkSize.val ∧ st'.outMap.Fits ∧
        st'.outMap.contents = st.outMap.contents ++ rowids)
      (mapChunk conv p s args st x)
      (candidateRowids (scanOf conv p s args vector) (chunkOf p s vector x)) := by
  unfold mapChunk candidateRowids
  refine Sim.require_bind Iff.rfl rfl fun hvalidity => ?_
  refine Sim.require_bind Iff.rfl rfl fun _ => ?_
  rw [validity_copy hst hvalidity]
  simp only [forArgv_eq (f := mapMetadata conv p s x.1) fun _ => rfl]
  have hsized : ({ st.scratch with b := x.2.validity } : Scratch).Sized p.chunkSize.val :=
    ⟨hvalidity, hst.bmRowids, hst.bmMetadata⟩
  obtain ⟨hadmitted, hb⟩ := admitted_spec conv s args vector x hsized rfl
  have hmetadata := mapMetadata_foldlM conv s args vector x hadmitted
  rw [hb] at hmetadata
  refine hmetadata.bind fun scratch b hscratch => ?_
  obtain ⟨hscratch, rfl⟩ := hscratch
  obtain ⟨hfits, hcontents⟩ := addRowids_spec hmap scratch.b.get (fun i => x.2.rowids.getD i 0)
    (List.range p.chunkSize.val)
  exact .ok ⟨hscratch, hfits, hcontents⟩

end RowidMap

section ChunksIter

variable [LinearOrder α] [Zero α] {vector : VectorArgs α}

def searched (scan : ScanArgs (List α) α) (st : ScanState α) (c : Chunk (List α)) (b : Bitmap) :
    ScanState α :=
  let n := scan.chunkSize.val
  let distances := chunkDistances scan c b
  let (idxs, used1) := minIdx distances n b (List.replicate scan.k 0) (min scan.k n)
  let (tmp, used) := mergeSortedLists
    ⟨st.topk, st.kUsed, distances, c.rowids, idxs, min (min scan.k n) used1⟩ st.tmpTopk scan.k
  ⟨tmp.take used ++ st.topk.drop used, tmp, used⟩

theorem scanChunk_eq (scan : ScanArgs (List α) α) (st : ScanState α) (c : Chunk (List α)) :
    scanChunk scan st c = do
      require (c.validity.bytes.length = scan.chunkSize.val / 8) sqliteError
      require (c.rowids.length = scan.chunkSize.val) sqliteError
      require (c.vectors.length = scan.chunkSize.val) sqliteError
      let b ← candidateBitmap scan c
      return searched scan st c b := by
  unfold scanChunk require
  by_cases hvalidity : c.validity.bytes.length = scan.chunkSize.val / 8
  · by_cases hrowids : c.rowids.length = scan.chunkSize.val
    · by_cases hvectors : c.vectors.length = scan.chunkSize.val
      · simp only [hvalidity, hrowids, hvectors, ne_eq, not_true_eq_false, if_false, if_true]
        rfl
      · simp only [hvalidity, hrowids, hvectors, ne_eq, not_true_eq_false, not_false_eq_true,
          if_false, if_true]
        rfl
    · simp only [hvalidity, hrowids, ne_eq, not_true_eq_false, not_false_eq_true, if_false, if_true]
      rfl
  · simp only [hvalidity, ne_eq, not_false_eq_true, if_false, if_true]
    rfl

omit [LinearOrder α] in
theorem foldl_set_range (cond : Nat → Bool) (f : Nat → α) (n : Nat) :
    (List.range n).foldl (fun xs i => if !cond i then xs else xs.set i (f i))
      (List.replicate n 0) = (List.range n).map fun i => if cond i then f i else 0 := by
  have hupto : ∀ m ≤ n, (List.range m).foldl (fun xs i => if !cond i then xs else xs.set i (f i))
      (List.replicate n 0) =
        ((List.range m).map fun i => if cond i then f i else 0) ++ List.replicate (n - m) 0 := by
    intro m hm
    induction m with
    | zero => rfl
    | succ m ih =>
      have hrest : n - m = n - (m + 1) + 1 := by omega
      rw [List.range_succ, List.foldl_append, ih (Nat.le_of_succ_le hm), hrest,
        List.replicate_succ, List.map_append, List.append_assoc]
      simp only [List.foldl_cons, List.foldl_nil, List.map_cons, List.map_nil,
        List.singleton_append]
      cases hcond : cond m with
      | false => simp
      | true => simp [List.set_append_right]
  simpa using hupto n le_rfl

omit [LinearOrder α] in
theorem computeDistances_spec (conv : Conversions) (args : FilterArgs) {row : Rowid × ChunkRow}
    {blob : List α}
    (hblob : s.vectorChunks.get (vector.vectorColumnIdx, row.1) = some blob)
    (hlen : blob.length = p.chunkSize.val * vector.dimensions) (b : Bitmap)
    (computed : List Rowid) :
    computeDistances p vector row.2 blob b (List.replicate p.chunkSize.val 0, computed) =
      (chunkDistances (scanOf conv p s args vector) (chunkOf p s vector row) b,
        computed ++ ((List.range p.chunkSize.val).filter b.get).map fun i =>
          row.2.rowids.getD i 0) := by
  have hpair : ∀ (slots : List Nat) (xs : List α) (computed : List Rowid),
      slots.foldl (fun x i =>
        if !b.get i then x
        else
          (x.1.set i (vector.distance ((blob.drop (i * vector.dimensions)).take vector.dimensions)),
            x.2 ++ [row.2.rowids.getD i 0])) (xs, computed) =
      (slots.foldl (fun xs i => if !b.get i then xs else xs.set i
          (vector.distance ((blob.drop (i * vector.dimensions)).take vector.dimensions))) xs,
        computed ++ (slots.filter b.get).map fun i => row.2.rowids.getD i 0) := by
    intro slots
    induction slots with
    | nil => simp
    | cons i slots ih =>
      intro xs computed
      rw [List.foldl_cons, List.foldl_cons]
      cases hi : b.get i with
      | false =>
        rw [List.filter_cons_of_neg (by simp [hi])]
        exact ih _ _
      | true =>
        rw [List.filter_cons_of_pos hi]
        refine (ih _ _).trans ?_
        rw [List.append_assoc]
        rfl
  have hslot : ∀ i < p.chunkSize.val,
      ((chunkOf p s vector row).vectors[i]?).elim 0 vector.distance =
        vector.distance ((blob.drop (i * vector.dimensions)).take vector.dimensions) := by
    intro i hi
    simp [chunkOf, slotVectors, hblob, hlen, hi]
  refine (hpair _ _ _).trans (Prod.ext ?_ rfl)
  refine (foldl_set_range b.get _ _).trans (List.map_congr_left fun i hi => ?_)
  rw [← hslot i (List.mem_range.mp hi)]
  rfl

omit [LinearOrder α] [Zero α] in
theorem length_slotVectors (row : Rowid × ChunkRow) :
    (chunkOf p s vector row).vectors.length = p.chunkSize.val ↔ HasVectors p s vector row := by
  have hne : 0 ≠ p.chunkSize.val := p.chunkSize.pos.ne
  unfold chunkOf slotVectors HasVectors
  cases hget : s.vectorChunks.get (vector.vectorColumnIdx, row.1) with
  | none => simpa using hne
  | some blob =>
    by_cases hlen : blob.length = p.chunkSize.val * vector.dimensions
    · simp [hlen]
    · simpa [hlen] using hne

structure KnnState.Fits (p : Vec0Vtab) (k : Nat) (st : KnnState α) : Prop where
  scratch : st.scratch.Sized p.chunkSize.val
  length_chunkDistances : st.chunkDistances.length = p.chunkSize.val
  length_chunkTopkIdxs : st.chunkTopkIdxs.length = k

omit [LinearOrder α] in
theorem KnnState.Fits.init (p : Vec0Vtab) (vector : VectorArgs α) :
    (KnnState.init p vector).Fits p vector.k :=
  ⟨.init _, List.length_replicate, List.length_replicate⟩

omit [LinearOrder α] [Zero α] in
theorem candidateRowids_eq {scan : ScanArgs (List α) α} {c : Chunk (List α)} {b : Bitmap}
    (hvalidity : c.validity.bytes.length = scan.chunkSize.val / 8)
    (hrowids : c.rowids.length = scan.chunkSize.val) (hb : candidateBitmap scan c = .ok b) :
    candidateRowids scan c =
      .ok (((List.range scan.chunkSize.val).filter b.get).map fun i => c.rowids.getD i 0) := by
  rw [candidateRowids, require, if_pos hvalidity, require, if_pos hrowids, hb]
  rfl

theorem knnChunk_sim {st : KnnState α} (x : Rowid × ChunkRow) (hst : st.Fits p vector.k) :
    Sim SameCode (fun st' scan => st'.Fits p vector.k ∧ st'.scan = scan ∧ ∃ rowids : List Rowid,
        candidateRowids (scanOf conv p s args vector) (chunkOf p s vector x) = .ok rowids ∧
        st'.computed = st.computed ++ rowids)
      (knnChunk conv p s args vector st x)
      (scanChunk (scanOf conv p s args vector) st.scan (chunkOf p s vector x)) := by
  rw [scanChunk_eq]
  unfold knnChunk
  refine Sim.require_bind Iff.rfl rfl fun hvalidity => ?_
  refine Sim.require_bind Iff.rfl rfl fun hrowids => ?_
  have hvectors : (chunkOf p s vector x).vectors.length = p.chunkSize.val ↔
      HasVectors p s vector x := length_slotVectors x
  cases hget : s.vectorChunks.get (vector.vectorColumnIdx, x.1) with
  | none =>
    have hnone : ¬(chunkOf p s vector x).vectors.length = p.chunkSize.val := by
      rw [hvectors]
      rintro ⟨blob, hblob, -⟩
      rw [hget] at hblob
      cases hblob
    have hfail : (require ((chunkOf p s vector x).vectors.length = p.chunkSize.val) sqliteError :
        Except ResultCode Unit) = .error sqliteError := if_neg hnone
    change Sim _ _ _ (require ((chunkOf p s vector x).vectors.length = p.chunkSize.val)
      sqliteError >>= _)
    rw [hfail]
    exact .error rfl
  | some blob =>
    have hsome : blob.length = p.chunkSize.val * vector.dimensions ↔
        (chunkOf p s vector x).vectors.length = p.chunkSize.val := by
      rw [hvectors, HasVectors, hget]
      simp
    rw [ofOption, ok_bind]
    refine Sim.require_bind hsome rfl fun hlen => ?_
    have hzero : st.chunkDistances.map (fun _ => (0 : α)) = List.replicate p.chunkSize.val 0 := by
      rw [List.map_const', hst.length_chunkDistances]
    have hidxs : st.chunkTopkIdxs.map (fun _ => 0) = List.replicate vector.k 0 := by
      rw [List.map_const', hst.length_chunkTopkIdxs]
    rw [validity_copy hst.scratch hvalidity]
    simp only [forArgv_eq (f := knnMetadata conv p s x.1) fun _ => rfl, hzero, hidxs]
    have hsized : ({ st.scratch with b := x.2.validity } : Scratch).Sized p.chunkSize.val :=
      ⟨hvalidity, hst.scratch.bmRowids, hst.scratch.bmMetadata⟩
    obtain ⟨hadmitted, hb⟩ := admitted_spec conv s args vector x hsized rfl
    have hmetadata := knnMetadata_foldlM conv s args vector x hadmitted st.zErrMsg
    rw [hb] at hmetadata
    refine hmetadata.right_eq.bind fun y b hy => ?_
    obtain ⟨⟨hscratch, rfl⟩, hbitmap⟩ := hy
    have hcomputed := computeDistances_spec conv args hget hlen y.1.b st.computed
    simp only [hcomputed]
    refine .ok ⟨⟨hscratch, ?_, ?_⟩, rfl, _, ?_, rfl⟩
    · rw [chunkDistances, List.length_map, List.length_range]
      rfl
    · rw [length_minIdx, List.length_replicate]
    · exact candidateRowids_eq hvalidity hrowids hbitmap

end ChunksIter

section Runs

variable [LinearOrder α] [Zero α] (conv p s args) (vector : VectorArgs α)

omit [LinearOrder α] [Zero α] in
theorem mapChunks_sim (rows : List (Rowid × ChunkRow)) {st : MapState}
    (hst : st.scratch.Sized p.chunkSize.val) (hmap : st.outMap.Fits) :
    Sim SameCode (fun st' rowids =>
        st'.outMap.contents = st.outMap.contents ++ rowids.flatten)
      (rows.foldlM (mapChunk conv p s args) st)
      ((rows.map (chunkOf p s vector)).mapM (candidateRowids (scanOf conv p s args vector))) := by
  induction rows generalizing st with
  | nil => exact .ok (List.append_nil _).symm
  | cons x rows ih =>
    rw [List.foldlM_cons, List.map_cons, List.mapM_cons]
    refine (mapChunk_sim vector x hst hmap).bind fun st₁ rowids h₁ => ?_
    obtain ⟨hst₁, hmap₁, hcontents⟩ := h₁
    rw [← bind_pure (rows.foldlM _ _)]
    refine (ih hst₁ hmap₁).bind fun st' rss h => .ok ?_
    rw [h, hcontents, List.flatten_cons, List.append_assoc]

omit [LinearOrder α] [Zero α] in
theorem vec0FilterChunksToRowidMap_sim (rows : List (Rowid × ChunkRow)) :
    Sim SameCode (fun rowids rss => rowids = sortRowids rss.flatten)
      (vec0FilterChunksToRowidMap conv p s args rows)
      ((rows.map (chunkOf p s vector)).mapM (candidateRowids (scanOf conv p s args vector))) := by
  rw [vec0FilterChunksToRowidMap, ← bind_pure (List.mapM _ _)]
  have hinit : (⟨[], 0⟩ : RowidBuffer).Fits := le_rfl
  refine (mapChunks_sim conv p s args vector rows (.init _) hinit).bind fun st rss h => .ok ?_
  exact congrArg sortRowids h

theorem knnChunks_sim (rows : List (Rowid × ChunkRow)) {st : KnnState α}
    (hst : st.Fits p vector.k) :
    Sim SameCode (fun st' scan => st'.scan = scan ∧ ∃ rss : List (List Rowid),
        (rows.map (chunkOf p s vector)).mapM (candidateRowids (scanOf conv p s args vector)) =
          .ok rss ∧ st'.computed = st.computed ++ rss.flatten)
      (rows.foldlM (knnChunk conv p s args vector) st)
      ((rows.map (chunkOf p s vector)).foldlM (scanChunk (scanOf conv p s args vector))
        st.scan) := by
  induction rows generalizing st with
  | nil => exact .ok ⟨rfl, [], rfl, (List.append_nil _).symm⟩
  | cons x rows ih =>
    rw [List.foldlM_cons, List.map_cons, List.foldlM_cons]
    refine (knnChunk_sim x hst).bind fun st₁ scan h₁ => ?_
    obtain ⟨hst₁, rfl, rowids, hrowids, hcomputed⟩ := h₁
    refine (ih hst₁).mono ?_ fun _ _ he => he
    rintro st' scan ⟨hscan, rss, hrss, hcomputed'⟩
    refine ⟨hscan, rowids :: rss, ?_, ?_⟩
    · rw [List.mapM_cons, hrowids, ok_bind, hrss]
      rfl
    · rw [hcomputed', hcomputed, List.flatten_cons, List.append_assoc]

theorem vec0FilterKnnChunksIter_sim (rows : List (Rowid × ChunkRow)) :
    Sim SameCode (fun st pairs => st.scan.topk.take st.scan.kUsed = pairs)
      (vec0FilterKnnChunksIter conv p s args vector rows)
      (ChunkScan.vec0FilterKnnChunksIter (scanOf conv p s args vector)
        (rows.map (chunkOf p s vector))) := by
  rw [vec0FilterKnnChunksIter, ← bind_pure (List.foldlM _ _ _)]
  refine (knnChunks_sim conv p s args vector rows (KnnState.Fits.init p vector)).bind ?_
  rintro st _ ⟨rfl, -⟩
  exact .ok rfl

theorem scanChunk_ok_iff (scan : ScanArgs (List α) α) (st : ScanState α) (c : Chunk (List α)) :
    (∃ st', scanChunk scan st c = .ok st') ↔
      (∃ rowids, candidateRowids scan c = .ok rowids) ∧ c.vectors.length = scan.chunkSize.val := by
  rw [scanChunk_eq]
  simp only [candidateRowids, bind_eq_ok, require_eq_ok, pure_eq_ok]
  constructor
  · rintro ⟨_, _, hvalidity, _, hrowids, _, hvectors, b, hb, -⟩
    exact ⟨⟨_, (), hvalidity, (), hrowids, b, hb, rfl⟩, hvectors⟩
  · rintro ⟨⟨_, _, hvalidity, _, hrowids, b, hb, -⟩, hvectors⟩
    exact ⟨_, (), hvalidity, (), hrowids, (), hvectors, b, hb, rfl⟩

theorem scanChunks_ok_iff (scan : ScanArgs (List α) α) (st : ScanState α)
    (chunks : List (Chunk (List α))) :
    (∃ st', chunks.foldlM (scanChunk scan) st = .ok st') ↔
      (∃ rss, chunks.mapM (candidateRowids scan) = .ok rss) ∧
        ∀ c ∈ chunks, c.vectors.length = scan.chunkSize.val := by
  induction chunks generalizing st with
  | nil => exact ⟨fun _ => ⟨⟨[], rfl⟩, by simp⟩, fun _ => ⟨st, rfl⟩⟩
  | cons c chunks ih =>
    simp only [List.foldlM_cons, List.mapM_cons, bind_eq_ok, pure_eq_ok, List.forall_mem_cons]
    constructor
    · rintro ⟨st', st₁, hc, hchunks⟩
      obtain ⟨⟨rowids, hrowids⟩, hvectors⟩ := (scanChunk_ok_iff scan st c).mp ⟨st₁, hc⟩
      obtain ⟨⟨rss, hrss⟩, hall⟩ := (ih st₁).mp ⟨st', hchunks⟩
      exact ⟨⟨_, rowids, hrowids, rss, hrss, rfl⟩, hvectors, hall⟩
    · rintro ⟨⟨_, rowids, hrowids, rss, hrss, -⟩, hvectors, hall⟩
      obtain ⟨st₁, hc⟩ := (scanChunk_ok_iff scan st c).mpr ⟨⟨rowids, hrowids⟩, hvectors⟩
      obtain ⟨st', hchunks⟩ := (ih st₁).mpr ⟨⟨rss, hrss⟩, hall⟩
      exact ⟨st', st₁, hc, hchunks⟩

/-- The rowids for the indexes are those whose distances are computed.  Where one of the loops
fails the other does too, unless it is for the vectors, which only the other reads. -/
theorem loops_agree (rows : List (Rowid × ChunkRow)) :
    ((∃ st, vec0FilterKnnChunksIter conv p s args vector rows = .ok st) ↔
      (∃ rowids, vec0FilterChunksToRowidMap conv p s args rows = .ok rowids) ∧
        ∀ x ∈ rows, HasVectors p s vector x) ∧
    ∀ rowids st, vec0FilterChunksToRowidMap conv p s args rows = .ok rowids →
      vec0FilterKnnChunksIter conv p s args vector rows = .ok st →
        rowids = sortRowids st.computed := by
  have hmap := vec0FilterChunksToRowidMap_sim conv p s args vector rows
  have hknn := knnChunks_sim conv p s args vector rows (KnnState.Fits.init p vector)
  have hscan := scanChunks_ok_iff (scanOf conv p s args vector) (KnnState.init p vector).scan
    (rows.map (chunkOf p s vector))
  have hvectors : (∀ c ∈ rows.map (chunkOf p s vector), c.vectors.length = p.chunkSize.val) ↔
      ∀ x ∈ rows, HasVectors p s vector x := by
    simp only [List.forall_mem_map, length_slotVectors]
  constructor
  · rw [vec0FilterKnnChunksIter, hknn.ok_iff, hmap.ok_iff, ← hvectors]
    exact hscan
  · intro rowids st hrowids hst
    rw [hrowids] at hmap
    rw [vec0FilterKnnChunksIter] at hst
    rw [hst] at hknn
    obtain ⟨rss, hrss, rfl⟩ := hmap.exists_of_ok
    obtain ⟨_, -, -, rss', hrss', hcomputed⟩ := hknn.exists_of_ok
    rw [hrss] at hrss'
    obtain rfl := Except.ok.inj hrss'
    rw [hcomputed]
    rfl

end Runs

section Query

variable (p s) (env : Env α) (args : KnnArgs α) (elementType : VectorElementType)
  (dimensions k : Nat) (query : List α) (rowidsIn : Option (List Rowid))
  {argv : List (Option (Nat × MetadataConstraint))} (hargv : argv.reduceOption = args.metadata)

def vectorArgs : VectorArgs α where
  vectorColumnIdx := args.vectorColumnIdx
  elementType := elementType
  dimensions := dimensions
  distance v := env.distance v query
  k := k

include hargv

theorem scanArgs_eq : scanArgs env p s args query k rowidsIn =
    scanOf env.conv p s ⟨rowidsIn, argv⟩
      (vectorArgs env args elementType dimensions k query) := by
  rw [scanArgs, scanOf, ← hargv]
  rfl

theorem vec0FilterChunksToRowidMap_refines (preFilter : Bool) :
    Sim SameCode (fun rowids map => rowids = map.rowids)
      (vec0FilterChunksToRowidMap env.conv p s ⟨rowidsIn, argv⟩ (vec0ChunksIter s args))
      (Knn.vec0FilterChunksToRowidMap (scanArgs env p s args query k rowidsIn)
        (scanChunks p s args dimensions) preFilter) := by
  rw [scanArgs_eq p s env args .float32 dimensions k query rowidsIn hargv,
    ← bind_pure (vec0FilterChunksToRowidMap _ _ _ _ _)]
  refine (vec0FilterChunksToRowidMap_sim env.conv p s ⟨rowidsIn, argv⟩
    (vectorArgs env args .float32 dimensions k query) (vec0ChunksIter s args)).bind ?_
  rintro _ rss rfl
  exact .ok rfl

theorem vec0FilterKnnChunksIter_refines [LinearOrder α] [Zero α] :
    Sim SameCode (fun st pairs => st.scan.topk.take st.scan.kUsed = pairs)
      (vec0FilterKnnChunksIter env.conv p s ⟨rowidsIn, argv⟩
        (vectorArgs env args elementType dimensions k query) (vec0ChunksIter s args))
      (ChunkScan.vec0FilterKnnChunksIter (scanArgs env p s args query k rowidsIn)
        (scanChunks p s args dimensions)) := by
  rw [scanArgs_eq p s env args elementType dimensions k query rowidsIn hargv]
  exact vec0FilterKnnChunksIter_sim env.conv p s ⟨rowidsIn, argv⟩ _ (vec0ChunksIter s args)

end Query

section Sample

def widened : Vec0 ℚ Unit :=
  (vec0Update noIndex lineTable lineRow (.update (lineUpdateTo 1 [5, 6]))).1

def widenedArgs : VectorArgs ℚ where
  vectorColumnIdx := 0
  elementType := .float32
  dimensions := 2
  distance v := v.headD 0
  k := 1

theorem widened_loops :
    ¬∀ (conv : Conversions) (p : Vec0Vtab) (s : Shadow ℚ) (args : FilterArgs)
      (vector : VectorArgs ℚ) (rows : List (Rowid × ChunkRow)),
      ((∃ rowids, vec0FilterChunksToRowidMap conv p s args rows = .ok rowids) ↔
        ∃ st, vec0FilterKnnChunksIter conv p s args vector rows = .ok st) ∧
      ∀ rowids st, vec0FilterChunksToRowidMap conv p s args rows = .ok rowids →
        vec0FilterKnnChunksIter conv p s args vector rows = .ok st →
          rowids = sortRowids st.computed := by
  intro h
  have hmap : vec0FilterChunksToRowidMap numberConversions lineTable widened.shadow ⟨none, []⟩
      widened.shadow.chunks.rows = .ok [1] := by
    decide +kernel
  have hknn : (vec0FilterKnnChunksIter numberConversions lineTable widened.shadow ⟨none, []⟩
      widenedArgs widened.shadow.chunks.rows).isOk = false := by
    decide +kernel
  obtain ⟨st, hst⟩ := (h _ _ _ _ widenedArgs _).1.mp ⟨_, hmap⟩
  rw [hst] at hknn
  cases hknn

end Sample

end SqliteMultimodal.Vec.Knn.Loops
