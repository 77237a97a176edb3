import SqliteMultimodal.Lib.Except
import SqliteMultimodal.Vec.ChunkScan.Select

namespace SqliteMultimodal.Vec.ChunkScan

variable {D : Type} [LinearOrder D] [Zero D]

abbrev leDist (x y : Rowid × D) : Bool := x.2 ≤ y.2

namespace MergeArgs

variable (m : MergeArgs D)

def left : Pairs D := m.a.take m.aLength

def right : Pairs D :=
  (m.bTopIdxs.take m.bLength).map fun i => (m.bRowids.getD i 0, m.b.getD i 0)

omit [LinearOrder D] in
theorem drop_left {ptrA : Nat} (hlen : m.aLength ≤ m.a.length) (h : ptrA < m.aLength) :
    m.left.drop ptrA = m.aAt ptrA :: m.left.drop (ptrA + 1) := by
  have hlt : ptrA < m.left.length := by
    simp only [left, List.length_take]
    omega
  rw [List.drop_eq_getElem_cons hlt]
  simp [left, aAt, List.getD_eq_getElem?_getD, List.getElem?_eq_getElem (h.trans_le hlen)]

omit [LinearOrder D] in
theorem drop_right {ptrB : Nat} (hlen : m.bLength ≤ m.bTopIdxs.length) (h : ptrB < m.bLength) :
    m.right.drop ptrB = m.bAt ptrB :: m.right.drop (ptrB + 1) := by
  have hlt : ptrB < m.right.length := by
    simp only [right, List.length_map, List.length_take]
    omega
  rw [List.drop_eq_getElem_cons hlt]
  simp [right, bAt, List.getD_eq_getElem?_getD, List.getElem?_eq_getElem (h.trans_le hlen)]

omit [LinearOrder D] [Zero D] in
theorem drop_left_eq_nil {ptrA : Nat} (h : m.aLength ≤ ptrA) : m.left.drop ptrA = [] := by
  simp only [left, List.drop_eq_nil_iff, List.length_take]
  omega

omit [LinearOrder D] in
theorem drop_right_eq_nil {ptrB : Nat} (h : m.bLength ≤ ptrB) : m.right.drop ptrB = [] := by
  simp only [right, List.drop_eq_nil_iff, List.length_map, List.length_take]
  omega

end MergeArgs

structure Merged (out : Pairs D) (expected : Pairs D) (r : Pairs D × Nat) : Prop where
  take_eq : r.1.take r.2 = expected
  used_eq : r.2 = expected.length
  length_eq : r.1.length = out.length

theorem mergeLoop_spec (m : MergeArgs D) (ha : m.aLength ≤ m.a.length)
    (hb : m.bLength ≤ m.bTopIdxs.length) {room ptrA ptrB : Nat} {done out : Pairs D}
    (hdone : out.take done.length = done) (hroom : done.length + room ≤ out.length) :
    Merged out (done ++ ((m.left.drop ptrA).merge (m.right.drop ptrB) leDist).take room)
      (mergeLoop m room done.length ptrA ptrB out) := by
  induction room generalizing ptrA ptrB done out with
  | zero => exact ⟨by simpa [mergeLoop] using hdone, by simp [mergeLoop], rfl⟩
  | succ room ih =>
    -- One more pair is written, and the rest of the merge follows it.
    have step : ∀ x ptrA ptrB, Merged out
        (done ++ x :: ((m.left.drop ptrA).merge (m.right.drop ptrB) leDist).take room)
        (mergeLoop m room (done.length + 1) ptrA ptrB (out.set done.length x)) := by
      intro x ptrA ptrB
      have hlt : done.length < out.length := by omega
      have hnext := @ih ptrA ptrB (done ++ [x]) (out.set done.length x)
        (by
          rw [List.length_append, List.length_singleton, List.take_add_one,
            List.take_set_of_le le_rfl, hdone, List.getElem?_set_self hlt]
          rfl)
        (by simp; omega)
      rw [List.length_append, List.length_singleton, List.append_assoc,
        List.singleton_append] at hnext
      exact ⟨hnext.take_eq, hnext.used_eq, by rw [hnext.length_eq, List.length_set]⟩
    rw [mergeLoop]
    split
    next hend =>
      rw [m.drop_left_eq_nil hend.1, m.drop_right_eq_nil hend.2]
      exact ⟨by simpa using hdone, by simp, rfl⟩
    split
    next hA =>
      have hB : ptrB < m.bLength := by omega
      have hstep := step (m.bAt ptrB) ptrA (ptrB + 1)
      rw [m.drop_left_eq_nil hA, List.nil_merge] at hstep ⊢
      rwa [m.drop_right hb hB, List.take_succ_cons]
    split
    next hA hB =>
      have hstep := step (m.aAt ptrA) (ptrA + 1) ptrB
      rw [m.drop_right_eq_nil hB, List.merge_right] at hstep ⊢
      rwa [m.drop_left ha (by omega), List.take_succ_cons]
    split
    next hA hB hle =>
      have hstep := step (m.aAt ptrA) (ptrA + 1) ptrB
      rw [m.drop_right hb (by omega)] at hstep ⊢
      rwa [m.drop_left ha (by omega), List.cons_merge_cons_pos _ _ _ (by simpa using hle),
        List.take_succ_cons]
    next hA hB hle =>
      have hstep := step (m.bAt ptrB) ptrA (ptrB + 1)
      rw [m.drop_left ha (by omega)] at hstep ⊢
      rwa [m.drop_right hb (by omega), List.cons_merge_cons_neg _ _ _ (by simpa using hle),
        List.take_succ_cons]

theorem mergeSortedLists_spec (m : MergeArgs D) (ha : m.aLength ≤ m.a.length)
    (hb : m.bLength ≤ m.bTopIdxs.length) (out : Pairs D) {k : Nat} (hk : k ≤ out.length) :
    Merged out ((m.left.merge m.right leDist).take k) (mergeSortedLists m out k) := by
  simpa [mergeSortedLists] using @mergeLoop_spec D _ _ m ha hb k 0 0 [] out rfl (by simpa using hk)

section Candidates

variable {V : Type} (args : ScanArgs V D) (c : Chunk V)

def Chunk.Sized (n : Nat) : Prop :=
  c.validity.bytes.length = n / 8 ∧ c.rowids.length = n ∧ c.vectors.length = n

def isCandidate (i : Nat) : Bool :=
  c.validity.get i &&
  args.arrayRowidsIn.all (fun arr => arr.contains (c.rowids.getD i 0)) &&
  args.metadataFilters.all (fun filter => (filter c).toOption.any (·.get i))

def slotEntry (i : Nat) : Rowid × D :=
  (c.rowids.getD i 0, (c.vectors[i]?).elim 0 args.distance)

def candidates : List (Rowid × D) :=
  ((List.range args.chunkSize.val).filter (isCandidate args c)).map (slotEntry args c)

omit [LinearOrder D] [Zero D] in
theorem get_rowidBitmap (arr : List Rowid) {i : Nat} (hi : i < args.chunkSize.val) :
    (rowidBitmap args c arr).get i =
      (c.validity.get i && arr.contains (c.rowids.getD i 0)) := by
  suffices h : ∀ m ≤ args.chunkSize.val, ∀ bm : Bitmap,
      bm = (List.range m).foldl (fun bm i =>
        if !c.validity.get i then bm else bm.set i (bsearch (c.rowids.getD i 0) arr))
        (Bitmap.new args.chunkSize.val) →
      bm.bytes.length = args.chunkSize.val / 8 ∧
      ∀ j, bm.get j = (decide (j < m) && c.validity.get j && arr.contains (c.rowids.getD j 0)) by
    rw [rowidBitmap, (h _ le_rfl _ rfl).2]
    simp [hi]
  intro m hm
  induction m with
  | zero =>
    rintro bm rfl
    exact ⟨by simp [Bitmap.new], by simp⟩
  | succ m ih =>
    intro bm hbm
    rw [List.range_succ, List.foldl_append] at hbm
    obtain ⟨hlen, hget⟩ := ih (by omega) _ rfl
    generalize (List.range m).foldl _ _ = prev at hbm hlen hget
    simp only [List.foldl_cons, List.foldl_nil] at hbm
    have hbyte : m / 8 < prev.bytes.length := by
      rw [hlen]
      exact Nat.div_lt_div_of_lt_of_dvd args.chunkSize.dvd (by omega)
    have hsplit : ∀ j, decide (j < m + 1) = (decide (j < m) || decide (j = m)) := by
      intro j
      rw [← Bool.decide_or, decide_eq_decide]
      omega
    split at hbm
    next hv =>
      subst hbm
      refine ⟨hlen, fun j => ?_⟩
      rw [hget, hsplit]
      by_cases hj : j = m
      · subst hj
        simp_all
      · simp [hj]
    next hv =>
      subst hbm
      refine ⟨by simpa using hlen, fun j => ?_⟩
      rw [Bitmap.get_set _ _ _ _ hbyte, hget, hsplit]
      by_cases hj : j = m
      · subst hj
        simp_all [bsearch]
      · simp [hj]

theorem get_foldlM_andInplace (filters : List (Chunk V → Except ResultCode Bitmap)) (b : Bitmap) :
    match filters.foldlM (fun b filter => do return b.andInplace (← filter c)) b with
    | .ok b' => ∀ i, b'.get i =
        (b.get i && filters.all (fun filter => (filter c).toOption.any (·.get i)))
    | .error e => ∃ filter ∈ filters, filter c = .error e := by
  induction filters generalizing b with
  | nil => simp [pure, Except.pure]
  | cons filter filters ih =>
    rw [List.foldlM_cons]
    cases hf : filter c with
    | error e => exact ⟨filter, by simp, hf⟩
    | ok bm =>
      have hrest := ih (b.andInplace bm)
      simp only [bind, Except.bind, pure, Except.pure] at hrest ⊢
      split at hrest
      next b' hb' =>
        intro i
        rw [hrest i]
        simp [hf, Except.toOption, Bool.and_assoc]
      next e he =>
        obtain ⟨g, hg, hge⟩ := hrest
        exact ⟨g, List.mem_cons_of_mem _ hg, hge⟩

omit [LinearOrder D] [Zero D] in
theorem candidateBitmap_spec :
    match candidateBitmap args c with
    | .ok b => ∀ i < args.chunkSize.val, b.get i = isCandidate args c i
    | .error e => ∃ filter ∈ args.metadataFilters, filter c = .error e := by
  have h := get_foldlM_andInplace c args.metadataFilters (validRowids args c)
  rw [← candidateBitmap] at h
  have hrowids : ∀ i < args.chunkSize.val, (validRowids args c).get i = (c.validity.get i &&
      args.arrayRowidsIn.all (fun arr => arr.contains (c.rowids.getD i 0))) := by
    intro i hi
    unfold validRowids
    cases args.arrayRowidsIn with
    | none => simp
    | some arr => simp [get_rowidBitmap args c arr hi]
  split
  next b hb =>
    rw [hb] at h
    intro i hi
    rw [h i, isCandidate, hrowids i hi]
  next e he =>
    rw [he] at h
    exact h

omit [LinearOrder D] in
theorem chunkDistances_getD {b : Bitmap} {i : Nat} (hi : i < args.chunkSize.val)
    (hb : b.get i = true) :
    (chunkDistances args c b).getD i 0 = (slotEntry args c i).2 := by
  simp [chunkDistances, List.getD_eq_getElem?_getD, hi, hb, slotEntry]

end Candidates

section Scan

variable {V : Type} (args : ScanArgs V D)

structure Scanned (seen : List (Chunk V)) (s : ScanState D) : Prop where
  length_topk : s.topk.length = args.k
  length_tmpTopk : s.tmpTopk.length = args.k
  used_le : s.kUsed ≤ args.k
  sorted : (s.topk.take s.kUsed).Pairwise (fun x y => x.2 ≤ y.2)
  smallest : Smallest (Prod.snd : Rowid × D → D) args.k (seen.flatMap (candidates args) : List _)
    (s.topk.take s.kUsed : List _)

def ScanState.empty : ScanState D :=
  ⟨List.replicate args.k (0, 0), List.replicate args.k (0, 0), 0⟩

theorem Scanned.nil : Scanned args [] (.empty args) where
  length_topk := by simp [ScanState.empty]
  length_tmpTopk := by simp [ScanState.empty]
  used_le := Nat.zero_le _
  sorted := List.Pairwise.nil
  smallest := Smallest.zero _ _

theorem scanChunk_ok {s s' : ScanState D} {c : Chunk V} (h : scanChunk args s c = .ok s') :
    c.Sized args.chunkSize.val ∧ ∃ b, candidateBitmap args c = .ok b ∧
      let n := args.chunkSize.val
      let idxs := minIdx (chunkDistances args c b) n b (List.replicate args.k 0) (min args.k n)
      let r := mergeSortedLists ⟨s.topk, s.kUsed, chunkDistances args c b, c.rowids, idxs.1,
        min (min args.k n) idxs.2⟩ s.tmpTopk args.k
      s' = ⟨r.1.take r.2 ++ s.topk.drop r.2, r.1, r.2⟩ := by
  unfold scanChunk at h
  by_cases h1 : c.validity.bytes.length = args.chunkSize.val / 8
  · by_cases h2 : c.rowids.length = args.chunkSize.val
    · by_cases h3 : c.vectors.length = args.chunkSize.val
      · cases hb : candidateBitmap args c with
        | error e => simp [h1, h2, h3, hb, bind, Except.bind] at h
        | ok b =>
          refine ⟨⟨h1, h2, h3⟩, b, rfl, ?_⟩
          simp only [h1, h2, h3, hb, bind, Except.bind, pure, Except.pure, ne_eq,
            not_true_eq_false, if_false, Except.ok.injEq] at h
          exact h.symm
      · simp [h1, h2, h3, bind, Except.bind, throw, throwThe, MonadExceptOf.throw] at h
    · simp [h1, h2, bind, Except.bind, throw, throwThe, MonadExceptOf.throw] at h
  · simp [h1, bind, Except.bind, throw, throwThe, MonadExceptOf.throw] at h

def Scannable (c : Chunk V) : Prop :=
  c.Sized args.chunkSize.val ∧ ∀ filter ∈ args.metadataFilters, ∃ bm, filter c = .ok bm

theorem scanChunk_isOk (s : ScanState D) {c : Chunk V} (h : Scannable args c) :
    ∃ s', scanChunk args s c = .ok s' := by
  obtain ⟨⟨h1, h2, h3⟩, hfilters⟩ := h
  have hspec := candidateBitmap_spec args c
  cases hb : candidateBitmap args c with
  | error e =>
    rw [hb] at hspec
    obtain ⟨filter, hmem, herr⟩ := hspec
    obtain ⟨bm, hok⟩ := hfilters filter hmem
    simp [hok] at herr
  | ok b =>
    unfold scanChunk
    simp only [h1, h2, h3, hb, bind, Except.bind, pure, Except.pure, ne_eq, not_true_eq_false,
      if_false]
    exact ⟨_, rfl⟩

theorem foldlM_scanChunk_isOk (s : ScanState D) {chunks : List (Chunk V)}
    (h : ∀ c ∈ chunks, Scannable args c) : ∃ s', chunks.foldlM (scanChunk args) s = .ok s' := by
  induction chunks generalizing s with
  | nil => exact ⟨s, rfl⟩
  | cons c chunks ih =>
    obtain ⟨next, hnext⟩ := scanChunk_isOk args s (h c (by simp))
    obtain ⟨s', hs'⟩ := ih next fun d hd => h d (List.mem_cons_of_mem c hd)
    exact ⟨s', by simpa [List.foldlM_cons, hnext, bind, Except.bind] using hs'⟩

theorem smallest_candidates {c : Chunk V} {b : Bitmap} (hb : candidateBitmap args c = .ok b) :
    let n := args.chunkSize.val
    let r := minIdx (chunkDistances args c b) n b (List.replicate args.k 0) (min args.k n)
    let right : Pairs D := (r.1.take r.2).map fun i =>
      (c.rowids.getD i 0, (chunkDistances args c b).getD i 0)
    r.2 ≤ min args.k n ∧ r.2 ≤ r.1.length ∧ right.Pairwise (fun x y => x.2 ≤ y.2) ∧
      Smallest (Prod.snd : Rowid × D → D) args.k (candidates args c : List _) (right : List _) := by
  intro n r right
  have hspec := candidateBitmap_spec args c
  rw [hb] at hspec
  obtain ⟨hle, hlen, hsorted, -, hsel⟩ := @minIdx_spec D _ _ (chunkDistances args c b) n b
    args.chunkSize.dvd args.k (List.replicate args.k 0) (by simp)
  have hentry : ∀ i ∈ slots n b, (c.rowids.getD i 0, (chunkDistances args c b).getD i 0) =
      slotEntry args c i := by
    intro i hi
    rw [chunkDistances_getD args c (mem_slots.mp hi).1 (mem_slots.mp hi).2]
    rfl
  have hright : right = (r.1.take r.2).map (slotEntry args c) := by
    apply List.map_congr_left
    intro i hi
    exact hentry i (Multiset.mem_coe.mp (Multiset.mem_of_le hsel.le (Multiset.mem_coe.mpr hi)))
  have hcand : candidates args c = (slots n b).map (slotEntry args c) := by
    unfold candidates slots
    congr 1
    apply List.filter_congr
    intro i hi
    exact (hspec i (List.mem_range.mp hi)).symm
  refine ⟨hle, ?_, ?_, ?_⟩
  · change (r.1.take r.2).length = r.2 at hlen
    rw [List.length_take] at hlen
    omega
  · exact List.pairwise_map.mpr hsorted
  · rw [hcand, hright, ← Multiset.map_coe, ← Multiset.map_coe]
    refine hsel.map _ fun i hi => ?_
    exact (chunkDistances_getD args c (mem_slots.mp hi).1 (mem_slots.mp hi).2).symm

theorem Scanned.step {seen : List (Chunk V)} {s s' : ScanState D} {c : Chunk V}
    (h : Scanned args seen s) (hstep : scanChunk args s c = .ok s') :
    Scanned args (seen ++ [c]) s' := by
  obtain ⟨-, b, hb, hs'⟩ := scanChunk_ok args hstep
  dsimp only at hs'
  obtain ⟨hle, hlen, hright, hchunk⟩ := smallest_candidates args hb
  generalize minIdx (chunkDistances args c b) args.chunkSize.val b (List.replicate args.k 0)
    (min args.k args.chunkSize.val) = idxs at hs' hle hlen hright hchunk
  rw [min_eq_right hle] at hs'
  generalize hm : MergeArgs.mk s.topk s.kUsed (chunkDistances args c b) c.rowids idxs.1 idxs.2 = m
    at hs'
  have hmerged := mergeSortedLists_spec m (by rw [← hm, h.length_topk]; exact h.used_le)
    (by rw [← hm]; exact hlen) s.tmpTopk h.length_tmpTopk.ge
  generalize mergeSortedLists m s.tmpTopk args.k = r at hs' hmerged
  have hleft : m.left = s.topk.take s.kUsed := by rw [← hm]; rfl
  have hright' : m.right = (idxs.1.take idxs.2).map fun i =>
      (c.rowids.getD i 0, (chunkDistances args c b).getD i 0) := by rw [← hm]; rfl
  rw [← hright'] at hright hchunk
  have hsortedMerge : (m.left.merge m.right leDist).Pairwise (fun x y => x.2 ≤ y.2) := by
    have := @List.pairwise_merge _ leDist
      (fun x y z hxy hyz => by simp only [decide_eq_true_eq] at *; exact hxy.trans hyz)
      (fun x y => by simpa using le_total x.2 y.2) m.left m.right
      (by simpa [hleft] using h.sorted) (by simpa using hright)
    simpa using this
  have hused : r.2 ≤ args.k := by
    rw [hmerged.used_eq, List.length_take]
    exact min_le_left _ _
  have htake : (r.1.take r.2 ++ s.topk.drop r.2).take r.2 = r.1.take r.2 := by
    have hlen : r.2 ≤ (r.1.take r.2).length := by
      rw [List.length_take, hmerged.length_eq, h.length_tmpTopk]
      omega
    rw [List.take_append_of_le_length hlen, List.take_take, min_self]
  subst hs'
  refine ⟨?_, hmerged.length_eq.trans h.length_tmpTopk, hused, ?_, ?_⟩
  · rw [List.length_append, List.length_take, List.length_drop, hmerged.length_eq,
      h.length_tmpTopk, h.length_topk]
    omega
  · rw [htake, hmerged.take_eq]
    exact hsortedMerge.sublist (List.take_sublist _ _)
  · rw [htake, hmerged.take_eq, List.flatMap_append, List.flatMap_singleton, ← Multiset.coe_add]
    refine h.smallest.add hchunk ?_
    rw [← hleft, Multiset.coe_add, ← Multiset.coe_eq_coe.mpr (List.merge_perm_append leDist)]
    exact Smallest.take_of_sorted hsortedMerge args.k

theorem Scanned.run {seen chunks : List (Chunk V)} {s s' : ScanState D} (h : Scanned args seen s)
    (hrun : chunks.foldlM (scanChunk args) s = .ok s') : Scanned args (seen ++ chunks) s' := by
  induction chunks generalizing seen s with
  | nil =>
    obtain rfl : s = s' := by simpa [pure, Except.pure] using hrun
    simpa using h
  | cons c chunks ih =>
    rw [List.foldlM_cons] at hrun
    cases hc : scanChunk args s c with
    | error e => simp [hc, bind, Except.bind] at hrun
    | ok next =>
      simp only [hc, bind, Except.bind] at hrun
      simpa using ih (h.step args hc) hrun

theorem vec0FilterKnnChunksIter_ok {chunks : List (Chunk V)} {out : Pairs D}
    (h : vec0FilterKnnChunksIter args chunks = .ok out) :
    out.Pairwise (fun x y => x.2 ≤ y.2) ∧
      Smallest (Prod.snd : Rowid × D → D) args.k (chunks.flatMap (candidates args) : List _)
        (out : List _) := by
  simp only [vec0FilterKnnChunksIter, Except.bind_eq_ok, Except.pure_eq_ok] at h
  obtain ⟨s, hs, rfl⟩ := h
  have hscan := (Scanned.nil args).run args hs
  exact ⟨hscan.sorted, by simpa using hscan.smallest⟩

theorem vec0FilterKnnChunksIter_spec {chunks : List (Chunk V)}
    (h : ∀ c ∈ chunks, Scannable args c) :
    ∃ out : Pairs D, vec0FilterKnnChunksIter args chunks = .ok out ∧
      out.Pairwise (fun x y => x.2 ≤ y.2) ∧
      Smallest (Prod.snd : Rowid × D → D) args.k (chunks.flatMap (candidates args) : List _)
        (out : List _) := by
  obtain ⟨s, hs⟩ := foldlM_scanChunk_isOk args (.empty args) h
  have hout : vec0FilterKnnChunksIter args chunks = .ok (s.topk.take s.kUsed) := by
    unfold ScanState.empty at hs
    simp [vec0FilterKnnChunksIter, hs, bind, Except.bind, pure, Except.pure]
  exact ⟨s.topk.take s.kUsed, hout, vec0FilterKnnChunksIter_ok args hout⟩

omit [Zero D] in
theorem distances_eq {cands cands' : List (Rowid × D)} {out out' : Pairs D} {k : Nat}
    (hperm : cands.Perm cands') (hsorted : out.Pairwise (fun x y => x.2 ≤ y.2))
    (hsorted' : out'.Pairwise (fun x y => x.2 ≤ y.2))
    (hsmall : Smallest (Prod.snd : Rowid × D → D) k (cands : List _) (out : List _))
    (hsmall' : Smallest (Prod.snd : Rowid × D → D) k (cands' : List _) (out' : List _)) :
    out.map Prod.snd = out'.map Prod.snd := by
  apply List.Perm.eq_of_pairwise' (r := (· ≤ ·)) (List.pairwise_map.mpr hsorted)
    (List.pairwise_map.mpr hsorted')
  rw [← Multiset.coe_eq_coe, ← Multiset.map_coe, ← Multiset.map_coe, hsmall.map_key,
    hsmall'.map_key, Multiset.coe_eq_coe.mpr hperm]

/-- The scan returns `min k m` of the `m` candidates, nearest first and none farther than one left
out, and the order of the chunks does not change the distances. -/
theorem chunk_scan_exact (args : ScanArgs V D) (chunks : List (Chunk V))
    (h : ∀ c ∈ chunks, Scannable args c) :
    ∃ out : Pairs D, vec0FilterKnnChunksIter args chunks = .ok out ∧
      out.length = min args.k (chunks.flatMap (candidates args)).length ∧
      out.Pairwise (fun x y => x.2 ≤ y.2) ∧
      (∃ rest : List (Rowid × D), (out ++ rest).Perm (chunks.flatMap (candidates args)) ∧
        ∀ x ∈ out, ∀ y ∈ rest, x.2 ≤ y.2) ∧
      ∀ chunks', chunks.Perm chunks' →
        ∃ out' : Pairs D, vec0FilterKnnChunksIter args chunks' = .ok out' ∧
          out'.map Prod.snd = out.map Prod.snd := by
  obtain ⟨out, hout, hsorted, hsmall⟩ := vec0FilterKnnChunksIter_spec args h
  refine ⟨out, hout, hsmall.card_eq, hsorted, ?_, fun chunks' hperm => ?_⟩
  · obtain ⟨rest, hrest, -, hle⟩ := hsmall
    induction rest using Quotient.inductionOn with
    | _ rest => exact ⟨rest, Multiset.coe_eq_coe.mp hrest, hle⟩
  · obtain ⟨out', hout', hsorted', hsmall'⟩ := vec0FilterKnnChunksIter_spec args
      fun c hc => h c (hperm.mem_iff.mpr hc)
    exact ⟨out', hout', distances_eq (hperm.symm.flatMap_right _) hsorted' hsorted hsmall' hsmall⟩

end Scan

def sampleChunks : List (Chunk Nat) :=
  [⟨1, ⟨[0xff#8]⟩, [1, 2, 3, 4, 5, 6, 7, 8], [5, 3, 8, 1, 9, 2, 7, 4]⟩,
    ⟨2, ⟨[0x05#8]⟩, [9, 10, 11, 0, 0, 0, 0, 0], [6, 0, 0, 0, 0, 0, 0, 0]⟩]

def sampleArgs : ScanArgs Nat Nat :=
  ⟨.least, 3, some [2, 4, 9, 11], [], id⟩

theorem sampleChunks_exact :
    ∃ out : Pairs Nat, vec0FilterKnnChunksIter sampleArgs sampleChunks = .ok out ∧
      out.length = 3 := by
  obtain ⟨out, hout, hlen, -⟩ := chunk_scan_exact sampleArgs sampleChunks (by
    simp [sampleChunks, Scannable, Chunk.Sized, sampleArgs, ChunkSize.least])
  exact ⟨out, hout, hlen.trans (by decide)⟩

end SqliteMultimodal.Vec.ChunkScan
