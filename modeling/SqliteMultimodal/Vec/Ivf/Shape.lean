import SqliteMultimodal.Vec.Ivf.Run

namespace SqliteMultimodal.Vec.Ivf

variable {α : Type}

inductive Op (α : Type)
  | insert (e : Entry α)
  | delete (rowid : Rowid)
  | update (rowid : Rowid) (vec : List α)
  | search (query : List α) (topk nprobe : Nat) (map : RowidMap)

inductive Outcome (α : Type)
  | code (rc : ResultCode)
  | hits (xs : List (Hit α))
  deriving DecidableEq

def Op.Sized (dim : Nat) : Op α → Prop
  | .insert e => e.2.length = dim
  | .delete _ => True
  | .update _ vec => vec.length = dim
  | .search query _ _ _ => query.length = dim

section Code

variable [LinearOrder α] [Field α] [Inhabited α] (distfunc : List α → List α → α)
  (rand : Nat → Nat) (farAway : α)

def IVF.step (ivf : IVF α) : Op α → IVF α × Outcome α
  | .insert e => (ivfInsert distfunc rand ivf e).map id .code
  | .delete rowid => (ivfDeleteVector ivf rowid).map id .code
  | .update rowid vec => (ivfUpdateVectorReinsert distfunc farAway ivf rowid vec).map id .code
  | .search query topk nprobe map => (ivf, .hits (ivfSearch distfunc ivf query topk nprobe map))

def IVF.outcomes : IVF α → List (Op α) → List (Outcome α)
  | _, [] => []
  | ivf, op :: ops =>
    (ivf.step distfunc rand farAway op).2 ::
      IVF.outcomes (ivf.step distfunc rand farAway op).1 ops

inductive Reachable (dim nlist nprobe capacity : Nat) : IVF α → Prop
  | create : Reachable dim nlist nprobe capacity (ivfCreateWith nlist nprobe capacity)
  | step {ivf} (op : Op α) : Reachable dim nlist nprobe capacity ivf → op.Sized dim →
    Reachable dim nlist nprobe capacity (ivf.step distfunc rand farAway op).1

section Trained

variable {ivf : IVF α} (h : ivf.trained = true)
include h

omit [LinearOrder α] [Field α] [Inhabited α] in
theorem ivfDeleteVector_frame (rowid : Rowid) :
    ∃ lists, (ivfDeleteVector ivf rowid).1 = { ivf with lists := lists } := by
  rw [ivfDeleteVector, if_neg (by simp [h])]
  cases find ivf.lists rowid with
  | none => exact ⟨ivf.lists, rfl⟩
  | some place => exact ⟨_, rfl⟩

omit [Field α] [Inhabited α] in
theorem ivfUpdateVectorReinsert_frame (rowid : Rowid) (vec : List α) :
    ∃ lists, (ivfUpdateVectorReinsert distfunc farAway ivf rowid vec).1 =
      { ivf with lists := lists } := by
  obtain ⟨lists, hdelete⟩ := ivfDeleteVector_frame h rowid
  rw [ivfUpdateVectorReinsert, if_neg (by simp [h])]
  generalize ivfDeleteVector ivf rowid = out at hdelete
  obtain ⟨ivf', oldList⟩ := out
  obtain rfl : ivf' = { ivf with lists := lists } := hdelete
  dsimp only
  split
  next => exact ⟨lists, rfl⟩
  next =>
    cases lists[nearestFrom distfunc vec 0 (0, farAway) ivf.centroids]? with
    | none => exact ⟨lists, rfl⟩
    | some lst =>
      dsimp only
      split
      next => exact ⟨lists, rfl⟩
      next => exact ⟨_, rfl⟩

theorem step_frame (op : Op α) :
    ∃ lists, (ivf.step distfunc rand farAway op).1 = { ivf with lists := lists } := by
  cases op with
  | insert e =>
    refine ⟨(ivfAddVector distfunc ivf e).lists, ?_⟩
    show (ivfInsert distfunc rand ivf e).1 = _
    rw [ivfInsert, if_pos h]
    rfl
  | delete rowid => exact ivfDeleteVector_frame h rowid
  | update rowid vec => exact ivfUpdateVectorReinsert_frame distfunc farAway h rowid vec
  | search query topk nprobe map => exact ⟨ivf.lists, rfl⟩

end Trained

section Shape

omit [LinearOrder α] [Field α] [Inhabited α]

structure InvertedList.Shaped (dim : Nat) (l : InvertedList α) : Prop where
  cap : 0 < l.cap
  room : l.entries.length ≤ l.cap
  vecs : ∀ e ∈ l.entries, e.2.length = dim

/-- The numbers and lengths that the arrays in memory are allocated for. -/
structure IVF.Shaped (dim nlist capacity : Nat) (ivf : IVF α) : Prop where
  trainCapacity : ivf.trainCapacity = capacity
  lists : ivf.lists.length = nlist
  invlist : ∀ l ∈ ivf.lists, l.Shaped dim
  unset : ivf.trained = false → ivf.centroids = []
  centroids : ivf.trained = true → ivf.centroids.length = nlist
  centroid : ∀ c ∈ ivf.centroids, c.length = dim
  room : ivf.train.length ≤ capacity
  train : ∀ e ∈ ivf.train, e.2.length = dim

variable {dim nlist capacity : Nat} {ivf : IVF α}

theorem shaped_create (nprobe : Nat) :
    (ivfCreateWith nlist nprobe capacity : IVF α).Shaped dim nlist capacity where
  trainCapacity := rfl
  lists := List.length_replicate
  invlist l hl := by
    rw [List.eq_of_mem_replicate hl]
    exact ⟨show 0 < ivfListCap by decide, Nat.zero_le _, fun e he => absurd he List.not_mem_nil⟩
  unset _ := rfl
  centroids h := by simp [ivfCreateWith, ivfCreate] at h
  centroid c hc := absurd hc List.not_mem_nil
  room := Nat.zero_le _
  train e he := absurd he List.not_mem_nil

theorem InvertedList.Shaped.append {l : InvertedList α} (h : l.Shaped dim) {e : Entry α}
    (he : e.2.length = dim) : (invlistAppend l e).Shaped dim where
  cap := by
    have hcap := h.cap
    rw [invlistAppend]
    dsimp only
    split <;> omega
  room := by
    have hcap := h.cap
    have hroom := h.room
    rw [invlistAppend, List.length_append, List.length_singleton]
    dsimp only
    split <;> omega
  vecs x hx := by
    obtain hx | hx := List.mem_append.mp hx
    · exact h.vecs x hx
    · rw [List.mem_singleton.mp hx, he]

theorem InvertedList.Shaped.push {l : InvertedList α} (h : l.Shaped dim)
    (hroom : l.entries.length < l.cap) {e : Entry α} (he : e.2.length = dim) :
    (l.push e).Shaped dim where
  cap := h.cap
  room := by
    rw [InvertedList.push, List.length_append]
    exact hroom
  vecs x hx := by
    obtain hx | hx := List.mem_append.mp hx
    · exact h.vecs x hx
    · rw [List.mem_singleton.mp hx, he]

theorem InvertedList.Shaped.remove {l : InvertedList α} (h : l.Shaped dim) (i : Nat) :
    (l.remove i).Shaped dim := by
  unfold InvertedList.remove
  cases hlast : l.entries.getLast? with
  | none => exact h
  | some last =>
    refine ⟨h.cap, ?_, fun e he => ?_⟩
    · dsimp only
      rw [List.length_dropLast, List.length_set]
      exact (Nat.sub_le _ 1).trans h.room
    · obtain he | rfl := List.mem_or_eq_of_mem_set ((List.dropLast_sublist _).subset he)
      · exact h.vecs e he
      · exact h.vecs e (List.mem_of_getLast? hlast)

theorem IVF.Shaped.modify (h : ivf.Shaped dim nlist capacity) {k : Nat}
    {f : InvertedList α → InvertedList α}
    (hf : ∀ l ∈ ivf.lists[k]?, l.Shaped dim → (f l).Shaped dim) :
    IVF.Shaped dim nlist capacity { ivf with lists := ivf.lists.modify k f } where
  trainCapacity := h.trainCapacity
  lists := (List.length_modify ..).trans h.lists
  invlist l hl := by
    obtain ⟨i, hget⟩ := List.mem_iff_getElem?.mp hl
    rw [List.getElem?_modify] at hget
    obtain ⟨l', hl', rfl⟩ := Option.map_eq_some_iff.mp hget
    have hshaped := h.invlist l' (List.mem_of_getElem? hl')
    split
    next hk => exact hf l' (hk ▸ hl') hshaped
    next => exact hshaped
  unset := h.unset
  centroids := h.centroids
  centroid := h.centroid
  room := h.room
  train := h.train

theorem IVF.Shaped.delete (h : ivf.Shaped dim nlist capacity) (rowid : Rowid) :
    (ivfDeleteVector ivf rowid).1.Shaped dim nlist capacity := by
  unfold ivfDeleteVector
  split
  next =>
    cases trainSlot ivf rowid with
    | none => exact h
    | some i =>
      exact ⟨h.trainCapacity, h.lists, h.invlist, h.unset, h.centroids, h.centroid, h.room, h.train⟩
  next =>
    cases find ivf.lists rowid with
    | none => exact h
    | some place => exact h.modify fun l _ hl => hl.remove place.2

end Shape

section Steps

variable {dim nlist capacity : Nat} {ivf : IVF α}

omit [Field α] [Inhabited α] in
theorem IVF.Shaped.update (h : ivf.Shaped dim nlist capacity) (rowid : Rowid) {vec : List α}
    (hvec : vec.length = dim) :
    (ivfUpdateVectorReinsert distfunc farAway ivf rowid vec).1.Shaped dim nlist capacity := by
  unfold ivfUpdateVectorReinsert
  split
  next =>
    cases trainSlot ivf rowid with
    | none => exact h
    | some i =>
      refine ⟨h.trainCapacity, h.lists, h.invlist, h.unset, h.centroids, h.centroid, ?_, ?_⟩
      · exact (List.length_modify ..).trans_le h.room
      · intro e he
        obtain ⟨k, hget⟩ := List.mem_iff_getElem?.mp he
        rw [List.getElem?_modify] at hget
        obtain ⟨e', he', rfl⟩ := Option.map_eq_some_iff.mp hget
        split
        next => exact hvec
        next => exact h.train e' (List.mem_of_getElem? he')
  next =>
    have hdelete := h.delete rowid
    generalize ivfDeleteVector ivf rowid = out at hdelete
    obtain ⟨ivf', oldList⟩ := out
    dsimp only at hdelete ⊢
    split
    next => exact hdelete
    next =>
      cases hget : ivf'.lists[nearestFrom distfunc vec 0 (0, farAway) ivf'.centroids]? with
      | none => exact hdelete
      | some lst =>
        dsimp only
        split
        next => exact hdelete
        next hroom =>
          refine hdelete.modify fun l hl hshaped => ?_
          rw [hget] at hl
          obtain rfl := Option.some.inj hl
          exact hshaped.push (Nat.lt_of_not_le hroom) hvec

omit [Field α] [Inhabited α] in
theorem IVF.Shaped.add (h : ivf.Shaped dim nlist capacity) {e : Entry α} (he : e.2.length = dim) :
    (ivfAddVector distfunc ivf e).Shaped dim nlist capacity :=
  h.modify fun _ _ hl => hl.append he

omit [Field α] [Inhabited α] in
theorem IVF.Shaped.foldl_add (h : ivf.Shaped dim nlist capacity) {es : List (Entry α)}
    (hes : ∀ e ∈ es, e.2.length = dim) :
    (es.foldl (ivfAddVector distfunc) ivf).Shaped dim nlist capacity := by
  induction es generalizing ivf with
  | nil => exact h
  | cons e es ih =>
    exact ih (h.add distfunc (hes e List.mem_cons_self)) fun x hx =>
      hes x (List.mem_cons_of_mem e hx)

omit [LinearOrder α] [Inhabited α] in
theorem length_mean {cluster : List (List α)} (h : ∀ v ∈ cluster, v.length = dim)
    (hpos : 0 < cluster.length) : (mean cluster).length = dim := by
  have hfold : ∀ (vs : List (List α)) (v : List α), v.length = dim →
      (∀ w ∈ vs, w.length = dim) → (vs.foldl addVec v).length = dim := by
    intro vs
    induction vs with
    | nil => exact fun v hv _ => hv
    | cons w vs ih =>
      intro v hv hvs
      refine ih _ ?_ fun x hx => hvs x (List.mem_cons_of_mem w hx)
      rw [addVec, List.length_zipWith, hv, hvs w List.mem_cons_self, Nat.min_self]
  cases cluster with
  | nil => exact absurd hpos (Nat.lt_irrefl 0)
  | cons v vs =>
    rw [mean, List.length_map]
    exact hfold vs v (h v List.mem_cons_self) fun w hw => h w (List.mem_cons_of_mem v hw)

omit [LinearOrder α] [Field α] [Inhabited α] in
theorem length_getD_mod {vecs : List (List α)} (h : ∀ v ∈ vecs, v.length = dim)
    (hpos : 0 < vecs.length) (n : Nat) : (vecs.getD (n % vecs.length) []).length = dim := by
  have hlt := Nat.mod_lt n hpos
  rw [List.getD_eq_getElem?_getD, List.getElem?_eq_getElem hlt, Option.getD_some]
  exact h _ (List.getElem_mem hlt)

omit [Inhabited α] in
theorem length_of_mem_kmeansRound {vecs centroids : List (List α)} (h : ∀ v ∈ vecs, v.length = dim)
    (hpos : 0 < vecs.length) (draws : Nat) :
    ∀ c ∈ (kmeansRound distfunc rand vecs centroids draws).1, c.length = dim := by
  unfold kmeansRound
  refine List.foldlRecOn (motive := fun acc : List (List α) × Nat => ∀ c ∈ acc.1, c.length = dim) _ _
    (fun c hc => absurd hc List.not_mem_nil) fun acc ih k _ => ?_
  dsimp only
  split
  next hcluster =>
    intro c hc
    obtain hc | hc := List.mem_append.mp hc
    · exact ih c hc
    · rw [List.mem_singleton.mp hc]
      exact length_mean (fun v hv => h v (List.mem_of_mem_filter hv)) hcluster
  next =>
    intro c hc
    obtain hc | hc := List.mem_append.mp hc
    · exact ih c hc
    · rw [List.mem_singleton.mp hc]
      exact length_getD_mod h hpos _

omit [Inhabited α] in
theorem length_of_mem_kmeansRounds {vecs : List (List α)} (h : ∀ v ∈ vecs, v.length = dim)
    (hpos : 0 < vecs.length) (n : Nat) {state : List (List α) × Nat}
    (hstate : ∀ c ∈ state.1, c.length = dim) :
    ∀ c ∈ kmeansRounds distfunc rand vecs n state, c.length = dim := by
  induction n generalizing state with
  | zero => exact hstate
  | succ n ih => exact ih (length_of_mem_kmeansRound distfunc rand h hpos state.2)

omit [LinearOrder α] [Field α] [Inhabited α] in
theorem IVF.Shaped.train_centroids (h : ivf.Shaped dim nlist capacity) {centroids : List (List α)}
    (hlen : centroids.length = ivf.lists.length) (hcentroids : ∀ c ∈ centroids, c.length = dim) :
    IVF.Shaped dim nlist capacity { ivf with centroids := centroids, trained := true } :=
  ⟨h.trainCapacity, h.lists, h.invlist, fun ht => by simp at ht, fun _ => hlen.trans h.lists,
    hcentroids, h.room, h.train⟩

omit [Inhabited α] in
theorem IVF.Shaped.trainKmeans (h : ivf.Shaped dim nlist capacity) {iters : Nat} {ivf' : IVF α}
    (heq : ivfTrainKmeans distfunc rand ivf iters = some ivf') :
    ivf'.Shaped dim nlist capacity := by
  have hvecs : ∀ v ∈ validVecs ivf, v.length = dim := fun v hv => by
    obtain ⟨x, hx, rfl⟩ := List.mem_map.mp hv
    exact h.train x.1 (List.fst_mem_of_mem_zipIdx (List.mem_of_mem_filter hx))
  unfold ivfTrainKmeans at heq
  dsimp only at heq
  split at heq
  next => simp at heq
  next hpos =>
    have hpos := Nat.pos_of_ne_zero hpos
    have hstart : ∀ c ∈ (List.range ivf.lists.length).map fun c =>
        (validVecs ivf).getD (c % (validVecs ivf).length) [], c.length = dim := by
      intro c hc
      obtain ⟨k, -, rfl⟩ := List.mem_map.mp hc
      exact length_getD_mod hvecs hpos k
    obtain rfl := Option.some.inj heq
    refine h.train_centroids ?_ ?_
    · rw [length_kmeansRounds, List.length_map, List.length_range]
    · exact length_of_mem_kmeansRounds distfunc rand hvecs hpos iters hstart

omit [Inhabited α] in
theorem IVF.Shaped.trainAndFlush (h : ivf.Shaped dim nlist capacity) :
    (ivfTrainAndFlush distfunc rand ivf).1.Shaped dim nlist capacity := by
  unfold ivfTrainAndFlush
  cases htrain : ivfTrainKmeans distfunc rand ivf 20 with
  | none => exact h
  | some ivf' =>
    have h' := h.trainKmeans distfunc rand htrain
    have hflushed := h'.foldl_add distfunc h'.train
    exact ⟨hflushed.trainCapacity, hflushed.lists, hflushed.invlist, hflushed.unset,
      hflushed.centroids, hflushed.centroid, Nat.zero_le _, fun e he => absurd he List.not_mem_nil⟩

omit [Inhabited α] in
theorem IVF.Shaped.insert (h : ivf.Shaped dim nlist capacity) {e : Entry α}
    (he : e.2.length = dim) : (ivfInsert distfunc rand ivf e).1.Shaped dim nlist capacity := by
  cases htrained : ivf.trained with
  | true =>
    rw [ivfInsert, if_pos htrained]
    exact h.add distfunc he
  | false =>
    rw [ivfInsert_untrained distfunc rand htrained]
    split
    next => exact h
    next hroom =>
      have h' : IVF.Shaped dim nlist capacity { ivf with train := ivf.train ++ [e] } :=
        ⟨h.trainCapacity, h.lists, h.invlist, h.unset, h.centroids, h.centroid, by
          have hcap := h.trainCapacity
          rw [List.length_append, List.length_singleton]
          omega, fun x hx => by
          obtain hx | hx := List.mem_append.mp hx
          · exact h.train x hx
          · rw [List.mem_singleton.mp hx, he]⟩
      split
      next => exact h'.trainAndFlush distfunc rand
      next => exact h'

theorem IVF.Shaped.step (h : ivf.Shaped dim nlist capacity) {op : Op α} (hop : op.Sized dim) :
    (ivf.step distfunc rand farAway op).1.Shaped dim nlist capacity := by
  cases op with
  | insert e => exact h.insert distfunc rand hop
  | delete rowid => exact h.delete rowid
  | update rowid vec => exact h.update distfunc farAway rowid hop
  | search query topk nprobe map => exact h

theorem Reachable.shaped {nprobe : Nat}
    (h : Reachable distfunc rand farAway dim nlist nprobe capacity ivf) :
    ivf.Shaped dim nlist capacity := by
  induction h with
  | create => exact shaped_create nprobe
  | step op _ hop ih => exact ih.step distfunc rand farAway hop

theorem step_untrained (h : ivf.trained = false) (op : Op α) :
    (ivf.step distfunc rand farAway op).1.trained = false ∨
      (ivf.step distfunc rand farAway op).1.train = [] := by
  cases op with
  | insert e =>
    show (ivfInsert distfunc rand ivf e).1.trained = false ∨ (ivfInsert distfunc rand ivf e).1.train = []
    rw [ivfInsert_untrained distfunc rand h]
    split
    next => exact .inl h
    next =>
      split
      next =>
        unfold ivfTrainAndFlush
        cases ivfTrainKmeans distfunc rand { ivf with train := ivf.train ++ [e] } 20 with
        | none => exact .inl h
        | some ivf' => exact .inr rfl
      next => exact .inl h
  | delete rowid =>
    left
    show (ivfDeleteVector ivf rowid).1.trained = false
    rw [ivfDeleteVector, if_pos (by simp [h])]
    cases trainSlot ivf rowid with
    | none => exact h
    | some i => exact h
  | update rowid vec =>
    left
    show (ivfUpdateVectorReinsert distfunc farAway ivf rowid vec).1.trained = false
    rw [ivfUpdateVectorReinsert, if_pos (by simp [h])]
    cases trainSlot ivf rowid with
    | none => exact h
    | some i => exact h
  | search query topk nprobe map => exact .inl h

theorem Reachable.flushed {nprobe : Nat}
    (h : Reachable distfunc rand farAway dim nlist nprobe capacity ivf)
    (htrained : ivf.trained = true) : ivf.train = [] := by
  induction h with
  | create => rfl
  | @step ivf op _ _ ih =>
    cases ht : ivf.trained with
    | true =>
      obtain ⟨lists, hframe⟩ := step_frame distfunc rand farAway ht op
      rw [hframe]
      exact ih ht
    | false =>
      obtain h | h := step_untrained distfunc rand farAway ht op
      · rw [h] at htrained
        exact absurd htrained Bool.false_ne_true
      · exact h

end Steps

end Code

end SqliteMultimodal.Vec.Ivf
