import Mathlib.Data.List.Perm.Basic
import Mathlib.Data.Multiset.AddSub
import SqliteMultimodal.Vec.Ivf.Defs

namespace SqliteMultimodal.Vec.Ivf

open scoped List

variable {α : Type}

def IVF.buffered (ivf : IVF α) : List (Entry α) :=
  (ivf.train.zipIdx.filter fun x => !ivf.deleted.getD x.2 false).map Prod.fst

def listed (lists : List (InvertedList α)) : List (Entry α) := lists.flatMap InvertedList.entries

def IVF.entries (ivf : IVF α) : Multiset (Entry α) := ↑(ivf.buffered ++ listed ivf.lists)

theorem mem_entries {ivf : IVF α} {x : Entry α} :
    x ∈ ivf.entries ↔ (∃ i, ivf.train[i]? = some x ∧ ivf.deleted.getD i false = false) ∨
      ∃ l ∈ ivf.lists, x ∈ l.entries := by
  simp only [IVF.entries, Multiset.mem_coe, List.mem_append, IVF.buffered, listed, List.mem_map,
    List.mem_filter, List.mem_flatMap, Prod.exists, List.mem_zipIdx_iff_getElem?,
    Bool.not_eq_true', exists_and_right, exists_eq_right]

section Lists

variable {lists : List (InvertedList α)} {l : Nat}

theorem perm_listed {x : InvertedList α} (h : lists[l]? = some x) :
    listed lists ~ x.entries ++ listed (lists.eraseIdx l) := by
  obtain ⟨hl, rfl⟩ := List.getElem?_eq_some_iff.mp h
  exact ((List.getElem_cons_eraseIdx_perm hl).flatMap_right InvertedList.entries).symm

theorem perm_listed_modify {x : InvertedList α} (h : lists[l]? = some x)
    (f : InvertedList α → InvertedList α) :
    listed (lists.modify l f) ~ (f x).entries ++ listed (lists.eraseIdx l) := by
  have hget : (lists.modify l f)[l]? = some (f x) := by rw [List.getElem?_modify_eq, h]; rfl
  rw [← List.eraseIdx_modify_of_eq f l lists]
  exact perm_listed hget

theorem perm_listed_add {e : Entry α} {f : InvertedList α → InvertedList α}
    (h : ∀ x, (f x).entries ~ e :: x.entries) (hl : l < lists.length) :
    listed (lists.modify l f) ~ e :: listed lists := by
  have hx := List.getElem?_eq_getElem hl
  calc listed (lists.modify l f)
      _ ~ (f lists[l]).entries ++ listed (lists.eraseIdx l) := perm_listed_modify hx f
      _ ~ e :: (lists[l].entries ++ listed (lists.eraseIdx l)) := (h _).append_right _
      _ ~ e :: listed lists := (perm_listed hx).symm.cons e

theorem perm_invlistAppend (e : Entry α) (x : InvertedList α) :
    (invlistAppend x e).entries.Perm (e :: x.entries) :=
  List.perm_append_singleton e x.entries

theorem perm_push (e : Entry α) (x : InvertedList α) :
    (x.push e).entries.Perm (e :: x.entries) :=
  List.perm_append_singleton e x.entries

theorem perm_remove {x : InvertedList α} {i : Nat} (hi : i < x.entries.length) :
    (x.entries[i] :: (x.remove i).entries).Perm x.entries := by
  obtain ⟨cap, entries⟩ := x
  dsimp only [InvertedList.remove] at hi ⊢
  cases hlast : entries.getLast? with
  | none =>
    rw [List.getLast?_eq_none_iff] at hlast
    simp [hlast] at hi
  | some last =>
    obtain ⟨ys, rfl⟩ := List.getLast?_eq_some_iff.mp hlast
    dsimp only
    rcases Nat.lt_or_ge i ys.length with hlt | hge
    · rw [List.set_append_left _ _ hlt, List.dropLast_concat, List.getElem_append_left hlt]
      calc ys[i] :: ys.set i last
          _ ~ ys[i] :: last :: ys.eraseIdx i := (List.set_perm_cons_eraseIdx hlt last).cons _
          _ ~ last :: ys[i] :: ys.eraseIdx i := .swap ..
          _ ~ last :: ys := (List.getElem_cons_eraseIdx_perm hlt).cons _
          _ ~ ys ++ [last] := (List.perm_append_singleton last ys).symm
    · obtain rfl : i = ys.length := by
        rw [List.length_append, List.length_singleton] at hi
        omega
      simp only [List.getElem_concat_length, List.set_append_right _ _ le_rfl, Nat.sub_self,
        List.set_cons_zero, List.dropLast_concat]
      exact (List.perm_append_singleton last ys).symm

theorem find_eq_some {rowid : Rowid} {i : Nat} (h : find lists rowid = some (l, i)) :
    ∃ x, lists[l]? = some x ∧ x.entries.findIdx? (fun e => e.1 = rowid) = some i := by
  obtain ⟨⟨x, k⟩, hmem, hx⟩ := List.exists_of_findSome?_eq_some h
  obtain ⟨i', hi, heq⟩ := Option.map_eq_some_iff.mp hx
  obtain ⟨rfl, rfl⟩ := Prod.mk.inj heq
  exact ⟨x, List.mem_zipIdx_iff_getElem?.mp hmem, hi⟩

theorem perm_listed_remove {rowid : Rowid} {i : Nat} (h : find lists rowid = some (l, i)) :
    ∃ vec, (rowid, vec) :: listed (lists.modify l (·.remove i)) ~ listed lists := by
  obtain ⟨x, hx, hfind⟩ := find_eq_some h
  obtain ⟨hi, hrowid, -⟩ := List.findIdx?_eq_some_iff_getElem.mp hfind
  have heq : x.entries[i] = (rowid, x.entries[i].2) := by
    rw [← of_decide_eq_true hrowid]
  refine ⟨x.entries[i].2, ?_⟩
  rw [← heq]
  calc x.entries[i] :: listed (lists.modify l (·.remove i))
      _ ~ x.entries[i] :: (x.remove i).entries ++ listed (lists.eraseIdx l) :=
        (perm_listed_modify hx _).cons _
      _ ~ x.entries ++ listed (lists.eraseIdx l) := (perm_remove hi).append_right _
      _ ~ listed lists := (perm_listed hx).symm

theorem find_of_mem {rowid : Rowid} {vec : List α} (h : (rowid, vec) ∈ listed lists) :
    ∃ l i, find lists rowid = some (l, i) := by
  obtain ⟨x, hx, hmem⟩ := List.mem_flatMap.mp h
  obtain ⟨k, hk⟩ := List.mem_iff_getElem?.mp hx
  have hsome : (find lists rowid).isSome := by
    rw [find, List.findSome?_isSome_iff]
    refine ⟨(x, k), List.mem_zipIdx_iff_getElem?.mpr hk, ?_⟩
    rw [Option.isSome_map, List.findIdx?_isSome, List.any_eq_true]
    exact ⟨_, hmem, by simp⟩
  obtain ⟨⟨l, i⟩, hfind⟩ := Option.isSome_iff_exists.mp hsome
  exact ⟨l, i, hfind⟩

end Lists

structure IVF.Clean (ivf : IVF α) : Prop where
  pos : 0 < ivf.lists.length
  deleted : ∀ i, ivf.deleted.getD i false = false
  centroids : ivf.trained = true → ivf.centroids.length = ivf.lists.length
  flushed : ivf.trained = true → ivf.train = []
  room : ivf.trained = false → ivf.train.length < ivf.trainCapacity

theorem clean_ivfCreate (nlist nprobe : Nat) (h : 0 < nlist) :
    (ivfCreate nlist nprobe : IVF α).Clean where
  pos := by simpa [ivfCreate] using h
  deleted i := by
    rw [ivfCreate, List.getD_eq_getElem?_getD, List.getElem?_replicate]
    split <;> rfl
  centroids h := by simp [ivfCreate] at h
  flushed h := by simp [ivfCreate] at h
  room _ := by
    show 0 < ivfTrainCap
    decide

theorem buffered_eq {ivf : IVF α} (h : ∀ i, ivf.deleted.getD i false = false) :
    ivf.buffered = ivf.train := by
  simp only [IVF.buffered, h, Bool.not_false, List.filter_true, List.zipIdx_map_fst]

theorem IVF.Clean.entries_eq {ivf : IVF α} (h : ivf.Clean) :
    ivf.entries = ↑(ivf.train ++ listed ivf.lists) := by
  rw [IVF.entries, buffered_eq h.deleted]

def DeleteSafe (ivf : IVF α) (rowid : Rowid) : Prop :=
  ivf.trained = true ∧ (find ivf.lists rowid).map Prod.fst = some 0

instance (ivf : IVF α) (rowid : Rowid) : Decidable (DeleteSafe ivf rowid) :=
  inferInstanceAs (Decidable (_ ∧ _))

theorem ivfDeleteVector_of_find {ivf : IVF α} {rowid : Rowid} {l i : Nat} (h : ivf.Clean)
    (htrained : ivf.trained = true) (hfind : find ivf.lists rowid = some (l, i)) :
    ∃ lists vec, ivfDeleteVector ivf rowid = ({ ivf with lists }, (l : ResultCode)) ∧
      lists.length = ivf.lists.length ∧ IVF.Clean { ivf with lists } ∧
      ivf.entries = (rowid, vec) ::ₘ IVF.entries { ivf with lists } := by
  obtain ⟨vec, hperm⟩ := perm_listed_remove hfind
  have hlength : (ivf.lists.modify l (·.remove i)).length = ivf.lists.length :=
    List.length_modify ..
  have hclean : IVF.Clean { ivf with lists := ivf.lists.modify l (·.remove i) } :=
    ⟨hlength ▸ h.pos, h.deleted, fun ht => (h.centroids ht).trans hlength.symm, h.flushed, h.room⟩
  refine ⟨_, vec, ?_, hlength, hclean, ?_⟩
  · simp [ivfDeleteVector, htrained, hfind]
  · rw [h.entries_eq, hclean.entries_eq, Multiset.cons_coe, Multiset.coe_eq_coe]
    exact (hperm.symm.append_left _).trans List.perm_middle

theorem find_of_mem_entries {ivf : IVF α} {rowid : Rowid} {vec : List α} (h : ivf.Clean)
    (htrained : ivf.trained = true) (hmem : (rowid, vec) ∈ ivf.entries) :
    ∃ l i, find ivf.lists rowid = some (l, i) := by
  rw [h.entries_eq, h.flushed htrained, List.nil_append, Multiset.mem_coe] at hmem
  exact find_of_mem hmem

theorem ivfDeleteVector_spec {ivf : IVF α} {rowid : Rowid} (h : ivf.Clean)
    (hsafe : DeleteSafe ivf rowid) :
    (ivfDeleteVector ivf rowid).1.Clean ∧ (ivfDeleteVector ivf rowid).2 = sqliteOk ∧
      ∃ vec, ivf.entries = (rowid, vec) ::ₘ (ivfDeleteVector ivf rowid).1.entries := by
  obtain ⟨htrained, hfirst⟩ := hsafe
  obtain ⟨⟨l, i⟩, hfind, rfl⟩ := Option.map_eq_some_iff.mp hfirst
  obtain ⟨lists, vec, heq, -, hclean, hentries⟩ := ivfDeleteVector_of_find h htrained hfind
  rw [heq]
  exact ⟨hclean, rfl, vec, hentries⟩

theorem perm_modify_fst {train : List (Entry α)} {i : Nat} {rowid : Rowid} {old : List α}
    (h : train[i]? = some (rowid, old)) (vec : List α) :
    train ~ (rowid, old) :: train.eraseIdx i ∧
      train.modify i (fun e => (e.1, vec)) ~ (rowid, vec) :: train.eraseIdx i := by
  obtain ⟨hi, heq⟩ := List.getElem?_eq_some_iff.mp h
  rw [List.modify_eq_set, h, Option.getD_some]
  exact ⟨heq ▸ (List.getElem_cons_eraseIdx_perm hi).symm, List.set_perm_cons_eraseIdx hi _⟩

section Code

variable [LinearOrder α] (distfunc : List α → List α → α)

theorem nearestFrom_lt {vec : List α} {centroids : List (List α)} {c : Nat} {best : Nat × α}
    (h : best.1 < c + centroids.length) :
    nearestFrom distfunc vec c best centroids < c + centroids.length := by
  induction centroids generalizing c best with
  | nil => exact h
  | cons centroid centroids ih =>
    rw [List.length_cons, ← Nat.add_assoc, Nat.add_right_comm] at h ⊢
    refine ih ?_
    split
    · exact Nat.lt_add_right _ (Nat.lt_succ_self c)
    · exact h

theorem nearest_lt {vec : List α} {centroids : List (List α)} (h : 0 < centroids.length) :
    nearest distfunc vec centroids < centroids.length := by
  cases centroids with
  | nil => simp at h
  | cons centroid centroids =>
    rw [List.length_cons, Nat.add_comm]
    exact nearestFrom_lt distfunc (by omega)

section Train

variable [Field α] (rand : Nat → Nat)

theorem length_kmeansRound (vecs centroids : List (List α)) (draws : Nat) :
    (kmeansRound distfunc rand vecs centroids draws).1.length = centroids.length := by
  have hfold : ∀ (cs : List Nat) (acc : List (List α) × Nat),
      (cs.foldl (fun (acc : List (List α) × Nat) c =>
        let cluster := vecs.filter fun v => nearest distfunc v centroids = c
        if cluster.length > 0 then (acc.1 ++ [mean cluster], acc.2)
        else (acc.1 ++ [vecs.getD (rand acc.2 % vecs.length) []], acc.2 + 1)) acc).1.length =
          acc.1.length + cs.length := by
    intro cs
    induction cs with
    | nil => intro acc; rfl
    | cons c cs ih =>
      intro acc
      rw [List.foldl_cons, ih, List.length_cons]
      dsimp only
      split <;> rw [List.length_append, List.length_singleton] <;> omega
  rw [kmeansRound, hfold, List.length_nil, List.length_range, Nat.zero_add]

theorem length_kmeansRounds (vecs : List (List α)) (n : Nat) (state : List (List α) × Nat) :
    (kmeansRounds distfunc rand vecs n state).length = state.1.length := by
  induction n generalizing state with
  | zero => rfl
  | succ n ih => rw [kmeansRounds, ih, length_kmeansRound]

end Train

variable {ivf : IVF α}

theorem foldl_ivfAddVector (hpos : 0 < ivf.lists.length)
    (hlen : ivf.centroids.length = ivf.lists.length) (es : List (Entry α)) :
    ∃ lists, es.foldl (ivfAddVector distfunc) ivf = { ivf with lists } ∧
      lists.length = ivf.lists.length ∧ listed lists ~ es ++ listed ivf.lists := by
  induction es generalizing ivf with
  | nil => exact ⟨ivf.lists, rfl, rfl, .refl _⟩
  | cons e es ih =>
    have hl : nearest distfunc e.2 ivf.centroids < ivf.lists.length := by
      rw [← hlen]
      exact nearest_lt distfunc (hlen ▸ hpos)
    have hlength : (ivfAddVector distfunc ivf e).lists.length = ivf.lists.length :=
      List.length_modify ..
    obtain ⟨lists, heq, hlists, hperm⟩ := @ih (ivfAddVector distfunc ivf e)
      (hlength ▸ hpos) (hlen.trans hlength.symm)
    refine ⟨lists, heq, hlists.trans hlength, hperm.trans ?_⟩
    exact ((perm_listed_add (perm_invlistAppend e) hl).append_left es).trans List.perm_middle

theorem ivfAddVector_spec (h : ivf.Clean) (htrained : ivf.trained = true) (e : Entry α) :
    (ivfAddVector distfunc ivf e).Clean ∧
      (ivfAddVector distfunc ivf e).entries = e ::ₘ ivf.entries := by
  obtain ⟨lists, heq, hlength, hperm⟩ :=
    foldl_ivfAddVector distfunc h.pos (h.centroids htrained) [e]
  rw [List.foldl_cons, List.foldl_nil] at heq
  rw [heq]
  have hclean : IVF.Clean { ivf with lists } :=
    ⟨hlength ▸ h.pos, h.deleted, fun _ => (h.centroids htrained).trans hlength.symm, h.flushed, h.room⟩
  refine ⟨hclean, ?_⟩
  rw [hclean.entries_eq, h.entries_eq, Multiset.cons_coe, Multiset.coe_eq_coe]
  exact (hperm.append_left _).trans List.perm_middle

variable [Field α] (rand : Nat → Nat)

theorem ivfTrainAndFlush_spec (hpos : 0 < ivf.lists.length)
    (hdeleted : ∀ i, ivf.deleted.getD i false = false) (htrain : ivf.train ≠ []) :
    (ivfTrainAndFlush distfunc rand ivf).2 = sqliteOk ∧
      (ivfTrainAndFlush distfunc rand ivf).1.Clean ∧
      (ivfTrainAndFlush distfunc rand ivf).1.trained = true ∧
      (ivfTrainAndFlush distfunc rand ivf).1.entries = ↑(ivf.train ++ listed ivf.lists) := by
  have hvecs : (validVecs ivf).length ≠ 0 := by
    simp only [validVecs, hdeleted, Bool.not_false, List.filter_true, List.length_map,
      List.length_zipIdx]
    exact fun h => htrain (List.length_eq_zero_iff.mp h)
  unfold ivfTrainAndFlush ivfTrainKmeans
  rw [if_neg hvecs]
  dsimp only
  generalize hcentroids : kmeansRounds distfunc rand (validVecs ivf) 20 _ = centroids
  have hlen : centroids.length = ivf.lists.length := by
    rw [← hcentroids, length_kmeansRounds, List.length_map, List.length_range]
  obtain ⟨lists, heq, hlength, hperm⟩ :=
    @foldl_ivfAddVector _ _ distfunc { ivf with centroids, trained := true } hpos hlen ivf.train
  rw [heq]
  have hclean : IVF.Clean { ivf with centroids, lists, trained := true, train := [] } :=
    ⟨hlength ▸ hpos, hdeleted, fun _ => hlen.trans hlength.symm, fun _ => rfl, fun h => by simp at h⟩
  refine ⟨rfl, hclean, rfl, ?_⟩
  rw [hclean.entries_eq, Multiset.coe_eq_coe]
  exact hperm

theorem ivfInsert_spec (h : ivf.Clean) (e : Entry α) :
    (ivfInsert distfunc rand ivf e).2 = sqliteOk ∧ (ivfInsert distfunc rand ivf e).1.Clean ∧
      (ivfInsert distfunc rand ivf e).1.entries = e ::ₘ ivf.entries := by
  unfold ivfInsert
  split
  next htrained => exact ⟨rfl, ivfAddVector_spec distfunc h htrained e⟩
  next htrained =>
    have hroom := h.room (by simpa using htrained)
    have hperm : (ivf.train ++ [e] ++ listed ivf.lists) ~ e :: (ivf.train ++ listed ivf.lists) := by
      rw [List.append_assoc]
      exact List.perm_middle
    rw [ivfAddToTrain, if_neg (by omega)]
    dsimp only
    rw [if_neg (by simp)]
    split
    next hfull =>
      obtain ⟨hrc, hclean, -, hentries⟩ := @ivfTrainAndFlush_spec _ _ distfunc
        { ivf with train := ivf.train ++ [e] } _ rand h.pos h.deleted (by simp)
      refine ⟨hrc, hclean, hentries.trans ?_⟩
      rw [h.entries_eq, Multiset.cons_coe, Multiset.coe_eq_coe]
      exact hperm
    next hfull =>
      have hclean : IVF.Clean { ivf with train := ivf.train ++ [e] } :=
        ⟨h.pos, h.deleted, h.centroids, fun ht => absurd ht htrained, fun _ => Nat.lt_of_not_le hfull⟩
      refine ⟨rfl, hclean, ?_⟩
      rw [hclean.entries_eq, h.entries_eq, Multiset.cons_coe, Multiset.coe_eq_coe]
      exact hperm

end Code

section Update

variable [LinearOrder α] (distfunc : List α → List α → α) (farAway : α)

def UpdateSafe (ivf : IVF α) (rowid : Rowid) (vec : List α) : Prop :=
  if ivf.trained then
    ∀ x ∈ (ivfDeleteVector ivf rowid).1.lists[
      nearestFrom distfunc vec 0 (0, farAway) ivf.centroids]?, x.entries.length < x.cap
  else ∃ i ∈ trainSlot ivf rowid, ∃ e ∈ ivf.train[i]?, e.1 = rowid

instance (ivf : IVF α) (rowid : Rowid) (vec : List α) :
    Decidable (UpdateSafe distfunc farAway ivf rowid vec) :=
  inferInstanceAs (Decidable (ite _ _ _))

variable {ivf : IVF α} {rowid : Rowid} {old vec : List α}

theorem ivfUpdateVectorReinsert_trained (h : ivf.Clean) (htrained : ivf.trained = true)
    (hmem : (rowid, old) ∈ ivf.entries)
    (hroom : ∀ x ∈ (ivfDeleteVector ivf rowid).1.lists[
      nearestFrom distfunc vec 0 (0, farAway) ivf.centroids]?, x.entries.length < x.cap) :
    (ivfUpdateVectorReinsert distfunc farAway ivf rowid vec).1.Clean ∧
      ∃ old rest, ivf.entries = (rowid, old) ::ₘ rest ∧
        (ivfUpdateVectorReinsert distfunc farAway ivf rowid vec).1.entries =
          (rowid, vec) ::ₘ rest := by
  obtain ⟨l, i, hfind⟩ := find_of_mem_entries h htrained hmem
  obtain ⟨lists, old, heq, hlength, hclean, hentries⟩ := ivfDeleteVector_of_find h htrained hfind
  rw [heq] at hroom
  generalize hk : nearestFrom distfunc vec 0 (0, farAway) ivf.centroids = k at hroom
  have hlt : k < lists.length := by
    rw [hlength, ← h.centroids htrained, ← hk, ← Nat.zero_add ivf.centroids.length]
    exact nearestFrom_lt distfunc (by rw [Nat.zero_add, h.centroids htrained]; exact h.pos)
  have hget : lists[k]? = some lists[k] := List.getElem?_eq_getElem hlt
  have hresult : ivfUpdateVectorReinsert distfunc farAway ivf rowid vec =
      ({ ivf with lists := lists.modify k (·.push (rowid, vec)) }, sqliteOk) := by
    have hroom : ¬ lists[k].entries.length ≥ lists[k].cap := Nat.not_le_of_lt (hroom _ hget)
    simp only [ivfUpdateVectorReinsert, htrained, heq, hk, hget, hroom]
    simp
  have hlength' : (lists.modify k (·.push (rowid, vec))).length = lists.length :=
    List.length_modify ..
  have hclean' : IVF.Clean { ivf with lists := lists.modify k (·.push (rowid, vec)) } :=
    ⟨hlength' ▸ hclean.pos, h.deleted, fun ht => (hclean.centroids ht).trans hlength'.symm,
      h.flushed, h.room⟩
  rw [hresult]
  refine ⟨hclean', old, _, hentries, ?_⟩
  rw [hclean'.entries_eq, hclean.entries_eq, Multiset.cons_coe, Multiset.coe_eq_coe]
  exact ((perm_listed_add (perm_push _) hlt).append_left _).trans List.perm_middle

theorem ivfUpdateVectorReinsert_untrained {i : Nat} (h : ivf.Clean)
    (htrained : ¬ ivf.trained = true)
    (hslot : trainSlot ivf rowid = some i) (hget : ivf.train[i]? = some (rowid, old)) :
    (ivfUpdateVectorReinsert distfunc farAway ivf rowid vec).1.Clean ∧
      ∃ old rest, ivf.entries = (rowid, old) ::ₘ rest ∧
        (ivfUpdateVectorReinsert distfunc farAway ivf rowid vec).1.entries =
          (rowid, vec) ::ₘ rest := by
  obtain ⟨hold, hnew⟩ := perm_modify_fst hget vec
  have hresult : ivfUpdateVectorReinsert distfunc farAway ivf rowid vec =
      ({ ivf with
        train := ivf.train.modify i fun e => (e.1, vec)
        deleted := ivf.deleted.set i false }, sqliteOk) := by
    simp [ivfUpdateVectorReinsert, htrained, hslot]
  have hdeleted : ∀ k, (ivf.deleted.set i false).getD k false = false := fun k => by
    have hk := h.deleted k
    rw [List.getD_eq_getElem?_getD] at hk ⊢
    rw [List.getElem?_set]
    split
    · split <;> rfl
    · exact hk
  have hclean' : IVF.Clean { ivf with
      train := ivf.train.modify i fun e => (e.1, vec), deleted := ivf.deleted.set i false } :=
    ⟨h.pos, hdeleted, h.centroids, fun ht => absurd ht htrained, fun ht => by
      rw [List.length_modify]
      exact h.room ht⟩
  rw [hresult]
  refine ⟨hclean', old, ↑(ivf.train.eraseIdx i ++ listed ivf.lists), ?_, ?_⟩
  · rw [h.entries_eq, Multiset.cons_coe, Multiset.coe_eq_coe]
    exact hold.append_right _
  · rw [hclean'.entries_eq, Multiset.cons_coe, Multiset.coe_eq_coe]
    exact hnew.append_right _

theorem ivfUpdateVectorReinsert_spec (h : ivf.Clean) (hmem : (rowid, old) ∈ ivf.entries)
    (hsafe : UpdateSafe distfunc farAway ivf rowid vec) :
    (ivfUpdateVectorReinsert distfunc farAway ivf rowid vec).1.Clean ∧
      ∃ old rest, ivf.entries = (rowid, old) ::ₘ rest ∧
        (ivfUpdateVectorReinsert distfunc farAway ivf rowid vec).1.entries =
          (rowid, vec) ::ₘ rest := by
  unfold UpdateSafe at hsafe
  split at hsafe
  next htrained => exact ivfUpdateVectorReinsert_trained distfunc farAway h htrained hmem hsafe
  next htrained =>
    obtain ⟨i, hslot, ⟨_, old⟩, hget, rfl⟩ := hsafe
    exact ivfUpdateVectorReinsert_untrained distfunc farAway h htrained hslot hget

end Update

end SqliteMultimodal.Vec.Ivf
