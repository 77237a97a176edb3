import Mathlib.Algebra.Field.Rat
import SqliteMultimodal.Lib.Selection
import SqliteMultimodal.Vec.Ivf.Contents

namespace SqliteMultimodal.Vec.Ivf

open scoped List

variable {α : Type}

/-- `ivf_create`, which has `IVF_TRAIN_CAP` for the capacity. -/
def ivfCreateWith (nlist nprobe capacity : Nat) : IVF α :=
  { ivfCreate nlist nprobe with
    trainCapacity := capacity
    deleted := List.replicate capacity false }

inductive Call (α : Type)
  | insert (e : Entry α)
  | delete (rowid : Rowid)

def IVF.contents (ivf : IVF α) : Multiset (Entry α) :=
  if ivf.trained then ↑(listed ivf.lists) else ↑ivf.buffered

abbrev Ledger (α : Type) := Rowid → Option (List α)

def Ledger.record (rows : Ledger α) : Call α → ResultCode → Ledger α
  | .insert e, rc => if rc = sqliteOk then Function.update rows e.1 (some e.2) else rows
  | .delete rowid, _ => Function.update rows rowid none

def Issued (rows : Ledger α) : Call α → Prop
  | .insert e => rows e.1 = none
  | .delete rowid => rows rowid ≠ none

instance [DecidableEq α] (rows : Ledger α) : (c : Call α) → Decidable (Issued rows c)
  | .insert e => inferInstanceAs (Decidable (rows e.1 = none))
  | .delete rowid => inferInstanceAs (Decidable (rows rowid ≠ none))

def Call.Safe (ivf : IVF α) : Call α → Prop
  | .insert _ => ivf.trained = false → ivf.trainCapacity ≤ ivf.train.length + 1 →
    ∀ i < ivf.train.length, ivf.deleted.getD i false = false
  | .delete rowid => ivf.trained = false →
    ∃ i ∈ trainSlot ivf rowid, ∃ e ∈ ivf.train[i]?, e.1 = rowid ∧ ivf.deleted.getD i false = false

section Code

variable [LinearOrder α] [Field α] (distfunc : List α → List α → α) (rand : Nat → Nat)

def IVF.call (ivf : IVF α) : Call α → IVF α × ResultCode
  | .insert e => ivfInsert distfunc rand ivf e
  | .delete rowid => ivfDeleteVector ivf rowid

inductive SafeRun (nlist nprobe capacity : Nat) : IVF α → Ledger α → Prop
  | create : SafeRun nlist nprobe capacity (ivfCreateWith nlist nprobe capacity) fun _ => none
  | step {ivf rows} (c : Call α) : SafeRun nlist nprobe capacity ivf rows → Issued rows c →
    c.Safe ivf → SafeRun nlist nprobe capacity (ivf.call distfunc rand c).1
      (rows.record c (ivf.call distfunc rand c).2)

end Code

structure IVF.Buffering (ivf : IVF α) : Prop where
  untrained : ivf.trained = false
  pos : 0 < ivf.lists.length
  listed : listed ivf.lists = []
  length_deleted : ivf.deleted.length = ivf.trainCapacity
  marked : ∀ i, ivf.deleted.getD i false = true → i < ivf.train.length
  room : ivf.train.length < ivf.trainCapacity ∨ ivf.train = []

theorem buffering_create {nlist : Nat} (nprobe capacity : Nat) (h : 0 < nlist) :
    (ivfCreateWith nlist nprobe capacity : IVF α).Buffering where
  untrained := rfl
  pos := by simpa [ivfCreateWith, ivfCreate] using h
  listed := by simp [ivfCreateWith, ivfCreate, Ivf.listed]
  length_deleted := List.length_replicate
  marked i hi := by
    rw [ivfCreateWith, List.getD_eq_getElem?_getD, List.getElem?_replicate] at hi
    split at hi <;> simp at hi
  room := .inr rfl

variable {ivf : IVF α} {rows : Ledger α}

theorem contents_of_untrained (h : ivf.trained = false) : ivf.contents = ↑ivf.buffered := by
  rw [IVF.contents, h]
  rfl

theorem IVF.Clean.contents_eq (h : ivf.Clean) (htrained : ivf.trained = true) :
    ivf.contents = ivf.entries := by
  rw [IVF.contents, htrained, if_pos rfl, h.entries_eq, h.flushed htrained, List.nil_append]

/-- The entries of the slots from number `n` on that are not marked. -/
def unmarked (deleted : List Bool) (n : Nat) (train : List (Entry α)) : List (Entry α) :=
  ((train.zipIdx n).filter fun x => !deleted.getD x.2 false).map Prod.fst

theorem unmarked_append (deleted : List Bool) (n : Nat) (xs ys : List (Entry α)) :
    unmarked deleted n (xs ++ ys) = unmarked deleted n xs ++ unmarked deleted (n + xs.length) ys := by
  simp only [unmarked, List.zipIdx_append, List.filter_append, List.map_append]

theorem unmarked_cons (deleted : List Bool) (n : Nat) (e : Entry α) (xs : List (Entry α)) :
    unmarked deleted n (e :: xs) =
      (if deleted.getD n false then [] else [e]) ++ unmarked deleted (n + 1) xs := by
  simp only [unmarked, List.zipIdx_cons, List.filter_cons]
  cases deleted.getD n false <;> rfl

theorem unmarked_congr {deleted deleted' : List Bool} {n : Nat} {xs : List (Entry α)}
    (h : ∀ i, n ≤ i → i < n + xs.length → deleted'.getD i false = deleted.getD i false) :
    unmarked deleted' n xs = unmarked deleted n xs := by
  unfold unmarked
  congr 1
  refine List.filter_congr fun x hx => ?_
  obtain ⟨hle, hlt, -⟩ := List.mem_zipIdx hx
  rw [h x.2 hle hlt]

theorem getD_set (deleted : List Bool) (i j : Nat) :
    (deleted.set i true).getD j false =
      if j = i ∧ i < deleted.length then true else deleted.getD j false := by
  simp only [List.getD_eq_getElem?_getD, List.getElem?_set]
  by_cases hij : i = j
  · subst hij
    by_cases hi : i < deleted.length
    · simp [hi]
    · simp [hi]
  · simp [hij, Ne.symm hij]

theorem perm_unmarked_set {deleted : List Bool} {train : List (Entry α)} {i : Nat} {e : Entry α}
    (hget : train[i]? = some e) (hlive : deleted.getD i false = false) (hi : i < deleted.length) :
    unmarked deleted 0 train ~ e :: unmarked (deleted.set i true) 0 train := by
  obtain ⟨hlt, rfl⟩ := List.getElem?_eq_some_iff.mp hget
  have hsplit : train = train.take i ++ train[i] :: train.drop (i + 1) := by
    rw [← List.drop_eq_getElem_cons hlt, List.take_append_drop]
  have hlen : (train.take i).length = i := List.length_take_of_le hlt.le
  generalize train[i] = e at hsplit
  rw [hsplit]
  have hleft : unmarked (deleted.set i true) 0 (train.take i) = unmarked deleted 0 (train.take i) :=
    unmarked_congr fun j _ hj => by rw [getD_set, if_neg (by omega)]
  have hright : unmarked (deleted.set i true) (i + 1) (train.drop (i + 1)) =
      unmarked deleted (i + 1) (train.drop (i + 1)) :=
    unmarked_congr fun j hj _ => by rw [getD_set, if_neg (by omega)]
  simp only [unmarked_append, unmarked_cons, hlen, Nat.zero_add, hlive, getD_set, hi, and_self,
    if_true, hleft, hright]
  exact List.perm_middle

theorem trainSlot_lt {rowid : Rowid} {i : Nat} (h : trainSlot ivf rowid = some i) :
    i < ivf.trainCapacity := by
  unfold trainSlot at h
  split at h
  · obtain rfl := Option.some.inj h
    omega
  · simp at h

section Steps

variable [LinearOrder α] [Field α] (distfunc : List α → List α → α) (rand : Nat → Nat)

structure Kept (ivf : IVF α) (rows : Ledger α) : Prop where
  phase : ivf.Buffering ∨ ivf.trained = true ∧ ivf.Clean
  keyed : Keyed ivf.contents rows

theorem Kept.insert_trained (hclean : ivf.Clean) (htrained : ivf.trained = true)
    (hkeyed : Keyed ivf.contents rows) {e : Entry α} (hfresh : rows e.1 = none) :
    Kept (ivfInsert distfunc rand ivf e).1
      (rows.record (.insert e) (ivfInsert distfunc rand ivf e).2) := by
  obtain ⟨hclean', hentries⟩ := ivfAddVector_spec distfunc hclean htrained e
  have hresult : ivfInsert distfunc rand ivf e = (ivfAddVector distfunc ivf e, sqliteOk) := by
    rw [ivfInsert, if_pos htrained]
  have htrained' : (ivfAddVector distfunc ivf e).trained = true := htrained
  rw [hresult]
  refine ⟨.inr ⟨htrained', hclean'⟩, ?_⟩
  rw [hclean'.contents_eq htrained', hentries, ← hclean.contents_eq htrained, Ledger.record,
    if_pos rfl]
  exact hkeyed.cons hfresh e.2

theorem ivfInsert_untrained (htrained : ivf.trained = false) (e : Entry α) :
    ivfInsert distfunc rand ivf e =
      if ivf.trainCapacity ≤ ivf.train.length then (ivf, sqliteFull)
      else if ivf.trainCapacity ≤ ivf.train.length + 1 then
        ivfTrainAndFlush distfunc rand { ivf with train := ivf.train ++ [e] }
      else ({ ivf with train := ivf.train ++ [e] }, sqliteOk) := by
  unfold ivfInsert ivfAddToTrain
  rw [if_neg (by simp [htrained])]
  by_cases hfull : ivf.trainCapacity ≤ ivf.train.length
  · rw [if_pos hfull, if_pos hfull]
    rfl
  · rw [if_neg hfull, if_neg hfull]
    simp only [ne_eq, not_true_eq_false, if_false, List.length_append, List.length_singleton]

omit [LinearOrder α] [Field α] in
theorem unmarked_append_singleton (h : ivf.Buffering) (e : Entry α) :
    unmarked ivf.deleted 0 (ivf.train ++ [e]) = ivf.buffered ++ [e] := by
  have hmark : ivf.deleted.getD ivf.train.length false = false := by
    by_contra hmark
    exact Nat.lt_irrefl _ (h.marked _ (by simpa using hmark))
  rw [unmarked_append, unmarked_cons, Nat.zero_add, hmark]
  rfl

theorem Kept.insert_buffering (h : ivf.Buffering) (hkeyed : Keyed ivf.contents rows) {e : Entry α}
    (hfresh : rows e.1 = none) (hsafe : (Call.insert e).Safe ivf) :
    Kept (ivfInsert distfunc rand ivf e).1
      (rows.record (.insert e) (ivfInsert distfunc rand ivf e).2) := by
  have hsafe := hsafe h.untrained
  have hadded := hkeyed.cons hfresh e.2
  rw [contents_of_untrained h.untrained, Multiset.cons_coe,
    ← Multiset.coe_eq_coe.mpr (List.perm_append_singleton e _)] at hadded
  rw [ivfInsert_untrained distfunc rand h.untrained]
  split
  next hfull => exact ⟨.inl h, hkeyed⟩
  next hroom =>
    split
    next hfills =>
      have hdeleted : ∀ i, ivf.deleted.getD i false = false := fun i => by
        by_contra hmark
        have hlt := h.marked i (by simpa using hmark)
        exact hmark (hsafe hfills i hlt)
      obtain ⟨hrc, hclean, htrained, hentries⟩ := @ivfTrainAndFlush_spec _ _ distfunc
        { ivf with train := ivf.train ++ [e] } _ rand h.pos hdeleted (by simp)
      refine ⟨.inr ⟨htrained, hclean⟩, ?_⟩
      rw [hclean.contents_eq htrained, hentries, hrc, Ledger.record, if_pos rfl, h.listed,
        List.append_nil]
      rwa [buffered_eq hdeleted] at hadded
    next hfills =>
      have h' : IVF.Buffering { ivf with train := ivf.train ++ [e] } :=
        ⟨h.untrained, h.pos, h.listed, h.length_deleted, fun i hi => by
          rw [List.length_append]
          exact Nat.lt_add_right _ (h.marked i hi), .inl (by
          rw [List.length_append, List.length_singleton]
          exact Nat.lt_of_not_le hfills)⟩
      refine ⟨.inl h', ?_⟩
      rw [contents_of_untrained h'.untrained, Ledger.record, if_pos rfl]
      rwa [← unmarked_append_singleton h] at hadded

omit [LinearOrder α] [Field α] in
theorem Kept.delete (h : Kept ivf rows) {rowid : Rowid} (hissued : rows rowid ≠ none)
    (hsafe : (Call.delete rowid).Safe ivf) :
    Kept (ivfDeleteVector ivf rowid).1
      (rows.record (.delete rowid) (ivfDeleteVector ivf rowid).2) := by
  obtain ⟨h | ⟨htrained, hclean⟩, hkeyed⟩ := h
  · obtain ⟨i, hslot, ⟨r, vec⟩, hget, hr, hlive⟩ := hsafe h.untrained
    obtain rfl : rowid = r := hr.symm
    have hperm := perm_unmarked_set hget hlive (h.length_deleted ▸ trainSlot_lt hslot)
    have hresult : ivfDeleteVector ivf rowid =
        ({ ivf with deleted := ivf.deleted.set i true }, -2) := by
      simp only [ivfDeleteVector, h.untrained, Option.mem_def.mp hslot]
      rfl
    have h' : IVF.Buffering { ivf with deleted := ivf.deleted.set i true } :=
      ⟨h.untrained, h.pos, h.listed, List.length_set.trans h.length_deleted, fun j hj => by
        rw [getD_set] at hj
        split at hj
        next hji => exact hji.1 ▸ (List.getElem?_eq_some_iff.mp hget).1
        next => exact h.marked j hj, h.room⟩
    rw [contents_of_untrained h.untrained] at hkeyed
    rw [hresult]
    refine ⟨.inl h', ?_⟩
    rw [contents_of_untrained h'.untrained]
    have hmulti : (ivf.buffered : Multiset (Entry α)) =
        (rowid, vec) ::ₘ ↑(unmarked (ivf.deleted.set i true) 0 ivf.train) :=
      (Multiset.coe_eq_coe.mpr hperm).trans (Multiset.cons_coe ..).symm
    rw [hmulti] at hkeyed
    exact hkeyed.uncons
  · obtain ⟨vec, hvec⟩ := Option.ne_none_iff_exists'.mp hissued
    have hmem := (hkeyed.mem_iff rowid vec).mpr hvec
    rw [hclean.contents_eq htrained] at hmem hkeyed
    obtain ⟨l, i, hfind⟩ := find_of_mem_entries hclean htrained hmem
    obtain ⟨lists, _, heq, -, hclean', hentries⟩ := ivfDeleteVector_of_find hclean htrained hfind
    rw [heq]
    refine ⟨.inr ⟨htrained, hclean'⟩, ?_⟩
    rw [hentries] at hkeyed
    rw [hclean'.contents_eq htrained]
    exact hkeyed.uncons

theorem SafeRun.kept {nlist nprobe capacity : Nat} (hpos : 0 < nlist)
    (h : SafeRun distfunc rand nlist nprobe capacity ivf rows) : Kept ivf rows := by
  induction h with
  | create => exact ⟨.inl (buffering_create nprobe capacity hpos), .zero⟩
  | step c _ hissued hsafe ih =>
    cases c with
    | insert e =>
      obtain hbuffering | ⟨htrained, hclean⟩ := ih.phase
      · exact .insert_buffering distfunc rand hbuffering ih.keyed hissued hsafe
      · exact .insert_trained distfunc rand hclean htrained ih.keyed hissued
    | delete rowid => exact ih.delete hissued hsafe

/-- The index holds each row that has been inserted and not deleted once, and no other. -/
theorem safeRun_contents {nlist nprobe capacity : Nat} (hpos : 0 < nlist)
    (h : SafeRun distfunc rand nlist nprobe capacity ivf rows) : Keyed ivf.contents rows :=
  (h.kept distfunc rand hpos).keyed

end Steps

section Sample

def sampleRun (nlist capacity : Nat) (calls : List (Call ℚ)) : IVF ℚ × Ledger ℚ :=
  calls.foldl (fun x c =>
    let out := x.1.call (fun _ _ => 0) (fun _ => 0) c
    (out.1, x.2.record c out.2)) (ivfCreateWith nlist 1 capacity, fun _ => none)

theorem sampleRun_contents :
    Keyed (sampleRun 1 2 [.insert (7, [1]), .insert (9, [2]), .delete 7]).1.contents
      (sampleRun 1 2 [.insert (7, [1]), .insert (9, [2]), .delete 7]).2 := by
  refine safeRun_contents (fun _ _ => 0) (fun _ => 0) Nat.one_pos
    (.step (.delete 7) (.step (.insert (9, [2])) (.step (.insert (7, [1])) .create ?_ ?_) ?_ ?_) ?_ ?_)
  · exact rfl
  · exact fun _ _ i hi => absurd hi (Nat.not_lt_zero i)
  · decide +kernel
  · intro _ _
    decide +kernel
  · decide +kernel
  · intro h
    exact absurd h (by decide +kernel)

theorem sampleRun_marks_other_row :
    ¬ Keyed (sampleRun ivfNList ivfTrainCap [.insert (2, [1]), .insert (1, [2]), .delete 1]).1.contents
      (sampleRun ivfNList ivfTrainCap [.insert (2, [1]), .insert (1, [2]), .delete 1]).2 := by
  intro h
  have hmem : ((1 : Rowid), [(2 : ℚ)]) ∈ (sampleRun ivfNList ivfTrainCap
      [.insert (2, [1]), .insert (1, [2]), .delete 1]).1.contents := by decide +kernel
  rw [h.mem_iff] at hmem
  exact absurd hmem (by decide +kernel)

end Sample

end SqliteMultimodal.Vec.Ivf
