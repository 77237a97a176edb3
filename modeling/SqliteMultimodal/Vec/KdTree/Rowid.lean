import SqliteMultimodal.Vec.KdTree.Shape

universe u

namespace SqliteMultimodal.Vec.KdTree

open KDNode

variable {α : Type u}

namespace KDNode

/-- The live entries a deletion of `rowid` marks. -/
def exposed (rowid : Rowid) : KDNode α → Multiset (PointRec α)
  | .nil => 0
  | .node p r lt rt _ _ deleted _ =>
    if r = rowid then if deleted then 0 else {⟨p, r⟩} else lt.exposed rowid + rt.exposed rowid

def shadowed (rowid : Rowid) : KDNode α → Multiset (PointRec α)
  | .nil => 0
  | .node _ r lt rt _ _ _ _ =>
    if r = rowid then (lt.live + rt.live).filter (·.rowid = rowid)
    else lt.shadowed rowid + rt.shadowed rowid

def Stored (rowid : Rowid) (n : KDNode α) : Prop := ∃ e ∈ n.live, e.rowid = rowid

instance (rowid : Rowid) (n : KDNode α) : Decidable (n.Stored rowid) :=
  Multiset.decidableExistsMultiset

def NodupRowids (n : KDNode α) : Prop := (n.live.map PointRec.rowid).Nodup

theorem filter_live_eq (rowid : Rowid) (n : KDNode α) :
    n.live.filter (·.rowid = rowid) = n.exposed rowid + n.shadowed rowid := by
  induction n with
  | nil => rfl
  | node p r lt rt axis s deleted i ihl ihr =>
    by_cases hr : r = rowid
    · cases deleted <;> simp [live, exposed, shadowed, hr]
    · have head : Multiset.filter (fun e : PointRec α => e.rowid = rowid)
          (if deleted then 0 else {⟨p, r⟩}) = 0 := by
        cases deleted <;> simp [hr]
      simp only [live, exposed, shadowed, if_neg hr, Multiset.filter_add, head, ihl, ihr, zero_add]
      exact add_add_add_comm _ _ _ _

theorem stored_iff (rowid : Rowid) (n : KDNode α) :
    n.Stored rowid ↔ n.live.filter (·.rowid = rowid) ≠ 0 := by
  simp only [Stored, ne_eq, Multiset.filter_eq_nil, not_forall, not_not, exists_prop]

theorem rowid_of_mem_shadowed {n : KDNode α} {rowid : Rowid} {e : PointRec α}
    (h : e ∈ n.shadowed rowid) : e.rowid = rowid := by
  have : e ∈ n.live.filter (·.rowid = rowid) := by
    rw [filter_live_eq]
    exact Multiset.mem_add.mpr (.inr h)
  exact (Multiset.mem_filter.mp this).2

end KDNode

section Rec

variable [LinearOrder α] [Inhabited α] (qs : Qsort (PointRec α)) (dims : Nat)

theorem live_kdtreeDeleteRec (rowid : Int32) (n : KDNode α) :
    (kdtreeDeleteRec qs dims rowid n).live =
      n.live.filter (·.rowid ≠ rowid.toInt64) + n.shadowed rowid.toInt64 := by
  induction n with
  | nil => rfl
  | node p r lt rt axis s deleted i ihl ihr =>
    rw [kdtreeDeleteRec]
    split
    next hr =>
      have marked : (if tooManyDeleted (pullup (.node p r lt rt axis s true i)) then
          rebuildSubtree qs dims (pullup (.node p r lt rt axis s true i))
          else pullup (.node p r lt rt axis s true i)).live = lt.live + rt.live := by
        split <;> simp [live]
      have head : Multiset.filter (fun e : PointRec α => e.rowid ≠ rowid.toInt64)
          (if deleted then 0 else {⟨p, r⟩}) = 0 := by
        cases deleted <;> simp [hr]
      simp only [marked, live, shadowed, if_pos hr, Multiset.filter_add, head, zero_add]
      rw [← Multiset.filter_add, ← Multiset.filter_add, add_comm (Multiset.filter _ _)]
      exact (Multiset.filter_add_not (fun e : PointRec α => e.rowid = rowid.toInt64) _).symm
    next hr =>
      have head : Multiset.filter (fun e : PointRec α => e.rowid ≠ rowid.toInt64)
          (if deleted then 0 else {⟨p, r⟩}) = if deleted then 0 else {⟨p, r⟩} := by
        cases deleted <;> simp [hr]
      simp only [live_rebalance, live, shadowed, if_neg hr, Multiset.filter_add, head, ihl, ihr]
      ac_rfl

theorem live_kdtreeDeleteRec_le (rowid : Int32) (n : KDNode α) :
    (kdtreeDeleteRec qs dims rowid n).live ≤ n.live := by
  calc (kdtreeDeleteRec qs dims rowid n).live
      = n.shadowed rowid.toInt64 + n.live.filter (·.rowid ≠ rowid.toInt64) := by
        rw [live_kdtreeDeleteRec, add_comm]
    _ ≤ n.live.filter (·.rowid = rowid.toInt64) + n.live.filter (·.rowid ≠ rowid.toInt64) := by
        rw [filter_live_eq]
        gcongr
        exact Multiset.le_add_left _ _
    _ = n.live := Multiset.filter_add_not _ _

theorem nodupRowids_kdtreeDeleteRec {n : KDNode α} (h : n.NodupRowids) (rowid : Int32) :
    (kdtreeDeleteRec qs dims rowid n).NodupRowids :=
  Multiset.nodup_of_le (Multiset.map_le_map (live_kdtreeDeleteRec_le qs dims rowid n)) h

theorem nodupRowids_kdtreeInsertRec {n : KDNode α} (h : n.NodupRowids) {rowid : Rowid}
    (hfresh : ¬ n.Stored rowid) (point : List α) (depth : Nat) :
    (kdtreeInsertRec qs dims point rowid n depth).NodupRowids := by
  unfold NodupRowids
  rw [live_kdtreeInsertRec, Multiset.map_cons, Multiset.nodup_cons]
  refine ⟨fun hmem => ?_, h⟩
  obtain ⟨e, he, hrow⟩ := Multiset.mem_map.mp hmem
  exact hfresh ⟨e, he, hrow⟩

end Rec

section Runs

variable [LinearOrder α] [Inhabited α] {qs : Qsort (PointRec α)} {dims : Nat} {tree : KDTree α}

def DeleteExact (qs : Qsort (PointRec α)) (tree : KDTree α) (rowid : Rowid) : Prop :=
  (kdtreeDelete qs tree rowid.toInt32).2 = sqliteOk →
    ¬ (kdtreeDelete qs tree rowid.toInt32).1.root.Stored rowid ∧
    tree.root.live.filter (·.rowid ≠ rowid) ≤ (kdtreeDelete qs tree rowid.toInt32).1.root.live

def UpdateExact (qs : Qsort (PointRec α)) (tree : KDTree α) (rowid : Rowid)
    (newPoint : List α) : Prop :=
  (kdtreeUpdate qs tree rowid newPoint tree.dimensions).2 = sqliteOk →
    (kdtreeUpdate qs tree rowid newPoint tree.dimensions).1.root.live.filter (·.rowid = rowid) =
      {⟨newPoint, rowid⟩}

/-- No live node with this rowid is out of the reach of a deletion: the rowid survives the
passage through `int` and no live node with it is shadowed, or else it is not stored and the
rowid it turns into is not found either. -/
def Reaches (n : KDNode α) (rowid : Rowid) : Prop :=
  if rowid.throughInt = rowid then n.shadowed rowid = 0
  else ¬ n.Stored rowid ∧ n.exposed rowid.throughInt = 0

instance (n : KDNode α) (rowid : Rowid) : Decidable (Reaches n rowid) :=
  inferInstanceAs (Decidable (ite _ _ _))

def Op.Fresh (tree : KDTree α) : Op α → Prop
  | .insert _ rowid => ¬ tree.root.Stored rowid
  | _ => True

def Op.Reaches (tree : KDTree α) : Op α → Prop
  | .insert _ _ => True
  | .delete rowid => KdTree.Reaches tree.root rowid
  | .update rowid _ => tree.root.Stored rowid → KdTree.Reaches tree.root rowid

instance (tree : KDTree α) : (op : Op α) → Decidable (op.Fresh tree)
  | .insert _ rowid => inferInstanceAs (Decidable (¬ tree.root.Stored rowid))
  | .delete _ => .isTrue trivial
  | .update _ _ => .isTrue trivial

instance (tree : KDTree α) : (op : Op α) → Decidable (op.Reaches tree)
  | .insert _ _ => .isTrue trivial
  | .delete rowid => inferInstanceAs (Decidable (KdTree.Reaches tree.root rowid))
  | .update rowid _ =>
    inferInstanceAs (Decidable (tree.root.Stored rowid → KdTree.Reaches tree.root rowid))

/-- The trees reached by runs whose every call meets `ok` in the tree it is made on. -/
inductive RunBy (qs : Qsort (PointRec α)) (dims : Nat) (ok : KDTree α → Op α → Prop) :
    KDTree α → Prop
  | empty : RunBy qs dims ok (.empty dims)
  | step {tree : KDTree α} (op : Op α) : RunBy qs dims ok tree → op.Fits dims → ok tree op →
      RunBy qs dims ok (tree.apply qs op).1

theorem live_kdtreeDelete (rowid : Int32) :
    (kdtreeDelete qs tree rowid).1.root.live =
      tree.root.live.filter (·.rowid ≠ rowid.toInt64) + tree.root.shadowed rowid.toInt64 := by
  rw [kdtreeDelete_root, live_kdtreeDeleteRec]

variable (qs tree) in
theorem filter_live_kdtreeDelete_self (rowid : Int32) :
    (kdtreeDelete qs tree rowid).1.root.live.filter (·.rowid = rowid.toInt64) =
      tree.root.shadowed rowid.toInt64 := by
  rw [live_kdtreeDelete, Multiset.filter_add, Multiset.filter_filter]
  simp [Multiset.filter_eq_self.mpr fun e he => rowid_of_mem_shadowed he]

theorem filter_live_kdtreeDelete_ne {rowid : Int32} {r : Rowid} (h : r ≠ rowid.toInt64) :
    (kdtreeDelete qs tree rowid).1.root.live.filter (·.rowid = r) =
      tree.root.live.filter (·.rowid = r) := by
  have hshadow : (tree.root.shadowed rowid.toInt64).filter (·.rowid = r) = 0 := by
    rw [Multiset.filter_eq_nil]
    intro e he hr
    exact h (hr.symm.trans (rowid_of_mem_shadowed he))
  rw [live_kdtreeDelete, Multiset.filter_add, Multiset.filter_filter, hshadow, add_zero]
  apply Multiset.filter_congr
  intro e _
  exact ⟨fun he => he.1, fun he => ⟨he, he ▸ h⟩⟩

theorem deleteExact_iff (rowid : Rowid) :
    DeleteExact qs tree rowid ↔ Reaches tree.root rowid := by
  by_cases hnil : tree.root = .nil
  · simp [DeleteExact, Reaches, kdtreeDelete, hnil, sqliteError, sqliteOk, Stored, live, exposed,
      shadowed]
  have hok : (kdtreeDelete qs tree rowid.toInt32).2 = sqliteOk := by
    unfold kdtreeDelete
    split
    next h => exact absurd h hnil
    next => rfl
  unfold DeleteExact Reaches
  simp only [hok, true_imp_iff, stored_iff, not_not]
  split
  next hfit =>
    have hself := filter_live_kdtreeDelete_self qs tree rowid.toInt32
    rw [show rowid.toInt32.toInt64 = rowid from hfit] at hself
    rw [hself, and_iff_left]
    rw [live_kdtreeDelete, show rowid.toInt32.toInt64 = rowid from hfit]
    exact Multiset.le_add_right _ _
  next hfit =>
    have hfit : rowid ≠ rowid.toInt32.toInt64 := fun h => hfit h.symm
    rw [filter_live_kdtreeDelete_ne hfit]
    refine and_congr_right fun _ => ⟨fun hle => ?_, fun hexp => ?_⟩
    · have hle := Multiset.filter_le_filter (·.rowid = rowid.toInt32.toInt64) hle
      rw [filter_live_kdtreeDelete_self, Multiset.filter_filter] at hle
      have hboth : tree.root.live.filter
          (fun e => e.rowid = rowid.toInt32.toInt64 ∧ e.rowid ≠ rowid) =
          tree.root.live.filter (·.rowid = rowid.toInt32.toInt64) := by
        apply Multiset.filter_congr
        intro e _
        exact ⟨fun he => he.1, fun he => ⟨he, he ▸ hfit.symm⟩⟩
      rw [hboth, filter_live_eq, add_le_iff_nonpos_left] at hle
      exact Multiset.le_zero.mp hle
    · calc tree.root.live.filter (·.rowid ≠ rowid) ≤ tree.root.live := Multiset.filter_le _ _
        _ = (kdtreeDelete qs tree rowid.toInt32).1.root.live := by
          rw [live_kdtreeDelete, add_comm]
          nth_rewrite 1 [← Multiset.filter_add_not
            (fun e : PointRec α => e.rowid = rowid.toInt32.toInt64) tree.root.live]
          rw [filter_live_eq, show tree.root.exposed rowid.toInt32.toInt64 = 0 from hexp, zero_add]

theorem updateExact_iff {rowid : Rowid} (hstored : tree.root.Stored rowid) (newPoint : List α) :
    UpdateExact qs tree rowid newPoint ↔ Reaches tree.root rowid := by
  have hnil : tree.root ≠ .nil := by
    intro h
    obtain ⟨e, he, -⟩ := hstored
    simp [h, live] at he
  unfold UpdateExact Reaches
  rw [kdtreeUpdate_of_ne_nil hnil, kdtreeInsert_eq, live_kdtreeInsertRec, Multiset.filter_cons,
    if_pos rfl]
  simp only [true_imp_iff, add_eq_left]
  split
  next hfit =>
    have hself := filter_live_kdtreeDelete_self qs tree rowid.toInt32
    rw [show rowid.toInt32.toInt64 = rowid from hfit] at hself
    rw [hself]
  next hfit =>
    rw [filter_live_kdtreeDelete_ne fun h => hfit h.symm]
    have hpos := (stored_iff ..).mp hstored
    simp [hstored, hpos]

theorem not_stored_kdtreeDelete {rowid : Rowid} (hfit : rowid.throughInt = rowid)
    (hshadow : tree.root.shadowed rowid = 0) :
    ¬ (kdtreeDelete qs tree rowid.toInt32).1.root.Stored rowid := by
  have hself := filter_live_kdtreeDelete_self qs tree rowid.toInt32
  rw [show rowid.toInt32.toInt64 = rowid from hfit, hshadow] at hself
  rw [stored_iff, hself]
  exact not_not.mpr rfl

theorem nodupRowids_apply {op : Op α} (h : tree.root.NodupRowids) (hfresh : op.Fresh tree)
    (hreach : op.Reaches tree) : (tree.apply qs op).1.root.NodupRowids := by
  cases op with
  | insert point rowid =>
    simpa [KDTree.apply, kdtreeInsert_eq] using nodupRowids_kdtreeInsertRec qs _ h hfresh point 0
  | delete rowid =>
    simpa [KDTree.apply, kdtreeDelete_root] using nodupRowids_kdtreeDeleteRec qs _ h rowid.toInt32
  | update rowid newPoint =>
    by_cases hnil : tree.root = .nil
    · simpa [KDTree.apply, kdtreeUpdate, hnil] using h
    have hgone : ¬ (kdtreeDelete qs tree rowid.toInt32).1.root.Stored rowid := by
      by_cases hfit : rowid.throughInt = rowid
      · apply not_stored_kdtreeDelete hfit
        by_cases hstored : tree.root.Stored rowid
        · simpa [Reaches, hfit] using hreach hstored
        · rw [stored_iff, not_not, filter_live_eq] at hstored
          exact Multiset.le_zero.mp (hstored ▸ Multiset.le_add_left _ _)
      · have hstored : ¬ tree.root.Stored rowid := by
          intro hstored
          have := hreach hstored
          simp [Reaches, hfit, hstored] at this
        rw [stored_iff, filter_live_kdtreeDelete_ne fun h => hfit h.symm]
        exact (stored_iff ..).not.mp hstored
    rw [KDTree.apply, kdtreeUpdate_of_ne_nil hnil, kdtreeInsert_eq]
    refine nodupRowids_kdtreeInsertRec qs _ ?_ hgone newPoint 0
    rw [kdtreeDelete_root]
    exact nodupRowids_kdtreeDeleteRec qs _ h rowid.toInt32

theorem RunBy.nodupRowids
    (h : RunBy qs dims (fun tree op => op.Fresh tree ∧ op.Reaches tree) tree) :
    tree.root.NodupRowids := by
  induction h with
  | empty => exact Multiset.nodup_zero
  | step op _ _ ok ih => exact nodupRowids_apply ih ok.1 ok.2

/-- Along a run whose deletions and updates all reach the rowid they are given, no two live nodes
share a rowid, and the next deletion or update is exact if and only if it again reaches its
rowid. -/
theorem exact_run (qs : Qsort (PointRec α)) (dims : Nat) (tree : KDTree α)
    (h : RunBy qs dims (fun tree op => op.Fresh tree ∧ op.Reaches tree) tree) :
    tree.root.NodupRowids ∧
    (∀ rowid, DeleteExact qs tree rowid ↔ Reaches tree.root rowid) ∧
    (∀ rowid newPoint, tree.root.Stored rowid → newPoint.length = dims →
      (UpdateExact qs tree rowid newPoint ↔ Reaches tree.root rowid)) :=
  ⟨h.nodupRowids, deleteExact_iff, fun _ newPoint hstored _ => updateExact_iff hstored newPoint⟩

def shadowedRun : KDTree Int :=
  [Op.insert [0] 1, .insert [-1] 2, .insert [1] 3, .insert [2] 4, .update 1 [5]].foldl
    (fun tree op => (tree.apply Qsort.mergeSort op).1) (.empty 1)

theorem shadowedRun_exact :
    shadowedRun.root.NodupRowids ∧ DeleteExact Qsort.mergeSort shadowedRun 2 :=
  have run := exact_run Qsort.mergeSort 1 shadowedRun
    (.step (.update 1 [5]) (.step (.insert [2] 4) (.step (.insert [1] 3) (.step (.insert [-1] 2)
      (.step (.insert [0] 1) .empty rfl (by decide)) rfl (by decide)) rfl (by decide)) rfl
      (by decide)) rfl (by decide))
  ⟨run.1, (run.2.1 2).mpr (by decide)⟩

theorem shadowedRun_not_exact :
    RunBy Qsort.mergeSort 1 (fun tree op => op.Fresh tree) shadowedRun ∧
    (kdtreeDelete Qsort.mergeSort shadowedRun (1 : Rowid).toInt32).2 = sqliteOk ∧
    (kdtreeDelete Qsort.mergeSort shadowedRun (1 : Rowid).toInt32).1.root.Stored 1 ∧
    ¬ DeleteExact Qsort.mergeSort shadowedRun 1 := by
  refine ⟨?_, by decide, by decide, ?_⟩
  · exact .step (.update 1 [5]) (.step (.insert [2] 4) (.step (.insert [1] 3)
      (.step (.insert [-1] 2) (.step (.insert [0] 1) .empty rfl (by decide)) rfl (by decide)) rfl
      (by decide)) rfl (by decide)) rfl (by decide)
  · rw [deleteExact_iff]
    decide

end Runs

end SqliteMultimodal.Vec.KdTree
