import SqliteMultimodal.Vec.Sync.Session

namespace SqliteMultimodal.Vec

open Storage

variable {α : Type} {index : Index α} {rowid : Rowid}

namespace Index

def HoldsRow (index : Index α) (rowid : Rowid) : Prop := ∃ vec, (rowid, vec) ∈ index.live

def InFirstList : Index α → Rowid → Prop
  | .ivf f, rowid => f.trained = true ∧ ∃ l ∈ f.lists.head?, rowid ∈ l.entries.map Prod.fst
  | _, _ => True

end Index

section Code

theorem Ivf.find_zero_iff {lists : List (Ivf.InvertedList α)} :
    (∃ i, Ivf.find lists rowid = some (0, i)) ↔
      ∃ l ∈ lists.head?, rowid ∈ l.entries.map Prod.fst := by
  constructor
  · rintro ⟨i, hfind⟩
    obtain ⟨l, hl, hi⟩ := Ivf.find_eq_some hfind
    obtain ⟨hlt, hrowid, -⟩ := List.findIdx?_eq_some_iff_getElem.mp hi
    rw [← List.head?_eq_getElem?] at hl
    refine ⟨l, hl, List.mem_map.mpr ⟨_, List.getElem_mem hlt, of_decide_eq_true hrowid⟩⟩
  · rintro ⟨l, hl, hmem⟩
    obtain ⟨rest, rfl⟩ := List.head?_eq_some_iff.mp hl
    obtain ⟨e, he, rfl⟩ := List.mem_map.mp hmem
    have hsome : (l.entries.findIdx? fun x => x.1 = e.1).isSome := by
      rw [List.findIdx?_isSome, List.any_eq_true]
      exact ⟨e, he, decide_eq_true rfl⟩
    obtain ⟨i, hi⟩ := Option.isSome_iff_exists.mp hsome
    exact ⟨i, by rw [Ivf.find, List.zipIdx_cons, List.findSome?_cons, hi]; rfl⟩

theorem Ivf.ivfDeleteVector_ok_iff {ivf : Ivf.IVF α} :
    (Ivf.ivfDeleteVector ivf rowid).2 = sqliteOk ↔
      ivf.trained = true ∧ ∃ l ∈ ivf.lists.head?, rowid ∈ l.entries.map Prod.fst := by
  rw [← Ivf.find_zero_iff, Ivf.ivfDeleteVector]
  cases ivf.trained with
  | false =>
    refine iff_of_false (fun h => ?_) (by simp)
    cases hslot : Ivf.trainSlot ivf rowid <;> simp [hslot, sqliteOk] at h
  | true =>
    cases hfind : Ivf.find ivf.lists rowid with
    | none => simp [sqliteOk]
    | some x => simp [sqliteOk, Prod.ext_iff]

variable [LinearOrder α] [Inhabited α] [Field α] {m : IndexMeta α}

omit [Field α] in
theorem indexDelete_ok_iff (h : index.HoldsRow rowid) :
    (indexDelete m index rowid).2 = sqliteOk ↔ index.InFirstList rowid := by
  obtain ⟨vec, hlive⟩ := h
  cases index with
  | none => exact iff_of_true rfl trivial
  | kdtree tree | hybrid tree =>
    rw [← Index.mem_entries] at hlive
    exact iff_of_true (kdtreeDelete_rc m.qs (root_ne_nil hlive) _) trivial
  | hnsw h =>
    refine iff_of_true ?_ trivial
    simp only [indexDelete, Hnsw.hnswDelete, Prod.map_snd, id]
    split <;> rfl
  | ivf f => exact Ivf.ivfDeleteVector_ok_iff

end Code

section Statement

variable [LinearOrder α] [Inhabited α] [Field α] (m : IndexMeta α) (p : Vec0Vtab)
  (v : Vec0 α (Index α)) (id : SqlValue)

structure DeletesOrKeeps (rowid : Rowid) : Prop where
  deletes : (∃ s, deleteShadow p v.shadow id = .ok (s, rowid)) →
    (vec0Update m.ops p v (.delete id)).2 = .ok rowid
  keeps : ∀ rc, (vec0Update m.ops p v (.delete id)).2 = .error rc →
    (vec0Update m.ops p v (.delete id)).1.index.HoldsRow rowid

variable {m p v id}

theorem vec0Update_delete_ok_iff {s : Shadow α} (hheld : v.index.HoldsRow rowid)
    (hdel : deleteShadow p v.shadow id = .ok (s, rowid)) :
    (vec0Update m.ops p v (.delete id)).2 = .ok rowid ↔
      (m.column ≠ none → rowid ≠ 0 → v.index.InFirstList rowid) := by
  simp only [vec0Update, vec0UpdateDelete, hdel]
  cases hcol : m.ops.column with
  | none => exact iff_of_true rfl fun hne => absurd hcol hne
  | some col =>
    have hne : m.column ≠ none := fun hnone => by
      rw [show m.ops.column = none from hnone] at hcol
      cases hcol
    by_cases hzero : rowid = 0
    · simp [hzero, Vec0.finish]
    · rw [← indexDelete_ok_iff (m := m) hheld]
      simp only [if_neg hzero]
      change (v.finish v.dimensions (indexDelete m v.index rowid).1
        (if (indexDelete m v.index rowid).2 = sqliteOk then _ else _)).2 = _ ↔ _
      split
      next hok => exact iff_of_true rfl fun _ _ => hok
      next hok => exact iff_of_false (by simp [Vec0.finish]) fun h => hok (h hne hzero)

/-- A row outside the first list is deleted from the index by a statement that fails. -/
theorem deletesOrKeeps_iff (hheld : v.index.HoldsRow rowid)
    (hrow : rowidOf p v.shadow id = .ok rowid) :
    DeletesOrKeeps m p v id rowid ↔
      ((∃ s, deleteShadow p v.shadow id = .ok (s, rowid)) → m.column ≠ none → rowid ≠ 0 →
        v.index.InFirstList rowid) := by
  cases hdel : deleteShadow p v.shadow id with
  | error rc =>
    have hupd : vec0Update m.ops p v (.delete id) = (v, .error rc) := by
      simp only [vec0Update, vec0UpdateDelete, hdel, Vec0.finish]
    have hnot : ¬∃ s : Shadow α, (.error rc : Except ResultCode _) = .ok (s, rowid) := by
      rintro ⟨s, hs⟩
      cases hs
    refine iff_of_true ⟨fun h => absurd (hdel ▸ h) hnot, fun _ _ => ?_⟩ fun h => absurd h hnot
    rwa [hupd]
  | ok x =>
    obtain ⟨s, r⟩ := x
    obtain rfl : rowid = r := Except.ok.inj (hrow.symm.trans (rowidOf_of_deleteShadow hdel))
    have hreach : ∃ s', (.ok (s, rowid) : Except ResultCode _) = .ok (s', rowid) := ⟨s, rfl⟩
    have hcode := vec0Update_delete_ok_iff (m := m) hheld hdel
    refine ⟨fun h _ => hcode.mp (h.deletes (hdel ▸ hreach)), fun h => ?_⟩
    have hok := hcode.mpr (h hreach)
    exact ⟨fun _ => hok, fun rc herr => by simp [hok] at herr⟩

end Statement

section Sample

open Knn

theorem kdtree_deletesOrKeeps :
    DeletesOrKeeps lineMeta lineTable (lineRun (.createKdtree 1)).1 (.integer 1) 1 :=
  (deletesOrKeeps_iff ⟨[2], Index.mem_entries.mp (by decide +kernel)⟩ rfl).mpr
    fun _ _ _ => trivial

theorem exists_deleteShadow {s : Shadow α} {id : SqlValue}
    (h : (deleteShadow p s id).map Prod.snd = .ok rowid) :
    ∃ s', deleteShadow p s id = .ok (s', rowid) := by
  cases hdel : deleteShadow p s id with
  | error rc =>
    rw [hdel] at h
    cases h
  | ok x =>
    rw [hdel] at h
    exact ⟨x.1, by rw [← Except.ok.inj h]⟩

theorem ivf_not_deletesOrKeeps :
    (lineRun .createIvf).1.index.HoldsRow 1 ∧
      (∃ s, deleteShadow lineTable (lineRun .createIvf).1.shadow (.integer 1) = .ok (s, 1)) ∧
      ¬ (vec0Update lineMeta.ops lineTable (lineRun .createIvf).1
        (.delete (.integer 1))).1.index.HoldsRow 1 ∧
      ¬ DeletesOrKeeps lineMeta lineTable (lineRun .createIvf).1 (.integer 1) 1 := by
  have hshadow : ∃ s, deleteShadow lineTable (lineRun .createIvf).1.shadow (.integer 1) =
      .ok (s, 1) := exists_deleteShadow (by decide +kernel)
  have hgone : ∀ x ∈ (vec0Update lineMeta.ops lineTable (lineRun .createIvf).1
      (.delete (.integer 1))).1.index.entries, x.1 ≠ 1 := by
    decide +kernel
  refine ⟨⟨[2], Index.mem_entries.mp (by decide +kernel)⟩, hshadow, ?_, fun h => ?_⟩
  · rintro ⟨vec, hmem⟩
    exact hgone _ (Index.mem_entries.mpr hmem) rfl
  · have hcode : (vec0Update lineMeta.ops lineTable (lineRun .createIvf).1
        (.delete (.integer 1))).2 ≠ .ok 1 := by
      decide +kernel
    exact hcode (h.deletes hshadow)

end Sample

end SqliteMultimodal.Vec
