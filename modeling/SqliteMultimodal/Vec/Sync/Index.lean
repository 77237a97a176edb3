import SqliteMultimodal.Lib.Selection
import SqliteMultimodal.Vec.Hnsw.Contents
import SqliteMultimodal.Vec.Index
import SqliteMultimodal.Vec.Ivf.Contents
import SqliteMultimodal.Vec.KdTree.Rowid

namespace SqliteMultimodal.Vec

variable {α : Type} {index : Index α} {rowid : Rowid}

def KdTree.KDNode.entries (n : KdTree.KDNode α) : Multiset (Rowid × List α) :=
  n.live.map fun e => (e.rowid, e.point)

namespace Index

def entries : Index α → Multiset (Rowid × List α)
  | .none => 0
  | .kdtree tree | .hybrid tree => tree.root.entries
  | .hnsw h => Hnsw.entries h.nodes
  | .ivf f => f.entries

theorem mem_entries {x : Rowid × List α} : x ∈ index.entries ↔ x ∈ index.live := by
  cases index with
  | none => exact iff_of_false (Multiset.notMem_zero x) id
  | kdtree tree | hybrid tree =>
    refine Multiset.mem_map.trans ⟨?_, fun h => ⟨_, h, rfl⟩⟩
    rintro ⟨e, he, rfl⟩
    exact he
  | hnsw h => exact Hnsw.mem_entries
  | ivf f => exact Ivf.mem_entries

def Clean : Index α → Prop
  | .none => False
  | .ivf f => f.Clean
  | _ => True

inductive Created (dim : Nat) : Index α → Prop
  | kdtree : Created dim (.createKdtree dim)
  | hybrid : Created dim (.createHybrid dim)
  | hnsw : Created dim .createHnsw
  | ivf : Created dim .createIvf

theorem Created.clean {dim : Nat} (h : Created dim index) : index.Clean := by
  cases h with
  | kdtree => trivial
  | hybrid => trivial
  | hnsw => trivial
  | ivf => exact Ivf.clean_ivfCreate _ _ (by decide)

theorem Created.entries {dim : Nat} (h : Created dim index) : index.entries = 0 := by
  cases h with
  | kdtree => rfl
  | hybrid => rfl
  | hnsw => rfl
  | ivf => rw [Index.createIvf, Index.entries, (Ivf.clean_ivfCreate _ _ (by decide)).entries_eq]; rfl

/-- The graph keeps rowids in an `int`.  It and the inverted lists take a vector of the index's
dimension. -/
def InsertSafe (m : IndexMeta α) : Index α → Rowid → List α → Prop
  | .hnsw h, rowid, vec =>
    h.nodes.length < h.maxNodes → rowid.throughInt = rowid ∧ vec.length = m.dim
  | .ivf _, _, vec => vec.length = m.dim
  | _, _, _ => True

def PointsFit (tree : KdTree.KDTree α) : Prop :=
  ∀ e ∈ tree.root.live, e.point.length = tree.dimensions

instance (tree : KdTree.KDTree α) : Decidable (PointsFit tree) :=
  inferInstanceAs (Decidable (∀ _ ∈ _, _))

/-- The row with rowid `0` is never deleted from the index.  A tree takes the rowid as an `int`,
and does not look below a node with the rowid. -/
def DeleteSafe : Index α → Rowid → Prop
  | .kdtree tree, rowid | .hybrid tree, rowid =>
    rowid ≠ 0 ∧ rowid.throughInt = rowid ∧ tree.root.shadowed rowid = 0 ∧ PointsFit tree
  | .ivf f, rowid => rowid ≠ 0 ∧ Ivf.DeleteSafe f rowid
  | _, rowid => rowid ≠ 0

instance [DecidableEq α] : (index : Index α) → (rowid : Rowid) → Decidable (index.DeleteSafe rowid)
  | .none, rowid => inferInstanceAs (Decidable (rowid ≠ 0))
  | .kdtree _, _ | .hybrid _, _ => inferInstanceAs (Decidable (_ ∧ _ ∧ _ ∧ _))
  | .hnsw _, rowid => inferInstanceAs (Decidable (rowid ≠ 0))
  | .ivf _, _ => inferInstanceAs (Decidable (_ ∧ _))

theorem DeleteSafe.ne_zero (h : index.DeleteSafe rowid) : rowid ≠ 0 := by
  cases index with
  | none => exact h
  | kdtree tree => exact h.1
  | hybrid tree => exact h.1
  | hnsw g => exact h
  | ivf f => exact h.1

def RoomSafe [LinearOrder α] (m : IndexMeta α) : Index α → Rowid → List α → Prop
  | .kdtree tree, rowid, _ | .hybrid tree, rowid, _ =>
    rowid.throughInt = rowid ∧ tree.root.shadowed rowid = 0 ∧ PointsFit tree
  | .hnsw h, _, _ => h.nodes.length < h.maxNodes
  | .ivf f, rowid, vec => Ivf.UpdateSafe m.distfunc m.farAway f rowid vec
  | .none, _, _ => True

instance [LinearOrder α] (m : IndexMeta α) : (index : Index α) → (rowid : Rowid) → (vec : List α) →
    Decidable (index.RoomSafe m rowid vec)
  | .none, _, _ => .isTrue trivial
  | .kdtree _, _, _ | .hybrid _, _, _ => inferInstanceAs (Decidable (_ ∧ _ ∧ _))
  | .hnsw _, _, _ => inferInstanceAs (Decidable (_ < _))
  | .ivf _, _, _ => inferInstanceAs (Decidable (Ivf.UpdateSafe _ _ _ _ _))

def UpdateSafe [LinearOrder α] (m : IndexMeta α) (index : Index α) (rowid : Rowid)
    (vec : List α) : Prop :=
  vec.length = m.dim ∧ index.RoomSafe m rowid vec

instance [LinearOrder α] (m : IndexMeta α) (index : Index α) (rowid : Rowid) (vec : List α) :
    Decidable (index.UpdateSafe m rowid vec) :=
  inferInstanceAs (Decidable (_ ∧ _))

end Index

open KdTree

section Tree

variable [LinearOrder α] [Inhabited α] (qs : Qsort (PointRec α)) {tree : KDTree α}

theorem entries_kdtreeInsert (vec : List α) (dims : Nat) :
    (kdtreeInsert qs tree vec rowid dims).1.root.entries = (rowid, vec) ::ₘ tree.root.entries := by
  rw [kdtreeInsert_eq, KDNode.entries, live_kdtreeInsertRec, Multiset.map_cons]
  rfl

theorem entries_kdtreeDelete (hfit : rowid.throughInt = rowid)
    (hshadow : tree.root.shadowed rowid = 0) :
    (kdtreeDelete qs tree rowid.toInt32).1.root.entries =
      tree.root.entries.filter (·.1 ≠ rowid) := by
  have hrowid : rowid.toInt32.toInt64 = rowid := hfit
  rw [KDNode.entries, live_kdtreeDelete, hrowid, hshadow, add_zero, KDNode.entries,
    Multiset.filter_map]
  rfl

omit [LinearOrder α] [Inhabited α] in
theorem root_ne_nil {x : Rowid × List α} (h : x ∈ tree.root.entries) : tree.root ≠ .nil := by
  intro hnil
  rw [hnil] at h
  exact Multiset.notMem_zero x h

theorem kdtreeDelete_rc (h : tree.root ≠ .nil) (rowid : Int32) :
    (kdtreeDelete qs tree rowid).2 = sqliteOk := by
  unfold kdtreeDelete
  split
  next hnil => exact absurd hnil h
  next => rfl

theorem entries_kdtreeUpdate {old : List α} (hmem : (rowid, old) ∈ tree.root.entries)
    (hfit : rowid.throughInt = rowid) (hshadow : tree.root.shadowed rowid = 0) (vec : List α)
    (dims : Nat) :
    (kdtreeUpdate qs tree rowid vec dims).1.root.entries =
      (rowid, vec) ::ₘ tree.root.entries.filter (·.1 ≠ rowid) := by
  rw [kdtreeUpdate_of_ne_nil (root_ne_nil hmem), entries_kdtreeInsert,
    entries_kdtreeDelete qs hfit hshadow]

end Tree

section Calls

variable [LinearOrder α] [Inhabited α] [Field α] (m : IndexMeta α) {f : Rowid → Option (List α)}
  {vec : List α}

theorem indexInsert_spec (hclean : index.Clean) (hsafe : index.InsertSafe m rowid vec) :
    (indexInsert m index vec rowid).1.Clean ∧
      ((indexInsert m index vec rowid).2 = sqliteOk ∧
          (indexInsert m index vec rowid).1.entries = (rowid, vec) ::ₘ index.entries ∨
        (indexInsert m index vec rowid).2 ≠ sqliteOk ∧
          (indexInsert m index vec rowid).1 = index) := by
  cases index with
  | none => exact hclean.elim
  | kdtree tree | hybrid tree =>
    refine ⟨trivial, .inl ⟨?_, entries_kdtreeInsert m.qs vec vec.length⟩⟩
    simp only [indexInsert, kdtreeInsert_eq, Prod.map_snd, id]
  | hnsw h =>
    rcases Nat.lt_or_ge h.nodes.length h.maxNodes with hroom | hfull
    · obtain ⟨hfit, hdim⟩ := hsafe hroom
      obtain ⟨hrc, hentries⟩ :=
        Hnsw.hnswAdd_spec m.distfunc m.randomLevel hroom vec rowid.toInt32
      rw [indexInsert, m.copy_eq hdim]
      refine ⟨trivial, .inl ⟨hrc, hentries.trans ?_⟩⟩
      rw [show rowid.toInt32.toInt64 = rowid from hfit]
      rfl
    · simp only [indexInsert, Hnsw.hnswAdd_full m.distfunc m.randomLevel hfull, Prod.map_fst,
        Prod.map_snd, id]
      exact ⟨trivial, .inr ⟨by decide, trivial⟩⟩
  | ivf ivf =>
    obtain ⟨hrc, hclean, hentries⟩ := Ivf.ivfInsert_spec m.distfunc m.rand hclean (rowid, vec)
    rw [indexInsert, m.copy_eq hsafe]
    exact ⟨hclean, .inl ⟨hrc, hentries⟩⟩

omit [Field α] in
theorem indexDelete_spec {old : List α} (hclean : index.Clean) (hkeyed : Keyed index.entries f)
    (hold : f rowid = some old) (hsafe : index.DeleteSafe rowid) :
    (indexDelete m index rowid).1.Clean ∧ (indexDelete m index rowid).2 = sqliteOk ∧
      Keyed (indexDelete m index rowid).1.entries (Function.update f rowid none) := by
  have hmem := (hkeyed.mem_iff rowid old).mpr hold
  cases index with
  | none => exact hclean.elim
  | kdtree tree | hybrid tree =>
    obtain ⟨-, hfit, hshadow, -⟩ := hsafe
    refine ⟨trivial, kdtreeDelete_rc m.qs (root_ne_nil hmem) _, ?_⟩
    have hkeyed := hkeyed.filter rowid
    rwa [Index.entries, ← entries_kdtreeDelete m.qs hfit hshadow] at hkeyed
  | hnsw h =>
    obtain ⟨hfit, i, hfind⟩ := Hnsw.findLive_of_mem hmem
    obtain ⟨vec, hentries⟩ := Hnsw.entries_mark hfind
    rw [show rowid.toInt32.toInt64 = rowid from hfit] at hentries
    simp only [indexDelete, Hnsw.hnswDelete, hfind]
    refine ⟨trivial, rfl, ?_⟩
    rw [Index.entries, hentries] at hkeyed
    exact hkeyed.uncons
  | ivf ivf =>
    obtain ⟨hclean, hrc, vec, hentries⟩ := Ivf.ivfDeleteVector_spec hclean hsafe.2
    rw [Index.entries, hentries] at hkeyed
    exact ⟨hclean, hrc, hkeyed.uncons⟩

omit [Field α] in
theorem indexUpdate_spec {old : List α} (hclean : index.Clean) (hkeyed : Keyed index.entries f)
    (hold : f rowid = some old) (hsafe : index.UpdateSafe m rowid vec) :
    (indexUpdate m index rowid vec).Clean ∧
      Keyed (indexUpdate m index rowid vec).entries (Function.update f rowid (some vec)) := by
  have hmem := (hkeyed.mem_iff rowid old).mpr hold
  obtain ⟨hdim, hsafe⟩ := hsafe
  simp only [indexUpdate, m.copy_eq hdim]
  cases index with
  | none => exact hclean.elim
  | kdtree tree | hybrid tree =>
    obtain ⟨hfit, hshadow, -⟩ := hsafe
    refine ⟨trivial, ?_⟩
    rw [Index.entries, entries_kdtreeUpdate m.qs hmem hfit hshadow]
    exact (hkeyed.filter rowid).recons vec
  | hnsw h =>
    obtain ⟨hfit, i, hfind⟩ := Hnsw.findLive_of_mem hmem
    obtain ⟨_, hentries⟩ := Hnsw.entries_mark hfind
    have hroom : (h.nodes.modify i Hnsw.HNSWNode.mark).length < h.maxNodes := by
      rw [List.length_modify]
      exact hsafe
    obtain ⟨-, hadded⟩ := @Hnsw.hnswAdd_spec _ _ m.distfunc m.randomLevel
      { h with nodes := h.nodes.modify i Hnsw.HNSWNode.mark } hroom vec rowid.toInt32
    rw [show rowid.toInt32.toInt64 = rowid from hfit] at hentries hadded
    refine ⟨trivial, ?_⟩
    rw [Index.entries, hentries] at hkeyed
    simp only [Index.entries, Hnsw.hnswUpdate, hfind, hadded]
    exact hkeyed.uncons.recons vec
  | ivf ivf =>
    obtain ⟨hclean, _, rest, hentries, hupdated⟩ :=
      Ivf.ivfUpdateVectorReinsert_spec m.distfunc m.farAway hclean hmem hsafe
    refine ⟨hclean, ?_⟩
    rw [Index.entries, hentries] at hkeyed
    rw [Index.entries, hupdated]
    exact hkeyed.uncons.recons vec

end Calls

end SqliteMultimodal.Vec
