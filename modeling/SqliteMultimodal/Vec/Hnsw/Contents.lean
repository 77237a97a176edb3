import Mathlib.Data.Multiset.AddSub
import SqliteMultimodal.Vec.Hnsw.Defs

namespace SqliteMultimodal.Vec.Hnsw

variable {α : Type}

def HNSWNode.entry (n : HNSWNode α) : Option (Rowid × List α) :=
  if n.deleted then none else some (n.rowid.toInt64, n.vec)

def entries (nodes : List (HNSWNode α)) : Multiset (Rowid × List α) :=
  nodes.filterMap HNSWNode.entry

theorem HNSWNode.entry_eq_some {n : HNSWNode α} {x : Rowid × List α} :
    n.entry = some x ↔ n.deleted = false ∧ (n.rowid.toInt64, n.vec) = x := by
  unfold HNSWNode.entry
  split <;> simp_all

theorem mem_entries {nodes : List (HNSWNode α)} {x : Rowid × List α} :
    x ∈ entries nodes ↔ ∃ n ∈ nodes, n.deleted = false ∧ (n.rowid.toInt64, n.vec) = x := by
  simp only [entries, Multiset.mem_coe, List.mem_filterMap, HNSWNode.entry_eq_some]

theorem HNSWNode.entry_addNbor (n : HNSWNode α) (id level : Nat) :
    (n.addNbor id level).entry = n.entry := by
  unfold HNSWNode.addNbor
  split <;> rfl

theorem entries_modify {f : HNSWNode α → HNSWNode α} (h : ∀ n, (f n).entry = n.entry)
    (nodes : List (HNSWNode α)) (i : Nat) : entries (nodes.modify i f) = entries nodes := by
  unfold entries
  congr 1
  induction nodes generalizing i with
  | nil => cases i <;> rfl
  | cons n nodes ih =>
    cases i with
    | zero => simp only [List.modify_zero_cons, List.filterMap_cons, h]
    | succ i => simp only [List.modify_succ_cons, List.filterMap_cons, ih]

theorem entries_connectNodes (nodes : List (HNSWNode α)) (a b level : Nat) :
    entries (connectNodes nodes a b level) = entries nodes :=
  entries_modify (fun n => n.entry_addNbor b level) nodes a

theorem entries_foldl {β : Type} {f : List (HNSWNode α) → β → List (HNSWNode α)}
    (h : ∀ nodes b, entries (f nodes b) = entries nodes) (bs : List β) (nodes : List (HNSWNode α)) :
    entries (bs.foldl f nodes) = entries nodes := by
  induction bs generalizing nodes with
  | nil => rfl
  | cons b bs ih => rw [List.foldl_cons, ih, h]

theorem entries_append_nodeCreate (nodes : List (HNSWNode α)) (rowid : Int32) (vec : List α)
    (level : Nat) : entries (nodes ++ [nodeCreate rowid vec level]) =
      (rowid.toInt64, vec) ::ₘ entries nodes := by
  unfold entries
  rw [List.filterMap_append, ← Multiset.coe_add, Multiset.add_comm]
  rfl

section Code

variable [LinearOrder α] (distfunc : List α → List α → α) (randomLevel : Nat → Nat)

theorem entries_linkLevel (id : Nat) (vec : List α) (nodes : List (HNSWNode α)) (level : Nat) :
    entries (linkLevel distfunc id vec nodes level) = entries nodes := by
  refine entries_foldl (fun nodes nid => ?_) _ _
  rw [entries_connectNodes, entries_connectNodes]

theorem hnswAdd_full {h : HNSW α} (hfull : h.maxNodes ≤ h.nodes.length) (vec : List α)
    (rowid : Int32) : hnswAdd distfunc randomLevel h vec rowid = (h, sqliteNomem) :=
  if_pos hfull

theorem hnswAdd_spec {h : HNSW α} (hroom : h.nodes.length < h.maxNodes) (vec : List α)
    (rowid : Int32) :
    (hnswAdd distfunc randomLevel h vec rowid).2 = sqliteOk ∧
      entries (hnswAdd distfunc randomLevel h vec rowid).1.nodes =
        (rowid.toInt64, vec) ::ₘ entries h.nodes := by
  unfold hnswAdd
  rw [if_neg (by omega)]
  dsimp only
  split
  · exact ⟨rfl, entries_append_nodeCreate ..⟩
  · have hlinked : ∀ levels : List Nat, entries (levels.foldl
        (linkLevel distfunc h.nodes.length vec)
        (h.nodes ++ [nodeCreate rowid vec (randomLevel h.nodes.length)])) =
          (rowid.toInt64, vec) ::ₘ entries h.nodes := fun levels => by
      rw [entries_foldl (entries_linkLevel distfunc _ vec), entries_append_nodeCreate]
    split
    · exact ⟨rfl, hlinked _⟩
    · exact ⟨rfl, hlinked _⟩

end Code

theorem entries_mark {nodes : List (HNSWNode α)} {rowid : Int32} {i : Nat}
    (h : findLive nodes rowid = some i) :
    ∃ vec, entries nodes = (rowid.toInt64, vec) ::ₘ entries (nodes.modify i HNSWNode.mark) := by
  unfold findLive at h
  unfold entries
  induction nodes generalizing i with
  | nil => simp at h
  | cons n nodes ih =>
    rw [List.findIdx?_cons] at h
    split at h
    next hn =>
      obtain rfl := Option.some.inj h
      simp only [Bool.not_eq_true', decide_eq_true_eq] at hn
      obtain ⟨rfl, hlive⟩ := hn
      exact ⟨n.vec, by simp [HNSWNode.entry, HNSWNode.mark, hlive]⟩
    next hn =>
      obtain ⟨j, hj, rfl⟩ := Option.map_eq_some_iff.mp h
      obtain ⟨vec, hvec⟩ := ih hj
      refine ⟨vec, ?_⟩
      rw [List.modify_succ_cons, List.filterMap_cons, List.filterMap_cons]
      cases n.entry with
      | none => exact hvec
      | some x =>
        rw [← Multiset.cons_coe, ← Multiset.cons_coe, hvec, Multiset.cons_swap]

theorem findLive_of_mem {nodes : List (HNSWNode α)} {r : Rowid} {vec : List α}
    (h : (r, vec) ∈ entries nodes) :
    r.throughInt = r ∧ ∃ i, findLive nodes r.toInt32 = some i := by
  obtain ⟨n, hn, hlive, heq⟩ := mem_entries.mp h
  obtain ⟨rfl, -⟩ := Prod.mk.inj heq
  have hrowid : n.rowid.toInt64.toInt32 = n.rowid := Int32.toInt32_toInt64 n.rowid
  refine ⟨congrArg Int32.toInt64 hrowid, ?_⟩
  rw [hrowid, findLive, ← Option.isSome_iff_exists, List.findIdx?_isSome, List.any_eq_true]
  exact ⟨n, hn, by simp [hlive]⟩

end SqliteMultimodal.Vec.Hnsw
