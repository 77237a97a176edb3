import Mathlib.Data.List.Sort
import Mathlib.Order.Defs.LinearOrder
import SqliteMultimodal.Lib.Table

universe u

structure RowTable (ρ : Type u) where
  rows : List (Int × ρ)
  sorted : rows.Pairwise fun x y => x.1 < y.1
  deriving DecidableEq

namespace RowTable

variable {ρ : Type u}

def empty : RowTable ρ := ⟨[], .nil⟩

def toTable (t : RowTable ρ) : Table Int ρ :=
  ⟨t.rows, List.pairwise_map.mpr (t.sorted.imp fun hlt => ne_of_lt hlt)⟩

def get (t : RowTable ρ) (k : Int) : Option ρ := t.toTable.get k

def filter (t : RowTable ρ) (p : Int → ρ → Bool) : RowTable ρ :=
  ⟨t.rows.filter fun x => p x.1 x.2, t.sorted.filter _⟩

def delete (t : RowTable ρ) (k : Int) : RowTable ρ := t.filter fun j _ => j ≠ k

def modify (t : RowTable ρ) (k : Int) (f : ρ → ρ) : RowTable ρ :=
  ⟨t.rows.map fun x => (x.1, if x.1 = k then f x.2 else x.2), List.pairwise_map.mpr t.sorted⟩

def insertRow (k : Int) (r : ρ) : List (Int × ρ) → List (Int × ρ)
  | [] => [(k, r)]
  | x :: xs => if k < x.1 then (k, r) :: x :: xs else x :: insertRow k r xs

theorem mem_insertRow {k : Int} {r : ρ} {rows : List (Int × ρ)} {x : Int × ρ} :
    x ∈ insertRow k r rows ↔ x = (k, r) ∨ x ∈ rows := by
  induction rows with
  | nil => rw [insertRow, List.mem_singleton]; simp
  | cons y rows ih =>
    unfold insertRow
    split
    · rw [List.mem_cons]
    · rw [List.mem_cons, ih, List.mem_cons]
      exact or_left_comm

theorem sorted_insertRow {k : Int} (r : ρ) {rows : List (Int × ρ)}
    (h : rows.Pairwise fun x y => x.1 < y.1) (hk : ∀ x ∈ rows, x.1 ≠ k) :
    (insertRow k r rows).Pairwise fun x y => x.1 < y.1 := by
  induction rows with
  | nil => exact List.pairwise_singleton _ _
  | cons y rows ih =>
    obtain ⟨hy, hrows⟩ := List.pairwise_cons.mp h
    unfold insertRow
    split
    next hlt =>
      refine List.pairwise_cons.mpr ⟨fun x hx => ?_, h⟩
      obtain rfl | hx := List.mem_cons.mp hx
      · exact hlt
      · exact hlt.trans (hy x hx)
    next hge =>
      have hne := hk y List.mem_cons_self
      refine List.pairwise_cons.mpr
        ⟨fun x hx => ?_, ih hrows fun x hx => hk x (List.mem_cons_of_mem y hx)⟩
      obtain rfl | hx := mem_insertRow.mp hx
      · exact lt_of_le_of_ne (not_lt.mp hge) hne
      · exact hy x hx

theorem get_eq_some {t : RowTable ρ} {k : Int} {r : ρ} : t.get k = some r ↔ (k, r) ∈ t.rows :=
  Table.get_eq_some

theorem get_eq_none {t : RowTable ρ} {k : Int} : t.get k = none ↔ ∀ x ∈ t.rows, x.1 ≠ k := by
  rw [get, Table.get_eq_none, Table.keys, List.mem_map, not_exists]
  simp only [not_and, ne_eq]
  rfl

theorem get_ne_none {t : RowTable ρ} {x : Int × ρ} (h : x ∈ t.rows) : t.get x.1 ≠ none := by
  rw [get_eq_some.mpr h]
  exact Option.some_ne_none _

theorem get_eq_of_iff {t : RowTable ρ} {k : Int} {o : Option ρ}
    (h : ∀ r, (k, r) ∈ t.rows ↔ o = some r) : t.get k = o :=
  Table.ext_get h

theorem ext_get {t t' : RowTable ρ} (h : ∀ k, t.get k = t'.get k) : t = t' := by
  have hmem : ∀ x, x ∈ t.rows ↔ x ∈ t'.rows := fun ⟨k, r⟩ => by
    rw [← get_eq_some, ← get_eq_some, h]
  have hnodup : ∀ s : RowTable ρ, s.rows.Nodup := fun s =>
    s.sorted.imp fun hlt heq => absurd (congrArg Prod.fst heq) (ne_of_lt hlt)
  have hperm := (List.perm_ext_iff_of_nodup (hnodup t) (hnodup t')).mpr hmem
  have hrows : t.rows = t'.rows := hperm.eq_of_pairwise
    (fun x y _ _ hxy hyx => absurd (hxy.trans hyx) (lt_irrefl _)) t.sorted t'.sorted
  cases t
  cases t'
  cases hrows
  rfl

def insert (t : RowTable ρ) (k : Int) (r : ρ) : Option (RowTable ρ) :=
  if h : t.get k = none then
    some ⟨insertRow k r t.rows, sorted_insertRow r t.sorted (get_eq_none.mp h)⟩
  else none

@[simp] theorem get_empty (k : Int) : (empty : RowTable ρ).get k = none := rfl

theorem get_filter (t : RowTable ρ) (p : Int → ρ → Bool) (k : Int) :
    (t.filter p).get k = (t.get k).filter (p k) := by
  refine get_eq_of_iff fun r => ?_
  rw [filter, List.mem_filter, Option.filter_eq_some_iff, get_eq_some]

@[simp] theorem get_delete (t : RowTable ρ) (k j : Int) :
    (t.delete k).get j = if j = k then none else t.get j := by
  rw [delete, get_filter]
  by_cases hj : j = k
  · rw [if_pos hj]
    cases t.get j <;> simp [hj, Option.filter]
  · rw [if_neg hj]
    cases t.get j <;> simp [hj, Option.filter]

@[simp] theorem get_modify (t : RowTable ρ) (k : Int) (f : ρ → ρ) (j : Int) :
    (t.modify k f).get j = if j = k then (t.get j).map f else t.get j := by
  refine get_eq_of_iff fun r => ?_
  simp only [modify, List.mem_map, Prod.mk.injEq, Prod.exists]
  by_cases hj : j = k
  · subst hj
    rw [if_pos rfl, Option.map_eq_some_iff]
    constructor
    · rintro ⟨i, r', hmem, rfl, rfl⟩
      exact ⟨r', get_eq_some.mpr hmem, by rw [if_pos rfl]⟩
    · rintro ⟨r', hget, rfl⟩
      exact ⟨j, r', get_eq_some.mp hget, rfl, by rw [if_pos rfl]⟩
  · rw [if_neg hj]
    constructor
    · rintro ⟨i, r', hmem, rfl, rfl⟩
      rw [if_neg hj]
      exact get_eq_some.mpr hmem
    · intro hget
      exact ⟨j, r, get_eq_some.mp hget, rfl, by rw [if_neg hj]⟩

theorem insert_eq_some {t t' : RowTable ρ} {k : Int} {r : ρ} (h : t.insert k r = some t') :
    t.get k = none ∧ ∀ j, t'.get j = if j = k then some r else t.get j := by
  unfold insert at h
  split at h
  next hnone =>
    obtain rfl := Option.some.inj h
    refine ⟨hnone, fun j => get_eq_of_iff fun r' => ?_⟩
    rw [mem_insertRow, Prod.mk.injEq, ← get_eq_some]
    by_cases hj : j = k
    · subst hj
      simp [hnone, eq_comm]
    · simp [hj]
  next => simp at h

theorem insert_eq_none {t : RowTable ρ} {k : Int} {r : ρ} :
    t.insert k r = none ↔ t.get k ≠ none := by
  unfold insert
  split
  next h => simp [h]
  next h => simp [h]

def put (t : RowTable ρ) (k : Int) (r : ρ) : RowTable ρ :=
  ⟨insertRow k r (t.delete k).rows,
    sorted_insertRow r (t.delete k).sorted (get_eq_none.mp (by simp))⟩

@[simp] theorem get_put (t : RowTable ρ) (k : Int) (r : ρ) (j : Int) :
    (t.put k r).get j = if j = k then some r else t.get j := by
  refine get_eq_of_iff fun r' => ?_
  rw [put, mem_insertRow, Prod.mk.injEq, ← get_eq_some, get_delete]
  by_cases hj : j = k
  · simp [hj, eq_comm]
  · simp [hj]

theorem filter_key (t : RowTable ρ) (k : Int) :
    (t.rows.filter fun x => x.1 = k) = ((t.get k).map fun r => (k, r)).toList := by
  cases h : t.get k with
  | none => exact List.filter_eq_nil_iff.mpr fun x hx => by simpa using get_eq_none.mp h x hx
  | some r =>
    obtain ⟨rows, rows', hrows⟩ := List.append_of_mem (get_eq_some.mp h)
    have hsorted := t.sorted
    rw [hrows, List.pairwise_append, List.pairwise_cons] at hsorted
    obtain ⟨-, ⟨hafter, -⟩, hbefore⟩ := hsorted
    have hbefore' : (rows.filter fun x => x.1 = k) = [] :=
      List.filter_eq_nil_iff.mpr fun x hx => by
        simpa using ne_of_lt (hbefore x hx (k, r) List.mem_cons_self)
    have hafter' : (rows'.filter fun x => x.1 = k) = [] :=
      List.filter_eq_nil_iff.mpr fun x hx => by simpa using ne_of_gt (hafter x hx)
    rw [hrows, List.filter_append, List.filter_cons, hbefore', hafter']
    simp

def nextKey (t : RowTable ρ) : Int := (t.rows.getLast?.map (·.1 + 1)).getD 1

theorem nextKey_cases (t : RowTable ρ) :
    (t.rows = [] ∧ t.nextKey = 1) ∨
      ∃ rows x, t.rows = rows ++ [x] ∧ t.nextKey = x.1 + 1 := by
  obtain h | ⟨rows, x, h⟩ := t.rows.eq_nil_or_concat
  · exact .inl ⟨h, by simp [nextKey, h]⟩
  · exact .inr ⟨rows, x, by rw [h, List.concat_eq_append], by simp [nextKey, h]⟩

theorem lt_nextKey {t : RowTable ρ} {k : Int} (h : t.get k ≠ none) : k < t.nextKey := by
  obtain ⟨r, hr⟩ := Option.ne_none_iff_exists'.mp h
  have hmem := get_eq_some.mp hr
  obtain ⟨hnil, -⟩ | ⟨rows, x, hrows, hnext⟩ := t.nextKey_cases
  · rw [hnil] at hmem
    exact absurd hmem List.not_mem_nil
  · have hsorted := t.sorted
    rw [hrows, List.pairwise_append] at hsorted
    rw [hrows, List.mem_append, List.mem_singleton] at hmem
    rw [hnext]
    obtain hmem | rfl := hmem
    · exact (hsorted.2.2 _ hmem x (List.mem_singleton.mpr rfl)).trans (Int.lt_succ _)
    · exact Int.lt_succ _

theorem get_nextKey (t : RowTable ρ) : t.get t.nextKey = none :=
  Decidable.of_not_not fun h => lt_irrefl _ (lt_nextKey h)

theorem nextKey_pred (t : RowTable ρ) : t.nextKey = 1 ∨ t.get (t.nextKey - 1) ≠ none := by
  obtain ⟨-, hnext⟩ | ⟨rows, x, hrows, hnext⟩ := t.nextKey_cases
  · exact .inl hnext
  · refine .inr fun hnone => ?_
    have hmem : x ∈ t.rows := by rw [hrows]; simp
    rw [hnext, Int.add_sub_cancel, get_eq_none] at hnone
    exact hnone x hmem rfl

end RowTable
