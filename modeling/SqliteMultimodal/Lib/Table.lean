import Mathlib.Data.List.Basic
import Mathlib.Data.List.Nodup

universe u v

structure Table (κ : Type u) (ρ : Type v) where
  rows : List (κ × ρ)
  nodup : (rows.map Prod.fst).Nodup

namespace Table

variable {κ : Type u} {ρ : Type v}

def keys (t : Table κ ρ) : List κ := t.rows.map Prod.fst

def empty : Table κ ρ := ⟨[], List.nodup_nil⟩

theorem nodup_rows (t : Table κ ρ) : t.rows.Nodup := List.Nodup.of_map _ t.nodup

variable [DecidableEq κ]

def get (t : Table κ ρ) (k : κ) : Option ρ := (t.rows.find? (·.1 = k)).map Prod.snd

def insert (t : Table κ ρ) (k : κ) (r : ρ) : Option (Table κ ρ) :=
  if h : k ∈ t.keys then none
  else some ⟨t.rows ++ [(k, r)], by
    rw [List.map_append, List.nodup_append]
    exact ⟨t.nodup, List.nodup_singleton k, by rintro a ha b hb rfl; exact h (by simp_all [keys])⟩⟩

def modify (t : Table κ ρ) (k : κ) (f : ρ → ρ) : Table κ ρ :=
  ⟨t.rows.map fun x => if x.1 = k then (x.1, f x.2) else x, by
    have : (t.rows.map fun x => if x.1 = k then (x.1, f x.2) else x).map Prod.fst =
        t.rows.map Prod.fst := by
      rw [List.map_map]
      exact List.map_congr_left fun x _ => by simp only [Function.comp]; split <;> rfl
    rw [this]
    exact t.nodup⟩

def delete (t : Table κ ρ) (k : κ) : Table κ ρ :=
  ⟨t.rows.filter (·.1 ≠ k), t.nodup.sublist (List.filter_sublist.map _)⟩

theorem get_eq_some {t : Table κ ρ} {k : κ} {r : ρ} : t.get k = some r ↔ (k, r) ∈ t.rows := by
  constructor
  · intro h
    obtain ⟨x, hx, rfl⟩ := Option.map_eq_some_iff.mp h
    have hk := List.find?_some hx
    rw [decide_eq_true_eq] at hk
    subst hk
    exact List.mem_of_find?_eq_some hx
  · intro h
    have hfind : t.rows.find? (·.1 = k) = some (k, r) := by
      cases hf : t.rows.find? (·.1 = k) with
      | none => simpa using List.find?_eq_none.mp hf _ h
      | some x =>
        have hk := List.find?_some hf
        rw [decide_eq_true_eq] at hk
        rw [List.inj_on_of_nodup_map t.nodup (List.mem_of_find?_eq_some hf) h hk]
    rw [get, hfind]
    rfl

theorem get_eq_none {t : Table κ ρ} {k : κ} : t.get k = none ↔ k ∉ t.keys := by
  simp only [get, Option.map_eq_none_iff, List.find?_eq_none, decide_eq_true_eq, keys,
    List.mem_map, not_exists, not_and]

@[simp] theorem get_empty (k : κ) : (empty : Table κ ρ).get k = none := rfl

theorem ext_get {t : Table κ ρ} {k : κ} {o : Option ρ}
    (h : ∀ r, (k, r) ∈ t.rows ↔ o = some r) : t.get k = o := by
  cases o with
  | some r => exact get_eq_some.mpr ((h r).mpr rfl)
  | none =>
    rw [get_eq_none]
    intro hk
    obtain ⟨⟨j, r⟩, hx, rfl⟩ := List.mem_map.mp hk
    simpa using (h r).mp hx

theorem insert_eq_some {t t' : Table κ ρ} {k : κ} {r : ρ} (h : t.insert k r = some t') :
    t.get k = none ∧ t'.rows = t.rows ++ [(k, r)] := by
  unfold insert at h
  split at h
  · simp at h
  next hk =>
    obtain rfl := Option.some.inj h
    exact ⟨get_eq_none.mpr hk, rfl⟩

theorem get_insert {t t' : Table κ ρ} {k : κ} {r : ρ} (h : t.insert k r = some t') (j : κ) :
    t'.get j = if j = k then some r else t.get j := by
  obtain ⟨hnone, hrows⟩ := insert_eq_some h
  apply ext_get
  intro r'
  rw [hrows, List.mem_append, List.mem_singleton, ← get_eq_some, Prod.mk.injEq]
  by_cases hj : j = k
  · subst hj
    simp [hnone, eq_comm]
  · simp [hj]

@[simp] theorem get_modify (t : Table κ ρ) (k : κ) (f : ρ → ρ) (j : κ) :
    (t.modify k f).get j = if j = k then (t.get j).map f else t.get j := by
  apply ext_get
  intro r
  simp only [modify, List.mem_map, Prod.exists]
  by_cases hj : j = k
  · subst hj
    simp only [if_true, Option.map_eq_some_iff, get_eq_some]
    constructor
    · rintro ⟨i, r', hmem, heq⟩
      split at heq
      next hi =>
        obtain rfl : i = j := hi
        simp only [Prod.mk.injEq, true_and] at heq
        exact ⟨r', hmem, heq⟩
      next hi => exact absurd (congrArg Prod.fst heq) hi
    · rintro ⟨r', hmem, rfl⟩
      exact ⟨j, r', hmem, by simp⟩
  · simp only [if_neg hj, get_eq_some]
    constructor
    · rintro ⟨i, r', hmem, heq⟩
      split at heq
      next hi =>
        simp only [Prod.mk.injEq] at heq
        exact absurd (heq.1.symm.trans hi) hj
      next => rwa [← heq]
    · intro hmem
      exact ⟨j, r, hmem, by rw [if_neg hj]⟩

@[simp] theorem get_delete (t : Table κ ρ) (k j : κ) :
    (t.delete k).get j = if j = k then none else t.get j := by
  apply ext_get
  intro r
  simp only [delete, List.mem_filter, decide_eq_true_eq]
  by_cases hj : j = k
  · simp [hj]
  · simp [hj, get_eq_some]

theorem perm_cons {t t' : Table κ ρ} {k : κ} {r : ρ} (hnone : t.get k = none)
    (h : ∀ j, t'.get j = if j = k then some r else t.get j) : t'.rows.Perm ((k, r) :: t.rows) := by
  have hnotin : (k, r) ∉ t.rows := by
    intro hmem
    rw [get_eq_some.mpr hmem] at hnone
    cases hnone
  refine (List.perm_ext_iff_of_nodup t'.nodup_rows
    (List.nodup_cons.mpr ⟨hnotin, t.nodup_rows⟩)).mpr fun x => ?_
  obtain ⟨j, r'⟩ := x
  rw [List.mem_cons, ← get_eq_some, ← get_eq_some, h, Prod.mk.injEq]
  by_cases hj : j = k
  · subst hj
    simp [hnone, eq_comm]
  · simp [hj]

theorem perm_delete {t : Table κ ρ} {k : κ} {r : ρ} (hsome : t.get k = some r) :
    t.rows.Perm ((k, r) :: (t.delete k).rows) := by
  refine perm_cons (by rw [get_delete, if_pos rfl]) fun j => ?_
  rw [get_delete]
  by_cases hj : j = k
  · rw [if_pos hj, hj, hsome]
  · rw [if_neg hj, if_neg hj]

theorem perm_replace {t t' : Table κ ρ} {k : κ} {r : ρ}
    (h : ∀ j, t'.get j = if j = k then some r else t.get j) :
    t'.rows.Perm ((k, r) :: (t.delete k).rows) := by
  refine perm_cons (by rw [get_delete, if_pos rfl]) fun j => ?_
  rw [h, get_delete]
  by_cases hj : j = k
  · rw [if_pos hj, if_pos hj]
  · rw [if_neg hj, if_neg hj, if_neg hj]

theorem keys_modify (t : Table κ ρ) (k : κ) (f : ρ → ρ) : (t.modify k f).keys = t.keys := by
  simp only [keys, modify, List.map_map]
  exact List.map_congr_left fun x _ => by simp only [Function.comp]; split <;> rfl

end Table

structure AutoTable (ρ : Type v) extends Table Int64 ρ where
  seq : Int64
  le_seq : ∀ k ∈ toTable.keys, k.toInt ≤ seq.toInt

namespace AutoTable

variable {ρ : Type v}

def empty : AutoTable ρ := ⟨Table.empty, 0, by simp [Table.keys, Table.empty]⟩

def maxKey : Int64 := Int64.maxValue

theorem toInt_add_one {k : Int64} (h : k ≠ maxKey) : (k + 1).toInt = k.toInt + 1 := by
  have hlt : k.toInt < 2 ^ 63 - 1 := by
    have hne : k.toInt ≠ 2 ^ 63 - 1 := fun heq => h (Int64.toInt_inj.mp heq)
    have := k.toInt_lt
    omega
  have hle := k.le_toInt
  rw [Int64.toInt_add, show (1 : Int64).toInt = 1 from rfl]
  exact Int.bmod_eq_of_le (by omega) (by omega)

def insertRowid (t : AutoTable ρ) (k : Int64) (r : ρ) : Option (AutoTable ρ) :=
  match h : t.toTable.insert k r with
  | none => none
  | some t' => some ⟨t', if t.seq.toInt < k.toInt then k else t.seq, fun j hj => by
      rw [Table.keys, (Table.insert_eq_some h).2, List.map_append, List.mem_append] at hj
      obtain hj | hj := hj
      · have := t.le_seq j hj
        split <;> omega
      · obtain rfl : j = k := by simpa using hj
        split <;> omega⟩

def insertAuto (t : AutoTable ρ) (r : ρ) : Option (Int64 × AutoTable ρ) :=
  if t.seq = maxKey then none else (t.insertRowid (t.seq + 1) r).map fun t' => (t.seq + 1, t')

def modify (t : AutoTable ρ) (k : Int64) (f : ρ → ρ) : AutoTable ρ :=
  ⟨t.toTable.modify k f, t.seq, fun j hj =>
    t.le_seq j (Table.keys_modify t.toTable k f ▸ hj)⟩

def delete (t : AutoTable ρ) (k : Int64) : AutoTable ρ :=
  ⟨t.toTable.delete k, t.seq, fun j hj =>
    t.le_seq j ((List.filter_sublist.map Prod.fst).subset hj)⟩

def maxWhere (t : AutoTable ρ) (p : ρ → Bool) : Option Int64 :=
  ((t.rows.filter fun x => p x.2).map Prod.fst).max?

variable {t t' : AutoTable ρ} {k : Int64} {r : ρ}

theorem insertRowid_eq_some (h : t.insertRowid k r = some t') :
    t.get k = none ∧ (∀ j, t'.get j = if j = k then some r else t.get j) := by
  unfold insertRowid at h
  split at h
  · simp at h
  next hins =>
    obtain rfl := Option.some.inj h
    exact ⟨(Table.insert_eq_some hins).1, Table.get_insert hins⟩

theorem insertAuto_eq_some (h : t.insertAuto r = some (k, t')) :
    t.insertRowid k r = some t' ∧ t.seq.toInt < k.toInt := by
  unfold insertAuto at h
  split at h
  · simp at h
  next hmax =>
    obtain ⟨t'', hins, heq⟩ := Option.map_eq_some_iff.mp h
    obtain ⟨rfl, rfl⟩ := Prod.mk.inj heq
    exact ⟨hins, by rw [toInt_add_one hmax]; omega⟩

@[simp] theorem get_modify (t : AutoTable ρ) (k : Int64) (f : ρ → ρ) (j : Int64) :
    (t.modify k f).get j = if j = k then (t.get j).map f else t.get j :=
  Table.get_modify t.toTable k f j

@[simp] theorem get_delete (t : AutoTable ρ) (k j : Int64) :
    (t.delete k).get j = if j = k then none else t.get j :=
  Table.get_delete t.toTable k j

theorem maxWhere_eq_some {p : ρ → Bool} (h : t.maxWhere p = some k) :
    ∃ r, t.get k = some r ∧ p r = true := by
  have : Std.MaxEqOr Int64 := ⟨fun a b => by
    show (if a ≤ b then b else a) = a ∨ _
    split
    next hab => exact .inr (if_pos hab)
    next => exact .inl rfl⟩
  have hmem := List.max?_mem h
  obtain ⟨⟨j, r⟩, hx, rfl⟩ := List.mem_map.mp hmem
  obtain ⟨hx, hp⟩ := List.mem_filter.mp hx
  exact ⟨r, Table.get_eq_some.mpr hx, hp⟩

theorem maxWhere_eq_none {p : ρ → Bool} :
    t.maxWhere p = none ↔ ∀ k r, t.get k = some r → p r = false := by
  rw [maxWhere, List.max?_eq_none_iff, List.map_eq_nil_iff, List.filter_eq_nil_iff]
  constructor
  · intro h k r hr
    simpa using h (k, r) (Table.get_eq_some.mp hr)
  · rintro h ⟨k, r⟩ hx
    simp [h k r (Table.get_eq_some.mpr hx)]

theorem toInt_le_foldl_max (xs : List Int64) (a : Int64) :
    a.toInt ≤ (xs.foldl max a).toInt ∧ ∀ b ∈ xs, b.toInt ≤ (xs.foldl max a).toInt := by
  have hmax : ∀ a b : Int64, a.toInt ≤ (max a b).toInt ∧ b.toInt ≤ (max a b).toInt := by
    intro a b
    show _ ≤ (if a ≤ b then b else a).toInt ∧ _ ≤ (if a ≤ b then b else a).toInt
    split
    next h => exact ⟨Int64.le_iff_toInt_le.mp h, Int.le_refl _⟩
    next h =>
      rw [Int64.le_iff_toInt_le] at h
      exact ⟨Int.le_refl _, by omega⟩
  induction xs generalizing a with
  | nil => exact ⟨Int.le_refl _, fun b hb => absurd hb List.not_mem_nil⟩
  | cons x xs ih =>
    obtain ⟨hle, hall⟩ := ih (max a x)
    refine ⟨Int.le_trans (hmax a x).1 hle, fun b hb => ?_⟩
    obtain rfl | hb := List.mem_cons.mp hb
    · exact Int.le_trans (hmax a b).2 hle
    · exact hall b hb

theorem le_maxWhere {p : ρ → Bool} (h : t.maxWhere p = some k) {j : Int64} {r : ρ}
    (hr : t.get j = some r) (hp : p r = true) : j.toInt ≤ k.toInt := by
  have hmem : j ∈ (t.rows.filter fun x => p x.2).map Prod.fst :=
    List.mem_map.mpr ⟨(j, r), List.mem_filter.mpr ⟨Table.get_eq_some.mp hr, hp⟩, rfl⟩
  rw [maxWhere] at h
  cases hkeys : (t.rows.filter fun x => p x.2).map Prod.fst with
  | nil =>
    rw [hkeys] at hmem
    exact absurd hmem List.not_mem_nil
  | cons x xs =>
    rw [hkeys, List.max?_cons'] at h
    obtain rfl := Option.some.inj h
    rw [hkeys] at hmem
    obtain ⟨hle, hall⟩ := toInt_le_foldl_max xs x
    obtain rfl | hmem := List.mem_cons.mp hmem
    · exact hle
    · exact hall j hmem

end AutoTable
