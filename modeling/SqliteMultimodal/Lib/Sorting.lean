import Mathlib.Data.List.Perm.Basic
import Mathlib.Order.Lattice

universe u v

namespace Sorting

variable {β : Type u} {D : Type v} [LinearOrder D] (key : β → D)

def exchangePass : β → List β → β × List β
  | x, [] => (x, [])
  | x, y :: ys =>
    if key y < key x then
      let (m, rest) := exchangePass y ys
      (m, x :: rest)
    else
      let (m, rest) := exchangePass x ys
      (m, y :: rest)

def exchangeSortFuel : Nat → List β → List β
  | 0, xs => xs
  | _ + 1, [] => []
  | n + 1, x :: xs =>
    let (m, rest) := exchangePass key x xs
    m :: exchangeSortFuel n rest

def exchangeSort (xs : List β) : List β := exchangeSortFuel key xs.length xs

theorem exchangePass_perm (x : β) (xs : List β) :
    ((exchangePass key x xs).1 :: (exchangePass key x xs).2).Perm (x :: xs) := by
  induction xs generalizing x with
  | nil => exact .refl _
  | cons y ys ih =>
    unfold exchangePass
    split
    · exact ((List.Perm.swap ..).trans ((ih y).cons x))
    · exact ((List.Perm.swap ..).trans ((ih x).cons y)).trans (List.Perm.swap ..)

theorem exchangePass_le (x : β) (xs : List β) :
    key (exchangePass key x xs).1 ≤ key x ∧
      ∀ y ∈ (exchangePass key x xs).2, key (exchangePass key x xs).1 ≤ key y := by
  induction xs generalizing x with
  | nil => exact ⟨le_rfl, by simp [exchangePass]⟩
  | cons y ys ih =>
    unfold exchangePass
    split
    next hlt =>
      obtain ⟨hle, hall⟩ := ih y
      refine ⟨hle.trans hlt.le, fun z hz => ?_⟩
      obtain rfl | hz := List.mem_cons.mp hz
      · exact hle.trans hlt.le
      · exact hall z hz
    next hlt =>
      obtain ⟨hle, hall⟩ := ih x
      refine ⟨hle, fun z hz => ?_⟩
      obtain rfl | hz := List.mem_cons.mp hz
      · exact hle.trans (not_lt.mp hlt)
      · exact hall z hz

theorem exchangeSortFuel_perm (n : Nat) (xs : List β) : (exchangeSortFuel key n xs).Perm xs := by
  induction n generalizing xs with
  | zero => exact .refl _
  | succ n ih =>
    cases xs with
    | nil => exact .refl _
    | cons x xs => exact ((ih _).cons _).trans (exchangePass_perm key x xs)

theorem exchangeSort_perm (xs : List β) : (exchangeSort key xs).Perm xs :=
  exchangeSortFuel_perm key _ xs

theorem exchangeSortFuel_sorted {n : Nat} {xs : List β} (h : xs.length ≤ n) :
    (exchangeSortFuel key n xs).Pairwise fun a b => key a ≤ key b := by
  induction n generalizing xs with
  | zero =>
    obtain rfl := List.length_eq_zero_iff.mp (Nat.le_zero.mp h)
    exact .nil
  | succ n ih =>
    cases xs with
    | nil => exact .nil
    | cons x xs =>
      have hlen := (exchangePass_perm key x xs).length_eq
      refine List.pairwise_cons.mpr ⟨fun y hy => ?_, ih ?_⟩
      · exact (exchangePass_le key x xs).2 y ((exchangeSortFuel_perm key n _).mem_iff.mp hy)
      · simp only [List.length_cons] at h hlen
        omega

theorem exchangeSort_sorted (xs : List β) :
    (exchangeSort key xs).Pairwise fun a b => key a ≤ key b :=
  exchangeSortFuel_sorted key (Nat.le_refl _)

section Map

universe w

variable {γ : Type w} {key} {key' : γ → D} {f : β → γ} (h : ∀ x, key' (f x) = key x)

include h

theorem exchangePass_map (x : β) (xs : List β) :
    exchangePass key' (f x) (xs.map f) =
      (f (exchangePass key x xs).1, (exchangePass key x xs).2.map f) := by
  induction xs generalizing x with
  | nil => rfl
  | cons y ys ih =>
    simp only [List.map_cons, exchangePass, h, ih]
    split <;> rfl

theorem exchangeSortFuel_map (n : Nat) (xs : List β) :
    exchangeSortFuel key' n (xs.map f) = (exchangeSortFuel key n xs).map f := by
  induction n generalizing xs with
  | zero => rfl
  | succ n ih =>
    cases xs with
    | nil => rfl
    | cons x xs => simp only [List.map_cons, exchangeSortFuel, exchangePass_map h, ih]

theorem exchangeSort_map (xs : List β) :
    exchangeSort key' (xs.map f) = (exchangeSort key xs).map f := by
  rw [exchangeSort, List.length_map, exchangeSortFuel_map h, exchangeSort]

end Map

section Heap

variable [Inhabited β]

def largest (heap : List β) (idx : Nat) : Nat :=
  let l := idx * 2 + 1
  let r := l + 1
  let m := if l < heap.length ∧ key (heap.getD l default) > key (heap.getD idx default)
    then l else idx
  if r < heap.length ∧ key (heap.getD r default) > key (heap.getD m default) then r else m

def swap (heap : List β) (i j : Nat) : List β :=
  (heap.set i (heap.getD j default)).set j (heap.getD i default)

def siftDownFuel : Nat → List β → Nat → List β
  | 0, heap, _ => heap
  | n + 1, heap, idx =>
    let m := largest key heap idx
    if m = idx then heap else siftDownFuel n (swap heap idx m) m

def siftDown (heap : List β) (idx : Nat) : List β := siftDownFuel key heap.length heap idx

def drain : Nat → List β → List β → List β
  | 0, _, buf => buf
  | n + 1, heap, buf =>
    let rest := (heap.set 0 (heap.getD (heap.length - 1) default)).dropLast
    drain n (siftDown key rest 0) (heap.getD 0 default :: buf)

theorem largest_cases (heap : List β) (idx : Nat) :
    largest key heap idx = idx ∨ idx < largest key heap idx ∧ largest key heap idx < heap.length := by
  unfold largest
  dsimp only
  split_ifs with h₁ h₂ h₂
  · exact .inr ⟨by omega, h₂.1⟩
  · exact .inr ⟨by omega, h₁.1⟩
  · exact .inr ⟨by omega, h₂.1⟩
  · exact .inl rfl

theorem swap_perm {heap : List β} {i j : Nat} (hi : i < heap.length) (hj : j < heap.length) :
    (swap heap i j).Perm heap := by
  rw [swap, List.getD_eq_getElem?_getD, List.getD_eq_getElem?_getD, List.getElem?_eq_getElem hi,
    List.getElem?_eq_getElem hj, Option.getD_some, Option.getD_some]
  exact List.set_set_perm hi hj

theorem siftDownFuel_perm (n : Nat) (heap : List β) (idx : Nat) :
    (siftDownFuel key n heap idx).Perm heap := by
  induction n generalizing heap idx with
  | zero => exact .refl _
  | succ n ih =>
    unfold siftDownFuel
    dsimp only
    split
    · exact .refl _
    next hne =>
      obtain heq | ⟨hlt, hlen⟩ := largest_cases key heap idx
      · exact absurd heq hne
      · exact (ih _ _).trans (swap_perm (Nat.lt_trans hlt hlen) hlen)

theorem siftDown_perm (heap : List β) (idx : Nat) : (siftDown key heap idx).Perm heap :=
  siftDownFuel_perm key _ heap idx

theorem perm_popRoot (x : β) (t : List β) :
    ((x :: t).set 0 ((x :: t).getD ((x :: t).length - 1) default)).dropLast.Perm t := by
  rcases List.eq_nil_or_concat t with rfl | ⟨t', y, rfl⟩
  · exact .refl _
  · have hlast : (x :: t'.concat y).getD ((x :: t'.concat y).length - 1) default = y := by
      simp [List.getD_eq_getElem?_getD]
    rw [hlast, List.set_cons_zero, List.concat_eq_append, ← List.cons_append,
      List.dropLast_concat]
    exact (List.perm_append_singleton y t').symm

theorem drain_perm {n : Nat} {heap buf : List β} (h : heap.length = n) :
    (drain key n heap buf).Perm (heap ++ buf) := by
  induction n generalizing heap buf with
  | zero =>
    obtain rfl := List.length_eq_zero_iff.mp h
    exact .refl _
  | succ n ih =>
    obtain ⟨x, t, rfl⟩ : ∃ x t, heap = x :: t := by
      cases heap with
      | nil => simp at h
      | cons x t => exact ⟨x, t, rfl⟩
    have hperm := (siftDown_perm key _ 0).trans (perm_popRoot x t)
    have hlen : (siftDown key ((x :: t).set 0 ((x :: t).getD ((x :: t).length - 1) default)).dropLast
        0).length = n := by
      rw [hperm.length_eq]
      simpa using h
    refine (ih hlen).trans ?_
    exact (hperm.append_right _).trans (List.perm_middle)

end Heap

end Sorting
