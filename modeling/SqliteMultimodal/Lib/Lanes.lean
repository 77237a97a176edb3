import Mathlib.Algebra.BigOperators.Fin
import Mathlib.Data.BitVec
import Mathlib.Tactic.Ring

universe u v w

namespace Lanes

section Loop

variable {α : Type u} {β : Type v} {σ : Type w}

def loop (n : Nat) (body : σ → List α → List β → σ) :
    Nat → σ → List α → List β → σ × List α × List β
  | 0, s, a, b => (s, a, b)
  | k + 1, s, a, b =>
    if n ≤ a.length then loop n body k (body s a b) (a.drop n) (b.drop n) else (s, a, b)

theorem drop_zip (n : Nat) (a : List α) (b : List β) :
    (a.zip b).drop n = (a.drop n).zip (b.drop n) := by
  rw [List.zip_eq_zipWith, List.drop_zipWith, List.zip_eq_zipWith]

variable {M : Type*} [AddMonoid M] {n k : Nat} {body : σ → List α → List β → σ} {s : σ}
  {a : List α} {b : List β}

theorem loop_spec (μ : σ → M) (g : α × β → M) (hn : 0 < n)
    (hbody : ∀ s a b, n ≤ a.length → n ≤ b.length →
      μ (body s a b) = μ s + (((a.zip b).take n).map g).sum)
    (hlen : a.length = b.length) (hk : a.length ≤ k) :
    μ (loop n body k s a b).1 =
        μ s + (((a.zip b).take (n * (a.length / n))).map g).sum ∧
      (loop n body k s a b).2 = (a.drop (n * (a.length / n)), b.drop (n * (a.length / n))) := by
  induction k generalizing s a b with
  | zero =>
    obtain rfl := List.length_eq_zero_iff.mp (Nat.le_zero.mp hk)
    simp [loop]
  | succ k ih =>
    rw [loop]
    by_cases hle : n ≤ a.length
    · have hdrop : (a.drop n).length = (b.drop n).length := by simp [hlen]
      have hlt : (a.drop n).length ≤ k := by
        rw [List.length_drop]
        omega
      have hrounds : n * (a.length / n) = n + n * ((a.drop n).length / n) := by
        rw [List.length_drop, Nat.div_eq_sub_div hn hle, Nat.mul_add, Nat.mul_one, Nat.add_comm]
      obtain ⟨hsum, hrest⟩ := ih (s := body s a b) hdrop hlt
      rw [if_pos hle, hsum, hrest, hrounds]
      refine ⟨?_, by simp [List.drop_drop]⟩
      rw [hbody s a b hle (hlen ▸ hle), List.take_add, List.map_append, List.sum_append,
        drop_zip, add_assoc]
    · rw [if_neg hle, Nat.div_eq_of_lt (Nat.lt_of_not_le hle)]
      simp

theorem foldl_add (g : α → M) (l : List α) (s : M) :
    l.foldl (fun s x => s + g x) s = s + (l.map g).sum := by
  induction l generalizing s with
  | nil => simp
  | cons x l ih => rw [List.foldl_cons, ih, List.map_cons, List.sum_cons, add_assoc]

end Loop

section Registers

abbrev Register (w n : Nat) := Fin n → BitVec w

variable {w n : Nat}

def load (n : Nat) (a : List (BitVec w)) : Register w n := fun i => a.getD i 0

def dup (n : Nat) (x : BitVec w) : Register w n := fun _ => x

def add (x y : Register w n) : Register w n := fun i => x i + y i

def sub (x y : Register w n) : Register w n := fun i => x i - y i

def mul (x y : Register w n) : Register w n := fun i => x i * y i

def absDiff (x y : Register w n) : Register w n := fun i =>
  BitVec.ofInt w |(x i).toInt - (y i).toInt|

def widenSigned (v : Nat) (x : Register w n) : Register v n := fun i => (x i).signExtend v

def pairwiseSigned (v : Nat) (x : Register w (2 * n)) : Register v n := fun i =>
  (x ⟨2 * i, by omega⟩).signExtend v + (x ⟨2 * i + 1, by omega⟩).signExtend v

def pairwiseUnsigned (v : Nat) (x : Register w (2 * n)) : Register v n := fun i =>
  (x ⟨2 * i, by omega⟩).setWidth v + (x ⟨2 * i + 1, by omega⟩).setWidth v

def across (x : Register w 4) : BitVec w := x 0 + x 1 + x 2 + x 3

theorem across_add (x y : Register w 4) : across (add x y) = across x + across y := by
  simp only [across, add]
  ring

theorem sum_load {M : Type*} [AddCommMonoid M] (g : BitVec w × BitVec w → M)
    {a b : List (BitVec w)} (ha : n ≤ a.length) (hb : n ≤ b.length) :
    (((a.zip b).take n).map g).sum = ∑ i, g (load n a i, load n b i) := by
  have hzip : ((a.zip b).take n).map g =
      List.ofFn fun i : Fin n => g (load n a i, load n b i) := by
    refine List.ext_getElem (by simp [ha, hb]) fun i hi hi' => ?_
    have hi : i < n := by simpa using hi'
    rw [List.getElem_map, List.getElem_take, List.getElem_zip, List.getElem_ofFn]
    simp [load, List.getElem?_eq_getElem (Nat.lt_of_lt_of_le hi ha),
      List.getElem?_eq_getElem (Nat.lt_of_lt_of_le hi hb)]
  rw [hzip, List.sum_ofFn]

end Registers

end Lanes
