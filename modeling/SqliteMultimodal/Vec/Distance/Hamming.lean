import SqliteMultimodal.Lib.Bitmap
import Mathlib.Algebra.BigOperators.Fin
import Mathlib.Data.BitVec
import Mathlib.Tactic.Ring

namespace SqliteMultimodal.Vec.Distance

def hamdistTable : List Nat :=
  [0, 1, 1, 2, 1, 2, 2, 3, 1, 2, 2, 3, 2, 3, 3, 4, 1, 2, 2, 3, 2, 3, 3, 4,
    2, 3, 3, 4, 3, 4, 4, 5, 1, 2, 2, 3, 2, 3, 3, 4, 2, 3, 3, 4, 3, 4, 4, 5,
    2, 3, 3, 4, 3, 4, 4, 5, 3, 4, 4, 5, 4, 5, 5, 6, 1, 2, 2, 3, 2, 3, 3, 4,
    2, 3, 3, 4, 3, 4, 4, 5, 2, 3, 3, 4, 3, 4, 4, 5, 3, 4, 4, 5, 4, 5, 5, 6,
    2, 3, 3, 4, 3, 4, 4, 5, 3, 4, 4, 5, 4, 5, 5, 6, 3, 4, 4, 5, 4, 5, 5, 6,
    4, 5, 5, 6, 5, 6, 6, 7, 1, 2, 2, 3, 2, 3, 3, 4, 2, 3, 3, 4, 3, 4, 4, 5,
    2, 3, 3, 4, 3, 4, 4, 5, 3, 4, 4, 5, 4, 5, 5, 6, 2, 3, 3, 4, 3, 4, 4, 5,
    3, 4, 4, 5, 4, 5, 5, 6, 3, 4, 4, 5, 4, 5, 5, 6, 4, 5, 5, 6, 5, 6, 6, 7,
    2, 3, 3, 4, 3, 4, 4, 5, 3, 4, 4, 5, 4, 5, 5, 6, 3, 4, 4, 5, 4, 5, 5, 6,
    4, 5, 5, 6, 5, 6, 6, 7, 3, 4, 4, 5, 4, 5, 5, 6, 4, 5, 5, 6, 5, 6, 6, 7,
    4, 5, 5, 6, 5, 6, 6, 7, 5, 6, 6, 7, 6, 7, 7, 8]

def distanceHammingU8 (a b : Bitmap) (n : Nat) : Nat :=
  (List.range n).foldl (fun same i => same + hamdistTable.getD (a.byte i ^^^ b.byte i).toNat 0) 0

/-- Word `i` of a vector, in little-endian order. -/
def word (a : Bitmap) (i : Nat) : BitVec 64 :=
  a.byte (8 * i + 7) ++ (a.byte (8 * i + 6) ++ (a.byte (8 * i + 5) ++ (a.byte (8 * i + 4) ++
    (a.byte (8 * i + 3) ++ (a.byte (8 * i + 2) ++ (a.byte (8 * i + 1) ++ a.byte (8 * i)))))))

def popcountl (x : BitVec 64) : Nat := x.cpop.toNat

def distanceHammingU64 (a b : Bitmap) (n : Nat) : Nat :=
  (List.range n).foldl (fun same i => same + popcountl (word a i ^^^ word b i)) 0

def distanceHamming (a b : Bitmap) (dimensions : Nat) : Nat :=
  if dimensions % 64 = 0 then distanceHammingU64 a b (dimensions / 8 / 8)
  else distanceHammingU8 a b (dimensions / 8)

theorem hamdistTable_eq (x : BitVec 8) : hamdistTable.getD x.toNat 0 = x.cpop.toNat := by
  revert x
  decide +kernel

/-- The bits in which byte `i` differs. -/
def byteDistance (a b : Bitmap) (i : Nat) : Nat := (a.byte i ^^^ b.byte i).cpop.toNat

theorem foldl_range_add (f : Nat → Nat) (n : Nat) :
    (List.range n).foldl (fun same i => same + f i) 0 = ∑ i ∈ Finset.range n, f i := by
  induction n with
  | zero => rfl
  | succ n ih => rw [List.range_succ, List.foldl_append, ih, Finset.sum_range_succ]; rfl

theorem distanceHammingU8_eq (a b : Bitmap) (n : Nat) :
    distanceHammingU8 a b n = ∑ i ∈ Finset.range n, byteDistance a b i := by
  rw [distanceHammingU8, foldl_range_add]
  simp only [hamdistTable_eq, byteDistance]

theorem cpop_xor_append {w : Nat} (x y : BitVec 8) (u v : BitVec w) :
    ((x ++ u) ^^^ (y ++ v)).cpop.toNat = (x ^^^ y).cpop.toNat + (u ^^^ v).cpop.toNat := by
  rw [BitVec.xor_append, BitVec.toNat_cpop_append]

theorem popcountl_word (a b : Bitmap) (i : Nat) :
    popcountl (word a i ^^^ word b i) =
      ∑ j ∈ Finset.range 8, byteDistance a b (8 * i + j) := by
  unfold popcountl word
  refine (cpop_xor_append _ _ _ _).trans ?_
  simp only [cpop_xor_append, Finset.sum_range_succ, Finset.sum_range_zero, byteDistance,
    Nat.add_zero]
  ac_rfl

theorem sum_groups (f : Nat → Nat) (n : Nat) :
    ∑ i ∈ Finset.range n, ∑ j ∈ Finset.range 8, f (8 * i + j) =
      ∑ i ∈ Finset.range (8 * n), f i := by
  induction n with
  | zero => rfl
  | succ n ih => rw [Finset.sum_range_succ, ih, Nat.mul_succ, Finset.sum_range_add]

theorem distanceHammingU64_eq (a b : Bitmap) (n : Nat) :
    distanceHammingU64 a b n = ∑ i ∈ Finset.range (8 * n), byteDistance a b i := by
  rw [distanceHammingU64, foldl_range_add, ← sum_groups]
  simp only [popcountl_word]

theorem cpop_eq_sum (x : BitVec 8) :
    x.cpop.toNat = ∑ j ∈ Finset.range 8, (x.getLsbD j).toNat := by
  simp only [BitVec.toNat_cpop, BitVec.cpopNatRec_succ, BitVec.cpopNatRec_zero_self,
    Finset.sum_range_succ, Finset.sum_range_zero]
  ring

theorem byteDistance_eq (a b : Bitmap) (i : Nat) : byteDistance a b i =
    ∑ j ∈ Finset.range 8, (a.get (8 * i + j) ^^ b.get (8 * i + j)).toNat := by
  rw [byteDistance, cpop_eq_sum]
  refine Finset.sum_congr rfl fun j hj => ?_
  have hj := Finset.mem_range.mp hj
  have hdiv : (8 * i + j) / 8 = i := by omega
  have hmod : (8 * i + j) % 8 = j := by omega
  rw [Bitmap.get_eq, Bitmap.get_eq, hdiv, hmod, BitVec.getLsbD_xor]

theorem countP_range (f : Nat → Bool) (n : Nat) :
    (List.range n).countP f = ∑ i ∈ Finset.range n, (f i).toNat := by
  induction n with
  | zero => rfl
  | succ n ih =>
    rw [List.range_succ, List.countP_append, ih, Finset.sum_range_succ]
    cases h : f n <;> simp [h]

/-- The distance is the number of positions in which the vectors differ. -/
theorem distanceHamming_eq (a b : Bitmap) {dimensions : Nat} (h : 8 ∣ dimensions) :
    distanceHamming a b dimensions =
      (List.range dimensions).countP fun i => a.get i ^^ b.get i := by
  obtain ⟨n, rfl⟩ := h
  have hbytes : distanceHamming a b (8 * n) = ∑ i ∈ Finset.range n, byteDistance a b i := by
    unfold distanceHamming
    split
    next hmod =>
      have hwords : 8 * (8 * n / 8 / 8) = n := by omega
      rw [distanceHammingU64_eq, hwords]
    next => rw [distanceHammingU8_eq, Nat.mul_div_cancel_left n (by decide)]
  rw [hbytes, countP_range, ← sum_groups]
  simp only [byteDistance_eq]

theorem distanceHamming_eq_word :
    distanceHamming ⟨[1, 2, 3, 4, 5, 6, 7, 255]⟩ ⟨[0, 2, 4, 6, 8, 10, 12, 0]⟩ 64 =
      (List.range 64).countP fun i => Bitmap.get ⟨[1, 2, 3, 4, 5, 6, 7, 255]⟩ i ^^
        Bitmap.get ⟨[0, 2, 4, 6, 8, 10, 12, 0]⟩ i :=
  distanceHamming_eq _ _ (by decide)

end SqliteMultimodal.Vec.Distance
