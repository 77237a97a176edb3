import Mathlib.Algebra.Order.BigOperators.Group.List
import Mathlib.Algebra.Order.Ring.Abs
import Mathlib.Tactic.Linarith
import Mathlib.Tactic.Positivity
import SqliteMultimodal.Lib.Lanes
import SqliteMultimodal.Lib.Significand

namespace SqliteMultimodal.Vec.Distance

open Lanes

section Scalar

def significandBits : Nat := 24

/-- `res` is a `float`, and so is `t * t`. -/
def l2SqrInt8 (a b : List (BitVec 8)) : Int :=
  (a.zip b).foldl (fun res p =>
    let t := p.1.toInt - p.2.toInt
    Significand.round significandBits (res + Significand.round significandBits (t * t))) 0

def l1Int8 (a b : List (BitVec 8)) : BitVec 32 :=
  (a.zip b).foldl (fun res p => res + BitVec.ofInt 32 |p.1.toInt - p.2.toInt|) 0

end Scalar

section Neon

def l2Round (sumScalar : BitVec 32) (pVect1 pVect2 : List (BitVec 8)) : BitVec 32 :=
  let v1Wide := widenSigned 16 (load 8 pVect1)
  let v2Wide := widenSigned 16 (load 8 pVect2)
  let diff := sub v1Wide v2Wide
  let squaredDiff := mul diff diff
  sumScalar + across (pairwiseSigned 32 squaredDiff)

def l2SqrInt8Neon (a b : List (BitVec 8)) : BitVec 32 :=
  let (sumScalar, pVect1, pVect2) := loop 8 l2Round a.length 0 a b
  (pVect1.zip pVect2).foldl (fun sumScalar p =>
    let diff := p.1.signExtend 16 - p.2.signExtend 16
    sumScalar + diff.signExtend 32 * diff.signExtend 32) sumScalar

structure Accumulators where
  acc1 : Register 32 4
  acc2 : Register 32 4
  acc3 : Register 32 4
  acc4 : Register 32 4

def absDiffs (pVect1 pVect2 : List (BitVec 8)) : Register 32 4 :=
  let diff := absDiff (load 16 pVect1) (load 16 pVect2)
  let sums : Register 16 8 := pairwiseUnsigned 16 diff
  pairwiseUnsigned 32 sums

def l1Round64 (acc : Accumulators) (pVect1 pVect2 : List (BitVec 8)) : Accumulators where
  acc1 := add acc.acc1 (absDiffs pVect1 pVect2)
  acc2 := add acc.acc2 (absDiffs (pVect1.drop 16) (pVect2.drop 16))
  acc3 := add acc.acc3 (absDiffs (pVect1.drop 32) (pVect2.drop 32))
  acc4 := add acc.acc4 (absDiffs (pVect1.drop 48) (pVect2.drop 48))

def l1Round16 (acc : Accumulators) (pVect1 pVect2 : List (BitVec 8)) : Accumulators :=
  { acc with acc1 := add acc.acc1 (absDiffs pVect1 pVect2) }

def l1Int8Neon (a b : List (BitVec 8)) : BitVec 32 :=
  let zero : Register 32 4 := dup 4 0
  let (acc, pVect1, pVect2) := loop 64 l1Round64 a.length ⟨zero, zero, zero, zero⟩ a b
  let (acc, pVect1, pVect2) := loop 16 l1Round16 pVect1.length acc pVect1 pVect2
  let total := add (add acc.acc1 acc.acc2) (add acc.acc3 acc.acc4)
  let sum := (pVect1.zip pVect2).foldl (fun sum p =>
    sum + BitVec.ofInt 32 |p.1.toInt - p.2.toInt|) 0
  across total + sum

end Neon

section Squares

theorem toInt_bounds (x : BitVec 8) : -128 ≤ x.toInt ∧ x.toInt < 128 :=
  ⟨BitVec.le_toInt x, BitVec.toInt_lt⟩

variable (p : BitVec 8 × BitVec 8)

def diff : Int := p.1.toInt - p.2.toInt

theorem abs_diff_le : |diff p| ≤ 255 := by
  have hx := toInt_bounds p.1
  have hy := toInt_bounds p.2
  rw [diff, abs_le]
  omega

theorem toInt_sub : (p.1.signExtend 16 - p.2.signExtend 16).toInt = diff p := by
  have hx := toInt_bounds p.1
  have hy := toInt_bounds p.2
  rw [BitVec.toInt_sub, BitVec.toInt_signExtend_of_le (by decide),
    BitVec.toInt_signExtend_of_le (by decide)]
  rw [Int.bmod_eq_of_le] <;> norm_num [diff] <;> omega

def Wraps : Prop := 181 < |diff p|

instance : Decidable (Wraps p) := inferInstanceAs (Decidable (181 < |diff p|))

def squareLane : BitVec 32 :=
  let diff := p.1.signExtend 16 - p.2.signExtend 16
  (diff * diff).signExtend 32

theorem squareLane_eq :
    squareLane p = BitVec.ofInt 32 (diff p * diff p - if Wraps p then 65536 else 0) := by
  apply BitVec.eq_of_toInt_eq
  have habs := abs_diff_le p
  simp only [squareLane]
  rw [BitVec.toInt_signExtend_of_le (by decide), BitVec.toInt_mul, toInt_sub, BitVec.toInt_ofInt]
  have hd : |diff p| * |diff p| = diff p * diff p := abs_mul_abs_self (diff p)
  by_cases h : Wraps p
  · have hle : |diff p| * |diff p| ≤ 255 * 255 := by nlinarith [abs_nonneg (diff p)]
    have hge : 182 * 182 ≤ |diff p| * |diff p| := by
      have habs' : 182 ≤ |diff p| := h
      nlinarith
    rw [if_pos h]
    norm_num [Int.bmod_def]
    omega
  · have hle : |diff p| * |diff p| ≤ 181 * 181 := by
      have habs' : |diff p| ≤ 181 := not_lt.mp h
      nlinarith [abs_nonneg (diff p)]
    rw [if_neg h, Int.bmod_eq_of_le, Int.bmod_eq_of_le] <;> norm_num <;> nlinarith

theorem square_signExtend : (p.1.signExtend 16 - p.2.signExtend 16).signExtend 32 *
    (p.1.signExtend 16 - p.2.signExtend 16).signExtend 32 =
      BitVec.ofInt 32 (diff p * diff p) := by
  apply BitVec.eq_of_toInt_eq
  rw [BitVec.toInt_mul, BitVec.toInt_signExtend_of_le (by decide), toInt_sub, BitVec.toInt_ofInt]

def absLane : BitVec 32 := BitVec.ofInt 32 |p.1.toInt - p.2.toInt|

theorem setWidth_absDiff :
    (BitVec.ofInt 8 |p.1.toInt - p.2.toInt|).setWidth 32 = absLane p := by
  have hle := abs_diff_le p
  have hnonneg := abs_nonneg (diff p)
  apply BitVec.eq_of_toNat_eq
  simp only [diff] at hle hnonneg
  simp only [absLane, BitVec.toNat_setWidth, BitVec.toNat_ofInt]
  omega

end Squares

section Rounds

theorem l2Round_eq (s : BitVec 32) (a b : List (BitVec 8)) (ha : 8 ≤ a.length)
    (hb : 8 ≤ b.length) :
    l2Round s a b = s + (((a.zip b).take 8).map squareLane).sum := by
  rw [sum_load squareLane ha hb, Fin.sum_univ_eight]
  simp only [l2Round, across, pairwiseSigned, mul, sub, widenSigned, squareLane]
  simp [add_assoc]

theorem setWidth_add_setWidth (p q : BitVec 8) :
    (p.setWidth 16 + q.setWidth 16).setWidth 32 = p.setWidth 32 + q.setWidth 32 := by
  apply BitVec.eq_of_toNat_eq
  have hp := p.isLt
  have hq := q.isLt
  simp only [BitVec.toNat_setWidth, BitVec.toNat_add]
  omega

theorem across_absDiffs {a b : List (BitVec 8)} (ha : 16 ≤ a.length) (hb : 16 ≤ b.length) :
    across (absDiffs a b) = (((a.zip b).take 16).map absLane).sum := by
  have hlane (x y : BitVec 8) :
      (BitVec.ofInt 8 |x.toInt - y.toInt|).setWidth 32 = absLane (x, y) := setWidth_absDiff (x, y)
  rw [sum_load absLane ha hb]
  simp only [across, absDiffs, pairwiseUnsigned, setWidth_add_setWidth, absDiff, hlane]
  simp [Fin.sum_univ_succ, add_assoc]

def Accumulators.total (acc : Accumulators) : BitVec 32 :=
  across (add (add acc.acc1 acc.acc2) (add acc.acc3 acc.acc4))

def Adds (n : Nat) (round : Accumulators → List (BitVec 8) → List (BitVec 8) → Accumulators) :
    Prop :=
  ∀ acc a b, n ≤ a.length → n ≤ b.length →
    (round acc a b).total = acc.total + (((a.zip b).take n).map absLane).sum

theorem l1Round64_adds : Adds 64 l1Round64 := by
  intro acc a b ha hb
  have hlanes (k : Nat) (hk : k + 16 ≤ 64) : across (absDiffs (a.drop k) (b.drop k)) =
      ((((a.zip b).drop k).take 16).map absLane).sum := by
    rw [across_absDiffs (by simp; omega) (by simp; omega), drop_zip]
  have hsplit : (((a.zip b).take 64).map absLane).sum = across (absDiffs a b) +
      across (absDiffs (a.drop 16) (b.drop 16)) + across (absDiffs (a.drop 32) (b.drop 32)) +
        across (absDiffs (a.drop 48) (b.drop 48)) := by
    have hzero := hlanes 0 (by decide)
    rw [List.drop_zero, List.drop_zero, List.drop_zero] at hzero
    rw [hlanes 16 (by decide), hlanes 32 (by decide), hlanes 48 (by decide), hzero,
      List.take_add (i := 48) (j := 16), List.take_add (i := 32) (j := 16),
      List.take_add (i := 16) (j := 16)]
    simp only [List.map_append, List.sum_append]
  rw [hsplit]
  simp only [Accumulators.total, l1Round64, across_add]
  ring

theorem l1Round16_adds : Adds 16 l1Round16 := by
  intro acc a b ha hb
  rw [← across_absDiffs ha hb]
  simp only [Accumulators.total, l1Round16, across_add]
  ring

end Rounds

section Agreement

variable {a b : List (BitVec 8)}

theorem sum_zip (g : BitVec 8 × BitVec 8 → BitVec 32) (m : Nat) :
    (((a.zip b).take m).map g).sum + (((a.drop m).zip (b.drop m)).map g).sum =
      ((a.zip b).map g).sum := by
  rw [← drop_zip, List.map_take, List.map_drop, List.sum_take_add_sum_drop]

theorem Adds.loop {n : Nat} {round : Accumulators → List (BitVec 8) → List (BitVec 8) →
    Accumulators} (h : Adds n round) (hn : 0 < n) (acc : Accumulators)
    (hlen : a.length = b.length) :
    let r := Lanes.loop n round a.length acc a b
    r.1.total + ((r.2.1.zip r.2.2).map absLane).sum = acc.total + ((a.zip b).map absLane).sum ∧
      r.2.1.length = r.2.2.length := by
  obtain ⟨hsum, hrest⟩ := loop_spec Accumulators.total absLane hn h (s := acc) hlen le_rfl
  simp only [hsum, hrest]
  refine ⟨?_, by simp [hlen]⟩
  rw [add_assoc, sum_zip]

theorem l1Int8_eq (a b : List (BitVec 8)) : l1Int8 a b = ((a.zip b).map absLane).sum :=
  (foldl_add absLane _ 0).trans (zero_add _)

theorem l1Int8Neon_eq (hlen : a.length = b.length) : l1Int8Neon a b = l1Int8 a b := by
  obtain ⟨hsum, hlen'⟩ := l1Round64_adds.loop (by decide)
    ⟨dup 4 0, dup 4 0, dup 4 0, dup 4 0⟩ hlen
  obtain ⟨hsum', -⟩ := l1Round16_adds.loop (by decide)
    (loop 64 l1Round64 a.length ⟨dup 4 0, dup 4 0, dup 4 0, dup 4 0⟩ a b).1 hlen'
  have hzero : (⟨dup 4 0, dup 4 0, dup 4 0, dup 4 0⟩ : Accumulators).total = 0 := by decide
  rw [hsum, hzero, zero_add, ← l1Int8_eq, ← l1Int8_eq] at hsum'
  exact hsum'

def squares (a b : List (BitVec 8)) : List Int := (a.zip b).map fun p => diff p * diff p

theorem fits_square (x : Int) (hx : x ∈ squares a b) : Significand.Fits significandBits x := by
  obtain ⟨p, -, rfl⟩ := List.mem_map.mp hx
  have hle : |diff p| * |diff p| ≤ 255 * 255 :=
    mul_le_mul (abs_diff_le p) (abs_diff_le p) (abs_nonneg _) (by decide)
  rw [abs_mul_abs_self] at hle
  exact Significand.fits_of_le (by decide) (mul_self_nonneg _) (hle.trans (by decide))

theorem l2SqrInt8_eq (a b : List (BitVec 8)) : l2SqrInt8 a b =
    (squares a b).sum - Significand.loss significandBits 0 (squares a b) := by
  have hsum := Significand.accumulate_eq (s := 0) (fits_square (a := a) (b := b))
  rw [zero_add] at hsum
  rw [← hsum, squares, Significand.accumulate, List.foldl_map]
  rfl

theorem sum_squareLane (ps : List (BitVec 8 × BitVec 8)) : (ps.map squareLane).sum =
    BitVec.ofInt 32 ((ps.map fun p => diff p * diff p).sum -
      65536 * ps.countP fun p => Wraps p) := by
  induction ps with
  | nil => rfl
  | cons p ps ih =>
    rw [List.map_cons, List.sum_cons, ih, squareLane_eq, ← BitVec.ofInt_add, List.map_cons,
      List.sum_cons, List.countP_cons]
    congr 1
    by_cases h : Wraps p
    · simp only [if_pos h, decide_eq_true h]
      push_cast
      ring
    · simp only [if_neg h, decide_eq_false h]
      push_cast
      ring

theorem sum_ofInt (l : List Int) : (l.map (BitVec.ofInt 32)).sum = BitVec.ofInt 32 l.sum := by
  induction l with
  | nil => rfl
  | cons x l ih => rw [List.map_cons, List.sum_cons, ih, List.sum_cons, BitVec.ofInt_add]

def blocks (a b : List (BitVec 8)) : List (BitVec 8 × BitVec 8) :=
  (a.zip b).take (8 * (a.length / 8))

theorem l2SqrInt8Neon_eq (hlen : a.length = b.length) :
    l2SqrInt8Neon a b =
      BitVec.ofInt 32 ((squares a b).sum - 65536 * (blocks a b).countP fun p => Wraps p) := by
  have hround : ∀ s a b, 8 ≤ a.length → 8 ≤ b.length →
      id (l2Round s a b) = id s + (((a.zip b).take 8).map squareLane).sum := l2Round_eq
  obtain ⟨hsum, hrest⟩ := loop_spec id squareLane (by decide) hround (s := 0) hlen le_rfl
  have htail := fun (ps : List (BitVec 8 × BitVec 8)) (s : BitVec 32) =>
    foldl_add (fun p => BitVec.ofInt 32 (diff p * diff p)) ps s
  have hofInt := fun ps : List (BitVec 8 × BitVec 8) =>
    sum_ofInt (ps.map fun p => diff p * diff p)
  simp only [id, zero_add] at hsum
  simp only [List.map_map, Function.comp_def] at hofInt
  simp only [l2SqrInt8Neon, hsum, hrest, square_signExtend, htail, sum_squareLane, hofInt]
  rw [← BitVec.ofInt_add, squares, ← drop_zip, blocks,
    ← List.sum_take_add_sum_drop ((a.zip b).map fun p => diff p * diff p) (8 * (a.length / 8)),
    List.map_take, List.map_drop]
  congr 1
  ring

theorem countP_wraps_le (ps : List (BitVec 8 × BitVec 8)) :
    32768 * (ps.countP fun p => Wraps p : Int) ≤ (ps.map fun p => diff p * diff p).sum := by
  induction ps with
  | nil => simp
  | cons p ps ih =>
    rw [List.countP_cons, List.map_cons, List.sum_cons]
    have hnonneg := mul_self_nonneg (diff p)
    by_cases h : Wraps p
    · have hsq : 32768 ≤ diff p * diff p := by
        have habs : 182 ≤ |diff p| := h
        nlinarith [abs_mul_abs_self (diff p)]
      simp only [decide_eq_true h, if_true]
      push_cast
      omega
    · simp only [decide_eq_false h]
      push_cast
      omega

theorem blocks_le (a b : List (BitVec 8)) :
    ((blocks a b).map fun p => diff p * diff p).sum ≤ (squares a b).sum := by
  have hrest : 0 ≤ (((a.zip b).map fun p => diff p * diff p).drop (8 * (a.length / 8))).sum := by
    refine List.sum_nonneg fun x hx => ?_
    obtain ⟨p, -, rfl⟩ := List.mem_map.mp (List.mem_of_mem_drop hx)
    exact mul_self_nonneg _
  rw [squares, ← List.sum_take_add_sum_drop ((a.zip b).map fun p => diff p * diff p)
    (8 * (a.length / 8)), blocks, List.map_take]
  omega

theorem toInt_l2SqrInt8Neon (hlen : a.length = b.length) (hfits : (squares a b).sum < 2147483648) :
    (l2SqrInt8Neon a b).toInt =
      (squares a b).sum - 65536 * (blocks a b).countP fun p => Wraps p := by
  have hcount := countP_wraps_le (blocks a b)
  have hle := blocks_le a b
  rw [l2SqrInt8Neon_eq hlen, BitVec.toInt_ofInt, Int.bmod_eq_of_le] <;> norm_num <;> omega

theorem countP_wraps_eq_zero : (blocks a b).countP (fun p => Wraps p) = 0 ↔
    ∀ p ∈ blocks a b, |p.1.toInt - p.2.toInt| ≤ 181 := by
  refine List.countP_eq_zero.trans (forall₂_congr fun p _ => ?_)
  rw [decide_eq_true_eq]
  exact not_lt

/-- A difference too large for its square takes `65536` from the one sum, and the rounding takes
its loss from the other. -/
theorem neon_agrees (hlen : a.length = b.length) (hfits : (squares a b).sum < 2147483648) :
    (((l2SqrInt8Neon a b).toInt = l2SqrInt8 a b ∧ l1Int8Neon a b = l1Int8 a b) ↔
      65536 * ((blocks a b).countP (fun p => 181 < |p.1.toInt - p.2.toInt|) : Int) =
        Significand.loss significandBits 0 (squares a b)) ∧
    ((squares a b).sum ≤ 16777216 →
      (((l2SqrInt8Neon a b).toInt = l2SqrInt8 a b ∧ l1Int8Neon a b = l1Int8 a b) ↔
        ∀ p ∈ blocks a b, |p.1.toInt - p.2.toInt| ≤ 181)) := by
  have hiff : ((l2SqrInt8Neon a b).toInt = l2SqrInt8 a b ∧ l1Int8Neon a b = l1Int8 a b) ↔
      65536 * ((blocks a b).countP (fun p => Wraps p) : Int) =
        Significand.loss significandBits 0 (squares a b) := by
    rw [and_iff_left (l1Int8Neon_eq hlen), toInt_l2SqrInt8Neon hlen hfits, l2SqrInt8_eq]
    omega
  refine ⟨hiff, fun hsmall => ?_⟩
  have hnonneg : ∀ x ∈ squares a b, 0 ≤ x := fun x hx => by
    obtain ⟨p, -, rfl⟩ := List.mem_map.mp hx
    exact mul_self_nonneg _
  have hloss : Significand.loss significandBits 0 (squares a b) = 0 :=
    Significand.loss_eq_zero (by decide) le_rfl hnonneg ((zero_add _).trans_le hsmall)
  rw [hiff, hloss, ← countP_wraps_eq_zero]
  omega

theorem neon_agrees_small :
    (l2SqrInt8Neon (List.replicate 9 100#8) (List.replicate 9 175#8)).toInt =
        l2SqrInt8 (List.replicate 9 100#8) (List.replicate 9 175#8) ∧
      l1Int8Neon (List.replicate 9 100#8) (List.replicate 9 175#8) =
        l1Int8 (List.replicate 9 100#8) (List.replicate 9 175#8) :=
  ((neon_agrees (a := List.replicate 9 100#8) (b := List.replicate 9 175#8) rfl (by decide)).2
    (by decide)).mpr fun p hp => by
      have hblock : p ∈ List.replicate 8 (100#8, 175#8) := hp
      rw [List.eq_of_mem_replicate hblock]
      decide

theorem extreme_lanes_differ : ¬∀ a b : List (BitVec 8), a.length = b.length →
    (squares a b).sum < 2147483648 →
    (l2SqrInt8Neon a b).toInt = l2SqrInt8 a b ∧ l1Int8Neon a b = l1Int8 a b := by
  intro h
  have hl2 := (h (List.replicate 8 127#8) (List.replicate 8 128#8) rfl (by decide)).1
  revert hl2
  decide +kernel

end Agreement

end SqliteMultimodal.Vec.Distance
