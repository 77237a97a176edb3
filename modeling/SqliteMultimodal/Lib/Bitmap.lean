import Mathlib.Data.List.Basic
import Mathlib.Data.Nat.Init

structure Bitmap where
  bytes : List (BitVec 8)
  deriving DecidableEq

namespace Bitmap

def byte (bm : Bitmap) (i : Nat) : BitVec 8 := bm.bytes.getD i 0#8

def new (n : Nat) : Bitmap := ⟨List.replicate (n / 8) 0#8⟩

def get (bm : Bitmap) (position : Nat) : Bool :=
  ((bm.byte (position / 8) >>> (position % 8)) &&& 1#8) != 0#8

def set (bm : Bitmap) (position : Nat) (value : Bool) : Bitmap :=
  let byte := bm.byte (position / 8)
  if value then ⟨bm.bytes.set (position / 8) (byte ||| (1#8 <<< (position % 8)))⟩
  else ⟨bm.bytes.set (position / 8) (byte &&& ~~~(1#8 <<< (position % 8)))⟩

def andInplace (base other : Bitmap) : Bitmap :=
  ⟨List.zipWith (· &&& ·) base.bytes other.bytes⟩

def clear (bm : Bitmap) : Bitmap := ⟨bm.bytes.map fun _ => 0#8⟩

def copy (bm source : Bitmap) (n : Nat) : Bitmap :=
  ⟨source.bytes.take (n / 8) ++ bm.bytes.drop (n / 8)⟩

theorem clear_eq_new {bm : Bitmap} {n : Nat} (h : bm.bytes.length = n / 8) : bm.clear = new n := by
  rw [clear, new, ← h, List.map_const']

theorem copy_eq {bm source : Bitmap} {n : Nat} (h : bm.bytes.length = n / 8)
    (hsource : source.bytes.length = n / 8) : bm.copy source n = source := by
  rw [copy, ← h, List.drop_length, List.append_nil, h, ← hsource, List.take_length]

theorem length_andInplace {base other : Bitmap} (h : base.bytes.length = other.bytes.length) :
    (base.andInplace other).bytes.length = base.bytes.length := by
  rw [andInplace, List.length_zipWith, h, Nat.min_self]

theorem get_eq (bm : Bitmap) (position : Nat) :
    bm.get position = (bm.byte (position / 8)).getLsbD (position % 8) := by
  unfold get
  generalize bm.byte (position / 8) = x
  rw [BitVec.and_one_eq_setWidth_ofBool_getLsbD, BitVec.getLsbD_ushiftRight, Nat.add_zero]
  cases x.getLsbD (position % 8) <;> rfl

@[simp] theorem get_new (n position : Nat) : (new n).get position = false := by
  have : (new n).byte (position / 8) = 0#8 := by
    simp only [byte, new, List.getD_eq_getElem?_getD, List.getElem?_replicate]
    split <;> rfl
  rw [get_eq, this, BitVec.getLsbD_zero]

@[simp] theorem length_set (bm : Bitmap) (position : Nat) (value : Bool) :
    (bm.set position value).bytes.length = bm.bytes.length := by
  cases value <;> simp [set]

theorem byte_set (bm : Bitmap) (position : Nat) (value : Bool) (i : Nat)
    (h : position / 8 < bm.bytes.length) :
    (bm.set position value).byte i =
      if i = position / 8 then
        if value then bm.byte i ||| (1#8 <<< (position % 8))
        else bm.byte i &&& ~~~(1#8 <<< (position % 8))
      else bm.byte i := by
  by_cases hi : i = position / 8
  · subst hi
    cases value <;> simp [byte, set, List.getD_eq_getElem?_getD, h]
  · rw [if_neg hi]
    cases value <;> simp [byte, set, List.getD_eq_getElem?_getD, List.getElem?_set_ne (Ne.symm hi)]

theorem get_set (bm : Bitmap) (position q : Nat) (value : Bool)
    (h : position / 8 < bm.bytes.length) :
    (bm.set position value).get q = if q = position then value else bm.get q := by
  rw [get_eq, get_eq, byte_set _ _ _ _ h]
  by_cases hi : q / 8 = position / 8
  · rw [if_pos hi]
    by_cases hq : q = position
    · subst hq
      have : q % 8 < 8 := Nat.mod_lt _ (by decide)
      cases value <;> simp [this]
    · have hmod : q % 8 ≠ position % 8 := by omega
      have hlt : q % 8 < 8 := Nat.mod_lt _ (by decide)
      rw [if_neg hq]
      cases value <;> simp [hlt] <;> omega
  · rw [if_neg hi, if_neg (by rintro rfl; exact hi rfl)]

theorem get_set_false (bm : Bitmap) (position q : Nat) :
    (bm.set position false).get q = (bm.get q && !decide (q = position)) := by
  rcases Nat.lt_or_ge (position / 8) bm.bytes.length with h | h
  · rw [get_set bm position q false h]
    by_cases hq : q = position
    · simp [hq]
    · simp [hq]
  · have hset : bm.set position false = bm := by
      rw [set, if_neg Bool.false_ne_true, List.set_eq_of_length_le h]
    have hget : bm.get position = false := by
      rw [get_eq, byte, List.getD_eq_getElem?_getD, List.getElem?_eq_none h, Option.getD_none,
        BitVec.getLsbD_zero]
    rw [hset]
    by_cases hq : q = position
    · simp [hq, hget]
    · simp [hq]

@[simp] theorem get_andInplace (base other : Bitmap) (position : Nat) :
    (base.andInplace other).get position = (base.get position && other.get position) := by
  have : (base.andInplace other).byte (position / 8) =
      base.byte (position / 8) &&& other.byte (position / 8) := by
    simp only [byte, andInplace, List.getD_eq_getElem?_getD, List.getElem?_zipWith]
    cases base.bytes[position / 8]? <;> cases other.bytes[position / 8]? <;> simp
  rw [get_eq, get_eq, get_eq, this, BitVec.getLsbD_and]

end Bitmap

namespace Int64

variable (r m : Int64)

theorem or_and_mask : (r ||| m) &&& m = m := by
  apply Int64.toBitVec_inj.mp
  ext i hi
  simp
  grind

theorem and_not_and_mask : (r &&& ~~~m) &&& m = 0 := by
  apply Int64.toBitVec_inj.mp
  ext i hi
  simp

variable {r m}

theorem or_and_not_mask (h : r &&& m = 0) : (r ||| m) &&& ~~~m = r := by
  have hbits := congrArg Int64.toBitVec h
  apply Int64.toBitVec_inj.mp
  ext i hi
  have hbit := congrArg (·.getLsbD i) hbits
  simp [hi] at hbit ⊢
  grind

theorem and_not_or_mask (h : r &&& m = m) : (r &&& ~~~m) ||| m = r := by
  have hbits := congrArg Int64.toBitVec h
  apply Int64.toBitVec_inj.mp
  ext i hi
  have hbit := congrArg (·.getLsbD i) hbits
  simp [hi] at hbit ⊢
  grind

theorem and_mask_eq (hm : ∀ i j, m.toBitVec.getLsbD i → m.toBitVec.getLsbD j → i = j)
    (h : r &&& m ≠ 0) : r &&& m = m := by
  by_contra hne
  obtain ⟨j, hj, hbit⟩ : ∃ j, m.toBitVec.getLsbD j ∧ ¬ r.toBitVec.getLsbD j := by
    by_contra hall
    refine hne (Int64.toBitVec_inj.mp (BitVec.eq_of_getLsbD_eq fun i _ => ?_))
    simp
    grind
  refine h (Int64.toBitVec_inj.mp (BitVec.eq_of_getLsbD_eq fun i _ => ?_))
  simp
  grind

theorem getLsbD_ofInt {k : Int} (h0 : 0 ≤ k) {i : Nat} (hi : i < 64) :
    (Int64.ofInt k).toBitVec.getLsbD i = k.toNat.testBit i := by
  obtain ⟨n, rfl⟩ := Int.eq_ofNat_of_zero_le h0
  rw [Int64.toBitVec_ofInt, BitVec.ofInt_natCast, BitVec.getLsbD_ofNat]
  simp [hi]

end Int64
