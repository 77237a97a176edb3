import Mathlib.Data.BitVec
import SqliteMultimodal.Vec.Elements.Json

universe u v

namespace SqliteMultimodal.Vec.Elements

open Text

section Rows

variable {F : Type u} (floats : Floats F) (vector : Vector F)

theorem vecEachRows_eq {n r : Nat} (h : r + n = vector.dimensions) :
    vecEachRows floats n ⟨r, vector⟩ =
      (List.range' r n).map fun i => (i, vecEachColumn floats ⟨i, vector⟩) := by
  induction n generalizing r with
  | zero => rfl
  | succ n ih =>
    have heof : (⟨r, vector⟩ : EachCursor F).eof = false := by
      simp only [EachCursor.eof, decide_eq_false_iff_not]
      omega
    rw [vecEachRows, heof, List.range'_succ, List.map_cons, ← ih (by omega)]
    rfl

theorem vecEach_eq : vecEach floats vector =
    (List.range vector.dimensions).map fun i => (i, vecEachColumn floats ⟨i, vector⟩) := by
  rw [vecEach, vecEachRows_eq floats vector (Nat.zero_add _), List.range_eq_range']

def Element.text : Element F → Text
  | .null => "null".toList
  | .real x => floats.format x
  | .integer n => ofInt n

def printed : List (Nat × Text) :=
  (List.range vector.dimensions).map fun i => (i, appendElement floats vector i)

theorem vecToJson_printed (h : vector.dimensions ≠ 0) : vecToJson floats vector =
    '[' :: (join ',' ((printed floats vector).map (·.2)) ++ [']']) := by
  rw [vecToJson_eq floats vector h, printed, List.map_map]
  rfl

end Rows

section Bits

theorem msb_test (x : BitVec 8) {j : Nat} (hj : j < 8) :
    0 < (x &&& (128#8 >>> j)).toNat ↔ x.getLsbD (7 - j) = true := by
  revert x j
  decide +kernel

theorem lsb_test (x : BitVec 8) {j : Nat} (hj : j < 8) :
    ((x >>> j) &&& 1#8).toNat = (x.getLsbD j).toNat := by
  revert x j
  decide +kernel

def ofBit (b : Bool) : Int := b.toNat

theorem ofBit_inj {a b : Bool} (h : ofInt (ofBit a) = ofInt (ofBit b)) : a = b := by
  revert h
  cases a <;> cases b <;> decide

variable {F : Type u} (floats : Floats F) (bits : Bitmap) (i : Nat)

theorem vecEachColumn_bit : vecEachColumn floats ⟨i, .bit bits⟩ =
    .integer (ofBit ((bits.byte (i / 8)).getLsbD (7 - i % 8))) := by
  have htest := msb_test (bits.byte (i / 8)) (Nat.mod_lt i (by decide : 0 < 8))
  simp only [vecEachColumn, htest]
  cases (bits.byte (i / 8)).getLsbD (7 - i % 8) <;> rfl

theorem appendElement_bit :
    appendElement floats (.bit bits) i = ofInt (ofBit (bits.get i)) := by
  rw [Bitmap.get_eq, ofBit, ← lsb_test _ (Nat.mod_lt i (by decide : 0 < 8))]
  rfl

theorem reverse_eq_iff (x : BitVec 8) :
    x.reverse = x ↔ ∀ j < 8, x.getLsbD (7 - j) = x.getLsbD j := by
  constructor
  · intro h j hj
    have hbit := congrArg (BitVec.getLsbD · j) h
    rw [BitVec.getLsbD_reverse, BitVec.getMsbD] at hbit
    simpa only [hj, decide_true, Bool.true_and] using hbit
  · intro h
    refine BitVec.eq_of_getLsbD_eq fun j hj => ?_
    rw [BitVec.getLsbD_reverse, BitVec.getMsbD, ← h j hj]
    simp [hj]

variable {bits}

theorem rows_bit_iff :
    (vecEach floats (.bit bits)).map (fun r => (r.1, r.2.text floats)) =
        printed floats (.bit bits) ↔
      ∀ byte ∈ bits.bytes, byte.reverse = byte := by
  rw [vecEach_eq, List.map_map, printed, List.map_inj_left]
  simp only [Function.comp_apply, vecEachColumn_bit, appendElement_bit, Element.text,
    Bitmap.get_eq, List.mem_range, Vector.dimensions, Prod.mk.injEq, true_and, reverse_eq_iff]
  constructor
  · intro h byte hbyte j hj
    obtain ⟨k, hk, rfl⟩ := List.mem_iff_getElem.mp hbyte
    have hbit := ofBit_inj (h (k * 8 + j) (by omega))
    have hdiv : (k * 8 + j) / 8 = k := by omega
    have hmod : (k * 8 + j) % 8 = j := by omega
    simpa [hdiv, hmod, Bitmap.byte, hk] using hbit
  · intro h i hi
    have hlt : i / 8 < bits.bytes.length := by omega
    have hbyte : bits.byte (i / 8) = bits.bytes[i / 8] := by simp [Bitmap.byte, hlt]
    rw [hbyte, h _ (List.getElem_mem hlt) _ (Nat.mod_lt i (by decide))]

end Bits

section Quantize

variable {α : Type v} (positive : α → Bool)

theorem quantizeElement_eq (out : Bitmap) (x : α × Nat) (hx : x.2 / 8 < out.bytes.length) :
    quantizeElement positive out x = if positive x.1 then out.set x.2 true else out := by
  unfold quantizeElement
  cases positive x.1 with
  | true => rfl
  | false =>
    have hbyte : out.byte (x.2 / 8) ||| ((BitVec.ofBool false).setWidth 8 <<< (x.2 % 8)) =
        out.bytes[x.2 / 8] := by
      simp [Bitmap.byte, hx]
    simp only [hbyte, List.set_getElem_self, Bool.false_eq_true, if_false]

theorem get_quantizeElement (out : Bitmap) (x : α × Nat) (hx : x.2 / 8 < out.bytes.length)
    (q : Nat) :
    (quantizeElement positive out x).get q = true ↔
      out.get q = true ∨ q = x.2 ∧ positive x.1 = true := by
  rw [quantizeElement_eq positive out x hx]
  by_cases hpositive : positive x.1 = true
  · rw [if_pos hpositive, Bitmap.get_set _ _ _ _ hx]
    by_cases hq : q = x.2 <;> simp [hq, hpositive]
  · simp [hpositive]

theorem length_quantizeElement (out : Bitmap) (x : α × Nat) :
    (quantizeElement positive out x).bytes.length = out.bytes.length := by
  simp [quantizeElement]

theorem get_foldl (elements : List α) (k : Nat) (out : Bitmap)
    (hk : k + elements.length ≤ out.bytes.length * 8) (q : Nat) :
    ((elements.zipIdx k).foldl (quantizeElement positive) out).get q = true ↔
      out.get q = true ∨ ∃ x, (x, q) ∈ elements.zipIdx k ∧ positive x = true := by
  induction elements generalizing k out with
  | nil => simp
  | cons x elements ih =>
    rw [List.length_cons] at hk
    have hx : k / 8 < out.bytes.length := by omega
    have hk' : k + 1 + elements.length ≤
        (quantizeElement positive out (x, k)).bytes.length * 8 := by
      rw [length_quantizeElement]
      omega
    rw [List.zipIdx_cons, List.foldl_cons, ih (k + 1) _ hk',
      get_quantizeElement positive out (x, k) hx, or_assoc]
    simp only [List.mem_cons, Prod.mk.injEq]
    refine or_congr_right ⟨?_, ?_⟩
    · rintro (⟨rfl, hpositive⟩ | ⟨y, hy, hpositive⟩)
      · exact ⟨x, .inl ⟨rfl, rfl⟩, hpositive⟩
      · exact ⟨y, .inr hy, hpositive⟩
    · rintro ⟨y, ⟨rfl, rfl⟩ | hy, hpositive⟩
      · exact .inl ⟨rfl, hpositive⟩
      · exact .inr ⟨y, hy, hpositive⟩

theorem length_foldl (xs : List (α × Nat)) (out : Bitmap) :
    (xs.foldl (quantizeElement positive) out).bytes.length = out.bytes.length := by
  induction xs generalizing out with
  | nil => rfl
  | cons x xs ih => rw [List.foldl_cons, ih, length_quantizeElement]

variable {elements : List α}

theorem get_quantize (h : 8 ∣ elements.length) {i : Nat} (hi : i < elements.length) :
    (quantize positive elements).get i = positive elements[i] := by
  have hlen : 0 + elements.length ≤ (Bitmap.new elements.length).bytes.length * 8 := by
    simp only [Bitmap.new, List.length_replicate]
    omega
  rw [Bool.eq_iff_iff, quantize, get_foldl positive elements 0 _ hlen i, Bitmap.get_new]
  simp [List.mem_zipIdx_iff_getElem?, hi]

theorem length_quantize (h : 8 ∣ elements.length) :
    (quantize positive elements).bytes.length * 8 = elements.length := by
  rw [quantize, length_foldl]
  simp only [Bitmap.new, List.length_replicate]
  omega

variable {F : Type u} (floats : Floats F)

def positives : Vector F → List Text
  | .float32 elements => elements.map fun x => ofInt (ofBit (floats.positive x))
  | .int8 elements => elements.map fun x => ofInt (ofBit (decide (0 < x.toInt)))
  | .bit _ => []

theorem printed_quantize (h : 8 ∣ elements.length) :
    (printed floats (.bit (quantize positive elements))).map (·.2) =
      elements.map fun x => ofInt (ofBit (positive x)) := by
  rw [printed, List.map_map]
  refine List.ext_getElem ?_ fun i hi hi' => ?_
  · simp [Vector.dimensions, length_quantize positive h]
  · have hi : i < elements.length := by simpa using hi'
    simp [appendElement_bit, get_quantize positive h hi]

theorem printed_of_quantized {vector : Vector F} {bits : Bitmap}
    (h : vecQuantizeBinary floats vector = .ok bits) :
    (printed floats (.bit bits)).map (·.2) = positives floats vector := by
  unfold vecQuantizeBinary at h
  split at h
  next => cases h
  next =>
    split at h
    next => cases h
    next hmod =>
      have hdvd : 8 ∣ vector.dimensions := Nat.dvd_of_mod_eq_zero (not_not.mp hmod)
      cases vector with
      | bit bits => cases h
      | float32 elements =>
        obtain rfl := Except.ok.inj h
        exact printed_quantize floats.positive floats hdvd
      | int8 elements =>
        obtain rfl := Except.ok.inj h
        exact printed_quantize (fun x : BitVec 8 => decide (0 < x.toInt)) floats hdvd

end Quantize

section Agreement

variable {F : Type u} (floats : Floats F)

def Agrees (vector : Vector F) : Prop :=
  (vecEach floats vector).map (fun r => (r.1, r.2.text floats)) = printed floats vector ∧
    ∀ source bits, vector = .bit bits → vecQuantizeBinary floats source = .ok bits →
      (vecEach floats vector).map (fun r => r.2.text floats) = positives floats source ∧
        (printed floats vector).map (·.2) = positives floats source

theorem rows_eq {vector : Vector F} (h : ∀ bits, vector ≠ .bit bits) :
    (vecEach floats vector).map (fun r => (r.1, r.2.text floats)) = printed floats vector := by
  rw [vecEach_eq, List.map_map, printed, List.map_inj_left]
  intro i hi
  rw [List.mem_range] at hi
  cases vector with
  | bit bits => exact absurd rfl (h bits)
  | int8 elements => rfl
  | float32 elements =>
    have hi : i < elements.length := hi
    simp only [Function.comp_apply, vecEachColumn, appendElement, List.getElem?_eq_getElem hi]
    cases h : floats.isnan elements[i] with
    | true => simp [Element.text]
    | false => simp [Element.text]

/-- The rows are what is printed if and only if the vector is not a bit vector or each of its bytes
is the same from both ends. -/
theorem agrees_iff (vector : Vector F) : Agrees floats vector ↔
    ∀ bits, vector = .bit bits → ∀ byte ∈ bits.bytes, byte.reverse = byte := by
  constructor
  · rintro ⟨hrows, -⟩ bits rfl
    exact (rows_bit_iff floats).mp hrows
  · intro h
    have hrows : (vecEach floats vector).map (fun r => (r.1, r.2.text floats)) =
        printed floats vector := by
      cases vector with
      | bit bits => exact (rows_bit_iff floats).mpr (h bits rfl)
      | float32 elements => exact rows_eq floats fun _ hbits => by cases hbits
      | int8 elements => exact rows_eq floats fun _ hbits => by cases hbits
    refine ⟨hrows, fun source bits hbits hquantize => ?_⟩
    subst hbits
    have hstored := printed_of_quantized floats hquantize
    rw [← hrows, List.map_map] at hstored
    exact ⟨hstored, hrows ▸ by rwa [List.map_map]⟩

def bitFloats : Floats Bool where
  ofText number := some (number ≠ ['0'])
  ofBits bits := bits ≠ 0
  isnan _ := false
  positive x := x
  format x := ofInt (ofBit x)

theorem first_bit_differs : ¬∀ vector : Vector Bool, Agrees bitFloats vector := by
  intro h
  have hbyte := (rows_bit_iff bitFloats).mp (h (.bit ⟨[1#8]⟩)).1 1#8 (by simp)
  exact absurd hbyte (by decide)

end Agreement

end SqliteMultimodal.Vec.Elements
