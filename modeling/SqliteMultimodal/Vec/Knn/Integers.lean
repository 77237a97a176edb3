import Mathlib.Data.List.GetD
import SqliteMultimodal.Vec.Knn.Filter
import SqliteMultimodal.Vec.Knn.Compare

namespace SqliteMultimodal.Vec.Knn

open Storage Except

def realToInt64 (q : ℚ) : Int64 :=
  Int64.ofInt (max (-9223372036854775808) (min 9223372036854775807
    (if 0 ≤ q then q.floor else q.ceil)))

section Convert

variable {q : ℚ} {x : Int64}

theorem toInt_realToInt64 (q : ℚ) : (realToInt64 q).toInt =
    max (-9223372036854775808) (min 9223372036854775807 (if 0 ≤ q then q.floor else q.ceil)) := by
  rw [realToInt64, Int64.toInt_ofInt_of_le (by omega) (by omega)]

theorem realToInt64_lt_of_lt (h : (realToInt64 q).toInt < x.toInt) : q < (x.toInt : ℚ) := by
  rw [toInt_realToInt64] at h
  have hmax : x.toInt ≤ 9223372036854775807 := Int64.toInt_le x
  split at h
  next => exact Rat.floor_lt_iff.mp (by omega)
  next =>
    have hceil : q.ceil < x.toInt := by omega
    exact Rat.le_ceil.trans_lt (Rat.intCast_lt_intCast.mpr hceil)

theorem lt_of_lt_realToInt64 (h : x.toInt < (realToInt64 q).toInt) : (x.toInt : ℚ) < q := by
  rw [toInt_realToInt64] at h
  have hmin : -9223372036854775808 ≤ x.toInt := Int64.le_toInt x
  split at h
  next =>
    have hfloor : x.toInt < q.floor := by omega
    exact (Rat.intCast_lt_intCast.mpr hfloor).trans_le (Rat.floor_le q)
  next => exact Rat.lt_ceil_iff.mp (by omega)

theorem compare_realToInt64 (h : x ≠ realToInt64 q) :
    compare x.toInt (realToInt64 q).toInt = compare (x.toInt : ℚ) q := by
  have hne : x.toInt ≠ (realToInt64 q).toInt := fun heq => h (Int64.toInt_inj.mp heq)
  obtain hlt | hgt := lt_or_gt_of_ne hne
  · rw [Int.compare_eq_lt.mpr hlt, compare_lt_iff_lt.mpr (lt_of_lt_realToInt64 hlt)]
  · rw [Int.compare_eq_gt.mpr hgt, compare_gt_iff_gt.mpr (realToInt64_lt_of_lt hgt)]

end Convert

variable {α : Type} {conv : Conversions} {p : Vec0Vtab} {s : Shadow α} {metadataIdx : Nat}
  {chunkId : Rowid} {values : List Int64} {op : CompareOp} {value : SqlValue}

theorem integerTest_iff (hconv : ∀ q, conv.int64 (.real q) = realToInt64 q)
    (hnumber : value.type = .integer ∨ value.type = .float) (x : Int64) :
    integerTest op x (conv.int64 value) = (SqlValue.integer x).satisfies op value ↔
      ∀ q, value = .real q → x = realToInt64 q →
        op.holds .eq = op.holds (compare (x.toInt : ℚ) q) := by
  cases value with
  | null => simp [SqlValue.type] at hnumber
  | text _ => simp [SqlValue.type] at hnumber
  | blob _ => simp [SqlValue.type] at hnumber
  | integer n =>
    rw [conv.int64_integer]
    constructor
    · rintro - _ ⟨⟩
    · exact fun _ => rfl
  | real q =>
    rw [hconv, integerTest]
    simp only [SqlValue.satisfies, SqlValue.cmp, Option.any_some, SqlValue.real.injEq, forall_eq']
    by_cases hx : x = realToInt64 q
    · rw [Int.compare_eq_eq.mpr (congrArg Int64.toInt hx)]
      exact ⟨fun h _ => h, fun h => h hx⟩
    · rw [compare_realToInt64 hx]
      exact ⟨fun _ h => absurd h hx, fun _ => rfl⟩

/-- A constraint on integers is decided as by SQL if and only if no slot of the chunk holds the
integer that a real value is made, or the operator does not tell the two apart. -/
theorem integer_filter_exact_iff (hconv : ∀ q, conv.int64 (.real q) = realToInt64 q)
    (hchunk : s.metadataChunks.get (metadataIdx, chunkId) = some (.integer values))
    (hlen : values.length = p.chunkSize.val)
    (hnumber : value.type = .integer ∨ value.type = .float) :
    (∃ b, vec0SetMetadataFilterBitmap conv p s metadataIdx (.compare op value) chunkId = .ok b ∧
        ∀ i < p.chunkSize.val, b.get i = (SqlValue.integer (values.getD i 0)).satisfies op value) ↔
      ∀ q, value = .real q → ∀ x ∈ values, x = realToInt64 q →
        op.holds .eq = op.holds (compare (x.toInt : ℚ) q) := by
  have hfits : MetadataChunk.fits p.chunkSize.val (.integer values) = true := decide_eq_true hlen
  have hiff := filterBitmap_iff conv (.compare op value)
    (fun i => some ((SqlValue.integer (values.getD i 0)).satisfies op value)) hchunk hfits rfl
  simp only [Option.some.injEq, forall_eq'] at hiff
  rw [hiff]
  constructor
  · intro htests q hq x hx
    obtain ⟨i, hi, rfl⟩ := List.mem_iff_getElem.mp hx
    obtain ⟨t, ht, rfl⟩ := htests i (hlen ▸ hi)
    have htest := (integerTest_iff hconv hnumber _).mp (pure_eq_ok.mp ht) q hq
    rwa [List.getD_eq_getElem _ _ hi] at htest
  · intro hslots i hi
    have hi' : i < values.length := hlen ▸ hi
    refine ⟨_, rfl, (integerTest_iff hconv hnumber _).mpr fun q hq => ?_⟩
    rw [List.getD_eq_getElem _ _ hi']
    exact hslots q hq _ (List.getElem_mem hi')

section Sample

def convertText : SqlValue → Bytes
  | .text t => t
  | _ => []

theorem convertText_text (t : Bytes) : convertText (.text t) = t := rfl

def numberConversions : Conversions where
  int64
    | .integer n => n
    | .real q => realToInt64 q
    | _ => 0
  double
    | .integer n => n.toInt
    | .real q => q
    | _ => 0
  text := convertText
  int64_integer _ := rfl
  double_real _ := rfl
  text_text := convertText_text

def integerTable : Vec0Vtab := ⟨.least, false, [], [⟨.float32, 1, 0⟩], [], [.integer]⟩

def integerShadow : Shadow ℚ :=
  { Shadow.empty with metadataChunks := ⟨[((0, 1), .integer [1, 2, 3, 4, 5, 6, 7, 8])], by simp⟩ }

theorem integer_filter_above : ∃ b,
    vec0SetMetadataFilterBitmap numberConversions integerTable integerShadow 0
        (.compare .gt (.real (5 / 2))) 1 = .ok b ∧
      ∀ i < 8, b.get i = (SqlValue.integer ([1, 2, 3, 4, 5, 6, 7, 8].getD i 0)).satisfies .gt
        (.real (5 / 2)) := by
  refine (integer_filter_exact_iff (fun _ => rfl) rfl rfl (.inr rfl)).mpr ?_
  rintro q ⟨⟩ x - rfl
  decide +kernel

theorem integer_filter_fraction : ¬ ∃ b,
    vec0SetMetadataFilterBitmap numberConversions integerTable integerShadow 0
        (.compare .ge (.real (5 / 2))) 1 = .ok b ∧
      ∀ i < 8, b.get i = (SqlValue.integer ([1, 2, 3, 4, 5, 6, 7, 8].getD i 0)).satisfies .ge
        (.real (5 / 2)) := by
  rintro ⟨b, hb, hbits⟩
  have hb' : vec0SetMetadataFilterBitmap numberConversions integerTable integerShadow 0
      (.compare .ge (.real (5 / 2))) 1 = .ok ⟨[0b11111110#8]⟩ := by decide +kernel
  rw [hb', Except.ok.injEq] at hb
  subst hb
  exact absurd (hbits 1 (by decide)) (by decide +kernel)

end Sample

end SqliteMultimodal.Vec.Knn
