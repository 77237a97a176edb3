import SqliteMultimodal.Lib.Fuel
import SqliteMultimodal.Vec.ChunkScan.Select
import SqliteMultimodal.Vec.Storage.Defs

namespace SqliteMultimodal.Vec.BlobEntries

open Except Storage ChunkScan

inductive Fault
  | assertion | range | fuel
  deriving DecidableEq

/-- A `size_t` that is passed as an `int`. -/
def toInt (n : BitVec 64) : Int := (n.setWidth 32).toInt

section Bitmaps

/-- The bitmap with the memory behind it; there is none for an empty one.  The sizes are multiples of
8. -/
def bitmapNew (n : Int) (behind : Bytes) : Option Bitmap :=
  if 0 < n then some ⟨(Bitmap.new n.toNat).bytes ++ behind⟩ else none

def bitmapFill (bitmap : Bitmap) (n : Int) : Bitmap :=
  ⟨List.replicate (n.toNat / 8) 0xff#8 ++ bitmap.bytes.drop (n.toNat / 8)⟩

def bitmapSet (bitmap : Bitmap) (position : Int) (value : Bool) : Except Fault Bitmap :=
  if 0 ≤ position then .ok (bitmap.set position.toNat value) else .error .range

end Bitmaps

section SetUp

def bsize (nvectors : BitVec 64) : BitVec 64 := (nvectors + 7) &&& ~~~7

/-- `touched` are the positions that have been passed to `bitmap_set`. -/
structure SetUp where
  i : BitVec 64
  candidates : Bitmap
  touched : List Int
  deriving DecidableEq

def clearTest (nvectors : BitVec 64) (s : SetUp) : Except Fault Bool := return nvectors ≤ s.i

def clearTurn (s : SetUp) : Except Fault SetUp := do
  let candidates ← bitmapSet s.candidates (toInt s.i) false
  return ⟨s.i - 1, candidates, s.touched ++ [toInt s.i]⟩

/-- `behind` is what lies in memory behind the bitmap. -/
def setUp (fuel : Nat) (nvectors : BitVec 64) (behind : Bytes) : Except Fault SetUp := do
  let n := bsize nvectors
  let candidates ← ofOption .assertion (bitmapNew (toInt n) behind)
  While.loop (clearTest nvectors) clearTurn .fuel fuel ⟨n, bitmapFill candidates (toInt n), []⟩

end SetUp

section Filter

variable {α : Type} [LinearOrder α] [Zero α] [Add α] [Sub α] [Mul α] (sqrt : α → α)

structure StaticBlob (α : Type) where
  p : List α
  dimensions : BitVec 64
  nvectors : BitVec 64
  elementType : VectorElementType

structure QueryVector (α : Type) where
  elements : List α
  dimensions : BitVec 64
  elementType : VectorElementType

def StaticBlob.vector (blob : StaticBlob α) (i : Nat) : List α :=
  (blob.p.drop (i * blob.dimensions.toNat)).take blob.dimensions.toNat

structure KnnData where
  k : Nat
  rowids : List Nat

def KnnData.rows (data : KnnData) : List Nat :=
  (List.range data.k).map fun currentIdx => data.rowids.getD currentIdx 0

/-- `sqlite3_malloc`, which takes an `int`; the memory is there where it can be asked for. -/
def mallocs (size : BitVec 64) : Bool := 0 < toInt size

/-- The distances in an array of this many bytes.  Behind them it holds what the memory held. -/
def blobDistances (mem : List α) (blob : StaticBlob α) (query : List α) (size : BitVec 64) :
    Except Fault (List α) :=
  let room := (toInt size).toNat / 4
  let n := blob.nvectors.toNat
  if n ≤ room then
    .ok ((List.range room).map fun i =>
      if i < n then l2SqrFloat sqrt (blob.vector i) query else mem.getD i 0)
  else .error .range

/-- With the plan for nearest vectors.  `query` is the first argument, if it is a vector, and `k` the
second one; `mem` and `behind` are what the memory held. -/
def vecStaticBlobEntriesFilter (fuel : Nat) (mem : List α) (behind : Bytes) (blob : StaticBlob α)
    (query : Option (QueryVector α)) (k : Int64) : Except Fault (Except ResultCode KnnData) :=
  match query with
  | none => return .error sqliteError
  | some query =>
    if query.elementType ≠ blob.elementType then return .error sqliteError
    else if query.dimensions ≠ blob.dimensions then return .error sqliteError
    else
      let k := min k.toInt blob.nvectors.toInt
      if k < 0 then return .error sqliteError
      else if k = 0 then return .ok ⟨0, []⟩
      else if !mallocs (BitVec.ofInt 64 k * 4) then return .error sqliteError
      else if !mallocs (bsize blob.nvectors * 4) then return .error sqliteError
      else do
        let distances ← blobDistances sqrt mem blob query.elements (bsize blob.nvectors * 4)
        let s ← setUp fuel blob.nvectors behind
        let n := (toInt (bsize blob.nvectors)).toNat
        let (rowids, _) := minIdx distances n s.candidates (List.replicate k.toNat 0) k.toNat
        return .ok ⟨k.toNat, rowids⟩

end Filter

section Sizes

theorem toNat_and_not_seven (x : BitVec 64) : (x &&& ~~~7#64).toNat = x.toNat / 8 * 8 := by
  have hshift : x &&& ~~~7#64 = x >>> 3 <<< 3 := by
    apply BitVec.eq_of_getLsbD_eq
    intro i hi
    have hseven : (7#64).getLsbD i = decide (i < 3) := by
      revert i
      decide
    rw [BitVec.getLsbD_and, BitVec.getLsbD_not, hseven, BitVec.getLsbD_shiftLeft,
      BitVec.getLsbD_ushiftRight]
    by_cases hlow : i < 3
    · simp [hlow]
    · simp [hlow, hi, Nat.add_sub_cancel' (Nat.le_of_not_lt hlow)]
  rw [hshift, BitVec.toNat_shiftLeft, BitVec.toNat_ushiftRight, Nat.shiftRight_eq_div_pow,
    Nat.shiftLeft_eq, Nat.mod_eq_of_lt]
  exact (Nat.div_mul_le_self x.toNat 8).trans_lt x.isLt

theorem toNat_bsize (nvectors : BitVec 64) :
    (bsize nvectors).toNat = (nvectors.toNat + 7) % 2 ^ 64 / 8 * 8 := by
  have hadd : (nvectors + 7).toNat = (nvectors.toNat + 7) % 2 ^ 64 := BitVec.toNat_add nvectors 7
  rw [← hadd]
  exact toNat_and_not_seven (nvectors + 7)

theorem dvd_bsize (nvectors : BitVec 64) : 8 ∣ (bsize nvectors).toNat := by
  rw [toNat_bsize]
  exact Nat.dvd_mul_left 8 _

theorem toInt_of_lt {n : BitVec 64} (h : n.toNat < 2147483648) : toInt n = n.toNat :=
  toInt_setWidth h

end Sizes

section Fill

variable {n : Nat} {behind : Bytes}

def filled (n : Nat) (behind : Bytes) : Bitmap := ⟨List.replicate (n / 8) 0xff#8 ++ behind⟩

theorem bitmapFill_bitmapNew (hn : 0 < n) :
    (bitmapNew n behind).map (fun candidates => bitmapFill candidates n) = some (filled n behind) := by
  rw [bitmapNew, if_pos (Int.natCast_pos.mpr hn), Option.map_some, bitmapFill, Int.toNat_natCast]
  congr 2
  rw [Bitmap.new, List.drop_left' List.length_replicate]

theorem get_filled (hn : 8 ∣ n) {q : Nat} (hq : q < n) : (filled n behind).get q = true := by
  have hlt : q / 8 < n / 8 := Nat.div_lt_div_of_lt_of_dvd hn hq
  have hbyte : (filled n behind).byte (q / 8) = BitVec.allOnes 8 := by
    rw [Bitmap.byte, filled, List.getD_eq_getElem?_getD,
      List.getElem?_append_left (by rwa [List.length_replicate]), List.getElem?_replicate, if_pos hlt]
    rfl
  rw [Bitmap.get_eq, hbyte, BitVec.getLsbD_allOnes, decide_eq_true_eq]
  exact Nat.mod_lt q (Nat.zero_lt_succ 7)

end Fill

section Clear

variable {nvectors n : BitVec 64} {bitmap : Bitmap}

theorem get_bitmapSet_false {position : Int} {cleared : Bitmap}
    (h : bitmapSet bitmap position false = .ok cleared) (q : Nat) :
    cleared.get q = (bitmap.get q && !decide (q = position.toNat)) := by
  by_cases hposition : 0 ≤ position
  · rw [bitmapSet, if_pos hposition, Except.ok.injEq] at h
    rw [← h]
    exact Bitmap.get_set_false bitmap position.toNat q
  · rw [bitmapSet, if_neg hposition] at h
    cases h

theorem clearTest_eq (nvectors : BitVec 64) (s : SetUp) :
    clearTest nvectors s = .ok (decide (nvectors.toNat ≤ s.i.toNat)) := rfl

theorem clearTurn_of_lt {s : SetUp} (h : s.i.toNat < 2147483648) :
    clearTurn s = .ok ⟨s.i - 1, s.candidates.set s.i.toNat false, s.touched ++ [(s.i.toNat : Int)]⟩ := by
  rw [clearTurn, toInt_of_lt h, bitmapSet, if_pos (Int.natCast_nonneg _), Int.toNat_natCast]
  rfl

/-- The loop has come down from `n` to `i`. -/
structure Cleared (n : Nat) (bitmap : Bitmap) (s : SetUp) : Prop where
  le : s.i.toNat ≤ n
  get : ∀ q, s.candidates.get q = (bitmap.get q && !decide (s.i.toNat < q ∧ q ≤ n))
  touched : ∀ position, position ∈ s.touched ↔ (s.i.toNat : Int) < position ∧ position ≤ n

theorem cleared_start (n : BitVec 64) (bitmap : Bitmap) :
    Cleared n.toNat bitmap ⟨n, bitmap, []⟩ where
  le := Nat.le_refl _
  get q := by
    have hnone : ¬(n.toNat < q ∧ q ≤ n.toNat) := by omega
    simp [hnone]
  touched position := by
    rw [List.mem_nil_iff, false_iff]
    exact fun h => absurd h.1 (not_lt.mpr h.2)

theorem Cleared.turn {n : Nat} {s : SetUp} (h : Cleared n bitmap s) (hpos : 0 < s.i.toNat) :
    Cleared n bitmap
      ⟨s.i - 1, s.candidates.set s.i.toNat false, s.touched ++ [(s.i.toNat : Int)]⟩ ∧
      (s.i - 1).toNat + 1 = s.i.toNat := by
  have hle := h.le
  have hpred : (s.i - 1).toNat + 1 = s.i.toNat := by
    have hone : (1 : BitVec 64) ≤ s.i := BitVec.le_def.mpr hpos
    have hsub : (s.i - 1).toNat = s.i.toNat - 1 := BitVec.toNat_sub_of_le hone
    omega
  refine ⟨⟨?_, fun q => ?_, fun position => ?_⟩, hpred⟩
  · dsimp only
    omega
  · dsimp only
    rw [Bitmap.get_set_false, h.get, Bool.and_assoc]
    congr 1
    have hsplit : (s.i - 1).toNat < q ∧ q ≤ n ↔ q = s.i.toNat ∨ s.i.toNat < q ∧ q ≤ n := by omega
    rw [decide_eq_decide.mpr hsplit, Bool.decide_or, Bool.not_or, Bool.and_comm]
  · dsimp only
    rw [List.mem_append, List.mem_singleton, h.touched]
    omega

theorem clear_spec (hpos : 0 < nvectors.toNat) (hle : nvectors.toNat ≤ n.toNat)
    (hn : n.toNat < 2147483648) (bitmap : Bitmap) {turns : Nat} (hturns : n.toNat + 1 < turns) :
    ∃ s, While.loop (clearTest nvectors) clearTurn .fuel turns ⟨n, bitmap, []⟩ = .ok s ∧
      Cleared n.toNat bitmap s ∧ s.i.toNat + 1 = nvectors.toNat := by
  have hends : ∃ s, While.loop (clearTest nvectors) clearTurn .fuel turns ⟨n, bitmap, []⟩ = .ok s ∧
      (Cleared n.toNat bitmap s ∧ nvectors.toNat ≤ s.i.toNat + 1) ∧
      clearTest nvectors s = .ok false := by
    refine While.loop_ends (Finset.range (n.toNat + 1)) (fun s => s.i.toNat)
      (fun s => Cleared n.toNat bitmap s ∧ nvectors.toNat ≤ s.i.toNat + 1)
      (fun s hs => Finset.mem_range.mpr (Nat.lt_succ_of_le hs.1.le))
      (fun s _ => ⟨_, clearTest_eq nvectors s⟩) (fun s ⟨hs, _⟩ htest => ?_)
      ⟨cleared_start n bitmap, Nat.le_succ_of_le hle⟩ (by rwa [Finset.card_range])
    rw [clearTest_eq, Except.ok.injEq, decide_eq_true_eq] at htest
    obtain ⟨hturn, hpred⟩ := hs.turn (hpos.trans_le htest)
    refine ⟨_, clearTurn_of_lt (hs.le.trans_lt hn), ⟨hturn, ?_⟩, fun _ => ?_⟩
    · exact htest.trans_eq hpred.symm
    · exact Nat.lt_of_succ_le hpred.le
  obtain ⟨s, hloop, ⟨hs, hge⟩, htest⟩ := hends
  rw [clearTest_eq, Except.ok.injEq, decide_eq_false_iff_not] at htest
  exact ⟨s, hloop, hs, by omega⟩

end Clear

section Prepare

variable (D : Type) [LinearOrder D] [Zero D] (nvectors : BitVec 64)

/-- `min_idx` picks as many vectors as are asked for, the nearest first. -/
def RanksVectors (candidates : Bitmap) : Prop :=
  ∀ (distances : List D) (k : Nat), 0 < k → k ≤ nvectors.toNat →
    let r := minIdx distances (toInt (bsize nvectors)).toNat candidates (List.replicate k 0) k
    r.2 = k ∧ r.1.Pairwise (fun i j => distances.getD i 0 ≤ distances.getD j 0) ∧
      Smallest (fun i => distances.getD i 0) k (List.range nvectors.toNat : Multiset Nat) r.1

def PreparesExactly (behind : Bytes) : Prop :=
  ∃ s, Fuel.Settles (fun fuel => setUp fuel nvectors behind) (.ok s) ∧
    (∀ position ∈ s.touched, 0 ≤ position ∧ position < (bsize nvectors).toNat) ∧
    (∀ i < (bsize nvectors).toNat, s.candidates.get i = decide (i < nvectors.toNat)) ∧
    RanksVectors D nvectors s.candidates

variable {D nvectors} {candidates : Bitmap}

theorem slots_eq_range {n m : Nat} (hle : m ≤ n)
    (h : ∀ i < n, candidates.get i = decide (i < m)) : slots n candidates = List.range m := by
  obtain ⟨d, rfl⟩ := Nat.exists_eq_add_of_le hle
  rw [slots, List.range_add, List.filter_append]
  have hleft : (List.range m).filter (fun i => candidates.get i) = List.range m := by
    rw [List.filter_eq_self]
    intro i hi
    rw [List.mem_range] at hi
    rw [h i (by omega), decide_eq_true hi]
  have hright : ((List.range d).map (m + ·)).filter (fun i => candidates.get i) = [] := by
    rw [List.filter_eq_nil_iff]
    intro i hi
    obtain ⟨j, hj, rfl⟩ := List.mem_map.mp hi
    rw [List.mem_range] at hj
    rw [h _ (by omega)]
    simp
  rw [hleft, hright, List.append_nil]

theorem ranksVectors (hle : nvectors.toNat ≤ (bsize nvectors).toNat)
    (hfits : (bsize nvectors).toNat < 2147483648)
    (h : ∀ i < (bsize nvectors).toNat, candidates.get i = decide (i < nvectors.toNat)) :
    RanksVectors D nvectors candidates := by
  intro distances k hk hkn
  have hn : (toInt (bsize nvectors)).toNat = (bsize nvectors).toNat := by
    rw [toInt_of_lt hfits, Int.toNat_natCast]
  have hmin : min k (bsize nvectors).toNat = k := Nat.min_eq_left (hkn.trans hle)
  have hout : min k (bsize nvectors).toNat ≤ (List.replicate k 0).length := by
    rw [hmin, List.length_replicate]
  have hspec := @minIdx_spec D _ _ distances _ candidates (dvd_bsize nvectors) k _ hout
  rw [hmin, slots_eq_range hle h] at hspec
  obtain ⟨-, hlen, hsorted, -, hsmallest⟩ := hspec
  have hcard := hsmallest.card_eq
  rw [Multiset.coe_card, Multiset.coe_card, List.length_range, hlen, Nat.min_eq_left hkn] at hcard
  have htake : ∀ r : List Nat × Nat, r.2 = k → r.1.length = k → r.1.take r.2 = r.1 :=
    fun r h₂ h₁ => List.take_of_length_le (by omega)
  rw [htake _ hcard ((length_minIdx ..).trans List.length_replicate)] at hsorted hsmallest
  rw [hn]
  exact ⟨hcard, hsorted, hsmallest⟩

theorem le_bsize (h : nvectors.toNat + 7 < 2 ^ 64) :
    nvectors.toNat ≤ (bsize nvectors).toNat ∧ (bsize nvectors).toNat ≤ nvectors.toNat + 7 := by
  rw [toNat_bsize, Nat.mod_eq_of_lt h]
  omega

theorem setUp_settles {fuel : Nat} {behind : Bytes} {s : SetUp}
    (h : setUp fuel nvectors behind = .ok s) :
    Fuel.Settles (fun fuel => setUp fuel nvectors behind) (.ok s) := by
  refine ⟨fuel, fun fuel' hfuel => ?_⟩
  obtain ⟨candidates, hnew, hloop⟩ := bind_eq_ok.mp h
  change setUp fuel' nvectors behind = .ok s
  rw [setUp, hnew, ok_bind]
  exact While.loop_mono (fun _ _ h => h) hfuel hloop

theorem setUp_spec (hpos : 0 < nvectors.toNat) (hfits : nvectors.toNat + 7 < 2147483648)
    (behind : Bytes) :
    ∃ s, Fuel.Settles (fun fuel => setUp fuel nvectors behind) (.ok s) ∧
      (∀ position, position ∈ s.touched ↔
        (nvectors.toNat : Int) ≤ position ∧ position ≤ (bsize nvectors).toNat) ∧
      (∀ q, s.candidates.get q = ((filled (bsize nvectors).toNat behind).get q &&
        !decide (nvectors.toNat ≤ q ∧ q ≤ (bsize nvectors).toNat))) ∧
      (∀ i < (bsize nvectors).toNat, s.candidates.get i = decide (i < nvectors.toNat)) ∧
      RanksVectors D nvectors s.candidates := by
  obtain ⟨hle, hge⟩ := @le_bsize nvectors (by omega)
  have hn : (bsize nvectors).toNat < 2147483648 := by omega
  obtain ⟨s, hloop, hs, hi⟩ := clear_spec hpos hle hn (filled (bsize nvectors).toNat behind)
    (Nat.lt_succ_self _)
  have hget : ∀ q, s.candidates.get q = ((filled (bsize nvectors).toNat behind).get q &&
      !decide (nvectors.toNat ≤ q ∧ q ≤ (bsize nvectors).toNat)) := fun q => by
    have hlow : s.i.toNat < q ↔ nvectors.toNat ≤ q := by omega
    rw [hs.get, decide_eq_decide.mpr (and_congr_left' hlow)]
  have hcandidate : ∀ i < (bsize nvectors).toNat,
      s.candidates.get i = decide (i < nvectors.toNat) := fun i hi => by
    have hiff : ¬(nvectors.toNat ≤ i ∧ i ≤ (bsize nvectors).toNat) ↔ i < nvectors.toNat := by omega
    rw [hget, get_filled (dvd_bsize nvectors) hi, Bool.true_and, ← decide_not, decide_eq_decide.mpr hiff]
  have hrun : setUp ((bsize nvectors).toNat + 2) nvectors behind = .ok s := by
    have hfilled := @bitmapFill_bitmapNew (bsize nvectors).toNat behind (by omega)
    obtain ⟨candidates, hnew, hfill⟩ := Option.map_eq_some_iff.mp hfilled
    rw [setUp, toInt_of_lt hn, hnew, ofOption, ok_bind, hfill]
    exact hloop
  refine ⟨s, setUp_settles hrun, fun position => ?_, hget, hcandidate, ranksVectors hle hn hcandidate⟩
  rw [hs.touched]
  omega

variable (D nvectors)

/-- The first position is that behind the last bit, whatever the number of vectors. -/
theorem not_preparesExactly (behind : Bytes) : ¬ PreparesExactly D nvectors behind := by
  rintro ⟨s, ⟨fuel, hs⟩, hinside, hcandidate, -⟩
  have hrun : setUp fuel nvectors behind = .ok s := hs fuel (Nat.le_refl fuel)
  obtain ⟨candidates, hnew, hloop⟩ := bind_eq_ok.mp hrun
  rw [ofOption_eq_ok, bitmapNew, Option.ite_none_right_eq_some] at hnew
  have hpos := hnew.1
  have hint : toInt (bsize nvectors) =
      if 2 * ((bsize nvectors).toNat % 2 ^ 32) < 2 ^ 32 then
        (((bsize nvectors).toNat % 2 ^ 32 : Nat) : Int)
      else (((bsize nvectors).toNat % 2 ^ 32 : Nat) : Int) - 2 ^ 32 := by
    rw [toInt, BitVec.toInt_eq_toNat_cond, BitVec.toNat_setWidth]
    rfl
  have hbsize := toNat_bsize nvectors
  have hlt := nvectors.isLt
  obtain ⟨k, rfl, ⟨htest, -⟩ | ⟨s₁, -, hturn, hloop⟩⟩ := While.loop_cases hloop
  · rw [clearTest_eq, Except.ok.injEq, decide_eq_false_iff_not] at htest
    dsimp only at htest
    omega
  obtain ⟨cleared, hset, hturn⟩ := bind_eq_ok.mp hturn
  obtain rfl := pure_eq_ok.mp hturn
  have hfirst : toInt (bsize nvectors) ∈ s.touched ∧
      s.candidates.get (toInt (bsize nvectors)).toNat = false := by
    refine While.loop_invariant (fun s => toInt (bsize nvectors) ∈ s.touched ∧
      s.candidates.get (toInt (bsize nvectors)).toNat = false) (fun s s' hs hbody => ?_) ⟨?_, ?_⟩
      hloop
    · obtain ⟨cleared', hset', hbody⟩ := bind_eq_ok.mp hbody
      obtain rfl := pure_eq_ok.mp hbody
      refine ⟨List.mem_append_left _ hs.1, ?_⟩
      rw [get_bitmapSet_false hset', hs.2, Bool.false_and]
    · exact List.mem_singleton_self _
    · rw [get_bitmapSet_false hset, decide_eq_true rfl, Bool.not_true, Bool.and_false]
  obtain ⟨-, hbelow⟩ := hinside _ hfirst.1
  have hbit := hcandidate (toInt (bsize nvectors)).toNat (by omega)
  rw [hfirst.2, eq_comm, decide_eq_false_iff_not] at hbit
  omega

theorem eight_vectors_not_preparesExactly :
    setUp 2 8 [0xff#8] = .ok ⟨7, ⟨[0xff#8, 0xfe#8]⟩, [8]⟩ ∧ ¬ PreparesExactly Int 8 [0xff#8] := by
  have hrun : setUp 2 8 [0xff#8] = .ok ⟨7, ⟨[0xff#8, 0xfe#8]⟩, [8]⟩ := rfl
  refine ⟨hrun, ?_⟩
  rintro ⟨s, hs, hinside, -⟩
  obtain rfl : _ = s := Except.ok.inj ((setUp_settles hrun).unique hs)
  exact absurd (hinside 8 (List.mem_singleton_self 8)).2 (by decide)

end Prepare

section Nearest

variable {α : Type} [LinearOrder α] [Zero α] [Add α] [Sub α] [Mul α] {sqrt : α → α}
variable {blob : StaticBlob α} {query : QueryVector α} {k : Int64}

theorem toInt_four_mul {n : BitVec 64} (h : n.toNat * 4 < 2147483648) :
    toInt (n * 4) = (n.toNat * 4 : Nat) := by
  have hmul : (n * 4).toNat = n.toNat * 4 := BitVec.toNat_mul_of_lt (by
    change n.toNat * 4 < 2 ^ 64
    omega)
  rw [toInt_of_lt (by omega), hmul]

omit [LinearOrder α] in
theorem blobDistances_eq (sqrt : α → α) (mem : List α) (blob : StaticBlob α) (elements : List α)
    (hle : blob.nvectors.toNat ≤ (bsize blob.nvectors).toNat)
    (hfits : (bsize blob.nvectors).toNat * 4 < 2147483648) :
    ∃ distances, blobDistances sqrt mem blob elements (bsize blob.nvectors * 4) = .ok distances ∧
      ∀ i < blob.nvectors.toNat, distances.getD i 0 = l2SqrFloat sqrt (blob.vector i) elements := by
  have hroom : (toInt (bsize blob.nvectors * 4)).toNat / 4 = (bsize blob.nvectors).toNat := by
    rw [toInt_four_mul hfits, Int.toNat_natCast, Nat.mul_div_cancel _ (Nat.zero_lt_succ 3)]
  rw [blobDistances, hroom, if_pos hle]
  refine ⟨_, rfl, fun i hi => ?_⟩
  rw [List.getD_eq_getElem?_getD, List.getElem?_map, List.getElem?_range (hi.trans_le hle),
    Option.map_some, Option.getD_some, if_pos hi]

theorem KnnData.rows_eq {data : KnnData} (h : data.rowids.length = data.k) :
    data.rows = data.rowids := by
  apply List.ext_getElem
  · rw [rows, List.length_map, List.length_range, h]
  · intro i _ hi
    simp only [rows, List.getElem_map, List.getElem_range]
    rw [List.getD_eq_getElem?_getD, List.getElem?_eq_getElem hi, Option.getD_some]

theorem vecStaticBlobEntriesFilter_eq {m fuel : Nat} {mem distances : List α} {behind : Bytes}
    {s : SetUp} (htype : query.elementType = blob.elementType)
    (hdim : query.dimensions = blob.dimensions) (hm : min k.toInt blob.nvectors.toInt = m)
    (hpos : 0 < m) (hle : m ≤ (bsize blob.nvectors).toNat)
    (hfits : (bsize blob.nvectors).toNat * 4 < 2147483648)
    (hdistances : blobDistances sqrt mem blob query.elements (bsize blob.nvectors * 4) =
      .ok distances) (hs : setUp fuel blob.nvectors behind = .ok s) :
    vecStaticBlobEntriesFilter sqrt fuel mem behind blob (some query) k = .ok (.ok ⟨m,
      (minIdx distances (toInt (bsize blob.nvectors)).toNat s.candidates (List.replicate m 0)
        m).1⟩) := by
  have hnat : (BitVec.ofNat 64 m).toNat = m := by
    rw [BitVec.toNat_ofNat, Nat.mod_eq_of_lt (by omega)]
  have hrowids : mallocs (BitVec.ofInt 64 m * 4) = true := by
    rw [mallocs, decide_eq_true_eq, BitVec.ofInt_natCast, toInt_four_mul (by omega)]
    omega
  have hroom : mallocs (bsize blob.nvectors * 4) = true := by
    rw [mallocs, decide_eq_true_eq, toInt_four_mul hfits]
    omega
  have hneg : ¬ (m : Int) < 0 := by omega
  have hzero : ¬ (m : Int) = 0 := by omega
  rw [vecStaticBlobEntriesFilter]
  dsimp only
  rw [if_neg (not_not.mpr htype), if_neg (not_not.mpr hdim), hm, if_neg hneg, if_neg hzero, hrowids,
    hroom, hdistances, ok_bind, hs, Int.toNat_natCast]
  rfl

/-- The rows are those of the nearest vectors, and they come in order. -/
theorem vecStaticBlobEntriesFilter_nearest (mem : List α) (behind : Bytes)
    (htype : query.elementType = blob.elementType) (hdim : query.dimensions = blob.dimensions)
    (hk : 0 < k.toInt) (hpos : 0 < blob.nvectors.toNat)
    (hfits : (blob.nvectors.toNat + 7) * 4 < 2147483648) :
    ∃ data, Fuel.Settles
        (fun fuel => vecStaticBlobEntriesFilter sqrt fuel mem behind blob (some query) k)
        (.ok (.ok data)) ∧
      data.rows.Pairwise (fun i j => l2SqrFloat sqrt (blob.vector i) query.elements ≤
        l2SqrFloat sqrt (blob.vector j) query.elements) ∧
      Smallest (fun i => l2SqrFloat sqrt (blob.vector i) query.elements) k.toInt.toNat
        (List.range blob.nvectors.toNat : Multiset Nat) data.rows := by
  obtain ⟨hle, hge⟩ := @le_bsize blob.nvectors (by omega)
  obtain ⟨s, ⟨fuel, hs⟩, -, -, -, hranks⟩ := @setUp_spec α _ _ blob.nvectors hpos (by omega) behind
  obtain ⟨distances, hdistances, hdistance⟩ :=
    blobDistances_eq sqrt mem blob query.elements hle (by omega)
  have hint : blob.nvectors.toInt = blob.nvectors.toNat := BitVec.toInt_eq_toNat_of_lt (by omega)
  obtain ⟨m, hm⟩ : ∃ m, m = min k.toInt.toNat blob.nvectors.toNat := ⟨_, rfl⟩
  have hmin : min k.toInt blob.nvectors.toInt = m := by omega
  obtain ⟨hused, hsorted, hsmallest⟩ := hranks distances m (by omega) (by omega)
  refine ⟨_, ⟨fuel, fun fuel' hfuel => vecStaticBlobEntriesFilter_eq htype hdim hmin (by omega)
    (by omega) (by omega) hdistances (hs fuel' hfuel)⟩, ?_⟩
  rw [KnnData.rows_eq ((length_minIdx ..).trans List.length_replicate)]
  have hmem : ∀ i ∈ (minIdx distances (toInt (bsize blob.nvectors)).toNat s.candidates
      (List.replicate m 0) m).1, i < blob.nvectors.toNat := fun i hi =>
    List.mem_range.mp (Multiset.mem_of_le hsmallest.le hi)
  constructor
  · refine hsorted.imp_of_mem fun hi hj hij => ?_
    rwa [hdistance _ (hmem _ hi), hdistance _ (hmem _ hj)] at hij
  · have hnear : Smallest (fun i => l2SqrFloat sqrt (blob.vector i) query.elements) m _ _ :=
      hsmallest.map id fun i hi => (hdistance i (List.mem_range.mp hi)).symm
    rw [Multiset.map_id, Multiset.map_id] at hnear
    refine Smallest.of_min (n := blob.nvectors.toNat) ?_ List.length_range.le
    rwa [← hm]

end Nearest

section Sample

def squareRoot (x : Int) : Int := (Nat.sqrt x.toNat : Nat)

def sampleBlob : StaticBlob Int := ⟨[3, 4, 0, 0, 6, 8], 2, 3, .float32⟩

def sampleQuery : QueryVector Int := ⟨[0, 0], 2, .float32⟩

theorem sample_nearest : ∃ data, Fuel.Settles
      (fun fuel => vecStaticBlobEntriesFilter squareRoot fuel [] [] sampleBlob (some sampleQuery) 2)
      (.ok (.ok data)) ∧
    data.rows.Pairwise (fun i j =>
      l2SqrFloat squareRoot (sampleBlob.vector i) sampleQuery.elements ≤
        l2SqrFloat squareRoot (sampleBlob.vector j) sampleQuery.elements) ∧
    Smallest (fun i => l2SqrFloat squareRoot (sampleBlob.vector i) sampleQuery.elements) 2
      (List.range 3 : Multiset Nat) data.rows :=
  vecStaticBlobEntriesFilter_nearest [] [] rfl rfl (by decide) (by decide) (by decide)

end Sample

end SqliteMultimodal.Vec.BlobEntries
