import Mathlib.Data.List.Sort
import SqliteMultimodal.Lib.Selection
import SqliteMultimodal.Vec.ChunkScan.Defs

namespace SqliteMultimodal.Vec.ChunkScan

variable {D : Type} [LinearOrder D] [Zero D] {distances : List D} {n : Nat} {candidates : Bitmap}

def Available (n : Nat) (candidates bTaken : Bitmap) (i : Nat) : Prop :=
  i < n ∧ candidates.get i = true ∧ bTaken.get i = false

theorem skipUnavailable_spec (candidates bTaken : Bitmap) (m i : Nat) :
    let r := skipUnavailable candidates bTaken m i
    i ≤ r ∧ (r < m + i → Available (m + i) candidates bTaken r) ∧
      (m + i ≤ r → ∀ j, i ≤ j → ¬ Available (m + i) candidates bTaken j) := by
  induction m generalizing i with
  | zero =>
    refine ⟨le_rfl, fun h => ?_, fun _ j hij hj => ?_⟩
    · simp [skipUnavailable] at h
    · have := hj.1
      omega
  | succ m ih =>
    simp only [skipUnavailable]
    rw [show m + 1 + i = m + (i + 1) by omega]
    split
    next hskip =>
      obtain ⟨hle, hlt, hge⟩ := ih (i + 1)
      refine ⟨by omega, hlt, fun h j hij hj => ?_⟩
      rcases Nat.eq_or_lt_of_le hij with rfl | hlt'
      · simp [hj.2.1, hj.2.2] at hskip
      · exact hge h j hlt' hj
    next hskip =>
      simp only [Bool.or_eq_true, Bool.not_eq_eq_eq_not, Bool.not_true, not_or,
        Bool.not_eq_true, Bool.not_eq_false] at hskip
      exact ⟨le_rfl, fun _ => ⟨by omega, hskip.2, hskip.1⟩, fun h => by omega⟩

theorem scanMin_succ (distances : List D) (candidates bTaken : Bitmap) (m start : Nat) :
    scanMin distances candidates bTaken (m + 1) start =
      let minIdx := scanMin distances candidates bTaken m start
      if distances.getD m 0 ≤ distances.getD minIdx 0 ∧ !bTaken.get m ∧ candidates.get m then m
      else minIdx := by
  rw [scanMin, List.range_succ, List.foldl_append]
  rfl

theorem scanMin_spec {bTaken : Bitmap} {start : Nat}
    (hstart : Available n candidates bTaken start) :
    Available n candidates bTaken (scanMin distances candidates bTaken n start) ∧
      ∀ i, Available n candidates bTaken i →
        distances.getD (scanMin distances candidates bTaken n start) 0 ≤ distances.getD i 0 := by
  suffices h : ∀ m ≤ n, Available n candidates bTaken
        (scanMin distances candidates bTaken m start) ∧
      ∀ i < m, Available n candidates bTaken i →
        distances.getD (scanMin distances candidates bTaken m start) 0 ≤ distances.getD i 0 by
    obtain ⟨havail, hmin⟩ := h n le_rfl
    exact ⟨havail, fun i hi => hmin i hi.1 hi⟩
  intro m hm
  induction m with
  | zero => exact ⟨hstart, by simp⟩
  | succ m ih =>
    obtain ⟨havail, hmin⟩ := ih (by omega)
    rw [scanMin_succ]
    dsimp only
    split
    next htake =>
      simp only [Bool.not_eq_true'] at htake
      refine ⟨⟨by omega, htake.2.2, htake.2.1⟩, fun i hi hav => ?_⟩
      rcases Nat.lt_succ_iff_lt_or_eq.mp hi with hi | rfl
      · exact htake.1.trans (hmin i hi hav)
      · exact le_rfl
    next htake =>
      refine ⟨havail, fun i hi hav => ?_⟩
      rcases Nat.lt_succ_iff_lt_or_eq.mp hi with hi | rfl
      · exact hmin i hi hav
      · simp only [Bool.not_eq_true', hav.2.1, hav.2.2, and_self, and_true, not_le] at htake
        exact htake.le

structure Picked (distances : List D) (n : Nat) (candidates : Bitmap) (sel : List Nat) : Prop where
  nodup : sel.Nodup
  candidate : ∀ i ∈ sel, i < n ∧ candidates.get i = true
  sorted : sel.Pairwise (fun i j => distances.getD i 0 ≤ distances.getD j 0)
  nearest : ∀ i ∈ sel, ∀ j < n, candidates.get j = true → j ∉ sel →
    distances.getD i 0 ≤ distances.getD j 0

theorem Picked.snoc {sel : List Nat} (h : Picked distances n candidates sel) {i : Nat} (hi : i < n)
    (hcand : candidates.get i = true) (hnew : i ∉ sel)
    (hmin : ∀ j < n, candidates.get j = true → j ∉ sel →
      distances.getD i 0 ≤ distances.getD j 0) :
    Picked distances n candidates (sel ++ [i]) where
  nodup := List.nodup_append.mpr ⟨h.nodup, List.nodup_singleton i,
    fun a ha b hb hab => hnew (List.mem_singleton.mp hb ▸ hab ▸ ha)⟩
  candidate j hj := by
    obtain hj | hj := List.mem_append.mp hj
    · exact h.candidate j hj
    · rw [List.mem_singleton.mp hj]
      exact ⟨hi, hcand⟩
  sorted := by
    rw [List.pairwise_append]
    refine ⟨h.sorted, List.pairwise_singleton _ _, fun a ha b hb => ?_⟩
    rw [List.mem_singleton.mp hb]
    exact h.nearest a ha i hi hcand hnew
  nearest a ha j hj hcandj hjnot := by
    rw [List.mem_append, not_or] at hjnot
    obtain ha | ha := List.mem_append.mp ha
    · exact h.nearest a ha j hj hcandj hjnot.1
    · rw [List.mem_singleton.mp ha]
      exact hmin j hj hcandj hjnot.1

theorem minIdxLoop_spec (hn : 8 ∣ n) {m : Nat} {sel out : List Nat} {bTaken : Bitmap}
    (hpicked : Picked distances n candidates sel)
    (htaken : ∀ i < n, bTaken.get i = true ↔ i ∈ sel) (hbytes : bTaken.bytes.length = n / 8)
    (hout : out.take sel.length = sel) (hlen : sel.length + m ≤ out.length) :
    let r := minIdxLoop distances n candidates m sel.length out bTaken
    Picked distances n candidates (r.1.take r.2) ∧ (r.1.take r.2).length = r.2 ∧
      r.2 ≤ sel.length + m ∧
      (r.2 = sel.length + m ∨ ∀ i < n, candidates.get i = true → i ∈ r.1.take r.2) := by
  induction m generalizing sel out bTaken with
  | zero =>
    simp only [minIdxLoop]
    rw [hout]
    exact ⟨hpicked, rfl, le_rfl, .inl rfl⟩
  | succ m ih =>
    obtain ⟨-, hfound, hnone⟩ := skipUnavailable_spec candidates bTaken n 0
    simp only [Nat.add_zero] at hfound hnone
    simp only [minIdxLoop]
    split
    next hge =>
      rw [hout]
      refine ⟨hpicked, rfl, by omega, .inr fun i hi hcand => ?_⟩
      by_contra hnot
      refine hnone hge i (Nat.zero_le _) ⟨hi, hcand, ?_⟩
      rw [← Bool.not_eq_true, htaken i hi]
      exact hnot
    next hlt =>
      obtain ⟨⟨hin, hcand, hfree⟩, hmin⟩ := @scanMin_spec D _ _ distances n candidates bTaken _
        (hfound (not_le.mp hlt))
      generalize scanMin distances candidates bTaken n
        (skipUnavailable candidates bTaken n 0) = i at hin hcand hfree hmin ⊢
      have hnew : i ∉ sel := by
        rw [← htaken i hin, hfree]
        exact Bool.false_ne_true
      have hpos : sel.length < out.length := by omega
      have hbyte : i / 8 < bTaken.bytes.length := by
        rw [hbytes]
        exact Nat.div_lt_div_of_lt_of_dvd hn hin
      have step := @ih (sel ++ [i]) (out.set sel.length i) (bTaken.set i true)
        (hpicked.snoc hin hcand hnew fun j hj hcandj hjnot => hmin j ⟨hj, hcandj, by
          rw [← Bool.not_eq_true, htaken j hj]
          exact hjnot⟩)
        (fun j hj => by
          rw [Bitmap.get_set _ _ _ _ hbyte]
          by_cases hji : j = i
          · simp [hji]
          · simp [hji, htaken j hj])
        (by simpa using hbytes)
        (by
          rw [List.length_append, List.length_singleton, List.take_add_one,
            List.take_set_of_le le_rfl, hout, List.getElem?_set_self hpos]
          rfl)
        (by simp; omega)
      simpa [Nat.add_assoc, Nat.add_comm 1 m] using step

theorem length_minIdx (distances : List D) (n : Nat) (b : Bitmap) (out : List Nat) (k : Nat) :
    (minIdx distances n b out k).1.length = out.length := by
  have hloop : ∀ (m ik : Nat) (out : List Nat) (bTaken : Bitmap),
      (minIdxLoop distances n b m ik out bTaken).1.length = out.length := by
    intro m
    induction m with
    | zero => exact fun _ _ _ => rfl
    | succ m ih =>
      intro ik out bTaken
      rw [minIdxLoop]
      split
      next => rfl
      next => exact (ih _ _ _).trans (List.length_set ..)
  exact hloop _ _ _ _

def slots (n : Nat) (candidates : Bitmap) : List Nat :=
  (List.range n).filter fun i => candidates.get i

theorem mem_slots {i : Nat} : i ∈ slots n candidates ↔ i < n ∧ candidates.get i = true := by
  simp [slots]

theorem length_slots_le (n : Nat) (candidates : Bitmap) : (slots n candidates).length ≤ n := by
  simpa [slots] using List.length_filter_le (fun i => candidates.get i) (List.range n)

theorem Picked.smallest {sel : List Nat} {k : Nat} (h : Picked distances n candidates sel)
    (hle : sel.length ≤ k)
    (hall : sel.length = k ∨ ∀ i < n, candidates.get i = true → i ∈ sel) :
    Smallest (fun i => distances.getD i 0) k (slots n candidates) sel := by
  have hnodup : (slots n candidates).Nodup := List.nodup_range.filter _
  have hperm : (sel ++ (slots n candidates).filter (fun i => i ∉ sel)).Perm
      (slots n candidates) := by
    refine (List.perm_ext_iff_of_nodup ?_ hnodup).mpr fun i => ?_
    · refine List.nodup_append.mpr ⟨h.nodup, hnodup.filter _, fun a ha b hb hab => ?_⟩
      subst hab
      exact of_decide_eq_true (List.mem_filter.mp hb).2 ha
    · rw [List.mem_append, List.mem_filter, decide_eq_true_eq, mem_slots]
      constructor
      · rintro (hi | hi)
        · exact h.candidate i hi
        · exact hi.1
      · intro hi
        exact (em (i ∈ sel)).imp id fun hnot => ⟨hi, hnot⟩
  refine ⟨(slots n candidates).filter (fun i => i ∉ sel), ?_, ?_, fun a ha b hb => ?_⟩
  · rw [Multiset.coe_add, Multiset.coe_eq_coe]
    exact hperm
  · have hlen := hperm.length_eq
    rw [List.length_append] at hlen
    rw [Multiset.coe_card, Multiset.coe_card]
    obtain hfull | hall := hall
    · omega
    · have hnone : (slots n candidates).filter (fun i => i ∉ sel) = [] := by
        rw [List.filter_eq_nil_iff]
        intro i hi
        simpa using hall i (mem_slots.mp hi).1 (mem_slots.mp hi).2
      rw [hnone, List.length_nil] at hlen
      omega
  · obtain ⟨hb, hnot⟩ := List.mem_filter.mp (Multiset.mem_coe.mp hb)
    obtain ⟨hbn, hbc⟩ := mem_slots.mp hb
    exact h.nearest a ha b hbn hbc (of_decide_eq_true hnot)

theorem minIdx_spec (hn : 8 ∣ n) {k : Nat} {out : List Nat} (hk : min k n ≤ out.length) :
    let r := minIdx distances n candidates out (min k n)
    r.2 ≤ min k n ∧ (r.1.take r.2).length = r.2 ∧
    (r.1.take r.2).Pairwise (fun i j => distances.getD i 0 ≤ distances.getD j 0) ∧
    (∀ i ∈ r.1.take r.2, i < n) ∧
    Smallest (fun i => distances.getD i 0) k (slots n candidates) (r.1.take r.2 : List Nat) := by
  obtain ⟨hpicked, hlen, hle, hall⟩ := @minIdxLoop_spec D _ _ distances n candidates hn (min k n) []
    out (Bitmap.new n) ⟨List.nodup_nil, by simp, List.Pairwise.nil, by simp⟩ (by simp)
    (by simp [Bitmap.new]) rfl (by simpa using hk)
  simp only [List.length_nil, Nat.zero_add] at hpicked hlen hle hall
  refine ⟨hle, hlen, hpicked.sorted, fun i hi => (hpicked.candidate i hi).1, ?_⟩
  -- A chunk has at most `n` candidates, so stopping at `n` loses nothing.
  have hsel : Smallest _ (min k n) _ _ := hpicked.smallest (by omega) (hall.imp (by omega) id)
  exact hsel.of_min (by simpa using length_slots_le n candidates)

end SqliteMultimodal.Vec.ChunkScan
