import Mathlib.Data.List.Perm.Basic
import SqliteMultimodal.Graph.Parallel.Search
import SqliteMultimodal.Lib.Json

namespace SqliteMultimodal.Graph.Parallel

def hasLabel (label : Text) (row : NodeRow) : Bool :=
  ((row.labels.bind Json.stringArray).getD []).contains label

def labelled (t : RowTable NodeRow) (label : Text) : List Int :=
  (t.rows.filter fun row => hasLabel label row.2).map Prod.fst

namespace Search

variable {t : RowTable NodeRow} {zValue : Option Text} {nThreads : Nat} {m : Search}

def OneRange (t : RowTable NodeRow) (zValue : Option Text) (nThreads : Nat) : Prop :=
  ∃ j, ∀ i < nThreads, i ≠ j → ∀ row ∈ rangeRows t nThreads i, isMatch zValue row.2 = false

theorem found_eq_nil {i : Nat} :
    found t nThreads zValue i = [] ↔
      ∀ row ∈ rangeRows t nThreads i, isMatch zValue row.2 = false := by
  simp only [found, matching, List.filter_eq_nil_iff, Bool.not_eq_true]

section Flat

variable {f : Nat → List (Int × NodeRow)} {n i j : Nat}

theorem flatMap_range_eq (hi : i < n) (h : ∀ j < n, j ≠ i → f j = []) :
    (List.range n).flatMap f = f i := by
  induction n with
  | zero => exact absurd hi (Nat.not_lt_zero i)
  | succ n ih =>
    rw [List.range_succ, List.flatMap_append, List.flatMap_singleton]
    by_cases hin : i = n
    · have hnil : (List.range n).flatMap f = [] := List.flatMap_eq_nil_iff.mpr fun j hj => by
        have hj := List.mem_range.mp hj
        exact h j (Nat.lt_succ_of_lt hj) (by omega)
      rw [hnil, hin, List.nil_append]
    · rw [ih (by omega) fun j hj => h j (Nat.lt_succ_of_lt hj),
        h n (Nat.lt_succ_self n) (Ne.symm hin), List.append_nil]

theorem length_le_flatMap_range (hi : i < n) :
    (f i).length ≤ ((List.range n).flatMap f).length := by
  rw [List.flatMap_def]
  exact (List.sublist_flatten_of_mem (List.mem_map_of_mem (List.mem_range.mpr hi))).length_le

theorem length_add_le_flatMap_range (hi : i < n) (hj : j < i) :
    (f j).length + (f i).length ≤ ((List.range n).flatMap f).length := by
  induction n with
  | zero => exact absurd hi (Nat.not_lt_zero i)
  | succ n ih =>
    rw [List.range_succ, List.flatMap_append, List.flatMap_singleton, List.length_append]
    by_cases hin : i = n
    · rw [hin]
      exact Nat.add_le_add_right (length_le_flatMap_range (hin ▸ hj)) _
    · exact (ih (by omega)).trans (Nat.le_add_right _ _)

end Flat

section Returned

variable {totalResults : Nat}

theorem Fits.counted_returned (h : Fits t zValue nThreads m)
    (hret : m.caller = .returned totalResults) (i : Nat) :
    counted m.args i = if i < nThreads then (found t nThreads zValue i).length else 0 := by
  have hphase := h.phase
  rw [Phase, hret] at hphase
  have hlen := h.searching.args_length
  split
  next hi =>
    obtain ⟨arg, harg⟩ : ∃ arg, m.args[i]? = some arg :=
      ⟨_, List.getElem?_eq_getElem (hlen ▸ hi)⟩
    rw [counted_eq harg, h.searching.counted_of_over harg (h.finished i (hphase.1 i hi) arg harg)]
  next hi =>
    rw [counted, List.getElem?_eq_none_iff.mpr (hlen ▸ not_lt.mp hi)]
    rfl

theorem Fits.total_returned (h : Fits t zValue nThreads m) (hn : 0 < nThreads)
    (hret : m.caller = .returned totalResults) :
    totalResults = (matching zValue t.rows).length := by
  have hphase := h.phase
  rw [Phase, hret] at hphase
  rw [hphase.2, found_flatten hn]

theorem matching_eq_found (hn : 0 < nThreads) (hone : OneRange t zValue nThreads) {i : Nat}
    (hi : i < nThreads) (hfound : found t nThreads zValue i ≠ []) :
    matching zValue t.rows = found t nThreads zValue i := by
  obtain ⟨j, hj⟩ := hone
  have hij : i = j := by
    by_contra hne
    exact hfound (found_eq_nil.mpr (hj i hi hne))
  rw [← found_flatten hn,
    flatMap_range_eq hi fun l hl hne => found_eq_nil.mpr (hj l hl (hij ▸ hne))]

theorem Fits.answer_of_oneRange (h : Fits t zValue nThreads m) (hn : 0 < nThreads)
    (hret : m.caller = .returned totalResults) (hone : OneRange t zValue nThreads) :
    m.answer totalResults = (matching zValue t.rows).map fun row => some row.1 := by
  have htotal := h.total_returned hn hret
  have hcounted := h.counted_returned hret
  refine List.ext_getElem? fun k => ?_
  rw [answer, List.getElem?_take, List.getElem?_map]
  by_cases hk : k < totalResults
  · obtain ⟨i, hi, hfound⟩ : ∃ i < nThreads, found t nThreads zValue i ≠ [] := by
      by_contra hnone
      simp only [not_exists, not_and, not_not] at hnone
      rw [htotal, ← found_flatten hn, List.flatMap_eq_nil_iff.mpr fun i hi =>
        hnone i (List.mem_range.mp hi)] at hk
      exact Nat.not_lt_zero k hk
    have hmine : k < counted m.args i := by
      rwa [hcounted, if_pos hi, ← matching_eq_found hn hone hi hfound, ← htotal]
    obtain ⟨j, hj, hres⟩ := h.searching.written k ⟨i, hmine⟩
    rw [hcounted] at hj
    split at hj
    next hjn =>
      have hne := List.ne_nil_of_length_pos (Nat.zero_lt_of_lt hj)
      rw [if_pos hk, hres, matching_eq_found hn hone hjn hne, List.getElem?_eq_getElem hj]
      rfl
    next => exact absurd hj (Nat.not_lt_zero k)
  · rw [if_neg hk, List.getElem?_eq_none_iff.mpr (htotal ▸ not_lt.mp hk)]
    rfl

theorem Fits.oneRange_of_answer (h : Fits t zValue nThreads m) (ht : t.rows.length ≤ 1000)
    (hn : 0 < nThreads) (hret : m.caller = .returned totalResults)
    (hwritten : none ∉ m.answer totalResults) : OneRange t zValue nThreads := by
  by_contra hmany
  simp only [OneRange, not_exists, not_forall, ← found_eq_nil] at hmany
  have htotal := h.total_returned hn hret
  have hless : ∀ i, counted m.args i < totalResults := by
    intro i
    obtain ⟨j, hj, hji, hfound⟩ := hmany i
    have hpos := List.length_pos_iff.mpr hfound
    rw [h.counted_returned hret, htotal, ← found_flatten hn]
    split
    next hi =>
      obtain hlt | hlt := Nat.lt_or_gt_of_ne hji
      · have := length_add_le_flatMap_range (f := found t nThreads zValue) hi hlt
        omega
      · have := length_add_le_flatMap_range (f := found t nThreads zValue) hj hlt
        omega
    next => exact Nat.lt_of_lt_of_le hpos (length_le_flatMap_range hj)
  have hpos : 0 < totalResults := Nat.zero_lt_of_lt (hless 0)
  have hbound : totalResults ≤ 1000 := htotal ▸ (List.length_filter_le _ _).trans ht
  have hnone := h.searching.unwritten (totalResults - 1) (by omega) fun i =>
    Nat.le_sub_one_of_lt (hless i)
  refine hwritten (List.mem_iff_getElem?.mpr ⟨totalResults - 1, ?_⟩)
  rw [answer, List.getElem?_take, if_pos (by omega), hnone]

theorem matching_perm_labelled {label : Text} :
    ((matching (some label) t.rows).map Prod.fst).Perm (labelled t label) ↔
      ∀ row ∈ t.rows, isMatch (some label) row.2 = hasLabel label row.2 := by
  constructor
  · intro hperm row hrow
    have hkey : ∀ row' ∈ t.rows, row'.1 = row.1 → row' = row := by
      rintro ⟨k, node⟩ hrow' rfl
      rw [← RowTable.get_eq_some] at hrow'
      rw [Option.some.inj (hrow'.symm.trans (RowTable.get_eq_some.mpr hrow))]
    have hids : ∀ p : Int × NodeRow → Bool,
        row.1 ∈ (t.rows.filter p).map Prod.fst ↔ p row = true := by
      intro p
      rw [List.mem_map]
      constructor
      · rintro ⟨row', hrow', hid⟩
        obtain ⟨hmem, hp⟩ := List.mem_filter.mp hrow'
        rwa [← hkey row' hmem hid]
      · exact fun hp => ⟨row, List.mem_filter.mpr ⟨hrow, hp⟩, rfl⟩
    have hmem := hperm.mem_iff (a := row.1)
    rw [matching, labelled, hids, hids] at hmem
    exact Bool.eq_iff_iff.mpr hmem
  · intro h
    rw [labelled, matching, List.filter_congr h]

end Returned

/-- Exactly then the search returns the nodes with the label. -/
theorem parallel_match_iff {label : Text} (ht : t.rows.length ≤ 1000) (hn : 0 < nThreads)
    (h : Machine.Reached step Settled (start t (some label) nThreads) m) {totalResults : Nat}
    (hret : m.caller = .returned totalResults) :
    (m.answer totalResults).Perm ((labelled t label).map some) ↔
      OneRange t (some label) nThreads ∧
        ∀ row ∈ t.rows, isMatch (some label) row.2 = hasLabel label row.2 := by
  have hfits := reached_fits ht h
  have hsome : ∀ rows : List (Int × NodeRow), (rows.map fun row => some row.1) =
      (rows.map Prod.fst).map some := fun rows => by rw [List.map_map]; rfl
  constructor
  · intro hperm
    have hone : OneRange t (some label) nThreads := by
      refine hfits.oneRange_of_answer ht hn hret fun hnone => ?_
      obtain ⟨id, -, hid⟩ := List.mem_map.mp (hperm.mem_iff.mp hnone)
      exact Option.some_ne_none id hid
    rw [hfits.answer_of_oneRange hn hret hone, hsome] at hperm
    exact ⟨hone, matching_perm_labelled.mp
      ((List.map_perm_map_iff (Option.some_injective Int)).mp hperm)⟩
  · rintro ⟨hone, hagree⟩
    rw [hfits.answer_of_oneRange hn hret hone, hsome]
    exact (matching_perm_labelled.mpr hagree).map some

def twoNodes (label label' : Text) : RowTable NodeRow :=
  ⟨[(1, ⟨some (labelsJson [label]), none⟩), (2, ⟨some (labelsJson [label']), none⟩)],
    List.pairwise_pair.mpr (show (1 : Int) < 2 by decide)⟩

def twoThreads : List Move :=
  [.caller, .caller, .caller, .worker (.pop 0), .worker (.pop 1), .row 0, .row 1,
    .worker (.execute 0), .worker (.execute 1), .caller, .caller, .caller, .caller]

theorem parallel_match_one_writer :
    ∃ m, Machine.run step (start (twoNodes ['A'] ['B']) (some ['A']) 2) twoThreads = some m ∧
      m.answer 1 = [some 1] ∧
      ((m.answer 1).Perm ((labelled (twoNodes ['A'] ['B']) ['A']).map some) ↔
        OneRange (twoNodes ['A'] ['B']) (some ['A']) 2 ∧
          ∀ row ∈ (twoNodes ['A'] ['B']).rows,
            isMatch (some ['A']) row.2 = hasLabel ['A'] row.2) := by
  obtain ⟨m, hm⟩ : ∃ m, Machine.run step (start (twoNodes ['A'] ['B']) (some ['A']) 2) twoThreads =
      some m := Option.isSome_iff_exists.mp (by decide +kernel)
  have hend : (Machine.run step (start (twoNodes ['A'] ['B']) (some ['A']) 2) twoThreads).map
      (fun m => (m.caller, m.answer 1)) = some (.returned 1, [some 1]) := by decide +kernel
  rw [hm, Option.map_some, Option.some.injEq, Prod.mk.injEq] at hend
  exact ⟨m, hm, hend.2, parallel_match_iff (by decide) (by decide)
    (Machine.Reached.run .start twoThreads hm (by decide +kernel)) hend.1⟩

theorem parallel_match_overwritten :
    ∃ m, Machine.Reached step Settled (start (twoNodes ['A'] ['A']) (some ['A']) 2) m ∧
      m.caller = .returned 2 ∧ m.answer 2 = [some 2, none] ∧
      ¬(m.answer 2).Perm ((labelled (twoNodes ['A'] ['A']) ['A']).map some) := by
  obtain ⟨m, hm⟩ : ∃ m, Machine.run step (start (twoNodes ['A'] ['A']) (some ['A']) 2) twoThreads =
      some m := Option.isSome_iff_exists.mp (by decide +kernel)
  have hend : (Machine.run step (start (twoNodes ['A'] ['A']) (some ['A']) 2) twoThreads).map
      (fun m => (m.caller, m.answer 2)) = some (.returned 2, [some 2, none]) := by decide +kernel
  rw [hm, Option.map_some, Option.some.injEq, Prod.mk.injEq] at hend
  refine ⟨m, Machine.Reached.run .start twoThreads hm (by decide +kernel), hend.1, hend.2, ?_⟩
  rw [hend.2]
  decide

end Search

end SqliteMultimodal.Graph.Parallel
