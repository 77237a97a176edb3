import Mathlib.Algebra.BigOperators.Group.Finset.Basic
import Mathlib.Algebra.BigOperators.Ring.Finset
import Mathlib.Algebra.Order.BigOperators.Group.Finset
import Mathlib.Algebra.Order.Field.Rat
import Mathlib.Data.Int.Interval
import Mathlib.Tactic.NormNum
import SqliteMultimodal.Graph.PageRank.Runs

namespace SqliteMultimodal.Graph.PageRank

section Sums

variable {n : Nat} {xs : List ℚ} {i t : Int} {ids : Finset Int}

def rankOf (pRank : List ℚ) (id : Int) : ℚ := pRank.getD id.toNat 0

def total (ids : Finset Int) (pRank : List ℚ) : ℚ := ∑ id ∈ ids, rankOf pRank id

theorem rankOf_set (hlength : xs.length = n + 1) (ht : InArray n t) (hi : InArray n i) (x : ℚ) :
    rankOf (xs.set t.toNat (rankOf xs t + x)) i = rankOf xs i + if i = t then x else 0 := by
  obtain ⟨htpos, htle⟩ := ht
  by_cases hit : i = t
  · subst hit
    have hlt : i.toNat < xs.length := by omega
    rw [if_pos rfl, rankOf, List.getD_eq_getElem?_getD, List.getElem?_set_self hlt]
    rfl
  · have hne : t.toNat ≠ i.toNat := by
      have := hi.1
      omega
    rw [if_neg hit, add_zero, rankOf, List.getD_eq_getElem?_getD, List.getElem?_set_ne hne,
      ← List.getD_eq_getElem?_getD]
    rfl

theorem total_set (hlength : xs.length = n + 1) (hids : ∀ i ∈ ids, InArray n i) (ht : t ∈ ids)
    (x : ℚ) : total ids (xs.set t.toNat (rankOf xs t + x)) = total ids xs + x := by
  calc total ids (xs.set t.toNat (rankOf xs t + x))
    _ = ∑ i ∈ ids, (rankOf xs i + if i = t then x else 0) :=
      Finset.sum_congr rfl fun i hi => rankOf_set hlength (hids t ht) (hids i hi) x
    _ = total ids xs + x := by
      rw [Finset.sum_add_distrib, Finset.sum_ite_eq' _ t, if_pos ht]
      rfl

theorem rankOf_replicate (hi : InArray n i) (x : ℚ) :
    rankOf (List.replicate (n + 1) x) i = x := by
  obtain ⟨hpos, hle⟩ := hi
  have hlt : i.toNat < n + 1 := by omega
  rw [rankOf, List.getD_eq_getElem?_getD, List.getElem?_replicate, if_pos hlt]
  rfl

theorem total_replicate (hids : ∀ i ∈ ids, InArray n i) (x : ℚ) :
    total ids (List.replicate (n + 1) x) = ids.card * x := by
  calc total ids (List.replicate (n + 1) x)
    _ = ∑ _i ∈ ids, x := Finset.sum_congr rfl fun i hi => rankOf_replicate (hids i hi) x
    _ = ids.card * x := by rw [Finset.sum_const, nsmul_eq_mul]

end Sums

section Spread

variable {tables : Tables} {rDamping : ℚ} {pRank : List ℚ} {pOutDegree : List Nat}

structure Numbered (tables : Tables) : Prop where
  count : tables.nodes.length < 2147483648
  pos : 0 < tables.nodes.length
  ids : ∀ id, id ∈ tables.nodes ↔ 1 ≤ id ∧ id ≤ tables.nodes.length
  joins : ∀ e ∈ tables.edges, e.source ∈ tables.nodes ∧ e.target ∈ tables.nodes
  leaves : ∀ id ∈ tables.nodes, ∃ e ∈ tables.edges, e.source = id

theorem Numbered.inArray (h : Numbered tables) {id : Int} (hid : id ∈ tables.nodes) :
    InArray tables.nodes.length id := by
  obtain ⟨hone, hle⟩ := (h.ids id).mp hid
  exact ⟨zero_le_one.trans hone, hle⟩

theorem Numbered.inArray_toFinset (h : Numbered tables) :
    ∀ id ∈ tables.nodes.toFinset, InArray tables.nodes.length id :=
  fun _ hid => h.inArray (List.mem_toFinset.mp hid)

theorem Numbered.card_toFinset (h : Numbered tables) :
    tables.nodes.toFinset.card = tables.nodes.length := by
  have hnodes : tables.nodes.toFinset = Finset.Icc 1 (tables.nodes.length : ℤ) := by
    ext id
    rw [List.mem_toFinset, h.ids, Finset.mem_Icc]
  rw [hnodes, Int.card_Icc]
  simp

theorem Numbered.dense (h : Numbered tables) : Dense tables where
  count := h.count
  source e he := h.inArray (h.joins e he).1
  target e he := h.inArray (h.joins e he).2

structure Shared (tables : Tables) (pRank : List ℚ) : Prop where
  length : pRank.length = tables.nodes.length + 1
  nonneg : ∀ id, InArray tables.nodes.length id → 0 ≤ rankOf pRank id
  sum : total tables.nodes.toFinset pRank = 1

def Counted (tables : Tables) (pOutDegree : List Nat) : Prop :=
  pOutDegree.length = tables.nodes.length + 1 ∧ ∀ id, InArray tables.nodes.length id →
    pOutDegree.getD id.toNat 0 = tables.edges.countP (·.source = id)

theorem share_nonneg (hd : 0 ≤ rDamping)
    (hnonneg : ∀ id, InArray tables.nodes.length id → 0 ≤ rankOf pRank id) {row : Edge}
    (hrow : InArray tables.nodes.length row.source) :
    0 ≤ share rDamping pRank pOutDegree row :=
  div_nonneg (mul_nonneg hd (hnonneg _ hrow)) (Nat.cast_nonneg _)

theorem Numbered.total_foldl (h : Numbered tables) (rows : List Edge)
    (hrows : ∀ e ∈ rows, e ∈ tables.edges) {xs : List ℚ}
    (hlength : xs.length = tables.nodes.length + 1) :
    total tables.nodes.toFinset (rows.foldl (addTo rDamping pRank pOutDegree) xs) =
      total tables.nodes.toFinset xs + (rows.map (share rDamping pRank pOutDegree)).sum := by
  induction rows generalizing xs with
  | nil => exact (add_zero _).symm
  | cons e rows ih =>
    obtain ⟨he, hrows⟩ := List.forall_mem_cons.mp hrows
    have htotal := total_set hlength h.inArray_toFinset (List.mem_toFinset.mpr (h.joins e he).2)
      (share rDamping pRank pOutDegree e)
    rw [List.foldl_cons, ih hrows ((length_addTo xs e).trans hlength), List.map_cons,
      List.sum_cons, ← add_assoc, ← htotal]
    rfl

theorem Numbered.sum_share (h : Numbered tables) (hdegree : Counted tables pOutDegree) :
    (tables.edges.map (share rDamping pRank pOutDegree)).sum =
      rDamping * total tables.nodes.toFinset pRank := by
  have hsources : (tables.edges.map (·.source)).toFinset = tables.nodes.toFinset := by
    ext id
    rw [List.mem_toFinset, List.mem_toFinset, List.mem_map]
    constructor
    · rintro ⟨e, he, rfl⟩
      exact (h.joins e he).1
    · exact h.leaves id
  have hcount : ∀ id, (tables.edges.map (·.source)).count id =
      tables.edges.countP (·.source = id) := fun id => by
    rw [List.count, List.countP_map]
    exact List.countP_congr fun e _ => by simp
  calc (tables.edges.map (share rDamping pRank pOutDegree)).sum
    _ = ((tables.edges.map (·.source)).map fun id =>
          rDamping * rankOf pRank id / (pOutDegree.getD id.toNat 0 : ℚ)).sum := by
      rw [List.map_map]
      rfl
    _ = ∑ id ∈ tables.nodes.toFinset, rDamping * rankOf pRank id := by
      rw [Finset.sum_list_map_count, hsources]
      refine Finset.sum_congr rfl fun id hid => ?_
      have hpos : 0 < tables.edges.countP (·.source = id) := by
        obtain ⟨e, he, heq⟩ := h.leaves id (List.mem_toFinset.mp hid)
        exact List.countP_pos_iff.mpr ⟨e, he, decide_eq_true heq⟩
      have hne : (tables.edges.countP (·.source = id) : ℚ) ≠ 0 := Nat.cast_ne_zero.mpr hpos.ne'
      rw [hcount, hdegree.2 id (h.inArray_toFinset id hid), nsmul_eq_mul, mul_div_cancel₀ _ hne]
    _ = rDamping * total tables.nodes.toFinset pRank := (Finset.mul_sum _ _ _).symm

theorem Numbered.shared_spread (h : Numbered tables) (hdegree : Counted tables pOutDegree)
    (hd : 0 ≤ rDamping ∧ rDamping ≤ 1) (hrank : Shared tables pRank) :
    Shared tables (spread tables rDamping pOutDegree pRank) := by
  have hn : (tables.nodes.length : ℚ) ≠ 0 := Nat.cast_ne_zero.mpr h.pos.ne'
  have hbase : 0 ≤ baseRank rDamping tables.nodes.length :=
    div_nonneg (sub_nonneg.mpr hd.2) (Nat.cast_nonneg _)
  refine ⟨length_spread, ?_, ?_⟩
  · have hall : ∀ xs : List ℚ, xs.length = tables.nodes.length + 1 ∧
        (∀ id, InArray tables.nodes.length id → 0 ≤ rankOf xs id) → ∀ e ∈ tables.edges,
        (addTo rDamping pRank pOutDegree xs e).length = tables.nodes.length + 1 ∧
          ∀ id, InArray tables.nodes.length id →
            0 ≤ rankOf (addTo rDamping pRank pOutDegree xs e) id := by
      rintro xs ⟨hlength, hnonneg⟩ e he
      refine ⟨(length_addTo xs e).trans hlength, fun id hid => ?_⟩
      have hshare : 0 ≤ share rDamping pRank pOutDegree e :=
        share_nonneg hd.1 hrank.nonneg (h.dense.source e he)
      have hset := rankOf_set hlength (h.dense.target e he) hid
        (share rDamping pRank pOutDegree e)
      change 0 ≤ rankOf (xs.set e.target.toNat (rankOf xs e.target + _)) id
      rw [hset]
      refine add_nonneg (hnonneg id hid) ?_
      split
      · exact hshare
      · exact le_refl 0
    refine (List.foldlRecOn (motive := fun xs : List ℚ => xs.length = tables.nodes.length + 1 ∧
      ∀ id, InArray tables.nodes.length id → 0 ≤ rankOf xs id) tables.edges
      (addTo rDamping pRank pOutDegree) ⟨List.length_replicate, fun id hid => ?_⟩ hall).2
    rw [rankOf_replicate hid]
    exact hbase
  · calc total tables.nodes.toFinset (spread tables rDamping pOutDegree pRank)
      _ = tables.nodes.length * baseRank rDamping tables.nodes.length +
            rDamping * total tables.nodes.toFinset pRank := by
        rw [spread, h.total_foldl tables.edges (fun _ he => he) List.length_replicate,
          total_replicate h.inArray_toFinset, h.card_toFinset, h.sum_share hdegree]
      _ = 1 := by
        rw [hrank.sum, baseRank, mul_one, mul_div_cancel₀ _ hn, sub_add_cancel]

theorem Numbered.shared_firstRanks (h : Numbered tables) : Shared tables (firstRanks tables) where
  length := List.length_replicate
  nonneg id hid := by
    rw [firstRanks, rankOf_replicate hid]
    exact div_nonneg zero_le_one (Nat.cast_nonneg _)
  sum := by
    rw [firstRanks, total_replicate h.inArray_toFinset, h.card_toFinset]
    exact mul_one_div_cancel (Nat.cast_ne_zero.mpr h.pos.ne')

theorem Numbered.shared_iterate (h : Numbered tables) (hdegree : Counted tables pOutDegree)
    (hd : 0 ≤ rDamping ∧ rDamping ≤ 1) (k : Nat) :
    Shared tables ((spread tables rDamping pOutDegree)^[k] (firstRanks tables)) := by
  induction k with
  | zero => exact h.shared_firstRanks
  | succ k ih =>
    rw [Function.iterate_succ_apply']
    exact h.shared_spread hdegree hd ih

/-- Both functions hold the same ranks after each iteration, and they end with what they hold
after one of them. -/
theorem ranks_conserved (h : Numbered tables) (hd : 0 ≤ rDamping ∧ rDamping ≤ 1) :
    ∃ pOutDegree, outDegrees tables = .ok pOutDegree ∧
      (∀ k, ∃ pRank,
        heldAfter (iterationFunc tables rDamping pOutDegree) k (firstRanks tables) = .ok pRank ∧
        heldAfter (iteration tables rDamping pOutDegree) k (firstRanks tables) = .ok pRank ∧
        (∀ id ∈ tables.nodes, 0 ≤ rankOf pRank id) ∧
        ∑ id ∈ tables.nodes.toFinset, rankOf pRank id = 1) ∧
      ∀ nMaxIter rEpsilon,
        (∃ k ≤ nMaxIter, ranksFunc tables rDamping nMaxIter rEpsilon =
          heldAfter (iterationFunc tables rDamping pOutDegree) k (firstRanks tables)) ∧
        ∃ k ≤ nMaxIter, ranks tables rDamping nMaxIter rEpsilon =
          heldAfter (iteration tables rDamping pOutDegree) k (firstRanks tables) := by
  obtain ⟨pOutDegree, hdegrees, hlength, hget⟩ := h.dense.outDegrees_eq
  have hcounted : Counted tables pOutDegree := ⟨hlength, hget⟩
  have hpos : ∀ e ∈ tables.edges, 0 < pOutDegree.getD e.source.toNat 0 := by
    intro e he
    rw [hget _ (h.dense.source e he)]
    exact List.countP_pos_iff.mpr ⟨e, he, decide_eq_true rfl⟩
  refine ⟨pOutDegree, hdegrees, fun k => ?_, fun nMaxIter rEpsilon => ⟨?_, ?_⟩⟩
  · have hshared := h.shared_iterate hcounted hd k
    refine ⟨_, heldAfter_eq (fun pRank hrank => h.dense.iterationFunc_eq rDamping hrank hlength) k
      h.shared_firstRanks.length, heldAfter_eq (fun pRank hrank =>
        h.dense.iteration_eq rDamping hrank hlength hpos) k h.shared_firstRanks.length,
      fun id hid => hshared.nonneg id (h.inArray hid), hshared.sum⟩
  · rw [ranksFunc, hdegrees]
    exact powerLoop_heldAfter _ rEpsilon nMaxIter _
  · rw [ranks, hdegrees]
    exact powerLoop_heldAfter _ rEpsilon nMaxIter _

def sampleTables : Tables := ⟨[1, 2], [⟨1, 2⟩, ⟨1, 2⟩, ⟨2, 1⟩, ⟨2, 2⟩]⟩

theorem numbered_sampleTables : Numbered sampleTables where
  count := by decide
  pos := by decide
  ids id := by
    simp only [sampleTables, List.mem_cons, List.not_mem_nil, or_false, List.length_cons,
      List.length_nil]
    omega
  joins := by decide
  leaves := by decide

theorem sampleTables_conserved : ∃ pOutDegree, ∀ k, ∃ pRank,
    heldAfter (iterationFunc sampleTables (85 / 100) pOutDegree) k (firstRanks sampleTables) =
      .ok pRank ∧
    heldAfter (iteration sampleTables (85 / 100) pOutDegree) k (firstRanks sampleTables) =
      .ok pRank ∧
    (∀ id ∈ sampleTables.nodes, 0 ≤ rankOf pRank id) ∧
    ∑ id ∈ sampleTables.nodes.toFinset, rankOf pRank id = 1 := by
  obtain ⟨pOutDegree, _, hheld, _⟩ :=
    ranks_conserved numbered_sampleTables (by norm_num : (0 : ℚ) ≤ 85 / 100 ∧ (85 : ℚ) / 100 ≤ 1)
  exact ⟨pOutDegree, hheld⟩

end Spread

end SqliteMultimodal.Graph.PageRank
