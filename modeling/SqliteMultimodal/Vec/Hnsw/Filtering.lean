import SqliteMultimodal.Vec.Hnsw.Defs
import SqliteMultimodal.Vec.Hnsw.Shape

namespace SqliteMultimodal.Vec.Hnsw

variable {α : Type}

section Key

variable {n : HNSWNode α}

theorem toInt32_key (n : HNSWNode α) : n.key.toInt32 = n.rowid := by
  rw [← Int32.toBitVec_inj]
  apply BitVec.eq_of_getLsbD_eq
  intro i hi
  have hi' : i < 64 := by omega
  unfold HNSWNode.key
  simp [hi, hi', BitVec.getElem_signExtend, BitVec.getElem_setWidth, BitVec.getElem_shiftLeft]

theorem toInt_key (hlevel : n.level < 2147483648) :
    n.key.toInt = n.level * 4294967296 + n.rowid.toUInt32.toNat := by
  have hlow : n.rowid.toUInt32.toNat < 2 ^ 32 := n.rowid.toUInt32.toNat_lt
  have hshift : (n.level.toUInt64 <<< 32).toNat = 2 ^ 32 * n.level := by
    have hlevel' : n.level.toUInt64.toNat = n.level := Nat.mod_eq_of_lt (by omega)
    rw [UInt64.toNat_shiftLeft, hlevel', Nat.shiftLeft_eq]
    change n.level * 2 ^ 32 % 2 ^ 64 = _
    omega
  have hnat : n.key.toBitVec.toNat = 2 ^ 32 * n.level + n.rowid.toUInt32.toNat := by
    change (n.rowid.toUInt32.toUInt64 ||| n.level.toUInt64 <<< 32).toNat = _
    rw [UInt64.toNat_or, hshift, UInt32.toNat_toUInt64, Nat.or_comm,
      Nat.two_pow_add_eq_or_of_lt hlow]
  rw [Int64.toInt, BitVec.toInt_eq_toNat_cond, hnat, if_pos (by omega), Nat.mul_comm]
  rfl

theorem key_eq_iff (hlevel : n.level < 2147483648) :
    n.key = n.rowid.toInt64 ↔ n.level = 0 ∧ 0 ≤ n.rowid := by
  have hlow : n.rowid.toUInt32.toNat < 2 ^ 32 := n.rowid.toUInt32.toNat_lt
  have hrowid := BitVec.toInt_eq_toNat_cond n.rowid.toBitVec
  change n.rowid.toInt = if 2 * n.rowid.toUInt32.toNat < 2 ^ 32 then _ else _ at hrowid
  rw [← Int64.toInt_inj, toInt_key hlevel, Int32.toInt_toInt64, Int32.le_iff_toInt_le,
    Int32.toInt_zero]
  change n.rowid.toInt = if 2 * n.rowid.toUInt32.toNat < 2 ^ 32 then (n.rowid.toUInt32.toNat : Int)
    else n.rowid.toUInt32.toNat - 2 ^ 32 at hrowid
  split at hrowid <;> omega

end Key

section Search

variable [LinearOrder α] (distfunc : List α → List α → α) (h : HNSW α) (query : List α)
  (ef topk : Nat) (map : RowidMap)

def dequeued : List Nat :=
  match entry h with
  | none => []
  | some start => Bfs.visits (next h) (visit distfunc h query map) ef h.nodes.length
    [(descend distfunc h query start).1] 0 []

def misread (h : HNSW α) (i : Nat) : Bool :=
  h.nodes[i]?.any fun n => !n.deleted && n.key ≠ n.rowid.toInt64

structure FiltersExactly : Prop where
  admits : ∀ i ∈ dequeued distfunc h query ef map, ∀ n, h.nodes[i]? = some n → n.deleted = false →
    ((visit distfunc h query map i).isSome ↔ n.rowid.toInt64 ∈ map.rowids)
  unfiltered : (∀ n ∈ h.nodes, n.deleted = false → n.rowid.toInt64 ∈ map.rowids) →
    hnswSearch distfunc h query ef topk map =
      hnswSearch distfunc h query ef topk { map with preFilter := false }

def KeysAgree : Prop :=
  ∀ i ∈ dequeued distfunc h query ef map, ∀ n, h.nodes[i]? = some n → n.deleted = false →
    n.level ≠ 0 ∨ n.rowid < 0 → (n.key ∈ map.rowids ↔ n.rowid.toInt64 ∈ map.rowids)

/-- Every node that can be reached is at level `0` and has no negative rowid. -/
def PlainKeys : Prop :=
  ∀ start, entry h = some start → ∀ i, Bfs.Reach (next h) (descend distfunc h query start).1 i →
    ∀ n, h.nodes[i]? = some n → n.deleted = false → n.level = 0 ∧ 0 ≤ n.rowid

variable {distfunc h query ef topk map}

omit [LinearOrder α] in
theorem isSome_visit_of_live (hpre : map.preFilter = true) {i : Nat} {n : HNSWNode α}
    (hn : h.nodes[i]? = some n) (hlive : n.deleted = false) :
    (visit distfunc h query map i).isSome ↔ n.key ∈ map.rowids := by
  rw [isSome_visit, hn, Option.any_some, eligible, hlive, hpre, bsearch]
  simp

omit [LinearOrder α] in
theorem visit_unfiltered {i : Nat}
    (hall : ∀ n, h.nodes[i]? = some n → n.deleted = false →
      (visit distfunc h query map i).isSome) :
    visit distfunc h query map i = visit distfunc h query { map with preFilter := false } i := by
  rw [isSome_visit] at hall
  unfold visit
  cases hn : h.nodes[i]? with
  | none => rfl
  | some n =>
    rw [hn] at hall
    have helig : eligible map n = eligible { map with preFilter := false } n := by
      cases hlive : n.deleted with
      | true => simp [eligible, hlive]
      | false =>
        rw [show eligible map n = true from hall n rfl hlive]
        simp [eligible, hlive]
    simp only [Option.bind_eq_bind, Option.bind_some, helig]

theorem unfiltered_of_admits
    (hadmits : ∀ i ∈ dequeued distfunc h query ef map, ∀ n, h.nodes[i]? = some n →
      n.deleted = false → ((visit distfunc h query map i).isSome ↔ n.rowid.toInt64 ∈ map.rowids))
    (hall : ∀ n ∈ h.nodes, n.deleted = false → n.rowid.toInt64 ∈ map.rowids) :
    hnswSearch distfunc h query ef topk map =
      hnswSearch distfunc h query ef topk { map with preFilter := false } := by
  unfold dequeued at hadmits
  unfold hnswSearch
  cases hentry : entry h with
  | none => rfl
  | some start =>
    rw [hentry] at hadmits
    have hsame := Bfs.search_congr fun i hi => visit_unfiltered fun n hn hlive =>
      (hadmits i hi n hn hlive).mpr (hall n (List.mem_of_getElem? hn) hlive)
    simp only [Option.bind_eq_bind, Option.bind_some, hsame]

theorem filtersExactly_iff_keysAgree (hlevel : ∀ n ∈ h.nodes, n.level < 2147483648)
    (hpre : map.preFilter = true) :
    FiltersExactly distfunc h query ef topk map ↔ KeysAgree distfunc h query ef map := by
  constructor
  · intro hexact i hi n hn hlive _
    rw [← isSome_visit_of_live hpre hn hlive]
    exact hexact.admits i hi n hn hlive
  · intro hagree
    have hadmits : ∀ i ∈ dequeued distfunc h query ef map, ∀ n, h.nodes[i]? = some n →
        n.deleted = false →
        ((visit distfunc h query map i).isSome ↔ n.rowid.toInt64 ∈ map.rowids) := by
      intro i hi n hn hlive
      rw [isSome_visit_of_live hpre hn hlive]
      by_cases hplain : n.level = 0 ∧ 0 ≤ n.rowid
      · rw [(key_eq_iff (hlevel n (List.mem_of_getElem? hn))).mpr hplain]
      · refine hagree i hi n hn hlive ?_
        rw [← Int32.not_le]
        tauto
    exact ⟨hadmits, unfiltered_of_admits hadmits⟩

theorem reach_of_mem_dequeued {i : Nat} (hi : i ∈ dequeued distfunc h query ef map) :
    ∃ start, entry h = some start ∧
      Bfs.Reach (next h) (descend distfunc h query start).1 i := by
  unfold dequeued at hi
  split at hi
  next => simp at hi
  next start hentry =>
    have hstart := (List.getElem?_eq_some_iff.mp
      (descend_mem distfunc h query (entry_mem h hentry))).1
    have hfound := Bfs.found_visits (visit distfunc h query map) ef
      (fun i => reach_mem h hstart) (Bfs.Visited.single (next h) _) (Finset.card_range _).le
    exact ⟨start, hentry, hfound.reach i (List.mem_append_right _ hi)⟩

theorem exists_wrongly_reported (hef : 0 < ef) {start : At α} (hentry : entry h = some start)
    {i : Nat} (hi : Bfs.Reach (next h) (descend distfunc h query start).1 i) {n : HNSWNode α}
    (hn : h.nodes[i]? = some n) (hlive : n.deleted = false) (hkey : n.key ≠ n.rowid.toInt64) :
    ∃ n, n.key ≠ n.rowid.toInt64 ∧ n.deleted = false ∧
      ∃ i ∈ dequeued distfunc h query ef ⟨[n.key], true⟩, h.nodes[i]? = some n := by
  have hstart := (List.getElem?_eq_some_iff.mp
    (descend_mem distfunc h query (entry_mem h hentry))).1
  have hfound := Bfs.found_visits (fun _ => (none : Option (Rowid × α))) ef
    (fun i => reach_mem h hstart) (Bfs.Visited.single (next h) _) (Finset.card_range _).le
  have hmem := hfound.all (by rwa [List.filterMap_none]) i hi
  obtain ⟨j, hj⟩ := Option.isSome_iff_exists.mp
    (List.find?_isSome.mpr ⟨i, hmem, show misread h i by simp [misread, hn, hlive, hkey]⟩)
  obtain ⟨hwrong, before, after, hsplit, hbefore⟩ := List.find?_eq_some_iff_append.mp hj
  obtain ⟨n', hn', hwrong⟩ := (Option.any_eq_true _ _).mp hwrong
  rw [Bool.and_eq_true, Bool.not_eq_true', decide_eq_true_eq] at hwrong
  refine ⟨n', hwrong.2, hwrong.1, j, ?_, hn'⟩
  rw [dequeued, hentry]
  refine Bfs.mem_visits_of_none hsplit fun k hk => ?_
  rw [← Option.not_isSome_iff_eq_none, isSome_visit]
  intro helig
  obtain ⟨m, hm, helig⟩ := (Option.any_eq_true _ _).mp helig
  have hright := hbefore k hk
  simp only [eligible, bsearch, Bool.and_eq_true, Bool.not_eq_true', Bool.not_true,
    Bool.or_false, List.contains_iff_mem, List.mem_singleton] at helig
  obtain ⟨hlive', hsame⟩ := helig
  have hplain : m.key = m.rowid.toInt64 := by
    by_contra hne
    simp [misread, hm, hlive', hne] at hright
  have hrowid : m.rowid = n'.rowid := by
    rw [← toInt32_key, ← toInt32_key, hsame]
  exact hwrong.2 (by rw [← hsame, hplain, hrowid])

theorem forall_filtersExactly_iff_plainKeys (hlevel : ∀ n ∈ h.nodes, n.level < 2147483648)
    (hef : 0 < ef) :
    (∀ map : RowidMap, map.preFilter = true → map.rowids.Pairwise (· ≤ ·) →
      FiltersExactly distfunc h query ef topk map) ↔ PlainKeys distfunc h query := by
  constructor
  · intro hall start hentry i hi n hn hlive
    rw [← key_eq_iff (hlevel n (List.mem_of_getElem? hn))]
    by_contra hkey
    obtain ⟨n', hkey', hlive', j, hj, hn'⟩ :=
      exists_wrongly_reported hef hentry hi hn hlive hkey
    have hexact := hall ⟨[n'.key], true⟩ rfl (List.pairwise_singleton _ _)
    have hmem := (hexact.admits j hj n' hn' hlive').mp
      ((isSome_visit_of_live rfl hn' hlive').mpr List.mem_cons_self)
    exact hkey' (List.mem_singleton.mp hmem).symm
  · intro hplain map hpre _
    rw [filtersExactly_iff_keysAgree hlevel hpre]
    intro i hi n hn hlive hodd
    obtain ⟨start, hentry, hreach⟩ := reach_of_mem_dequeued hi
    obtain ⟨hzero, hneg⟩ := hplain start hentry i hreach n hn hlive
    exact absurd hodd (not_or.mpr ⟨not_not_intro hzero, Int32.not_lt.mpr hneg⟩)

/-- For one map, and for all of them. -/
theorem filtersExactly_iff (hlevel : ∀ n ∈ h.nodes, n.level < 2147483648) (hef : 0 < ef) :
    (∀ map : RowidMap, map.preFilter = true → map.rowids.Pairwise (· ≤ ·) →
      (FiltersExactly distfunc h query ef topk map ↔ KeysAgree distfunc h query ef map)) ∧
    ((∀ map : RowidMap, map.preFilter = true → map.rowids.Pairwise (· ≤ ·) →
      FiltersExactly distfunc h query ef topk map) ↔ PlainKeys distfunc h query) :=
  ⟨fun _ hpre _ => filtersExactly_iff_keysAgree hlevel hpre,
    forall_filtersExactly_iff_plainKeys hlevel hef⟩

end Search

section Sample

/-- One node, with rowid `7`. -/
def soleGraph (level : Nat) : HNSW ℤ := (hnswAdd lineDist (fun _ => level) (hnswCreate 4) [5] 7).1

theorem soleGraph_plainKeys : PlainKeys lineDist (soleGraph 0) [4] := by
  intro start _ i _ n hn _
  have hall : ∀ n ∈ (soleGraph 0).nodes, n.level = 0 ∧ 0 ≤ n.rowid := by decide
  exact hall n (List.mem_of_getElem? hn)

theorem soleGraph_filtersExactly :
    (∀ map : RowidMap, map.preFilter = true → map.rowids.Pairwise (· ≤ ·) →
      FiltersExactly lineDist (soleGraph 0) [4] 64 1 map) ∧
    FiltersExactly lineDist (soleGraph 1) [4] 64 1 ⟨[3], true⟩ := by
  have hzero : ∀ n ∈ (soleGraph 0).nodes, n.level < 2147483648 := by decide
  have hone : ∀ n ∈ (soleGraph 1).nodes, n.level < 2147483648 := by decide
  refine ⟨(filtersExactly_iff hzero (by decide)).2.mpr soleGraph_plainKeys,
    ((filtersExactly_iff hone (by decide)).1 ⟨[3], true⟩ rfl (by decide)).mpr ?_⟩
  intro i _ n hn _ _
  have hall : ∀ n ∈ (soleGraph 1).nodes, n.key ∉ [3] ∧ n.rowid.toInt64 ∉ [3] := by decide
  exact iff_of_false (hall n (List.mem_of_getElem? hn)).1 (hall n (List.mem_of_getElem? hn)).2

theorem soleGraph_not_filtersExactly :
    hnswSearch lineDist (soleGraph 1) [4] 64 1 ⟨[7], true⟩ = some [] ∧
      hnswSearch lineDist (soleGraph 1) [4] 64 1 ⟨[7], false⟩ = some [(7, 1)] ∧
      ¬ FiltersExactly lineDist (soleGraph 1) [4] 64 1 ⟨[7], true⟩ := by
  refine ⟨by decide, by decide, fun h => ?_⟩
  exact absurd (h.unfiltered (by decide)) (by decide)

end Sample

end SqliteMultimodal.Vec.Hnsw
