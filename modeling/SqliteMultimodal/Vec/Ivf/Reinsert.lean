import Mathlib.Algebra.Order.Ring.Unbundled.Rat
import Mathlib.Data.Multiset.Filter
import SqliteMultimodal.Vec.Ivf.Contents

namespace SqliteMultimodal.Vec.Ivf

open scoped List

variable {α : Type}

def located (lists : List (InvertedList α)) : Multiset (Nat × Entry α) :=
  ↑(lists.zipIdx.flatMap fun x => x.1.entries.map fun e => (x.2, e))

section Lists

variable {lists : List (InvertedList α)} {l : Nat}

theorem zipIdx_modify (lists : List (InvertedList α)) (l : Nat)
    (f : InvertedList α → InvertedList α) :
    (lists.modify l f).zipIdx = lists.zipIdx.modify l fun x => (f x.1, x.2) := by
  apply List.ext_getElem?
  intro i
  simp only [List.getElem?_zipIdx, List.getElem?_modify]
  by_cases h : l = i
  · simp only [h, if_true, Option.map_eq_map, Option.map_map, Function.comp_def]
  · simp only [h, if_false, Option.map_eq_map, Option.map_map, Function.comp_def]

theorem located_modify {x : InvertedList α} (h : lists[l]? = some x) :
    ∃ rest, ∀ f : InvertedList α → InvertedList α,
      located (lists.modify l f) = ↑((f x).entries.map fun e => (l, e)) + rest := by
  refine ⟨↑((lists.zipIdx.eraseIdx l).flatMap fun x => x.1.entries.map fun e => (x.2, e)),
    fun f => ?_⟩
  have hget : (lists.modify l f).zipIdx[l]? = some (f x, l) := by
    simp [List.getElem?_zipIdx, List.getElem?_modify_eq, h]
  obtain ⟨hl, hx⟩ := List.getElem?_eq_some_iff.mp hget
  have hperm := (List.getElem_cons_eraseIdx_perm hl).flatMap_right
    fun x => x.1.entries.map fun e => (x.2, e)
  rw [hx, zipIdx_modify, List.eraseIdx_modify_of_eq, ← zipIdx_modify] at hperm
  rw [located, Multiset.coe_add, Multiset.coe_eq_coe]
  exact hperm.symm

theorem located_add {e : Entry α} {f : InvertedList α → InvertedList α}
    (h : ∀ x, (f x).entries ~ e :: x.entries) (hl : l < lists.length) :
    located (lists.modify l f) = (l, e) ::ₘ located lists := by
  obtain ⟨rest, hrest⟩ := located_modify (List.getElem?_eq_getElem hl)
  have hsame := hrest id
  rw [List.modify_id] at hsame
  rw [hrest, hsame, ← Multiset.cons_add, Multiset.cons_coe]
  congr 1
  exact Multiset.coe_eq_coe.mpr ((h _).map _)

theorem located_remove {rowid : Rowid} {i : Nat} (h : find lists rowid = some (l, i)) :
    ∃ old, located lists = (l, (rowid, old)) ::ₘ located (lists.modify l (·.remove i)) := by
  obtain ⟨x, hx, hfind⟩ := find_eq_some h
  obtain ⟨hi, hrowid, -⟩ := List.findIdx?_eq_some_iff_getElem.mp hfind
  have heq : x.entries[i] = (rowid, x.entries[i].2) := by
    rw [← of_decide_eq_true hrowid]
  obtain ⟨rest, hrest⟩ := located_modify hx
  have hsame := hrest id
  rw [List.modify_id] at hsame
  refine ⟨x.entries[i].2, ?_⟩
  rw [hrest, hsame, ← heq, ← Multiset.cons_add, Multiset.cons_coe]
  congr 1
  exact Multiset.coe_eq_coe.mpr ((perm_remove hi).map fun e => (l, e)).symm

theorem mem_located {x : Nat × Entry α} :
    x ∈ located lists ↔ ∃ y, lists[x.1]? = some y ∧ x.2 ∈ y.entries := by
  obtain ⟨l, e⟩ := x
  simp only [located, Multiset.mem_coe, List.mem_flatMap, List.mem_map, Prod.exists,
    List.mem_zipIdx_iff_getElem?, Prod.mk.injEq]
  constructor
  · rintro ⟨y, k, hy, r, v, he, rfl, rfl⟩
    exact ⟨y, hy, he⟩
  · rintro ⟨y, hy, he⟩
    exact ⟨y, l, hy, e.1, e.2, he, rfl, rfl⟩

end Lists

structure IVF.Ready (ivf : IVF α) : Prop where
  trained : ivf.trained = true
  pos : 0 < ivf.lists.length
  centroids : ivf.centroids.length = ivf.lists.length
  fits : ∀ x ∈ ivf.lists, x.entries.length ≤ x.cap

def entriesOfRow (rowid : Rowid) (s : Multiset (Nat × Entry α)) : Multiset (Nat × Entry α) :=
  s.filter fun x => x.2.1 = rowid

def otherEntries (rowid : Rowid) (s : Multiset (Nat × Entry α)) : Multiset (Nat × Entry α) :=
  s.filter fun x => x.2.1 ≠ rowid

section Rows

variable (rowid : Rowid) (k : Nat) (vec : List α) (s : Multiset (Nat × Entry α))

theorem entriesOfRow_cons :
    entriesOfRow rowid ((k, (rowid, vec)) ::ₘ s) = (k, (rowid, vec)) ::ₘ entriesOfRow rowid s :=
  Multiset.filter_cons_of_pos s rfl

theorem otherEntries_cons : otherEntries rowid ((k, (rowid, vec)) ::ₘ s) = otherEntries rowid s :=
  Multiset.filter_cons_of_neg s fun hne => hne rfl

end Rows

structure Removed (ivf : IVF α) (rowid : Rowid) (lists : List (InvertedList α)) (l i : Nat)
    (old : List α) : Prop where
  found : find ivf.lists rowid = some (l, i)
  eq : lists = ivf.lists.modify l (·.remove i)
  entries : located ivf.lists = (l, (rowid, old)) ::ₘ located lists
  row : entriesOfRow rowid (located lists) = 0

section Removed

variable {ivf : IVF α} {rowid : Rowid} {lists : List (InvertedList α)} {l i : Nat} {old : List α}

theorem exists_removed (honce : Multiset.card (entriesOfRow rowid (located ivf.lists)) = 1) :
    ∃ lists l i old, Removed ivf rowid lists l i old := by
  obtain ⟨x, hx⟩ := Multiset.card_eq_one.mp honce
  obtain ⟨hmem, hrow⟩ := Multiset.mem_filter.mp (hx ▸ Multiset.mem_singleton_self x :
    x ∈ entriesOfRow rowid (located ivf.lists))
  obtain ⟨y, hy, he⟩ := mem_located.mp hmem
  have hlisted : (rowid, x.2.2) ∈ listed ivf.lists :=
    List.mem_flatMap.mpr ⟨y, List.mem_of_getElem? hy, by rwa [← hrow]⟩
  obtain ⟨l, i, hfind⟩ := find_of_mem hlisted
  obtain ⟨old, hold⟩ := located_remove hfind
  refine ⟨_, l, i, old, hfind, rfl, hold, ?_⟩
  rw [hold, entriesOfRow_cons, Multiset.card_cons] at honce
  exact Multiset.card_eq_zero.mp (Nat.succ.inj honce)

namespace Removed

theorem length (h : Removed ivf rowid lists l i old) : lists.length = ivf.lists.length := by
  rw [h.eq, List.length_modify]

theorem delete (h : Removed ivf rowid lists l i old) (htrained : ivf.trained = true) :
    ivfDeleteVector ivf rowid = ({ ivf with lists }, (l : ResultCode)) := by
  simp [ivfDeleteVector, htrained, h.found, h.eq]

theorem others (h : Removed ivf rowid lists l i old) :
    otherEntries rowid (located lists) = otherEntries rowid (located ivf.lists) := by
  rw [h.entries, otherEntries_cons]

theorem not_mem (h : Removed ivf rowid lists l i old) {k : Nat} {v : List α} :
    (k, (rowid, v)) ∉ located lists := by
  intro hmem
  have hrow : (k, (rowid, v)) ∈ entriesOfRow rowid (located lists) :=
    Multiset.mem_filter.mpr ⟨hmem, rfl⟩
  rw [h.row] at hrow
  exact Multiset.notMem_zero _ hrow

theorem room_iff (h : Removed ivf rowid lists l i old) (hready : ivf.Ready) {k : Nat} :
    (∃ y, lists[k]? = some y ∧ y.entries.length < y.cap) ↔
      ∃ x, ivf.lists[k]? = some x ∧
        (x.entries.length < x.cap ∨ rowid ∈ x.entries.map Prod.fst) := by
  obtain ⟨x, hx, hfind⟩ := find_eq_some h.found
  obtain ⟨hi, hrowid, -⟩ := List.findIdx?_eq_some_iff_getElem.mp hfind
  by_cases hk : k = l
  · subst hk
    have hget : lists[k]? = some (x.remove i) := by
      rw [h.eq, List.getElem?_modify_eq, hx]
      rfl
    have hlen : (x.remove i).entries.length + 1 = x.entries.length := (perm_remove hi).length_eq
    have hcap : (x.remove i).cap = x.cap := by
      unfold InvertedList.remove
      split <;> rfl
    have hfits := hready.fits x (List.mem_of_getElem? hx)
    have hmem : rowid ∈ x.entries.map Prod.fst :=
      List.mem_map.mpr ⟨_, List.getElem_mem hi, of_decide_eq_true hrowid⟩
    exact ⟨fun _ => ⟨x, hx, .inr hmem⟩, fun _ => ⟨_, hget, by omega⟩⟩
  · have hget : lists[k]? = ivf.lists[k]? := by
      rw [h.eq, List.getElem?_modify_ne _ _ (Ne.symm hk)]
    rw [hget]
    refine exists_congr fun y => and_congr_right fun hy => ⟨.inl, fun hor => hor.resolve_right ?_⟩
    intro hmem
    obtain ⟨⟨r, v⟩, he, rfl⟩ := List.mem_map.mp hmem
    exact h.not_mem (mem_located.mpr ⟨y, hget.trans hy, he⟩)

end Removed

end Removed

section Update

variable [LinearOrder α] (distfunc : List α → List α → α) (farAway : α) (ivf : IVF α)
  (rowid : Rowid) (vec : List α)

/-- What `ivf_delete_vector` and then `ivf_add_vector` make of the index. -/
def deleteAdd : IVF α := ivfAddVector distfunc (ivfDeleteVector ivf rowid).1 (rowid, vec)

structure Reinserted : Prop where
  same : located (ivfUpdateVectorReinsert distfunc farAway ivf rowid vec).1.lists =
    located (deleteAdd distfunc ivf rowid vec).lists
  row : entriesOfRow rowid (located (ivfUpdateVectorReinsert distfunc farAway ivf rowid vec).1.lists) =
    {(nearest distfunc vec ivf.centroids, (rowid, vec))}
  others : otherEntries rowid
      (located (ivfUpdateVectorReinsert distfunc farAway ivf rowid vec).1.lists) =
    otherEntries rowid (located ivf.lists)

def RoomAtNearest : Prop :=
  ∃ x, ivf.lists[nearest distfunc vec ivf.centroids]? = some x ∧
    (x.entries.length < x.cap ∨ rowid ∈ x.entries.map Prod.fst)

variable {distfunc farAway ivf rowid vec}

theorem nearestFrom_eq_nearest {centroids : List (List α)}
    (h : ∀ c ∈ centroids, distfunc vec c < farAway) :
    nearestFrom distfunc vec 0 (0, farAway) centroids = nearest distfunc vec centroids := by
  cases centroids with
  | nil => rfl
  | cons centroid centroids =>
    simp only [nearestFrom, nearest, if_pos (h centroid List.mem_cons_self)]

variable {lists : List (InvertedList α)} {l i : Nat} {old : List α}

theorem located_deleteAdd (h : Removed ivf rowid lists l i old) (hready : ivf.Ready) :
    located (deleteAdd distfunc ivf rowid vec).lists =
      (nearest distfunc vec ivf.centroids, (rowid, vec)) ::ₘ located lists := by
  have hlt : nearest distfunc vec ivf.centroids < ivf.lists.length := by
    rw [← hready.centroids]
    exact nearest_lt distfunc (hready.centroids ▸ hready.pos)
  rw [deleteAdd, h.delete hready.trained]
  exact located_add (perm_invlistAppend _) (h.length ▸ hlt)

theorem located_update (h : Removed ivf rowid lists l i old) (hready : ivf.Ready)
    (hfar : ∀ c ∈ ivf.centroids, distfunc vec c < farAway) {x : InvertedList α}
    (hx : lists[nearest distfunc vec ivf.centroids]? = some x) :
    located (ivfUpdateVectorReinsert distfunc farAway ivf rowid vec).1.lists =
      if x.entries.length < x.cap then
        (nearest distfunc vec ivf.centroids, (rowid, vec)) ::ₘ located lists
      else located lists := by
  have hpos : ¬ (l : ResultCode) < 0 := by
    show ¬ (l : Int) < 0
    omega
  simp only [ivfUpdateVectorReinsert, hready.trained, h.delete hready.trained, Bool.not_true,
    Bool.false_eq_true, if_false, if_neg hpos, nearestFrom_eq_nearest hfar, hx]
  by_cases hroom : x.entries.length < x.cap
  · rw [if_neg (Nat.not_le_of_lt hroom), if_pos hroom]
    exact located_add (perm_push _) (List.getElem?_eq_some_iff.mp hx).1
  · rw [if_pos (Nat.le_of_not_lt hroom), if_neg hroom]

/-- An update of a row that is stored once is a deletion and an addition if and only if the list of
the nearest centroid has room. -/
theorem reinserted_iff (hready : ivf.Ready)
    (honce : Multiset.card (entriesOfRow rowid (located ivf.lists)) = 1)
    (hfar : ∀ c ∈ ivf.centroids, distfunc vec c < farAway) :
    Reinserted distfunc farAway ivf rowid vec ↔ RoomAtNearest distfunc ivf rowid vec := by
  obtain ⟨lists, l, i, old, h⟩ := exists_removed honce
  have hlt : nearest distfunc vec ivf.centroids < lists.length := by
    rw [h.length, ← hready.centroids]
    exact nearest_lt distfunc (hready.centroids ▸ hready.pos)
  have hx := List.getElem?_eq_getElem hlt
  have hupdate := located_update h hready hfar hx
  have hadd : located (deleteAdd distfunc ivf rowid vec).lists = _ := located_deleteAdd h hready
  rw [RoomAtNearest, ← h.room_iff hready]
  constructor
  · intro hre
    refine ⟨_, hx, Nat.lt_of_not_le fun hfull => ?_⟩
    rw [if_neg (Nat.not_lt_of_le hfull)] at hupdate
    have hrow := hre.row
    rw [hupdate, h.row] at hrow
    exact absurd hrow.symm (Multiset.singleton_ne_zero _)
  · rintro ⟨y, hy, hroom⟩
    obtain rfl := Option.some.inj (hx.symm.trans hy)
    rw [if_pos hroom] at hupdate
    exact {
      same := hupdate.trans hadd.symm
      row := by
        rw [hupdate, entriesOfRow_cons, h.row]
        rfl
      others := by
        rw [hupdate, otherEntries_cons, h.others] }

end Update

section Sample

/-- Rows on a line, with a list for those near `0` and one for those near `1`. -/
def lineIvf (n : Nat) : IVF ℚ :=
  ⟨[[0], [1]], [⟨ivfListCap, [(200, [0])]⟩,
    ⟨ivfListCap, (List.range n).map fun i => (Int64.ofNat i, [1])⟩], 1, ivfTrainCap, [], [], true⟩

def lineDist (a b : List ℚ) : ℚ := if a = b then 0 else 1

theorem lineIvf_reinserted :
    Reinserted lineDist 1000000000000000000000000000000 (lineIvf 3) 200 [1] :=
  (reinserted_iff ⟨rfl, by decide, rfl, by decide⟩ (by decide) (by decide)).mpr
    ⟨_, rfl, .inl (by decide)⟩

theorem lineIvf_lost :
    ¬ Reinserted lineDist 1000000000000000000000000000000 (lineIvf ivfListCap) 200 [1] := by
  intro h
  have hmem : (nearest lineDist [1] (lineIvf ivfListCap).centroids, ((200 : Rowid), [(1 : ℚ)])) ∈
      entriesOfRow 200 (located
        (ivfUpdateVectorReinsert lineDist 1000000000000000000000000000000 (lineIvf ivfListCap) 200
          [1]).1.lists) := by
    rw [h.row]
    exact Multiset.mem_singleton_self _
  exact absurd (Multiset.mem_filter.mp hmem).1 (by decide +kernel)

end Sample

end SqliteMultimodal.Vec.Ivf
