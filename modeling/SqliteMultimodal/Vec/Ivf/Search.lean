import SqliteMultimodal.Lib.MaxHeap
import SqliteMultimodal.Vec.Ivf.Defs

namespace SqliteMultimodal.Vec.Ivf

variable {α : Type} [LinearOrder α]

section Lists

variable (dists : Nat → α)

theorem bestFrom_spec (best : Nat × Nat) (j : Nat) (rest : List Nat) :
    (bestFrom dists best j rest = best ∨ ∃ i, rest[i]? = some (bestFrom dists best j rest).2 ∧
        (bestFrom dists best j rest).1 = j + i) ∧
      dists (bestFrom dists best j rest).2 ≤ dists best.2 ∧
      ∀ x ∈ rest, dists (bestFrom dists best j rest).2 ≤ dists x := by
  induction rest generalizing best j with
  | nil => exact ⟨.inl rfl, le_rfl, by simp⟩
  | cons idx rest ih =>
    rw [bestFrom]
    split
    next hlt =>
      obtain ⟨hplace, hle, hall⟩ := ih (j, idx) (j + 1)
      refine ⟨.inr ?_, hle.trans hlt.le, List.forall_mem_cons.mpr ⟨hle, hall⟩⟩
      obtain heq | ⟨i, hi, hj⟩ := hplace
      · exact ⟨0, by rw [heq]; rfl, by rw [heq]; rfl⟩
      · exact ⟨i + 1, hi, hj.trans (by omega)⟩
    next hlt =>
      obtain ⟨hplace, hle, hall⟩ := ih best (j + 1)
      refine ⟨hplace.imp_right ?_, hle,
        List.forall_mem_cons.mpr ⟨hle.trans (not_lt.mp hlt), hall⟩⟩
      rintro ⟨i, hi, hj⟩
      exact ⟨i + 1, hi, hj.trans (by omega)⟩

theorem selectFrom_smallest (n : Nat) (idxs : List Nat) :
    Smallest dists n (idxs : Multiset Nat) (selectFrom dists n idxs) := by
  induction n generalizing idxs with
  | zero => exact ⟨idxs, by simp [selectFrom], by simp [selectFrom], by simp [selectFrom]⟩
  | succ n ih =>
    cases idxs with
    | nil => exact .zero dists _
    | cons idx rest =>
      obtain ⟨hplace, hle, hall⟩ := bestFrom_spec dists (0, idx) 1 rest
      unfold selectFrom
      split
      next _ heq =>
        rw [heq] at hplace hle hall
        obtain heq | ⟨i, -, hi⟩ := hplace
        · obtain rfl := (Prod.mk.inj heq).2
          exact (ih rest).cons_of_le hall
        · omega
      next j best heq =>
        rw [heq] at hplace hle hall
        obtain heq | ⟨i, hget, hi⟩ := hplace
        · simp at heq
        · obtain rfl : j = i := by omega
          obtain ⟨hlt, rfl⟩ : ∃ hlt : j < rest.length, rest[j] = best :=
            List.getElem?_eq_some_iff.mp hget
          have hperm : (rest[j] :: rest.set j idx).Perm (idx :: rest) :=
            @List.set_set_perm _ (idx :: rest) 0 (j + 1) (Nat.zero_lt_succ _)
              (Nat.succ_lt_succ hlt)
          rw [← Multiset.coe_eq_coe.mpr hperm]
          refine (ih (rest.set j idx)).cons_of_le fun x hx => ?_
          obtain hx | rfl := List.mem_or_eq_of_mem_set (Multiset.mem_coe.mp hx)
          · exact hall x hx
          · exact hle

end Lists

section Search

variable (distfunc : List α → List α → α) (ivf : IVF α) (query : List α) (map : RowidMap)

def requestedProbes (ivf : IVF α) (nprobeOverride : Nat) : Nat :=
  if nprobeOverride > 0 then nprobeOverride else ivf.nprobe

def probeCount (ivf : IVF α) (nprobeOverride : Nat) : Nat :=
  min (requestedProbes ivf nprobeOverride) ivf.lists.length

def centroidDist (i : Nat) : α := distfunc query (ivf.centroids.getD i [])

structure NearestLists (n : Nat) (lists : List Nat) : Prop where
  length : lists.length = min n ivf.lists.length
  nodup : lists.Nodup
  lt : ∀ i ∈ lists, i < ivf.lists.length
  nearest : ∀ i ∈ lists, ∀ j < ivf.lists.length, j ∉ lists →
    centroidDist distfunc ivf query i ≤ centroidDist distfunc ivf query j

def eligibleEntries (lists : List Nat) : List (Entry α) :=
  (lists.flatMap fun l => (ivf.lists[l]?).elim [] InvertedList.entries).filter
    fun e => bsearch e.1 map.rowids || !map.preFilter

structure NearestEntries (candidates : List (Entry α)) (topk : Nat) (out : List (Hit α)) :
    Prop where
  length : out.length = min topk candidates.length
  entries : ∃ kept : Multiset (Entry α), kept ≤ candidates ∧
    (out : Multiset (Hit α)) = kept.map fun e => (e.1, distfunc query e.2)
  distances : Multiset.map Prod.snd (out : Multiset (Hit α)) =
    ((Multiset.map (fun e => distfunc query e.2) (candidates : Multiset (Entry α))).sort
      (· ≤ ·)).take topk

variable {distfunc ivf query map}

variable (distfunc ivf query) in
theorem nearestLists_selectNprobe (n : Nat) :
    NearestLists distfunc ivf query n (selectNprobe distfunc ivf query n) := by
  have hsmallest : Smallest (centroidDist distfunc ivf query) n
      (List.range ivf.lists.length : Multiset Nat) (selectNprobe distfunc ivf query n) :=
    selectFrom_smallest (centroidDist distfunc ivf query) n (List.range ivf.lists.length)
  have hnodup : (selectNprobe distfunc ivf query n).Nodup :=
    Multiset.coe_nodup.mp
      (Multiset.nodup_of_le hsmallest.le (Multiset.coe_nodup.mpr List.nodup_range))
  obtain ⟨rest, hrest, hcard, hle⟩ := hsmallest
  have hmem : ∀ i, i < ivf.lists.length ↔
      i ∈ selectNprobe distfunc ivf query n ∨ i ∈ rest := by
    intro i
    rw [← List.mem_range, ← Multiset.mem_coe, ← hrest, Multiset.mem_add, Multiset.mem_coe]
  refine ⟨by simpa using hcard, hnodup, fun i hi => (hmem i).mpr (.inl hi), ?_⟩
  intro i hi j hj hnot
  exact hle i hi j (((hmem j).mp hj).resolve_left hnot)

variable [Inhabited α]

omit [Inhabited α] in
theorem nearestEntries_of_smallest {candidates : List (Entry α)} {topk : Nat} {out : List (Hit α)}
    (h : Smallest Prod.snd topk
      ((candidates.map fun e => (e.1, distfunc query e.2) : List (Hit α)) : Multiset (Hit α)) out) :
    NearestEntries distfunc query candidates topk out where
  length := by simpa using h.card_eq
  entries := by
    obtain ⟨out', hperm, hsub⟩ := Multiset.coe_le.mp h.le
    obtain ⟨kept, hkept, rfl⟩ := List.sublist_map_iff.mp hsub
    exact ⟨kept, Multiset.coe_le.mpr hkept.subperm, (Multiset.coe_eq_coe.mpr hperm).symm⟩
  distances := by
    rw [h.map_key, Multiset.map_coe, List.map_map]
    rfl

omit [LinearOrder α] [Inhabited α] in
theorem eligibleEntries_perm {lists lists' : List Nat} (h : lists.Perm lists') :
    (eligibleEntries ivf map lists).Perm (eligibleEntries ivf map lists') :=
  (h.flatMap_right _).filter _

omit [Inhabited α] in
theorem NearestEntries.of_perm {candidates candidates' : List (Entry α)} {topk : Nat}
    {out : List (Hit α)} (h : NearestEntries distfunc query candidates topk out)
    (hperm : candidates.Perm candidates') : NearestEntries distfunc query candidates' topk out where
  length := by rw [h.length, hperm.length_eq]
  entries := by
    rw [← Multiset.coe_eq_coe.mpr hperm]
    exact h.entries
  distances := by
    rw [← Multiset.coe_eq_coe.mpr hperm]
    exact h.distances

omit [Inhabited α] in
theorem NearestLists.perm_range {lists : List Nat}
    (h : NearestLists distfunc ivf query ivf.lists.length lists) :
    lists.Perm (List.range ivf.lists.length) := by
  have hsub : List.Subperm lists (List.range ivf.lists.length) :=
    List.subperm_of_subset h.nodup fun i hi => List.mem_range.mpr (h.lt i hi)
  refine hsub.perm_of_length_le ?_
  rw [h.length, min_self, List.length_range]

variable (distfunc ivf query map) in
theorem exists_keeps (topk nprobeOverride : Nat) :
    ∃ heap, Sorting.Keeps Prod.snd topk
        (hits distfunc ivf query (probeCount ivf nprobeOverride) map) heap ∧
      ivfSearch distfunc ivf query topk nprobeOverride map =
        Sorting.drain Prod.snd heap.length heap [] := by
  unfold ivfSearch
  split
  next h =>
    obtain rfl := h
    exact ⟨[], .zero Prod.snd _, rfl⟩
  next h =>
    have hkeeps := (Sorting.Keeps.nil Prod.snd topk).foldl_offer (Nat.pos_of_ne_zero h)
      (hits distfunc ivf query (probeCount ivf nprobeOverride) map)
    exact ⟨_, hkeeps, rfl⟩

/-- The nearest of the eligible entries of the nearest lists; with enough lists, of all entries. -/
theorem ivfSearch_nearest (distfunc : List α → List α → α) (ivf : IVF α) (query : List α)
    (topk nprobeOverride : Nat) (map : RowidMap) :
    NearestLists distfunc ivf query (probeCount ivf nprobeOverride)
        (selectNprobe distfunc ivf query (probeCount ivf nprobeOverride)) ∧
      NearestEntries distfunc query (eligibleEntries ivf map
        (selectNprobe distfunc ivf query (probeCount ivf nprobeOverride))) topk
        (ivfSearch distfunc ivf query topk nprobeOverride map) ∧
      (ivf.lists.length ≤ requestedProbes ivf nprobeOverride →
        NearestEntries distfunc query
          (eligibleEntries ivf map (List.range ivf.lists.length)) topk
          (ivfSearch distfunc ivf query topk nprobeOverride map)) := by
  obtain ⟨heap, hkeeps, hsearch⟩ := exists_keeps distfunc ivf query map topk nprobeOverride
  have hperm : (Sorting.drain Prod.snd heap.length heap []).Perm (heap ++ []) :=
    Sorting.drain_perm Prod.snd rfl
  rw [List.append_nil, ← hsearch] at hperm
  have hsmallest := hkeeps.smallest
  rw [← Multiset.coe_eq_coe.mpr hperm] at hsmallest
  have hnearest : NearestEntries distfunc query (eligibleEntries ivf map
      (selectNprobe distfunc ivf query (probeCount ivf nprobeOverride))) topk
      (ivfSearch distfunc ivf query topk nprobeOverride map) :=
    nearestEntries_of_smallest hsmallest
  have hlists := nearestLists_selectNprobe distfunc ivf query (probeCount ivf nprobeOverride)
  refine ⟨hlists, hnearest, fun hall => ?_⟩
  rw [probeCount, min_eq_right hall] at hlists hnearest
  exact hnearest.of_perm (eligibleEntries_perm hlists.perm_range)

end Search

section Order

variable {distfunc : List α → List α → α} {ivf : IVF α} {query : List α} {map : RowidMap}

/-- The distances that `ivf_search` writes are in order. -/
def Ordered (out : List (Hit α)) : Prop := out.Pairwise fun a b => a.2 ≤ b.2

variable [Inhabited α]

theorem ordered_of_full {topk nprobeOverride : Nat}
    (h : topk ≤ (hits distfunc ivf query (probeCount ivf nprobeOverride) map).length) :
    Ordered (ivfSearch distfunc ivf query topk nprobeOverride map) := by
  obtain ⟨heap, hkeeps, hsearch⟩ := exists_keeps distfunc ivf query map topk nprobeOverride
  have hcard := hkeeps.smallest.card_eq
  rw [Multiset.coe_card, Multiset.coe_card, min_eq_left h] at hcard
  rw [hsearch]
  exact Sorting.drain_sorted (hkeeps.ordered hcard) rfl .nil fun _ _ _ hb =>
    absurd hb List.not_mem_nil

theorem ordered_of_length_le_one {topk nprobeOverride : Nat}
    (h : (hits distfunc ivf query (probeCount ivf nprobeOverride) map).length ≤ 1) :
    Ordered (ivfSearch distfunc ivf query topk nprobeOverride map) := by
  obtain ⟨heap, hkeeps, hsearch⟩ := exists_keeps distfunc ivf query map topk nprobeOverride
  have hperm : (Sorting.drain Prod.snd heap.length heap []).Perm (heap ++ []) :=
    Sorting.drain_perm Prod.snd rfl
  have hcard := hkeeps.smallest.card_eq
  rw [Multiset.coe_card, Multiset.coe_card] at hcard
  rw [List.append_nil, ← hsearch] at hperm
  have hlength := hperm.length_eq
  have hle : (ivfSearch distfunc ivf query topk nprobeOverride map).length ≤ 1 := by omega
  unfold Ordered
  generalize ivfSearch distfunc ivf query topk nprobeOverride map = out at hle
  match out, hle with
  | [], _ => exact .nil
  | [hit], _ => exact List.pairwise_singleton _ _

theorem first_farthest_of_ordered {topk nprobeOverride : Nat} {hit : Hit α} {rest : List (Hit α)}
    (h : hits distfunc ivf query (probeCount ivf nprobeOverride) map = hit :: rest)
    (hshort : (hit :: rest).length < topk)
    (hordered : Ordered (ivfSearch distfunc ivf query topk nprobeOverride map)) :
    ∀ x ∈ rest, x.2 ≤ hit.2 := by
  obtain ⟨heap, hkeeps, hsearch⟩ := exists_keeps distfunc ivf query map topk nprobeOverride
  rw [h] at hkeeps
  obtain rfl := hkeeps.unsorted hshort
  rw [hsearch] at hordered
  exact Sorting.le_head_of_drain_sorted hordered

def oneList (entries : List (Entry α)) : IVF α :=
  ⟨[[]], [⟨entries.length, entries⟩], 1, ivfTrainCap, [], [], true⟩

omit [Inhabited α] in
theorem hits_oneList (distfunc : List α → List α → α) (entries : List (Entry α)) (query : List α) :
    hits distfunc (oneList entries) query (probeCount (oneList entries) 1) ⟨[], false⟩ =
      entries.map fun e => (e.1, distfunc query e.2) := by
  change ((entries ++ []).filter fun e : Entry α => bsearch e.1 [] || !false).map _ = _
  have hall : entries.filter (fun e : Entry α => bsearch e.1 [] || !false) = entries :=
    List.filter_eq_self.mpr fun e _ => Bool.or_true _
  rw [List.append_nil, hall]

theorem oneList_not_ordered {topk : Nat} {near far : α} (hlt : near < far) (n : Nat)
    (hshort : n + 2 < topk) :
    ¬ Ordered (ivfSearch (fun _ v => v.headD near)
      (oneList ((1, [near]) :: (List.range (n + 1)).map fun i => (Int64.ofNat (i + 2), [far])))
      [] topk 1 ⟨[], false⟩) := by
  intro hordered
  have hhits := hits_oneList (fun _ v => v.headD near)
    ((1, [near]) :: (List.range (n + 1)).map fun i => (Int64.ofNat (i + 2), [far])) []
  rw [List.map_cons, List.map_map] at hhits
  have hfirst := first_farthest_of_ordered hhits (by simpa using hshort) hordered
  refine absurd (hfirst (Int64.ofNat (0 + 2), far) ?_) (not_le.mpr hlt)
  exact List.mem_map.mpr ⟨0, List.mem_range.mpr (Nat.succ_pos n), rfl⟩

end Order

section Iff

variable (α) [Field α] [Inhabited α]

def AlwaysOrdered (topk m : Nat) : Prop :=
  ∀ (distfunc : List α → List α → α) (ivf : IVF α) (query : List α) (nprobeOverride : Nat)
    (map : RowidMap), ivf.trained = true →
    (hits distfunc ivf query (probeCount ivf nprobeOverride) map).length = m →
    Ordered (ivfSearch distfunc ivf query topk nprobeOverride map)

/-- The array is made a heap when it is full, and only then. -/
theorem alwaysOrdered_iff (topk m : Nat) : AlwaysOrdered α topk m ↔ topk ≤ m ∨ m ≤ 1 := by
  constructor
  · intro h
    by_contra hnot
    obtain ⟨hshort, hmany⟩ := not_or.mp hnot
    obtain ⟨n, rfl⟩ := Nat.exists_eq_add_of_le' (Nat.lt_of_not_le hmany)
    have hlt : min (0 : α) 1 < max 0 1 := min_lt_max.mpr zero_ne_one
    refine oneList_not_ordered hlt n (Nat.lt_of_not_le hshort) (h _ _ _ _ _ rfl ?_)
    rw [hits_oneList]
    simp
  · rintro (hfull | hone) distfunc ivf query nprobeOverride map _ rfl
    · exact ordered_of_full hfull
    · exact ordered_of_length_le_one hone

theorem oneList_search_not_ordered :
    ivfSearch (fun _ v => v.headD 0) (oneList [(1, [(1 : ℤ)]), (2, [2])]) [] 5 1 ⟨[], false⟩ =
        [(2, 2), (1, 1)] ∧
      ¬ Ordered (ivfSearch (fun _ v => v.headD 0) (oneList [(1, [(1 : ℤ)]), (2, [2])]) [] 5 1
        ⟨[], false⟩) := by
  have hsearch : ivfSearch (fun _ v => v.headD 0) (oneList [(1, [(1 : ℤ)]), (2, [2])]) [] 5 1
      ⟨[], false⟩ = [(2, 2), (1, 1)] := by
    decide
  refine ⟨hsearch, fun h => ?_⟩
  rw [hsearch, Ordered, List.pairwise_pair] at h
  exact absurd h (by decide)

end Iff

end SqliteMultimodal.Vec.Ivf
