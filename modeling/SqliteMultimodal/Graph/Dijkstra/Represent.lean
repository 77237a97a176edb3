import SqliteMultimodal.Graph.Dijkstra.Defs
import SqliteMultimodal.Lib.MaxHeap
import SqliteMultimodal.Lib.Relaxation

namespace SqliteMultimodal.Graph.Dijkstra

open PriorityQueue (PQNode pqParent pqLeftChild pqRightChild urgency Holds Sized)
open Relaxation (State)

section Queue

variable {D : Type} [Zero D] [LinearOrder D]

theorem pqBubbleUp_eq (pQueue : GraphPriorityQueue D) (i : Nat) :
    pqBubbleUp pQueue i = Sorting.siftUp urgency pQueue i := by
  have hfuel : ∀ n (pQueue : GraphPriorityQueue D) i,
      pqBubbleUpFuel n pQueue i = Sorting.siftUpFuel urgency n pQueue i := by
    intro n
    induction n with
    | zero => exact fun _ _ => rfl
    | succ n ih =>
      intro pQueue i
      rw [pqBubbleUpFuel, ih]
      rfl
  exact hfuel i pQueue i

theorem pqMinIndex_eq (pQueue : GraphPriorityQueue D) (i : Nat) :
    pqMinIndex pQueue i = Sorting.largest urgency pQueue i := by
  unfold pqMinIndex Sorting.largest pqLeftChild pqRightChild
  rw [Nat.mul_comm]
  rfl

theorem pqBubbleDown_eq (pQueue : GraphPriorityQueue D) (i : Nat) :
    pqBubbleDown pQueue i = Sorting.siftDown urgency pQueue i := by
  have hfuel : ∀ n (pQueue : GraphPriorityQueue D) i,
      pqBubbleDownFuel n pQueue i = Sorting.siftDownFuel urgency n pQueue i := by
    intro n
    induction n with
    | zero => exact fun _ _ => rfl
    | succ n ih =>
      intro pQueue i
      rw [pqBubbleDownFuel, Sorting.siftDownFuel, ← pqMinIndex_eq]
      rw [ih, ite_not]
      rfl
  exact hfuel pQueue.length pQueue i

def entryOf (node : PQNode D) : Int × D := (node.iNodeId, node.rDistance)

structure Queued (pQueue : GraphPriorityQueue D) (entries : Multiset (Int × D)) : Prop where
  heap : Sorting.HeapFrom urgency 0 pQueue
  entries_eq : (pQueue.map entryOf : Multiset (Int × D)) = entries

variable {pQueue : GraphPriorityQueue D} {entries : Multiset (Int × D)}

theorem Queued.nil : Queued ([] : GraphPriorityQueue D) 0 where
  heap _ c _ _ hlt := absurd hlt (Nat.not_lt_zero c)
  entries_eq := rfl

theorem Queued.insert (h : Queued pQueue entries) (iNodeId : Int) (rDistance : D) :
    Queued (graphPriorityQueueInsert pQueue iNodeId rDistance)
      ((iNodeId, rDistance) ::ₘ entries) where
  heap := by
    rw [graphPriorityQueueInsert, pqBubbleUp_eq]
    exact Sorting.heapFrom_siftUp h.heap _
  entries_eq := by
    have hperm : (Sorting.siftUp urgency (pQueue ++ [⟨iNodeId, rDistance⟩]) pQueue.length).Perm
        (⟨iNodeId, rDistance⟩ :: pQueue) :=
      (Sorting.siftUpFuel_perm urgency _ (by simp)).trans (List.perm_append_singleton _ _)
    rw [graphPriorityQueueInsert, pqBubbleUp_eq, Multiset.coe_eq_coe.mpr (hperm.map _),
      List.map_cons, ← h.entries_eq, Multiset.cons_coe]
    rfl

theorem extractMin_cons (x : PQNode D) (t : GraphPriorityQueue D) :
    graphPriorityQueueExtractMin (x :: t) = some (x, Sorting.siftDown urgency
      ((x :: t).set 0 ((x :: t).getD ((x :: t).length - 1) default)).dropLast 0) := by
  unfold graphPriorityQueueExtractMin
  rw [if_neg (by simp)]
  dsimp only
  split
  next => rw [pqBubbleDown_eq, List.getD_cons_zero]
  next hempty =>
    rw [List.eq_nil_of_length_eq_zero (Nat.eq_zero_of_not_pos hempty), List.getD_cons_zero]
    rfl

theorem insert_holds {pArray : PriorityQueue.GraphPriorityQueue D} (h : Holds pArray pQueue)
    (hsized : Sized pArray.nAlloc) (hroom : pQueue.length < 67108864) (iNodeId : Int)
    (rDistance : D) : ∃ pArray',
      PriorityQueue.graphPriorityQueueInsert pArray iNodeId rDistance = some (.ok, pArray') ∧
        Holds pArray' (graphPriorityQueueInsert pQueue iNodeId rDistance) ∧
        Sized pArray'.nAlloc := by
  rw [graphPriorityQueueInsert, pqBubbleUp_eq]
  exact h.insert hsized hroom iNodeId rDistance

theorem extractMin_holds {pArray : PriorityQueue.GraphPriorityQueue D} {node : PQNode D}
    {rest : GraphPriorityQueue D} (h : Holds pArray pQueue)
    (hmin : graphPriorityQueueExtractMin pQueue = some (node, rest)) : ∃ pArray',
      PriorityQueue.graphPriorityQueueExtractMin pArray = some (.ok, some node, pArray') ∧
        Holds pArray' rest ∧ pArray'.nAlloc = pArray.nAlloc := by
  cases pQueue with
  | nil => cases hmin
  | cons x t =>
    rw [extractMin_cons, Option.some.injEq, Prod.mk.injEq] at hmin
    obtain ⟨rfl, rfl⟩ := hmin
    exact h.extractMin

theorem Queued.extractMin {node : PQNode D} {rest : GraphPriorityQueue D}
    (h : Queued pQueue entries) (hmin : graphPriorityQueueExtractMin pQueue = some (node, rest)) :
    ∃ entries', entries = entryOf node ::ₘ entries' ∧ Queued rest entries' ∧
      ∀ p ∈ entries', node.rDistance ≤ p.2 := by
  cases pQueue with
  | nil => cases hmin
  | cons x t =>
    rw [extractMin_cons, Option.some.injEq, Prod.mk.injEq] at hmin
    obtain ⟨rfl, rfl⟩ := hmin
    have hperm := (Sorting.siftDown_perm urgency _ 0).trans (Sorting.perm_popRoot x t)
    have hready := h.heap.setRoot ((x :: t).getD ((x :: t).length - 1) default)
      (((x :: t).set 0 ((x :: t).getD ((x :: t).length - 1) default)).length - 1)
    rw [← List.dropLast_eq_take] at hready
    refine ⟨(t.map entryOf : Multiset (Int × D)), h.entries_eq.symm,
      ⟨Sorting.heapFrom_siftDown hready (Nat.le_refl 0), ?_⟩, ?_⟩
    · exact Multiset.coe_eq_coe.mpr (hperm.map _)
    · intro p hp
      obtain ⟨y, hy, rfl⟩ := List.mem_map.mp (Multiset.mem_coe.mp hp)
      exact OrderDual.toDual_le_toDual.mp (h.heap.le_head y hy)

end Queue

section Map

def Indexable (nBuckets : Nat) (iNodeId : Int) : Prop := 0 ≤ iNodeId ∨ (nBuckets : Int) ∣ iNodeId

theorem tmod_nonneg_iff (iNodeId : Int) (nBuckets : Nat) :
    0 ≤ Int.tmod iNodeId nBuckets ↔ Indexable nBuckets iNodeId := by
  constructor
  · intro h
    by_contra hnot
    rw [Indexable, not_or, not_le] at hnot
    have hneg := Int.tmod_nonneg (nBuckets : Int) (Int.neg_nonneg_of_nonpos hnot.1.le)
    rw [Int.neg_tmod] at hneg
    exact hnot.2 (Int.dvd_of_tmod_eq_zero (le_antisymm (Int.neg_nonneg.mp hneg) h))
  · rintro (h | h)
    · exact Int.tmod_nonneg _ h
    · exact (Int.tmod_eq_zero_of_dvd h).ge

variable {D : Type} {pMap : DistanceMap D} {iNodeId : Int} {nBuckets : Nat}

theorem chainOf_ok (hlen : pMap.aBuckets.length = nBuckets) (hpos : 0 < nBuckets)
    (hid : Indexable nBuckets iNodeId) : chainOf pMap iNodeId =
      .ok (pMap.aBuckets.getD (Int.tmod iNodeId nBuckets).toNat []) := by
  rw [chainOf, iBucket, hlen]
  exact if_pos ⟨(tmod_nonneg_iff iNodeId nBuckets).mpr hid,
    Int.tmod_lt_of_pos iNodeId (Int.natCast_pos.mpr hpos)⟩

theorem lookup_error (hlen : pMap.aBuckets.length = nBuckets)
    (hid : ¬ Indexable nBuckets iNodeId) : lookup pMap iNodeId = .error .bucket := by
  rw [lookup, chainOf, iBucket, hlen, if_neg, Except.error_bind]
  exact fun h => hid ((tmod_nonneg_iff iNodeId nBuckets).mp h.1)

theorem find?_overwrite {info : DistanceInfo D} {chain chain' : List (DistanceInfo D)}
    (h : overwrite info chain = some chain') (v : Int) :
    chain'.find? (fun x => x.iNodeId = v) =
      if v = info.iNodeId then some info else chain.find? fun x => x.iNodeId = v := by
  induction chain generalizing chain' with
  | nil => cases h
  | cons x chain ih =>
    rw [overwrite] at h
    split at h
    next hx =>
      cases h
      by_cases hv : v = info.iNodeId
      · rw [if_pos hv, List.find?_cons_of_pos (by simpa using hv.symm)]
      · rw [if_neg hv, List.find?_cons_of_neg (by simpa using Ne.symm hv),
          List.find?_cons_of_neg (by simpa [hx] using Ne.symm hv)]
    next hx =>
      obtain ⟨rest, hrest, rfl⟩ := Option.map_eq_some_iff.mp h
      by_cases hxv : x.iNodeId = v
      · have hv : v ≠ info.iNodeId := fun heq => hx (hxv.trans heq)
        rw [if_neg hv, List.find?_cons_of_pos (by simpa using hxv),
          List.find?_cons_of_pos (by simpa using hxv)]
      · rw [List.find?_cons_of_neg (by simpa using hxv),
          List.find?_cons_of_neg (by simpa using hxv), ih hrest]

theorem find?_setInfo (info : DistanceInfo D) (chain : List (DistanceInfo D)) (v : Int) :
    (setInfo info chain).find? (fun x => x.iNodeId = v) =
      if v = info.iNodeId then some info else chain.find? fun x => x.iNodeId = v := by
  unfold setInfo
  cases h : overwrite info chain with
  | some chain' => exact find?_overwrite h v
  | none =>
    by_cases hv : v = info.iNodeId
    · rw [if_pos hv]
      exact List.find?_cons_of_pos (by simpa using hv.symm)
    · rw [if_neg hv]
      exact List.find?_cons_of_neg (by simpa using Ne.symm hv)

theorem distanceMapSet_ok (hlen : pMap.aBuckets.length = nBuckets) (hpos : 0 < nBuckets)
    (hid : Indexable nBuckets iNodeId) (rDistance : D) (iPredecessor : Int) :
    ∃ pMap', distanceMapSet pMap iNodeId rDistance iPredecessor = .ok pMap' ∧
      pMap'.aBuckets.length = nBuckets ∧
      ∀ v, Indexable nBuckets v → lookup pMap' v =
        if v = iNodeId then .ok (some ⟨iNodeId, rDistance, iPredecessor⟩) else lookup pMap v := by
  rw [distanceMapSet, chainOf_ok hlen hpos hid, iBucket, hlen, Except.ok_bind]
  refine ⟨_, rfl, (List.length_set ..).trans hlen, fun v hv => ?_⟩
  rw [lookup, chainOf_ok ((List.length_set ..).trans hlen) hpos hv, Except.ok_bind, lookup,
    chainOf_ok hlen hpos hv, Except.ok_bind]
  have hlt : (Int.tmod iNodeId nBuckets).toNat < pMap.aBuckets.length := by
    have := Int.tmod_lt_of_pos iNodeId (Int.natCast_pos.mpr hpos)
    omega
  rw [List.getD_eq_getElem?_getD, List.getD_eq_getElem?_getD]
  by_cases hbucket : (Int.tmod v nBuckets).toNat = (Int.tmod iNodeId nBuckets).toNat
  · rw [hbucket, List.getElem?_set_self hlt, Option.getD_some, find?_setInfo,
      List.getD_eq_getElem?_getD]
    split <;> rfl
  · have hne : v ≠ iNodeId := fun heq => hbucket (heq ▸ rfl)
    rw [List.getElem?_set_ne (Ne.symm hbucket), if_neg hne, List.getD_eq_getElem?_getD]

end Map

section Search

variable {D : Type}

def Tables.nBuckets (tables : Tables D) : Nat := tables.nNodes * 2 + 1

theorem Tables.nBuckets_pos (tables : Tables D) : 0 < tables.nBuckets := Nat.succ_pos _

variable [Zero D] [Add D] [LinearOrder D] [Distances D]

instance addRightMono : AddRightMono D := ⟨fun w _ _ h => Distances.add_le_add w h⟩

def network (tables : Tables D) (iStartId : Int) : Relaxation Int D where
  out u := (rowsFrom tables u).map fun row => (row.toId, row.weight)
  start := iStartId
  top := dblMax
  top_pos := Distances.dblMax_pos

def infoOf (v : Int) (label : D × Option Int) : DistanceInfo D :=
  ⟨v, label.1, label.2.getD (-1)⟩

structure Represents (tables : Tables D) (s : Search D) (t : State Int D) : Prop where
  length_eq : s.pDistances.aBuckets.length = tables.nBuckets
  lookup_eq : ∀ v, Indexable tables.nBuckets v →
    lookup s.pDistances v = .ok ((t.labels v).map (infoOf v))
  queued : Queued s.pQueue t.queue

variable {tables : Tables D} {iStartId iEndId v : Int} {s s' : Search D} {t : State Int D}
  {row : Edge D}

theorem Represents.get (h : Represents tables s t) (iStartId : Int)
    (hv : Indexable tables.nBuckets v) :
    distanceMapGet s.pDistances v = .ok ((network tables iStartId).dist t v) := by
  rw [distanceMapGet, h.lookup_eq v hv, Except.ok_bind, Relaxation.dist]
  cases t.labels v <;> rfl

omit [Add D] [Distances D] in
theorem Represents.getPredecessor (h : Represents tables s t)
    (hv : Indexable tables.nBuckets v) : distanceMapGetPredecessor s.pDistances v =
      .ok (((t.labels v).bind (·.2)).getD (-1)) := by
  rw [distanceMapGetPredecessor, h.lookup_eq v hv, Except.ok_bind]
  cases t.labels v <;> rfl

theorem Represents.get_error (h : Represents tables s t) (hv : ¬ Indexable tables.nBuckets v) :
    distanceMapGet s.pDistances v = .error .bucket := by
  rw [distanceMapGet, lookup_error h.length_eq hv, Except.error_bind]

theorem Represents.edge (h : Represents tables s t) (iStartId c : Int) (x : D)
    (hid : Indexable tables.nBuckets row.toId) : ∃ s', relaxEdge c x s row = .ok s' ∧
      Represents tables s' ((network tables iStartId).relax c x t (row.toId, row.weight)) := by
  rw [relaxEdge, h.get iStartId hid, Except.ok_bind]
  by_cases hlt : x + row.weight < (network tables iStartId).dist t row.toId
  · obtain ⟨pMap, hset, hlen, hlookup⟩ := distanceMapSet_ok h.length_eq tables.nBuckets_pos hid
      (x + row.weight) c
    rw [if_pos hlt, hset, Except.ok_bind]
    refine ⟨_, rfl, hlen, fun v hv => ?_, ?_⟩
    · rw [hlookup v hv, Relaxation.labels_relax (e := (row.toId, row.weight)) hlt]
      split
      next heq =>
        rw [heq]
        rfl
      next => exact h.lookup_eq v hv
    · rw [Relaxation.queue_relax (e := (row.toId, row.weight)) hlt]
      exact h.queued.insert row.toId (x + row.weight)
  · rw [if_neg hlt, Relaxation.relax, if_neg hlt]
    exact ⟨s, rfl, h⟩

theorem Represents.rows (h : Represents tables s t) (iStartId c : Int) (x : D)
    (rows : List (Edge D)) :
    (∃ s', rows.foldlM (relaxEdge c x) s = .ok s' ∧
      (∀ row ∈ rows, Indexable tables.nBuckets row.toId) ∧
      Represents tables s' ((network tables iStartId).relaxAll c x t
        (rows.map fun row => (row.toId, row.weight)))) ∨
    rows.foldlM (relaxEdge c x) s = .error .bucket ∧
      ∃ row ∈ rows, ¬ Indexable tables.nBuckets row.toId := by
  induction rows generalizing s t with
  | nil => exact .inl ⟨s, rfl, fun _ hrow => absurd hrow List.not_mem_nil, h⟩
  | cons row rows ih =>
    rw [List.foldlM_cons]
    by_cases hid : Indexable tables.nBuckets row.toId
    · obtain ⟨s₁, hs₁, hrep⟩ := h.edge iStartId c x hid
      rw [hs₁, Except.ok_bind]
      obtain ⟨s', hs', hall, hrep'⟩ | ⟨herror, row', hrow', hnot⟩ := ih hrep
      · exact .inl ⟨s', hs', List.forall_mem_cons.mpr ⟨hid, hall⟩, hrep'⟩
      · exact .inr ⟨herror, row', List.mem_cons_of_mem _ hrow', hnot⟩
    · refine .inr ⟨?_, row, List.mem_cons_self, hid⟩
      rw [relaxEdge, h.get_error hid, Except.error_bind, Except.error_bind]

variable (tables iStartId iEndId) in
inductive Turn (fuel : Nat) (s : Search D) (t : State Int D) : Prop
  | done (hempty : t.queue = 0) (h : search tables iEndId (fuel + 1) s = .ok s)
  | found {rest : Multiset (Int × D)} {x : D} {s' : Search D} (hend : 0 ≤ iEndId)
      (hqueue : t.queue = (iEndId, x) ::ₘ rest) (hmin : ∀ p ∈ rest, x ≤ p.2)
      (h : search tables iEndId (fuel + 1) s = .ok s')
      (hrep : Represents tables s' { t with queue := rest })
  | stale {rest : Multiset (Int × D)} {c : Int} {x : D} {s' : Search D}
      (hqueue : t.queue = (c, x) ::ₘ rest) (hmin : ∀ p ∈ rest, x ≤ p.2)
      (hlt : (network tables iStartId).dist t c < x)
      (h : search tables iEndId (fuel + 1) s = search tables iEndId fuel s')
      (hrep : Represents tables s' { t with queue := rest })
  | relaxed {rest : Multiset (Int × D)} {c : Int} {x : D} {s' : Search D}
      (hqueue : t.queue = (c, x) ::ₘ rest) (hmin : ∀ p ∈ rest, x ≤ p.2)
      (hle : x ≤ (network tables iStartId).dist t c)
      (hout : ∀ e ∈ (network tables iStartId).out c, Indexable tables.nBuckets e.1)
      (h : search tables iEndId (fuel + 1) s = search tables iEndId fuel s')
      (hrep : Represents tables s' ((network tables iStartId).relaxAll c x { t with queue := rest }
        ((network tables iStartId).out c)))
  | outside {rest : Multiset (Int × D)} {c : Int} {x : D} (hqueue : t.queue = (c, x) ::ₘ rest)
      (hnot : ¬ Indexable tables.nBuckets c ∨
        ∃ e ∈ (network tables iStartId).out c, ¬ Indexable tables.nBuckets e.1)
      (h : search tables iEndId (fuel + 1) s = .error .bucket)

theorem Represents.turn (h : Represents tables s t) (iStartId iEndId : Int) (fuel : Nat) :
    Turn tables iStartId iEndId fuel s t := by
  cases hmin : graphPriorityQueueExtractMin s.pQueue with
  | none =>
    refine .done ?_ (by rw [search, hmin])
    rw [← h.queued.entries_eq]
    cases hs : s.pQueue with
    | nil => rfl
    | cons x rest =>
      rw [hs, extractMin_cons] at hmin
      cases hmin
  | some popped =>
    obtain ⟨node, pQueue⟩ := popped
    obtain ⟨rest, hqueue, hqueued, hle⟩ := h.queued.extractMin hmin
    have hpop : Represents tables { s with pQueue } { t with queue := rest } :=
      ⟨h.length_eq, h.lookup_eq, hqueued⟩
    have hsearch : ∀ r, (if 0 ≤ iEndId ∧ node.iNodeId = iEndId then .ok { s with pQueue }
        else do
          let rDistance ← distanceMapGet s.pDistances node.iNodeId
          if node.rDistance > rDistance then search tables iEndId fuel { s with pQueue }
          else
            let s ← (rowsFrom tables node.iNodeId).foldlM
              (relaxEdge node.iNodeId node.rDistance) { s with pQueue }
            search tables iEndId fuel s) = r → search tables iEndId (fuel + 1) s = r := by
      rintro r rfl
      rw [search, hmin]
    by_cases hend : 0 ≤ iEndId ∧ node.iNodeId = iEndId
    · obtain ⟨hnonneg, heq⟩ := hend
      refine .found hnonneg (heq ▸ hqueue) hle (hsearch _ (if_pos ⟨hnonneg, heq⟩)) hpop
    by_cases hid : Indexable tables.nBuckets node.iNodeId
    case neg =>
      refine .outside hqueue (.inl hid) (hsearch _ ?_)
      rw [if_neg hend, h.get_error hid, Except.error_bind]
    by_cases hlt : (network tables iStartId).dist t node.iNodeId < node.rDistance
    · refine .stale hqueue hle hlt (hsearch _ ?_) hpop
      rw [if_neg hend, h.get iStartId hid, Except.ok_bind, if_pos hlt]
    obtain ⟨s', hrows, hall, hrep⟩ | ⟨herror, row, hrow, hnot⟩ :=
      hpop.rows iStartId node.iNodeId node.rDistance (rowsFrom tables node.iNodeId)
    · refine .relaxed hqueue hle (not_lt.mp hlt) (List.forall_mem_map.mpr hall) (hsearch _ ?_) hrep
      rw [if_neg hend, h.get iStartId hid, Except.ok_bind, if_neg hlt, hrows,
        Except.ok_bind]
    · refine .outside hqueue (.inr ⟨_, List.mem_map_of_mem hrow, hnot⟩) (hsearch _ ?_)
      rw [if_neg hend, h.get iStartId hid, Except.ok_bind, if_neg hlt, herror,
        Except.error_bind]

end Search

end SqliteMultimodal.Graph.Dijkstra
