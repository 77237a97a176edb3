import SqliteMultimodal.Graph.Dijkstra.Represent
import SqliteMultimodal.Lib.Fuel
import SqliteMultimodal.Lib.Settling
import SqliteMultimodal.Lib.Significand

namespace SqliteMultimodal.Graph.Dijkstra

open PriorityQueue (PQNode)
open Relaxation (State)

variable {D : Type} [Zero D] [Add D] [LinearOrder D] [Distances D]
  {tables : Tables D} {iStartId iEndId : Int} {s s' : Search D} {t : State Int D}

section Search

theorem search_mono {n m : Nat} (h : search tables iEndId n s = .ok s') (hle : n ≤ m) :
    search tables iEndId m s = .ok s' := by
  induction n generalizing s m with
  | zero => cases h
  | succ n ih =>
    obtain ⟨m, rfl⟩ := Nat.exists_eq_add_of_le' (Nat.one_le_of_lt hle)
    have hle' := Nat.le_of_succ_le_succ hle
    rw [search] at h ⊢
    split at h
    next => exact h
    next =>
      split at h
      next hend =>
        rw [if_pos hend]
        exact h
      next hend =>
        rw [if_neg hend]
        rw [Except.bind_eq_ok] at h ⊢
        obtain ⟨rDistance, hget, h⟩ := h
        refine ⟨rDistance, hget, ?_⟩
        split at h
        next hstale =>
          rw [if_pos hstale]
          exact ih h hle'
        next hstale =>
          rw [if_neg hstale]
          rw [Except.bind_eq_ok] at h ⊢
          obtain ⟨s₁, hrows, h⟩ := h
          exact ⟨s₁, hrows, ih h hle'⟩

structure Kept (tables : Tables D) (iStartId : Int) (Q : State Int D → Prop) : Prop where
  stale : ∀ t c x rest, Q t → t.queue = (c, x) ::ₘ rest → (∀ p ∈ rest, x ≤ p.2) →
    (network tables iStartId).dist t c < x → Q { t with queue := rest }
  relaxed : ∀ t c x rest, Q t → t.queue = (c, x) ::ₘ rest → (∀ p ∈ rest, x ≤ p.2) →
    x ≤ (network tables iStartId).dist t c →
    (∀ e ∈ (network tables iStartId).out c, Indexable tables.nBuckets e.1) →
    Q ((network tables iStartId).relaxAll c x { t with queue := rest }
      ((network tables iStartId).out c))

structure Ended (tables : Tables D) (iEndId : Int) (s : Search D) (t : State Int D)
    (rest : Multiset (Int × D)) : Prop where
  represents : Represents tables s { t with queue := rest }
  queue : t.queue = 0 ∧ rest = 0 ∨
    0 ≤ iEndId ∧ ∃ x, t.queue = (iEndId, x) ::ₘ rest ∧ ∀ p ∈ rest, x ≤ p.2

theorem Kept.search {Q : State Int D → Prop} (hQ : Kept tables iStartId Q) {fuel : Nat}
    (hrep : Represents tables s t) (ht : Q t) (h : search tables iEndId fuel s = .ok s') :
    ∃ t' rest, Q t' ∧ Ended tables iEndId s' t' rest := by
  induction fuel generalizing s t with
  | zero => cases h
  | succ fuel ih =>
    cases hrep.turn iStartId iEndId fuel with
    | done hempty heq =>
      obtain rfl := Except.ok.inj (heq.symm.trans h)
      exact ⟨t, 0, ht, hempty ▸ hrep, .inl ⟨hempty, rfl⟩⟩
    | found hend hqueue hmin heq hrep' =>
      obtain rfl := Except.ok.inj (heq.symm.trans h)
      exact ⟨t, _, ht, hrep', .inr ⟨hend, _, hqueue, hmin⟩⟩
    | stale hqueue hmin hlt heq hrep' =>
      exact ih hrep' (hQ.stale t _ _ _ ht hqueue hmin hlt) (heq.symm.trans h)
    | relaxed hqueue hmin hle hout heq hrep' =>
      exact ih hrep' (hQ.relaxed t _ _ _ ht hqueue hmin hle hout) (heq.symm.trans h)
    | outside hqueue hnot heq => cases heq.symm.trans h

def Bucketed (tables : Tables D) (iStartId : Int) : Prop :=
  Indexable tables.nBuckets iStartId ∧ ∀ v x, (network tables iStartId).Reached v x →
    ∀ e ∈ (network tables iStartId).out v, Indexable tables.nBuckets e.1

theorem Bucketed.indexable (h : Bucketed tables iStartId) {v : Int} {x : D}
    (hv : (network tables iStartId).Reached v x) : Indexable tables.nBuckets v := by
  cases hv with
  | refl => exact h.1
  | tail hp hmove =>
    obtain ⟨e, he, heq, -⟩ := hmove
    rw [Prod.mk.injEq] at heq
    rw [heq.1]
    exact h.2 _ _ hp e he

def nodesOf (tables : Tables D) (iStartId : Int) : Finset Int :=
  insert iStartId ((tables.edges.getD []).map (·.toId)).toFinset

theorem covers_nodesOf (tables : Tables D) (iStartId : Int) :
    (network tables iStartId).Covers (nodesOf tables iStartId) where
  start := Finset.mem_insert_self _ _
  out u e he := by
    obtain ⟨row, hrow, rfl⟩ := List.mem_map.mp he
    refine Finset.mem_insert_of_mem (List.mem_toFinset.mpr (List.mem_map_of_mem ?_))
    exact (List.mem_filter.mp hrow).1

variable (tables iStartId) in
structure Sane (t : State Int D) : Prop where
  sound : (network tables iStartId).Sound (Indexable tables.nBuckets) t
  rooted : (network tables iStartId).Rooted t

theorem Sane.init : Sane tables iStartId (network tables iStartId).init := ⟨.init, .init⟩

theorem Sane.relaxing {c : Int} {x : D} {rest : Multiset (Int × D)} (h : Sane tables iStartId t)
    (hqueue : t.queue = (c, x) ::ₘ rest) (hle : x ≤ (network tables iStartId).dist t c) :
    Relaxation.Relaxing (network tables iStartId) c x { t with queue := rest } :=
  .of_pop h.sound.toWalked h.rooted hqueue
    (le_antisymm (h.sound.queue (c, x) (hqueue ▸ Multiset.mem_cons_self _ _)).2.2 hle)

theorem kept_sane (hnot : ¬ (network tables iStartId).Improves) :
    Kept tables iStartId (Sane tables iStartId) where
  stale _ _ _ _ h hqueue _ hlt := ⟨h.sound.drop hqueue hlt, h.rooted.pop hqueue⟩
  relaxed _ _ _ _ h hqueue _ hle hout := ⟨h.sound.take hqueue hout,
    ((h.relaxing hqueue hle).relaxAll hnot fun _ he => he).rooted⟩

theorem Sane.search (hbucketed : Bucketed tables iStartId)
    (hnot : ¬ (network tables iStartId).Improves) {fuel : Nat} (h : Sane tables iStartId t)
    (hrep : Represents tables s t)
    (hfuel : (network tables iStartId).potential (nodesOf tables iStartId) t < fuel) :
    ∃ s', search tables iEndId fuel s = .ok s' := by
  induction fuel generalizing s t with
  | zero => exact absurd hfuel (Nat.not_lt_zero _)
  | succ fuel ih =>
    cases hrep.turn iStartId iEndId fuel with
    | done _ heq => exact ⟨_, heq⟩
    | found _ _ _ heq _ => exact ⟨_, heq⟩
    | stale hqueue hmin hlt heq hrep' =>
      rw [heq]
      refine ih ((kept_sane hnot).stale t _ _ _ h hqueue hmin hlt) hrep' ?_
      rw [← Relaxation.potential_pop hqueue] at hfuel
      exact Nat.lt_of_succ_lt_succ hfuel
    | relaxed hqueue hmin hle hout heq hrep' =>
      rw [heq]
      refine ih ((kept_sane hnot).relaxed t _ _ _ h hqueue hmin hle hout) hrep' ?_
      rw [← Relaxation.potential_pop hqueue] at hfuel
      exact ((h.relaxing hqueue hle).potential_relaxAll hnot (covers_nodesOf tables iStartId)
        fun _ he => he).trans_lt (Nat.lt_of_succ_lt_succ hfuel)
    | outside hqueue hout _ =>
      have hreached := (h.sound.queue _ (hqueue ▸ Multiset.mem_cons_self _ _)).1
      obtain hout | ⟨e, he, hout⟩ := hout
      · exact absurd (hbucketed.indexable hreached) hout
      · exact absurd (hbucketed.2 _ _ hreached e he) hout

end Search

section Start

omit [Zero D] [Add D] [LinearOrder D] [Distances D] in
theorem lookup_create (h : Indexable tables.nBuckets iEndId) :
    lookup (distanceMapCreate tables.nNodes : DistanceMap D) iEndId = .ok none := by
  have hlen : (distanceMapCreate tables.nNodes : DistanceMap D).aBuckets.length = tables.nBuckets :=
    List.length_replicate
  rw [lookup, chainOf_ok hlen tables.nBuckets_pos h, Except.ok_bind, distanceMapCreate,
    List.getD_eq_getElem?_getD, List.getElem?_replicate]
  split <;> rfl

theorem represents_init (h : Indexable tables.nBuckets iStartId) :
    ∃ pMap, distanceMapSet (distanceMapCreate tables.nNodes) iStartId (0 : D) (-1) = .ok pMap ∧
      Represents tables ⟨graphPriorityQueueInsert [] iStartId 0, pMap⟩
        (network tables iStartId).init := by
  have hlen : (distanceMapCreate tables.nNodes : DistanceMap D).aBuckets.length = tables.nBuckets :=
    List.length_replicate
  obtain ⟨pMap, hset, hlen', hlookup⟩ := distanceMapSet_ok hlen tables.nBuckets_pos h 0 (-1)
  refine ⟨pMap, hset, hlen', fun v hv => ?_, Queued.nil.insert iStartId 0⟩
  have hstart : (network tables iStartId).start = iStartId := rfl
  rw [hlookup v hv, Relaxation.labels_init, hstart]
  split
  next heq =>
    rw [heq]
    rfl
  next => exact lookup_create hv

end Start

section Path

def counted (path : List Int) : List Int := path.takeWhile (· ≠ -1)

theorem counted_cons {v : Int} (hv : v ≠ -1) (path : List Int) :
    counted (v :: path) = v :: counted path :=
  List.takeWhile_cons_of_pos (by simpa using hv)

theorem counted_cons_end (path : List Int) : counted (-1 :: path) = [] :=
  List.takeWhile_cons_of_neg (by simp)

theorem counted_eq {path : List Int} (h : ∀ v ∈ path, 0 ≤ v) : counted path = path :=
  List.takeWhile_eq_self_iff.mpr fun v hv => by
    have := h v hv
    simp only [ne_eq, decide_not, Bool.not_eq_true', decide_eq_false_iff_not]
    omega

variable {v : Int} {path : List Int}

omit [Add D] [Distances D] in
theorem Represents.predecessor (hrep : Represents tables s t) (hv : Indexable tables.nBuckets v)
    {x : D} {u : Int} (hlabel : t.labels v = some (x, some u)) :
    distanceMapGetPredecessor s.pDistances v = .ok u := by
  rw [hrep.getPredecessor hv, hlabel]
  rfl

theorem countPath_leads (hrep : Represents tables s t)
    (hleads : (network tables iStartId).Leads t v path)
    (hpath : ∀ u ∈ path, Indexable tables.nBuckets u) {fuel : Nat} (hfuel : path.length ≤ fuel)
    (n : Nat) : countPath s.pDistances iStartId fuel v n = .ok (n + (counted path).length) := by
  induction hleads generalizing fuel n with
  | start =>
    obtain ⟨fuel, rfl⟩ := Nat.exists_eq_add_of_le' hfuel
    change countPath s.pDistances iStartId (fuel + 1) iStartId n =
      .ok (n + (counted [iStartId]).length)
    rw [countPath]
    by_cases hend : iStartId = -1
    · rw [if_pos hend, hend, counted_cons_end]
      rfl
    · rw [if_neg hend, if_pos rfl, counted_cons hend]
      rfl
  | @step v u x path hv hlabel hleads ih =>
    obtain ⟨fuel, rfl⟩ := Nat.exists_eq_add_of_le' (Nat.one_le_of_lt hfuel)
    have hv' : v ≠ iStartId := hv
    rw [countPath]
    by_cases hend : v = -1
    · rw [if_pos hend, hend, counted_cons_end]
      rfl
    · rw [if_neg hend, if_neg hv', hrep.predecessor (hpath v List.mem_cons_self) hlabel,
        Except.ok_bind, counted_cons hend, List.length_cons,
        ih (fun w hw => hpath w (List.mem_cons_of_mem _ hw)) (Nat.le_of_succ_le_succ hfuel),
        Nat.add_assoc, Nat.add_comm 1]

theorem fillPath_leads (hrep : Represents tables s t)
    (hleads : (network tables iStartId).Leads t v path)
    (hpath : ∀ u ∈ path, Indexable tables.nBuckets u) (done : List Int) :
    fillPath s.pDistances iStartId (counted path).length v
      (List.replicate (counted path).length none ++ done.map some) =
        .ok (((counted path).reverse ++ done).map some) := by
  have hset : ∀ n (v : Int) (done : List Int), (List.replicate (n + 1) none ++ done.map some).set n
      (some v) = List.replicate n none ++ (v :: done).map some := by
    intro n v done
    rw [List.replicate_succ', List.append_assoc, List.singleton_append,
      List.set_append_right _ _ (List.length_replicate.le), List.length_replicate, Nat.sub_self]
    rfl
  induction hleads generalizing done with
  | start =>
    change fillPath s.pDistances iStartId (counted [iStartId]).length iStartId
      (List.replicate (counted [iStartId]).length none ++ done.map some) =
        .ok (((counted [iStartId]).reverse ++ done).map some)
    by_cases hend : iStartId = -1
    · rw [hend, counted_cons_end]
      rfl
    · rw [counted_cons hend, List.length_cons, fillPath, if_pos rfl, hset]
      rfl
  | @step v u x path hv hlabel hleads ih =>
    have hv' : v ≠ iStartId := hv
    by_cases hend : v = -1
    · rw [hend, counted_cons_end]
      rfl
    · rw [counted_cons hend, List.length_cons, fillPath, if_neg hv',
        hrep.predecessor (hpath v List.mem_cons_self) hlabel, Except.ok_bind, hset,
        ih (fun w hw => hpath w (List.mem_cons_of_mem _ hw)), List.reverse_cons, List.append_assoc,
        List.singleton_append]

end Path

section Result

variable {fuel : Nat} {path : List Int}

def Searched (tables : Tables D) (iStartId iEndId : Int) (fuel : Nat) (s : Search D) : Prop :=
  ∃ pMap, distanceMapSet (distanceMapCreate tables.nNodes) iStartId (0 : D) (-1) = .ok pMap ∧
    search tables iEndId fuel ⟨graphPriorityQueueInsert [] iStartId 0, pMap⟩ = .ok s

theorem Searched.mono (h : Searched tables iStartId iEndId fuel s) {m : Nat} (hle : fuel ≤ m) :
    Searched tables iStartId iEndId m s := by
  obtain ⟨pMap, hset, hsearch⟩ := h
  exact ⟨pMap, hset, search_mono hsearch hle⟩

theorem Kept.searched {Q : State Int D → Prop} (hQ : Kept tables iStartId Q)
    (hinit : Q (network tables iStartId).init) (hstart : Indexable tables.nBuckets iStartId)
    (h : Searched tables iStartId iEndId fuel s) :
    ∃ t rest, Q t ∧ Ended tables iEndId s t rest := by
  obtain ⟨pMap, hset, hsearch⟩ := h
  obtain ⟨pMap', hset', hrep⟩ := represents_init hstart
  obtain rfl := Except.ok.inj (hset.symm.trans hset')
  exact hQ.search hrep hinit hsearch

theorem Bucketed.searched (h : Bucketed tables iStartId)
    (hnot : ¬ (network tables iStartId).Improves) (iEndId : Int) :
    ∃ fuel s, Searched tables iStartId iEndId fuel s := by
  obtain ⟨pMap, hset, hrep⟩ := represents_init h.1
  obtain ⟨s, hs⟩ : ∃ s, search tables iEndId _ _ = .ok s :=
    Sane.init.search h hnot hrep (Nat.lt_succ_self _)
  exact ⟨_, s, pMap, hset, hs⟩

theorem Searched.all (h : Searched tables iStartId iEndId fuel s) (hend : iEndId < 0) :
    Fuel.Settles (fun fuel => graphDijkstra fuel tables iStartId iEndId)
      (.ok ⟨.ok, some "\x7b\x7d".toList, dblMax⟩) := by
  refine ⟨fuel, fun m hm => ?_⟩
  obtain ⟨pMap, hset, hsearch⟩ := h.mono hm
  change graphDijkstra m tables iStartId iEndId = _
  rw [graphDijkstra, hset, Except.ok_bind, hsearch, Except.ok_bind, if_neg (not_le.mpr hend)]

theorem Searched.notfound (h : Searched tables iStartId iEndId fuel s) (hend : 0 ≤ iEndId)
    (hrep : Represents tables s t) (hdist : ¬ (network tables iStartId).dist t iEndId < dblMax) :
    Fuel.Settles (fun fuel => graphDijkstra fuel tables iStartId iEndId)
      (.ok ⟨.notfound, none, dblMax⟩) := by
  refine ⟨fuel, fun m hm => ?_⟩
  obtain ⟨pMap, hset, hsearch⟩ := h.mono hm
  change graphDijkstra m tables iStartId iEndId = _
  rw [graphDijkstra, hset, Except.ok_bind, hsearch, Except.ok_bind, if_pos hend,
    hrep.get iStartId (.inl hend), Except.ok_bind, if_neg hdist]

theorem Searched.found (h : Searched tables iStartId iEndId fuel s) (hend : 0 ≤ iEndId)
    (hrep : Represents tables s t) (hdist : (network tables iStartId).dist t iEndId < dblMax)
    (hleads : (network tables iStartId).Leads t iEndId path)
    (hpath : ∀ u ∈ path, Indexable tables.nBuckets u) :
    Fuel.Settles (fun fuel => graphDijkstra fuel tables iStartId iEndId)
      (.ok ⟨.ok, some (pathText (counted path).reverse),
        (network tables iStartId).dist t iEndId⟩) := by
  refine ⟨max fuel path.length, fun m hm => ?_⟩
  obtain ⟨pMap, hset, hsearch⟩ := h.mono (le_of_max_le_left hm)
  have hfill := fillPath_leads hrep hleads hpath []
  rw [List.map_nil, List.append_nil, List.append_nil] at hfill
  change graphDijkstra m tables iStartId iEndId = _
  rw [graphDijkstra, hset, Except.ok_bind, hsearch, Except.ok_bind, if_pos hend,
    hrep.get iStartId (.inl hend), Except.ok_bind, if_pos hdist,
    countPath_leads hrep hleads hpath (le_of_max_le_right hm), Except.ok_bind, Nat.zero_add, hfill,
    Except.ok_bind, Except.mapM_ofOption_some, Except.ok_bind]

end Result

section Returns

variable {rest : Multiset (Int × D)}

def Returns (tables : Tables D) (iStartId iEndId : Int) : Prop :=
  ∃ r, Fuel.Settles (fun fuel => graphDijkstra fuel tables iStartId iEndId) (.ok r)

theorem Sane.indexable (h : Sane tables iStartId t) (hbucketed : Bucketed tables iStartId)
    {v u : Int} {path : List Int} (hleads : (network tables iStartId).Leads t v path)
    (hu : u ∈ path) : Indexable tables.nBuckets u :=
  hbucketed.indexable (h.sound.label u (hleads.label h.sound.start.1 hu))

theorem Searched.settles {fuel : Nat} (hsearched : Searched tables iStartId iEndId fuel s)
    (hbucketed : Bucketed tables iStartId) (h : Sane tables iStartId t)
    (hended : Ended tables iEndId s t rest) : Returns tables iStartId iEndId := by
  have hrep := hended.represents
  by_cases hend : 0 ≤ iEndId
  case neg => exact ⟨_, hsearched.all (not_le.mp hend)⟩
  by_cases hdist : (network tables iStartId).dist t iEndId < dblMax
  · obtain ⟨path, hleads⟩ := h.rooted.leads iEndId (Relaxation.label_ne_none hdist)
    exact ⟨_, hsearched.found hend hrep hdist (hleads.congr fun _ _ => rfl)
      fun u hu => h.indexable hbucketed hleads hu⟩
  · exact ⟨_, hsearched.notfound hend hrep hdist⟩

theorem Bucketed.returns (h : Bucketed tables iStartId)
    (hnot : ¬ (network tables iStartId).Improves) (iEndId : Int) :
    Returns tables iStartId iEndId := by
  obtain ⟨fuel, s, hsearched⟩ := h.searched hnot iEndId
  obtain ⟨t, rest, hsane, hended⟩ := (kept_sane hnot).searched .init h.1 hsearched
  exact hsearched.settles h hsane hended

/-- A finite double, as a multiple of 2⁻¹⁰⁷⁴. -/
structure Double where
  units : Int

instance : LinearOrder Double := LinearOrder.lift' Double.units fun ⟨_⟩ ⟨_⟩ h => congrArg _ h

instance : Zero Double := ⟨⟨0⟩⟩

instance : Add Double := ⟨fun x y => ⟨Significand.round 53 (x.units + y.units)⟩⟩

instance : Distances Double where
  dblMax := ⟨Int.ofNat (Nat.shiftLeft 9007199254740991 2045)⟩
  dblMax_pos := by decide +kernel
  add_le_add w h := Significand.round_mono (by decide) (Int.add_le_add_right h w.units)

def Double.one : Double := ⟨Int.ofNat (Nat.shiftLeft 1 1074)⟩

def Double.halfUlp : Double := ⟨Int.ofNat (Nat.shiftLeft 1 1021)⟩

/-- A cycle of weight zero that rounding makes smaller. -/
def roundedEdges : List (Edge Double) :=
  [⟨1, 2, Double.one⟩, ⟨2, 3, Double.halfUlp⟩, ⟨3, 2, ⟨-Double.halfUlp.units⟩⟩]

example : (network ⟨3, some roundedEdges⟩ 1).Improves := by
  have hreached : (network ⟨3, some roundedEdges⟩ 1).Reached 2 (0 + Double.one) :=
    Relaxation.Goes.move (e := (2, Double.one)) .refl (by decide +kernel) (by decide +kernel)
  refine ⟨2, 0 + Double.one, 0 + Double.one + Double.halfUlp + ⟨-Double.halfUlp.units⟩,
    hreached, ?_, by decide +kernel⟩
  exact Relaxation.Goes.move (e := (2, ⟨-Double.halfUlp.units⟩))
    (Relaxation.Goes.move (e := (3, Double.halfUlp)) .refl (by decide +kernel) (by decide +kernel))
    (by decide +kernel) (by decide +kernel)

end Returns

end SqliteMultimodal.Graph.Dijkstra
