import Mathlib.Logic.Relation
import SqliteMultimodal.Vec.Hnsw.Shape

namespace SqliteMultimodal.Vec.Hnsw

variable {α : Type}

/-- Node `j` is among the neighbours of node `i` at level `0`. -/
def Link (nodes : List (HNSWNode α)) (i j : Nat) : Prop :=
  ∃ n, nodes[i]? = some n ∧ j ∈ n.nborsAt 0

def AllReached (h : HNSW α) : Prop :=
  ∀ e, h.entryId = some e → ∀ i < h.nodes.length, Relation.ReflTransGen (Link h.nodes) e i

variable [LinearOrder α] (distfunc : List α → List α → α) (randomLevel : Nat → Nat)

def addAll (h : HNSW α) (inserts : List (Int32 × List α)) : HNSW α :=
  inserts.foldl (fun h x => (hnswAdd distfunc randomLevel h x.2 x.1).1) h

section Nearest

variable (inserts : List (Int32 × List α))

/-- The vector that is added as the `i`-th. -/
def vecAt (i : Nat) : List α := (inserts[i]?.map Prod.snd).getD []

/-- The earlier vectors, by their distance from the `i`-th. -/
def earlier (i : Nat) : List Nat :=
  (Sorting.exchangeSort Prod.snd ((List.range i).map fun j =>
    (j, distfunc (vecAt inserts i) (vecAt inserts j)))).map Prod.fst

/-- Up to sixteen earlier vectors that are nearest to the `i`-th. -/
def nearest (i : Nat) : List Nat := (earlier distfunc inserts i).take maxNeighbors

theorem earlier_perm (i : Nat) : (earlier distfunc inserts i).Perm (List.range i) := by
  refine ((Sorting.exchangeSort_perm Prod.snd _).map Prod.fst).trans ?_
  rw [List.map_map]
  exact .of_eq (List.map_id _)

theorem length_nearest (i : Nat) : (nearest distfunc inserts i).length = min maxNeighbors i := by
  rw [nearest, List.length_take, (earlier_perm distfunc inserts i).length_eq, List.length_range]

variable {inserts} in
theorem lt_of_mem_nearest {i j : Nat} (h : j ∈ nearest distfunc inserts i) : j < i :=
  List.mem_range.mp ((earlier_perm distfunc inserts i).mem_iff.mp (List.mem_of_mem_take h))

variable {inserts} in
theorem mem_nearest_of_le {i j : Nat} (hi : i ≤ maxNeighbors) :
    j ∈ nearest distfunc inserts i ↔ j < i := by
  have hlen := (earlier_perm distfunc inserts i).length_eq
  rw [List.length_range] at hlen
  rw [nearest, List.take_of_length_le (hlen.trans_le hi), (earlier_perm distfunc inserts i).mem_iff,
    List.mem_range]

end Nearest

/-- The node at place `i` once `n` nodes have been added. -/
structure GrownNode (inserts : List (Int32 × List α)) (n i : Nat) (nd : HNSWNode α) : Prop where
  vec : nd.vec = vecAt inserts i
  deleted : nd.deleted = false
  level : nd.level = randomLevel i
  levels : nd.nbors.length = maxLevels
  early : i ≤ maxNeighbors → (nd.nborsAt 0).length + 1 = min n (maxNeighbors + 1) ∧
    ∀ j, j ∈ nd.nborsAt 0 ↔ j < min n (maxNeighbors + 1) ∧ j ≠ i
  late : maxNeighbors < i → nd.nborsAt 0 = nearest distfunc inserts i

structure Grown (inserts : List (Int32 × List α)) (n : Nat) (nodes : List (HNSWNode α)) :
    Prop where
  length : nodes.length = n
  node : ∀ i nd, nodes[i]? = some nd → GrownNode distfunc randomLevel inserts n i nd

variable {inserts : List (Int32 × List α)} {n : Nat} {nodes : List (HNSWNode α)}

theorem Grown.chosen (h : Grown distfunc randomLevel inserts n nodes) :
    chosen distfunc nodes nodes.length (vecAt inserts n) 0 = nearest distfunc inserts n := by
  have hfilter : nodes.zipIdx.filter (fun x => !x.1.deleted && (0 : Nat) ≤ x.1.level &&
      x.2 ≠ nodes.length) = nodes.zipIdx := by
    rw [List.filter_eq_self]
    intro x hx
    have hget := List.mem_zipIdx_iff_getElem?.mp hx
    have hlt := (List.getElem?_eq_some_iff.mp hget).1
    simp [(h.node x.2 x.1 hget).deleted, Nat.ne_of_lt hlt]
  have hmap : nodes.zipIdx.map (fun x => (x.2, distfunc (vecAt inserts n) x.1.vec)) =
      (List.range n).map fun j => (j, distfunc (vecAt inserts n) (vecAt inserts j)) := by
    apply List.ext_getElem?
    intro i
    rw [List.getElem?_map, List.getElem?_map, List.getElem?_zipIdx, Nat.zero_add]
    cases hi : nodes[i]? with
    | none =>
      rw [List.getElem?_eq_none (by rw [List.length_range, ← h.length]; exact
        List.getElem?_eq_none_iff.mp hi)]
      rfl
    | some nd =>
      rw [List.getElem?_range (h.length ▸ (List.getElem?_eq_some_iff.mp hi).1)]
      simp [(h.node i nd hi).vec]
  rw [Hnsw.chosen, candidates, hfilter, hmap]
  rfl

theorem GrownNode.linked_old (h : Grown distfunc randomLevel inserts n nodes) {i : Nat}
    {nd : HNSWNode α} (hi : i < nodes.length)
    (hnd : GrownNode distfunc randomLevel inserts n i nd) :
    GrownNode distfunc randomLevel inserts (n + 1) i
      (linked distfunc nodes (vecAt inserts n) (randomLevel n) i nd) := by
  have hkept := kept_linked distfunc nodes (vecAt inserts n) (randomLevel n) i nd
  have hl : 0 < nd.nbors.length := hnd.levels ▸ Nat.zero_lt_succ 7
  have hin : i < n := h.length ▸ hi
  refine ⟨hkept.vec.trans hnd.vec, hkept.deleted.trans hnd.deleted, hkept.level.trans hnd.level,
    hkept.levels.trans hnd.levels, fun hle => ?_, fun hlt => ?_⟩
  · obtain ⟨hlen, hmem⟩ := hnd.early hle
    rcases Nat.lt_or_ge maxNeighbors n with hn | hn
    · rw [nborsAt_linked_full distfunc hi hl (by omega)]
      rw [Nat.min_eq_right (by omega)] at hlen hmem ⊢
      exact ⟨hlen, hmem⟩
    · have hchosen : i ∈ chosen distfunc nodes nodes.length (vecAt inserts n) 0 := by
        rw [h.chosen]
        exact (mem_nearest_of_le distfunc hn).mpr hin
      rw [nborsAt_linked_room distfunc hi hl (by omega) (Nat.zero_le _) hchosen, h.length]
      rw [Nat.min_eq_left (by omega)] at hlen hmem ⊢
      refine ⟨by rw [List.length_append, List.length_singleton, hlen], fun j => ?_⟩
      rw [List.mem_append, hmem, List.mem_singleton]
      omega
  · have hfull : maxNeighbors ≤ (nd.nborsAt 0).length := by
      rw [hnd.late hlt, length_nearest]
      omega
    rw [nborsAt_linked_full distfunc hi hl hfull, hnd.late hlt]

theorem GrownNode.linked_new (h : Grown distfunc randomLevel inserts n nodes) (rowid : Int32) :
    GrownNode distfunc randomLevel inserts (n + 1) n (linked distfunc nodes (vecAt inserts n)
      (randomLevel n) nodes.length (nodeCreate rowid (vecAt inserts n) (randomLevel n))) := by
  have hkept := kept_linked distfunc nodes (vecAt inserts n) (randomLevel n) nodes.length
    (nodeCreate rowid (vecAt inserts n) (randomLevel n))
  have hnbors : (linked distfunc nodes (vecAt inserts n) (randomLevel n) nodes.length
      (nodeCreate rowid (vecAt inserts n) (randomLevel n))).nborsAt 0 =
        nearest distfunc inserts n := by
    rw [nborsAt_linked_new distfunc rowid (Nat.zero_lt_succ 7), if_pos (Nat.zero_le _), h.chosen]
  refine ⟨hkept.vec, hkept.deleted, hkept.level, hkept.levels.trans List.length_replicate,
    fun hle => ?_, fun _ => hnbors⟩
  rw [hnbors, length_nearest, Nat.min_eq_right hle, Nat.min_eq_left (by omega)]
  refine ⟨rfl, fun j => ?_⟩
  rw [mem_nearest_of_le distfunc hle]
  omega

theorem Grown.added (h : Grown distfunc randomLevel inserts n nodes) (rowid : Int32) :
    Grown distfunc randomLevel inserts (n + 1)
      (added distfunc rowid (vecAt inserts n) (randomLevel n) nodes) where
  length := by rw [length_added, h.length]
  node i nd hnd := by
    obtain ⟨old, hold, rfl⟩ | ⟨rfl, rfl⟩ := added_cases distfunc rowid _ _ hnd
    · exact (h.node i old hold).linked_old distfunc randomLevel h
        (List.getElem?_eq_some_iff.mp hold).1
    · obtain rfl := h.length
      exact .linked_new distfunc randomLevel h rowid

theorem grown_addAll {maxNodes k : Nat} (hrandom : ∀ i, randomLevel i < maxLevels)
    (hk : k ≤ inserts.length) (hroom : inserts.length ≤ maxNodes) :
    Wf (addAll distfunc randomLevel (hnswCreate maxNodes) (inserts.take k)) ∧
      (addAll distfunc randomLevel (hnswCreate maxNodes) (inserts.take k)).maxNodes = maxNodes ∧
      Grown distfunc randomLevel inserts k
        (addAll distfunc randomLevel (hnswCreate maxNodes) (inserts.take k)).nodes := by
  induction k with
  | zero => exact ⟨wf_hnswCreate maxNodes, rfl, rfl, fun i nd hnd => by simp [addAll, hnswCreate] at hnd⟩
  | succ k ih =>
    obtain ⟨hwf, hmax, hgrown⟩ := ih (by omega)
    have htake : addAll distfunc randomLevel (hnswCreate maxNodes) (inserts.take (k + 1)) =
        (hnswAdd distfunc randomLevel
          (addAll distfunc randomLevel (hnswCreate maxNodes) (inserts.take k))
          (vecAt inserts k) inserts[k].1).1 := by
      rw [addAll, List.take_add_one, List.getElem?_eq_getElem hk, List.foldl_append, vecAt,
        List.getElem?_eq_getElem hk]
      rfl
    generalize addAll distfunc randomLevel (hnswCreate maxNodes) (inserts.take k) = h at *
    have hnodes := hnswAdd_nodes distfunc randomLevel (h := h) (by rw [hgrown.length, hmax]; omega)
      hwf.none (vecAt inserts k) inserts[k].1
    rw [htake, hnodes, maxNodes_hnswAdd, hgrown.length]
    exact ⟨hwf.hnswAdd distfunc hrandom _ _, hmax, hgrown.added distfunc randomLevel _⟩

def LaterLinked (distfunc : List α → List α → α) (inserts : List (Int32 × List α)) (n : Nat) :
    Prop :=
  ∀ i, maxNeighbors < i → i + 1 < n → ∃ j, i < j ∧ j < n ∧ i ∈ nearest distfunc inserts j

section Links

variable {distfunc randomLevel} (h : Grown distfunc randomLevel inserts n nodes)

include h

theorem Grown.link_early {i j : Nat} (hi : i < n) (hi' : i ≤ maxNeighbors) :
    Link nodes i j ↔ j < min n (maxNeighbors + 1) ∧ j ≠ i := by
  have hget := List.getElem?_eq_getElem (h.length.symm ▸ hi : i < nodes.length)
  rw [← ((h.node i _ hget).early hi').2 j, Link, hget]
  simp

theorem Grown.link_late {i j : Nat} (hi : i < n) (hi' : maxNeighbors < i) :
    Link nodes i j ↔ j ∈ nearest distfunc inserts i := by
  have hget := List.getElem?_eq_getElem (h.length.symm ▸ hi : i < nodes.length)
  rw [← (h.node i _ hget).late hi', Link, hget]
  simp

theorem Grown.lt_of_link {i j : Nat} (hij : Link nodes i j) : i < n ∧ j < n := by
  obtain ⟨nd, hnd, -⟩ := id hij
  have hi : i < n := h.length ▸ (List.getElem?_eq_some_iff.mp hnd).1
  rcases Nat.lt_or_ge maxNeighbors i with hlt | hge
  · have := lt_of_mem_nearest distfunc ((h.link_late hi hlt).mp hij)
    exact ⟨hi, by omega⟩
  · have := (h.link_early hi hge).mp hij
    exact ⟨hi, by omega⟩

theorem Grown.reach_le {e j : Nat} (hreach : Relation.ReflTransGen (Link nodes) e j) :
    j ≤ e ∨ j ≤ maxNeighbors := by
  induction hreach with
  | refl => exact .inl (Nat.le_refl e)
  | @tail i j _ hij ih =>
    have hi := (h.lt_of_link hij).1
    rcases Nat.lt_or_ge maxNeighbors i with hlt | hge
    · have := lt_of_mem_nearest distfunc ((h.link_late hi hlt).mp hij)
      omega
    · have := (h.link_early hi hge).mp hij
      omega

theorem Grown.reach_early {i j : Nat} (hi : i < n) (hi' : i ≤ maxNeighbors) (hj : j < n)
    (hj' : j ≤ maxNeighbors) : Relation.ReflTransGen (Link nodes) i j := by
  by_cases hij : j = i
  · exact hij ▸ .refl
  · exact .single ((h.link_early hi hi').mpr ⟨by omega, hij⟩)

theorem Grown.reach_all (hn : maxNeighbors + 1 < n) (hlater : LaterLinked distfunc inserts n)
    {i : Nat} (hi : i < n) : Relation.ReflTransGen (Link nodes) (n - 1) i := by
  have hlate : ∀ k, maxNeighbors < n - 1 - k →
      Relation.ReflTransGen (Link nodes) (n - 1) (n - 1 - k) := by
    intro k
    induction k using Nat.strongRecOn with
    | ind k ih =>
      intro hk
      rcases Nat.eq_zero_or_pos k with rfl | hpos
      · exact .refl
      · obtain ⟨j, hlt, hj, hmem⟩ := hlater _ hk (by omega)
        have hreach := ih (n - 1 - j) (by omega) (by omega)
        rw [show n - 1 - (n - 1 - j) = j by omega] at hreach
        exact hreach.tail ((h.link_late hj (by omega)).mpr hmem)
  rcases Nat.lt_or_ge maxNeighbors i with hlt | hge
  · have hreach := hlate (n - 1 - i) (by omega)
    rwa [show n - 1 - (n - 1 - i) = i by omega] at hreach
  · have hfirst := hlate (n - 1 - (maxNeighbors + 1)) (by omega)
    rw [show n - 1 - (n - 1 - (maxNeighbors + 1)) = maxNeighbors + 1 by omega] at hfirst
    have hpos : 0 < (nearest distfunc inserts (maxNeighbors + 1)).length := by
      rw [length_nearest]
      decide
    obtain ⟨k, hk⟩ := List.exists_mem_of_length_pos hpos
    have hklt := lt_of_mem_nearest distfunc hk
    exact (hfirst.tail ((h.link_late hn (Nat.lt_succ_self _)).mpr hk)).trans
      (h.reach_early (by omega) (by omega) hi hge)

end Links

/-- Every node can be reached exactly if there are at most seventeen, or if the last one is above
all others and each node between is among the nearest of a later one. -/
theorem allReached_iff {maxNodes : Nat} (hrandom : ∀ i, randomLevel i < maxLevels)
    (hroom : inserts.length ≤ maxNodes) :
    AllReached (addAll distfunc randomLevel (hnswCreate maxNodes) inserts) ↔
      inserts.length ≤ maxNeighbors + 1 ∨
        (∀ i, i + 1 < inserts.length → randomLevel i < randomLevel (inserts.length - 1)) ∧
          LaterLinked distfunc inserts inserts.length := by
  obtain ⟨hwf, -, hgrown⟩ := grown_addAll distfunc randomLevel hrandom (Nat.le_refl _) hroom
  rw [List.take_length] at hwf hgrown
  generalize addAll distfunc randomLevel (hnswCreate maxNodes) inserts = h at *
  have hlevel : ∀ i, ∀ hi : i < inserts.length, ∃ nd, h.nodes[i]? = some nd ∧
      nd.level = randomLevel i := fun i hi => by
    have hget := List.getElem?_eq_getElem (hgrown.length.symm ▸ hi : i < h.nodes.length)
    exact ⟨_, hget, (hgrown.node i _ hget).level⟩
  constructor
  · intro hall
    rcases Nat.lt_or_ge (maxNeighbors + 1) inserts.length with hn | hn
    · obtain ⟨last, hlast, hlastLevel⟩ := hlevel (inserts.length - 1) (by omega)
      obtain ⟨e, he⟩ : ∃ e, h.entryId = some e := by
        cases he : h.entryId with
        | none =>
          rw [hwf.none he] at hlast
          simp at hlast
        | some e => exact ⟨e, rfl⟩
      have hentry := hwf.some e he
      obtain ⟨top, htop, hmax⟩ := hentry.at_entry
      have he' : e < inserts.length := hgrown.length ▸ (List.getElem?_eq_some_iff.mp htop).1
      have hreach := fun i hi => hall e he i (hgrown.length.symm ▸ hi)
      obtain rfl : e = inserts.length - 1 := by
        have := hgrown.reach_le (hreach (inserts.length - 1) (by omega))
        omega
      refine .inr ⟨fun i hi => ?_, fun i hi hin => ?_⟩
      · obtain ⟨nd, hnd, hndLevel⟩ := hlevel i (by omega)
        rw [hlast] at htop
        obtain rfl := Option.some.inj htop
        rw [← hndLevel, ← hlastLevel, hmax]
        exact hentry.lt i (by omega) nd hnd
      · obtain heq | ⟨j, -, hji⟩ := Relation.ReflTransGen.cases_tail (hreach i (by omega))
        · omega
        · have hj := (hgrown.lt_of_link hji).1
          rcases Nat.lt_or_ge maxNeighbors j with hlt | hge
          · have hmem := (hgrown.link_late hj hlt).mp hji
            exact ⟨j, lt_of_mem_nearest distfunc hmem, hj, hmem⟩
          · have := (hgrown.link_early hj hge).mp hji
            omega
    · exact .inl hn
  · intro hcond e he i hi
    rw [hgrown.length] at hi
    have hentry := hwf.some e he
    obtain ⟨top, htop, hmax⟩ := hentry.at_entry
    have he' : e < inserts.length := hgrown.length ▸ (List.getElem?_eq_some_iff.mp htop).1
    rcases Nat.lt_or_ge (maxNeighbors + 1) inserts.length with hn | hn
    · obtain ⟨hhigh, hlater⟩ := hcond.resolve_left (Nat.not_le.mpr hn)
      obtain rfl : e = inserts.length - 1 := by
        by_contra hne
        obtain ⟨last, hlast, hlastLevel⟩ := hlevel (inserts.length - 1) (by omega)
        have hle := hentry.le last (List.mem_of_getElem? hlast)
        have hlt := hhigh e (by omega)
        rw [hlastLevel, ← hmax, (hgrown.node e top htop).level] at hle
        omega
      exact hgrown.reach_all hn hlater hi
    · exact hgrown.reach_early he' (by omega) hi (by omega)

section Sample

def lineInserts : List (Int32 × List ℤ) :=
  (List.range 18).map fun i => (Int32.ofNat (i + 1), [(i : ℤ)])

theorem lineInserts_allReached :
    AllReached (addAll lineDist (fun i => if i = 17 then 1 else 0) (hnswCreate 4096)
      lineInserts) := by
  refine (allReached_iff lineDist _ (fun i => ?_) (by decide)).mpr
    (.inr ⟨fun i hi => ?_, fun i hi hin => ?_⟩)
  · split <;> decide
  · have hlt : i + 1 < 18 := hi
    rw [if_neg (by omega)]
    decide
  · have hlt : i + 1 < 18 := hin
    have hlt' : 16 < i := hi
    omega

theorem lineInserts_not_allReached :
    ¬ AllReached (addAll lineDist (fun _ => 0) (hnswCreate 4096) lineInserts) := by
  intro hall
  have hentry : (addAll lineDist (fun _ => 0) (hnswCreate 4096) lineInserts).entryId = some 0 := by
    decide +kernel
  have hlen : 17 < (addAll lineDist (fun _ => 0) (hnswCreate 4096) lineInserts).nodes.length := by
    decide +kernel
  have hnone : ∀ n ∈ (addAll lineDist (fun _ => 0) (hnswCreate 4096) lineInserts).nodes,
      17 ∉ n.nborsAt 0 := by
    decide +kernel
  obtain heq | ⟨j, -, n, hn, hmem⟩ := Relation.ReflTransGen.cases_tail (hall 0 hentry 17 hlen)
  · omega
  · exact hnone n (List.mem_of_getElem? hn) hmem

end Sample

end SqliteMultimodal.Vec.Hnsw
