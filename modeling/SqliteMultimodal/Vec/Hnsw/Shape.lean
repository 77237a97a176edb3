import SqliteMultimodal.Vec.Hnsw.Links

namespace SqliteMultimodal.Vec.Hnsw

variable {α : Type}

/-- A list of neighbours at level `l` of the node at place `i`. -/
structure NborsWf (nodes : List (HNSWNode α)) (i l : Nat) (nbors : List Nat) : Prop where
  length_le : nbors.length ≤ maxNeighbors
  nodup : nbors.Nodup
  ne : ∀ j ∈ nbors, j ≠ i
  level : ∀ j ∈ nbors, ∃ m, nodes[j]? = some m ∧ l ≤ m.level

structure NodeWf (nodes : List (HNSWNode α)) (i : Nat) (n : HNSWNode α) : Prop where
  levels : n.nbors.length = maxLevels
  level_lt : n.level < maxLevels
  above : ∀ l, n.level < l → n.nborsAt l = []
  nbors : ∀ l, NborsWf nodes i l (n.nborsAt l)

structure IsEntry (nodes : List (HNSWNode α)) (entryId maxLevel : Nat) : Prop where
  at_entry : ∃ n, nodes[entryId]? = some n ∧ n.level = maxLevel
  le : ∀ n ∈ nodes, n.level ≤ maxLevel
  lt : ∀ i < entryId, ∀ n, nodes[i]? = some n → n.level < maxLevel

structure Wf (h : HNSW α) : Prop where
  nodes : ∀ i n, h.nodes[i]? = some n → NodeWf h.nodes i n
  length_le : h.nodes.length ≤ h.maxNodes
  none : h.entryId = none → h.nodes = []
  some : ∀ entryId, h.entryId = some entryId → IsEntry h.nodes entryId h.maxLevel

theorem wf_hnswCreate (maxNodes : Nat) : Wf (hnswCreate maxNodes : HNSW α) where
  nodes i n h := by simp [hnswCreate] at h
  length_le := Nat.zero_le _
  none _ := rfl
  some entryId h := by simp [hnswCreate] at h

/-- Nodes of `nodes'` that stand where those of `nodes` do, at the same levels. -/
def SameLevels (nodes nodes' : List (HNSWNode α)) : Prop :=
  ∀ (i : Nat) n, nodes[i]? = Option.some n → ∃ n', nodes'[i]? = Option.some n' ∧ n'.level = n.level

theorem NborsWf.of_sameLevels {nodes nodes' : List (HNSWNode α)} (h : SameLevels nodes nodes')
    {i l : Nat} {nbors : List Nat} (hwf : NborsWf nodes i l nbors) : NborsWf nodes' i l nbors where
  length_le := hwf.length_le
  nodup := hwf.nodup
  ne := hwf.ne
  level j hj := by
    obtain ⟨m, hm, hlevel⟩ := hwf.level j hj
    obtain ⟨m', hm', heq⟩ := h j m hm
    exact ⟨m', hm', heq ▸ hlevel⟩

theorem IsEntry.of_sameLevels {nodes nodes' : List (HNSWNode α)} (h : SameLevels nodes nodes')
    (h' : SameLevels nodes' nodes) {entryId maxLevel : Nat}
    (hentry : IsEntry nodes entryId maxLevel) :
    IsEntry nodes' entryId maxLevel where
  at_entry := by
    obtain ⟨n, hn, hlevel⟩ := hentry.at_entry
    obtain ⟨n', hn', heq⟩ := h entryId n hn
    exact ⟨n', hn', heq.trans hlevel⟩
  le n' hn' := by
    obtain ⟨i, hi⟩ := List.mem_iff_getElem?.mp hn'
    obtain ⟨n, hn, heq⟩ := h' i n' hi
    exact heq ▸ hentry.le n (List.mem_of_getElem? hn)
  lt i hi n' hn' := by
    obtain ⟨n, hn, heq⟩ := h' i n' hn'
    exact heq ▸ hentry.lt i hi n hn

section Modify

variable {nodes : List (HNSWNode α)} {g : HNSWNode α → HNSWNode α}
  (hlevel : ∀ n, (g n).level = n.level) (hnbors : ∀ n, (g n).nbors = n.nbors) (k : Nat)

include hlevel

theorem sameLevels_modify : SameLevels nodes (nodes.modify k g) := by
  intro i n hn
  refine ⟨_, by rw [List.getElem?_modify, hn]; rfl, ?_⟩
  split
  · exact hlevel n
  · rfl

theorem sameLevels_of_modify : SameLevels (nodes.modify k g) nodes := by
  intro i n' hn'
  rw [List.getElem?_modify, Option.map_eq_map, Option.map_eq_some_iff] at hn'
  obtain ⟨n, hn, rfl⟩ := hn'
  refine ⟨n, hn, ?_⟩
  split
  · exact (hlevel n).symm
  · rfl

omit hlevel in
theorem NodeWf.of_sameLevels {nodes nodes' : List (HNSWNode α)} (h : SameLevels nodes nodes')
    {i : Nat} {n : HNSWNode α} (hwf : NodeWf nodes i n) : NodeWf nodes' i n :=
  ⟨hwf.levels, hwf.level_lt, hwf.above, fun l => (hwf.nbors l).of_sameLevels h⟩

include hnbors

theorem NodeWf.map {nodes : List (HNSWNode α)} {i : Nat} {n : HNSWNode α}
    (h : NodeWf nodes i n) : NodeWf nodes i (g n) := by
  have hat : (g n).nborsAt = n.nborsAt := by
    funext l
    rw [HNSWNode.nborsAt, hnbors, HNSWNode.nborsAt]
  refine ⟨hnbors n ▸ h.levels, hlevel n ▸ h.level_lt, fun l hl => ?_, fun l => ?_⟩
  · rw [hlevel] at hl
    rw [hat, h.above l hl]
  · rw [hat]
    exact h.nbors l

theorem Wf.modify {h : HNSW α} (hwf : Wf h) : Wf { h with nodes := h.nodes.modify k g } where
  nodes i n' hn' := by
    rw [List.getElem?_modify, Option.map_eq_map, Option.map_eq_some_iff] at hn'
    obtain ⟨n, hn, rfl⟩ := hn'
    have hnode := (hwf.nodes i n hn).of_sameLevels (sameLevels_modify hlevel k)
    split
    · exact hnode.map hlevel hnbors
    · exact hnode
  length_le := by
    rw [List.length_modify]
    exact hwf.length_le
  none hnone := by
    dsimp only at hnone ⊢
    rw [hwf.none hnone]
    cases k <;> rfl
  some entryId hsome :=
    (hwf.some entryId hsome).of_sameLevels (sameLevels_modify hlevel k)
      (sameLevels_of_modify hlevel k)

omit hlevel hnbors in
theorem Wf.mark {h : HNSW α} (hwf : Wf h) :
    Wf { h with nodes := h.nodes.modify k HNSWNode.mark } :=
  hwf.modify (g := HNSWNode.mark) (fun _ => rfl) (fun _ => rfl) k

end Modify

section Add

theorem NborsWf.nil (nodes : List (HNSWNode α)) (i l : Nat) : NborsWf nodes i l [] where
  length_le := Nat.zero_le _
  nodup := .nil
  ne j hj := by simp at hj
  level j hj := by simp at hj

theorem NborsWf.addLink {nodes : List (HNSWNode α)} {i l id : Nat} {nbors : List Nat}
    (hwf : NborsWf nodes i l nbors) (hnew : id ∉ nbors) (hne : id ≠ i)
    (hlevel : ∃ m, nodes[id]? = Option.some m ∧ l ≤ m.level) :
    NborsWf nodes i l (addLink nbors id) := by
  unfold Hnsw.addLink
  split
  next hroom =>
    refine ⟨?_, ?_, fun j hj => ?_, fun j hj => ?_⟩
    · rw [List.length_append, List.length_singleton]
      omega
    · exact List.nodup_append.mpr ⟨hwf.nodup, List.nodup_singleton id, fun a ha b hb hab =>
        hnew (List.mem_singleton.mp hb ▸ hab ▸ ha)⟩
    · obtain hj | hj := List.mem_append.mp hj
      · exact hwf.ne j hj
      · exact List.mem_singleton.mp hj ▸ hne
    · obtain hj | hj := List.mem_append.mp hj
      · exact hwf.level j hj
      · exact List.mem_singleton.mp hj ▸ hlevel
  next => exact hwf

theorem nborsAt_of_le {n : HNSWNode α} {l : Nat} (h : n.nbors.length ≤ l) : n.nborsAt l = [] := by
  rw [HNSWNode.nborsAt, List.getD_eq_getElem?_getD, List.getElem?_eq_none h, Option.getD_none]

variable [LinearOrder α] (distfunc : List α → List α → α)

section Nodes

variable {nodes : List (HNSWNode α)} (rowid : Int32) (vec : List α) (level : Nat)

theorem getElem?_added_old {i : Nat} {n : HNSWNode α} (hn : nodes[i]? = Option.some n) :
    (added distfunc rowid vec level nodes)[i]? = some (linked distfunc nodes vec level i n) := by
  have hi := (List.getElem?_eq_some_iff.mp hn).1
  rw [added, List.getElem?_mapIdx, List.getElem?_append_left hi, hn]
  rfl

variable (nodes) in
theorem getElem?_added_new : (added distfunc rowid vec level nodes)[nodes.length]? =
    some (linked distfunc nodes vec level nodes.length (nodeCreate rowid vec level)) := by
  rw [added, List.getElem?_mapIdx, List.getElem?_concat_length]
  rfl

theorem length_added : (added distfunc rowid vec level nodes).length = nodes.length + 1 := by
  rw [added, List.length_mapIdx, List.length_append, List.length_singleton]

theorem added_cases {i : Nat} {n' : HNSWNode α}
    (h : (added distfunc rowid vec level nodes)[i]? = some n') :
    (∃ n, nodes[i]? = some n ∧ n' = linked distfunc nodes vec level i n) ∨
      i = nodes.length ∧
        n' = linked distfunc nodes vec level nodes.length (nodeCreate rowid vec level) := by
  have hlt := (List.getElem?_eq_some_iff.mp h).1
  rw [length_added] at hlt
  rcases Nat.lt_succ_iff_lt_or_eq.mp hlt with hi | rfl
  · have hn := List.getElem?_eq_getElem hi
    rw [getElem?_added_old distfunc rowid vec level hn] at h
    exact .inl ⟨_, hn, (Option.some.inj h).symm⟩
  · rw [getElem?_added_new] at h
    exact .inr ⟨rfl, (Option.some.inj h).symm⟩

variable (nodes) in
theorem sameLevels_added : SameLevels nodes (added distfunc rowid vec level nodes) :=
  fun i n hn => ⟨_, getElem?_added_old distfunc rowid vec level hn,
    (kept_linked distfunc nodes vec level i n).level⟩

variable (nodes) in
theorem level_added_new : ∃ m, (added distfunc rowid vec level nodes)[nodes.length]? = some m ∧
    m.level = level :=
  ⟨_, getElem?_added_new distfunc nodes rowid vec level, (kept_linked ..).level⟩

theorem NodeWf.linked_old {i : Nat} {n : HNSWNode α} (hn : nodes[i]? = Option.some n)
    (hwf : NodeWf nodes i n) :
    NodeWf (added distfunc rowid vec level nodes) i (linked distfunc nodes vec level i n) := by
  have hkept := kept_linked distfunc nodes vec level i n
  have hi := (List.getElem?_eq_some_iff.mp hn).1
  have hsame := sameLevels_added distfunc nodes rowid vec level
  refine ⟨hkept.levels.trans hwf.levels, hkept.level ▸ hwf.level_lt, fun l hl => ?_, fun l => ?_⟩
  · rw [hkept.level] at hl
    rcases Nat.lt_or_ge l n.nbors.length with hlt | hge
    · rw [nborsAt_linked_old distfunc hi hlt, if_neg, hwf.above l hl]
      rintro ⟨-, hmem⟩
      obtain ⟨-, m, hm, -, hle⟩ := mem_chosen distfunc hmem
      rw [hn] at hm
      obtain rfl := Option.some.inj hm
      omega
    · exact nborsAt_of_le (hkept.levels ▸ hge)
  · rcases Nat.lt_or_ge l n.nbors.length with hlt | hge
    · rw [nborsAt_linked_old distfunc hi hlt]
      have hold := (hwf.nbors l).of_sameLevels hsame
      split
      next hmem =>
        refine hold.addLink (fun hid => ?_) (Nat.ne_of_gt hi) ?_
        · obtain ⟨m, hm, -⟩ := (hwf.nbors l).level _ hid
          exact Nat.lt_irrefl _ (List.getElem?_eq_some_iff.mp hm).1
        · obtain ⟨m, hm, hlevel⟩ := level_added_new distfunc nodes rowid vec level
          exact ⟨m, hm, hlevel ▸ hmem.1⟩
      next => exact hold
    · rw [nborsAt_of_le (hkept.levels ▸ hge)]
      exact .nil ..

theorem NodeWf.linked_new (hlevel : level < maxLevels) :
    NodeWf (added distfunc rowid vec level nodes) nodes.length
      (linked distfunc nodes vec level nodes.length (nodeCreate rowid vec level)) := by
  have hkept := kept_linked distfunc nodes vec level nodes.length (nodeCreate rowid vec level)
  have hlen := hkept.levels.trans List.length_replicate
  have hnbors : ∀ l, (linked distfunc nodes vec level nodes.length
      (nodeCreate rowid vec level)).nborsAt l =
        if l ≤ level then chosen distfunc nodes nodes.length vec l else [] := by
    intro l
    rcases Nat.lt_or_ge l maxLevels with hlt | hge
    · exact nborsAt_linked_new distfunc rowid hlt
    · rw [nborsAt_of_le (hlen ▸ hge), if_neg (by omega)]
  refine ⟨hlen, hkept.level ▸ hlevel, fun l hl => ?_, fun l => ?_⟩
  · rw [hkept.level] at hl
    rw [hnbors]
    exact if_neg (Nat.not_le.mpr hl)
  · rw [hnbors]
    split
    next hle =>
      refine ⟨length_chosen_le .., nodup_chosen .., fun j hj => (mem_chosen distfunc hj).1,
        fun j hj => ?_⟩
      obtain ⟨-, m, hm, -, hml⟩ := mem_chosen distfunc hj
      obtain ⟨m', hm', heq⟩ := sameLevels_added distfunc nodes rowid vec level j m hm
      exact ⟨m', hm', heq ▸ hml⟩
    next => exact .nil ..

theorem IsEntry.added_higher {entryId maxLevel : Nat} (hentry : IsEntry nodes entryId maxLevel)
    (hlevel : maxLevel < level) :
    IsEntry (added distfunc rowid vec level nodes) nodes.length level where
  at_entry := level_added_new ..
  le n' hn' := by
    obtain ⟨i, hi⟩ := List.mem_iff_getElem?.mp hn'
    obtain ⟨n, hn, rfl⟩ | ⟨-, rfl⟩ := added_cases distfunc rowid vec level hi
    · rw [(kept_linked distfunc nodes vec level i n).level]
      exact (hentry.le n (List.mem_of_getElem? hn)).trans hlevel.le
    · rw [(kept_linked ..).level]
      exact le_rfl
  lt i hi n' hn' := by
    obtain ⟨n, hn, rfl⟩ | ⟨rfl, -⟩ := added_cases distfunc rowid vec level hn'
    · rw [(kept_linked distfunc nodes vec level i n).level]
      exact (hentry.le n (List.mem_of_getElem? hn)).trans_lt hlevel
    · exact absurd hi (Nat.lt_irrefl _)

theorem IsEntry.added_lower {entryId maxLevel : Nat} (hentry : IsEntry nodes entryId maxLevel)
    (hlevel : level ≤ maxLevel) :
    IsEntry (added distfunc rowid vec level nodes) entryId maxLevel where
  at_entry := by
    obtain ⟨n, hn, hmax⟩ := hentry.at_entry
    exact ⟨_, getElem?_added_old distfunc rowid vec level hn, (kept_linked ..).level.trans hmax⟩
  le n' hn' := by
    obtain ⟨i, hi⟩ := List.mem_iff_getElem?.mp hn'
    obtain ⟨n, hn, rfl⟩ | ⟨-, rfl⟩ := added_cases distfunc rowid vec level hi
    · rw [(kept_linked distfunc nodes vec level i n).level]
      exact hentry.le n (List.mem_of_getElem? hn)
    · rw [(kept_linked ..).level]
      exact hlevel
  lt i hi n' hn' := by
    obtain ⟨n, hn, rfl⟩ | ⟨rfl, -⟩ := added_cases distfunc rowid vec level hn'
    · rw [(kept_linked distfunc nodes vec level i n).level]
      exact hentry.lt i hi n hn
    · obtain ⟨n, hn, -⟩ := hentry.at_entry
      exact absurd hi (List.getElem?_eq_some_iff.mp hn).1.not_gt

end Nodes

theorem IsEntry.added_first (rowid : Int32) (vec : List α) (level : Nat) :
    IsEntry (added distfunc rowid vec level []) 0 level where
  at_entry := level_added_new ..
  le n' hn' := by
    obtain ⟨i, hi⟩ := List.mem_iff_getElem?.mp hn'
    obtain ⟨n, hn, -⟩ | ⟨-, rfl⟩ := added_cases distfunc rowid vec level hi
    · simp at hn
    · rw [(kept_linked ..).level]
      exact le_rfl
  lt i hi := absurd hi (Nat.not_lt_zero i)

variable {randomLevel : Nat → Nat} (hrandom : ∀ i, randomLevel i < maxLevels)

include hrandom

theorem Wf.hnswAdd {h : HNSW α} (hwf : Wf h) (vec : List α) (rowid : Int32) :
    Wf (hnswAdd distfunc randomLevel h vec rowid).1 := by
  rcases Nat.lt_or_ge h.nodes.length h.maxNodes with hroom | hfull
  · have hnodes := hnswAdd_nodes distfunc randomLevel hroom hwf.none vec rowid
    refine ⟨fun i n' hn' => ?_, ?_, fun hnone => ?_, fun entryId' hsome => ?_⟩
    · rw [hnodes] at hn' ⊢
      obtain ⟨n, hn, rfl⟩ | ⟨rfl, rfl⟩ := added_cases distfunc rowid vec _ hn'
      · exact (hwf.nodes i n hn).linked_old distfunc rowid vec _ hn
      · exact .linked_new distfunc rowid vec _ (hrandom _)
    · rw [hnodes, length_added, maxNodes_hnswAdd]
      exact hroom
    · cases hentry : h.entryId with
      | none =>
        rw [(hnswAdd_entry_none distfunc randomLevel hroom hentry vec rowid).1] at hnone
        simp at hnone
      | some entryId =>
        have hnext := hnswAdd_entry_some distfunc randomLevel hroom hentry vec rowid
        split at hnext
        · simp [hnext.1] at hnone
        · simp [hnext.1] at hnone
    · rw [hnodes]
      cases hentry : h.entryId with
      | none =>
        obtain ⟨hid, hmax⟩ := hnswAdd_entry_none distfunc randomLevel hroom hentry vec rowid
        obtain rfl := Option.some.inj (hid.symm.trans hsome)
        rw [hmax, hwf.none hentry]
        exact .added_first ..
      | some entryId =>
        have hnext := hnswAdd_entry_some distfunc randomLevel hroom hentry vec rowid
        split at hnext
        next hlt =>
          obtain rfl := Option.some.inj (hnext.1.symm.trans hsome)
          rw [hnext.2]
          exact (hwf.some entryId hentry).added_higher distfunc rowid vec _ hlt
        next hle =>
          obtain rfl := Option.some.inj (hnext.1.symm.trans hsome)
          rw [hnext.2]
          exact (hwf.some entryId hentry).added_lower distfunc rowid vec _ (Nat.not_lt.mp hle)
  · unfold Hnsw.hnswAdd
    rw [if_pos hfull]
    exact hwf

end Add

def lineDist (a b : List ℤ) : ℤ := |a.headD 0 - b.headD 0|

end SqliteMultimodal.Vec.Hnsw
