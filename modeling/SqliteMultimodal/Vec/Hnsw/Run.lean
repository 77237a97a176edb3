import SqliteMultimodal.Vec.Hnsw.Greedy

namespace SqliteMultimodal.Vec.Hnsw

variable {α : Type}

def HNSWNode.replace (vec : List α) (n : HNSWNode α) : HNSWNode α := { n with vec }

namespace Memory

theorem Rep.length {known : Nat → HNSWNode α → Prop} {m : Graph α} {h : HNSW α}
    (hrep : Rep known m h) : m.nodes.length = h.nodes.length :=
  hrep.nodes.length

theorem levelOk_created {nodes : List (HNSWNode α)} {l : Nat} (hl : l < maxLevels)
    (h : ∀ (i : Nat) n, nodes[i]? = some n → (n.nborsAt l).length ≤ maxNeighbors ∧
      ∀ j ∈ n.nborsAt l, j < nodes.length) : LevelOk Created nodes l := fun i n hn =>
  ⟨(h i n hn).1, fun j hj => ⟨_, List.getElem?_eq_getElem ((h i n hn).2 j hj), hl⟩⟩

theorem levelOk_concat {h : HNSW α} (hwf : Wf h) {l : Nat} (hl : l < maxLevels) (rowid : Int32)
    (vec : List α) (level : Nat) :
    LevelOk Created (h.nodes ++ [Hnsw.nodeCreate rowid vec level]) l := by
  refine levelOk_created hl fun i n hn => ?_
  rcases List.mem_append.mp (List.mem_of_getElem? hn) with hmem | hmem
  · obtain ⟨k, hk⟩ := List.mem_iff_getElem?.mp hmem
    have hnbors := (hwf.nodes k n hk).nbors l
    refine ⟨hnbors.length_le, fun j hj => ?_⟩
    obtain ⟨m, hm, -⟩ := hnbors.level j hj
    have hlt := (List.getElem?_eq_some_iff.mp hm).1
    rw [List.length_append]
    omega
  · rw [List.mem_singleton.mp hmem, nborsAt_nodeCreate]
    exact ⟨Nat.zero_le _, fun j hj => by simp at hj⟩

section Add

variable [LinearOrder α] (distfunc : List α → List α → α) {randomLevel : Nat → Nat}
  (hrandom : ∀ i, randomLevel i < maxLevels) {m : Graph α} {h : HNSW α}

include hrandom

theorem hnswAdd_spec (hrep : Rep Created m h) (hwf : Wf h) (mem : Node α) (vec : List α)
    (rowid : Int32) :
    ∃ m', (∀ fuel, maxNeighbors < fuel → m.nodes.length + 1 < fuel →
        hnswAdd distfunc randomLevel fuel mem m vec rowid =
          .ok (m', (Hnsw.hnswAdd distfunc randomLevel h vec rowid).2)) ∧
      Rep Created m' (Hnsw.hnswAdd distfunc randomLevel h vec rowid).1 ∧ m'.dim = m.dim := by
  have hlen := hrep.nodes.length
  unfold hnswAdd Hnsw.hnswAdd
  rw [hrep.maxNodes, hlen]
  by_cases hfull : h.maxNodes ≤ h.nodes.length
  · simp only [hfull, if_true]
    exact ⟨m, fun _ _ _ => rfl, hrep, rfl⟩
  · simp only [hfull, if_false]
    have hnodes := hrep.nodes.concat
      (nodeRep_nodeCreate mem h.nodes.length rowid vec (randomLevel h.nodes.length))
    cases hentry : h.entryId with
    | none =>
      have hid : m.entryId = -1 := by
        rw [hrep.entryId, hentry]
        rfl
      simp only [hid, if_true]
      exact ⟨_, fun _ _ _ => rfl, ⟨rfl, hnodes, rfl, rfl⟩, rfl⟩
    | some e =>
      have hid : m.entryId = e := by
        rw [hrep.entryId, hentry]
        rfl
      have hentryWf := hwf.some e hentry
      obtain ⟨n, hn, hlevel⟩ := hentryWf.at_entry
      have hmax : h.maxLevel < maxLevels := hlevel ▸ (hwf.nodes e n hn).level_lt
      have hlevels : ∀ l ∈ (List.range (randomLevel h.nodes.length + 1)).reverse,
          l < maxLevels := fun l hl => by
        have := hrandom h.nodes.length
        rw [List.mem_reverse, List.mem_range] at hl
        omega
      obtain ⟨ms, hms, hmsrep⟩ := foldlM_linkLevel_spec distfunc hnodes
        ⟨_, List.getElem?_concat_length, rfl⟩ hlevels
      have himprove : ∀ fuel, maxNeighbors < fuel → m.nodes.length + 1 < fuel →
          ∃ e', improve distfunc
            (m.nodes ++ [nodeCreate mem h.nodes.length rowid vec (randomLevel h.nodes.length)]) vec
            fuel (randomLevel h.nodes.length) h.maxLevel e = .ok e' := by
        intro fuel hfuel hfuel'
        refine improve_spec distfunc vec
          (h := { h with nodes := h.nodes ++ [Hnsw.nodeCreate rowid vec _] }) hnodes
          (fun l hl => ?_) hfuel ?_ ?_
        · rw [levelsAbove, List.mem_reverse, List.mem_range'_1] at hl
          exact ⟨by omega, levelOk_concat hwf (by omega) rowid vec _⟩
        · rw [List.length_append, List.length_singleton]
          omega
        · have := (List.getElem?_eq_some_iff.mp hn).1
          rw [List.length_append]
          omega
      have hne : ¬ (e : Int) = -1 := by omega
      simp only [hid, hne, if_false, hrep.maxLevel]
      simp only [nodeCreate, Hnsw.nodeCreate] at himprove hms hmsrep ⊢
      by_cases hlt : h.maxLevel < randomLevel h.nodes.length
      · simp only [hlt, if_true]
        refine ⟨⟨m.dim, h.maxNodes, ms, h.nodes.length, randomLevel h.nodes.length⟩,
          fun fuel hfuel hfuel' => ?_, ⟨rfl, hmsrep, rfl, rfl⟩, rfl⟩
        obtain ⟨e', he'⟩ := himprove fuel hfuel (by omega)
        rw [he', Except.ok_bind, hms]
        rfl
      · simp only [hlt, if_false]
        refine ⟨⟨m.dim, h.maxNodes, ms, e, h.maxLevel⟩, fun fuel hfuel hfuel' => ?_,
          ⟨rfl, hmsrep, rfl, rfl⟩, rfl⟩
        obtain ⟨e', he'⟩ := himprove fuel hfuel (by omega)
        rw [he', Except.ok_bind, hms]
        rfl

end Add

theorem NodeRep.mark {known : Nat → HNSWNode α → Prop} {i : Nat} {m : Node α} {n : HNSWNode α}
    (hknown : ∀ l, known l n.mark → known l n) (h : NodeRep known i m n) :
    NodeRep known i { m with deleted := true } n.mark :=
  ⟨h.id, h.rowid, h.level, h.vec, rfl, h.levels, fun l hl =>
    ⟨(h.links l (hknown l hl)).count, (h.links l (hknown l hl)).nbor⟩⟩

theorem Rep.mark {m : Graph α} {h : HNSW α} (hrep : Rep Created m h) (i : Nat) :
    Rep Created { m with nodes := m.nodes.modify i fun n => { n with deleted := true } }
      { h with nodes := h.nodes.modify i HNSWNode.mark } :=
  ⟨hrep.maxNodes, hrep.nodes.modify i fun _ _ hmn => hmn.mark fun _ hl => hl, hrep.entryId,
    hrep.maxLevel⟩

theorem Rep.replace {m : Graph α} {h : HNSW α} (hrep : Rep Created m h) (i : Nat) (vec : List α) :
    Rep Created { m with nodes := m.nodes.modify i fun n => { n with vec } }
      { h with nodes := h.nodes.modify i (HNSWNode.replace vec) } :=
  ⟨hrep.maxNodes, hrep.nodes.modify i fun _ _ hmn => ⟨hmn.id, hmn.rowid, hmn.level, rfl, hmn.deleted,
    hmn.levels, fun l hl => ⟨(hmn.links l hl).count, (hmn.links l hl).nbor⟩⟩, hrep.entryId,
    hrep.maxLevel⟩

def Returns {β : Type} (f : Nat → Except Fault β) (r : β) : Prop :=
  ∃ enough, ∀ fuel, enough ≤ fuel → f fuel = .ok r

theorem Returns.unique {β : Type} {f : Nat → Except Fault β} {r r' : β} (h : Returns f r)
    (h' : Returns f r') : r = r' := by
  obtain ⟨k, hk⟩ := h
  obtain ⟨k', hk'⟩ := h'
  exact Except.ok.inj ((hk _ (Nat.le_max_left k k')).symm.trans (hk' _ (Nat.le_max_right k k')))

theorem forall_mem_modify {β : Type} {p : β → Prop} {xs : List β} {g : β → β} (i : Nat)
    (h : ∀ x ∈ xs, p x) (hg : ∀ x, p x → p (g x)) : ∀ x ∈ xs.modify i g, p x := by
  intro x hx
  obtain ⟨k, hk⟩ := List.mem_iff_getElem?.mp hx
  rw [List.getElem?_modify, Option.map_eq_map, Option.map_eq_some_iff] at hk
  obtain ⟨y, hy, rfl⟩ := hk
  have hpy := h y (List.mem_of_getElem? hy)
  split
  · exact hg y hpy
  · exact hpy

/-- The graph in memory represents one of the right shape, with vectors of the right size. -/
structure Sound (m : Graph α) (h : HNSW α) : Prop where
  rep : Rep Created m h
  wf : Wf h
  vec : ∀ n ∈ h.nodes, n.vec.length = m.dim

theorem sound_hnswCreate (maxNodes dim : Nat) :
    Sound (hnswCreate maxNodes dim : Graph α) (Hnsw.hnswCreate maxNodes) :=
  ⟨⟨rfl, ⟨rfl, fun i m n hm => by simp [hnswCreate] at hm⟩, rfl, rfl⟩, wf_hnswCreate maxNodes,
    fun n hn => by simp [Hnsw.hnswCreate] at hn⟩

theorem Sound.mark {m : Graph α} {h : HNSW α} (hs : Sound m h) (i : Nat) :
    Sound { m with nodes := m.nodes.modify i fun n => { n with deleted := true } }
      { h with nodes := h.nodes.modify i HNSWNode.mark } where
  rep := hs.rep.mark i
  wf := hs.wf.mark i
  vec := forall_mem_modify i hs.vec fun _ hn => hn

theorem Sound.replace {m : Graph α} {h : HNSW α} (hs : Sound m h) (i : Nat) {vec : List α}
    (hvec : vec.length = m.dim) :
    Sound { m with nodes := m.nodes.modify i fun n => { n with vec } }
      { h with nodes := h.nodes.modify i (HNSWNode.replace vec) } where
  rep := hs.rep.replace i vec
  wf := hs.wf.modify (g := HNSWNode.replace vec) (fun _ => rfl) (fun _ => rfl) i
  vec := forall_mem_modify i hs.vec fun _ _ => hvec

section Run

variable [LinearOrder α]

theorem forall_vec_hnswAdd (distfunc : List α → List α → α) (randomLevel : Nat → Nat) {h : HNSW α}
    (hwf : Wf h) {p : List α → Prop} {vec : List α} (hvec : p vec) (hall : ∀ n ∈ h.nodes, p n.vec)
    (rowid : Int32) : ∀ n ∈ (Hnsw.hnswAdd distfunc randomLevel h vec rowid).1.nodes, p n.vec := by
  rcases Nat.lt_or_ge h.nodes.length h.maxNodes with hroom | hfull
  · rw [hnswAdd_nodes distfunc randomLevel hroom hwf.none]
    intro n' hn'
    obtain ⟨i, hi⟩ := List.mem_iff_getElem?.mp hn'
    obtain ⟨n, hn, rfl⟩ | ⟨-, rfl⟩ := added_cases distfunc rowid vec _ hi
    · rw [(kept_linked distfunc h.nodes vec _ i n).vec]
      exact hall n (List.mem_of_getElem? hn)
    · rw [(kept_linked ..).vec]
      exact hvec
  · rw [Hnsw.hnswAdd, if_pos hfull]
    exact hall

theorem Sound.hnswAdd (distfunc : List α → List α → α) {randomLevel : Nat → Nat}
    (hrandom : ∀ i, randomLevel i < maxLevels) {m : Graph α} {h : HNSW α} (hs : Sound m h)
    (mem : Node α) {vec : List α} (hvec : vec.length = m.dim) (rowid : Int32) :
    ∃ m', Returns (fun fuel => hnswAdd distfunc randomLevel fuel mem m vec rowid)
        (m', (Hnsw.hnswAdd distfunc randomLevel h vec rowid).2) ∧
      Sound m' (Hnsw.hnswAdd distfunc randomLevel h vec rowid).1 ∧ m'.dim = m.dim := by
  obtain ⟨m', hadd, hrep, hdim⟩ := hnswAdd_spec distfunc hrandom hs.rep hs.wf mem vec rowid
  refine ⟨m', ⟨maxNeighbors + m.nodes.length + 2, fun fuel hfuel => ?_⟩,
    ⟨hrep, hs.wf.hnswAdd distfunc hrandom vec rowid, ?_⟩, hdim⟩
  · exact hadd fuel (by omega) (by omega)
  · rw [hdim]
    exact forall_vec_hnswAdd (p := fun v => v.length = m.dim) distfunc randomLevel hs.wf hvec
      hs.vec rowid

theorem Sound.hnswUpdate (distfunc : List α → List α → α) {randomLevel : Nat → Nat}
    (hrandom : ∀ i, randomLevel i < maxLevels) {m : Graph α} {h : HNSW α} (hs : Sound m h)
    (mem : Node α) {vec : List α} (hvec : vec.length = m.dim) (rowid : Int32) (reinsert : Bool) :
    ∃ m' rc, Returns (fun fuel => hnswUpdate distfunc randomLevel fuel mem m rowid vec reinsert)
        (m', rc) ∧ (∃ h', Sound m' h' ∧ h'.maxNodes = h.maxNodes) ∧ m'.dim = m.dim := by
  unfold Memory.hnswUpdate
  split
  · exact ⟨m, _, ⟨0, fun _ _ => rfl⟩, ⟨h, hs, rfl⟩, rfl⟩
  next i _ =>
    cases reinsert with
    | false => exact ⟨_, _, ⟨0, fun _ _ => rfl⟩, ⟨_, hs.replace i hvec, rfl⟩, rfl⟩
    | true =>
      obtain ⟨m', hadd, hs', hdim⟩ := (hs.mark i).hnswAdd distfunc hrandom mem hvec rowid
      exact ⟨m', _, hadd, ⟨_, hs', maxNodes_hnswAdd ..⟩, hdim⟩

/-- The states that the operations reach, whatever levels are drawn and whatever new memory
holds. -/
inductive Reachable (maxNodes dim : Nat) : Graph α → Prop
  | create : Reachable maxNodes dim (hnswCreate maxNodes dim)
  | add (distfunc : List α → List α → α) {randomLevel : Nat → Nat}
      (hrandom : ∀ i, randomLevel i < maxLevels) (mem : Node α) {vec : List α}
      (hvec : vec.length = dim) (rowid : Int32) {h h' : Graph α} {rc : ResultCode}
      (hreach : Reachable maxNodes dim h)
      (hadd : Returns (fun fuel => hnswAdd distfunc randomLevel fuel mem h vec rowid) (h', rc)) :
      Reachable maxNodes dim h'
  | delete (rowid : Int32) {h : Graph α} (hreach : Reachable maxNodes dim h) :
      Reachable maxNodes dim (hnswDelete h rowid).1
  | update (distfunc : List α → List α → α) {randomLevel : Nat → Nat}
      (hrandom : ∀ i, randomLevel i < maxLevels) (mem : Node α) (rowid : Int32) {vec : List α}
      (hvec : vec.length = dim) (reinsert : Bool) {h h' : Graph α} {rc : ResultCode}
      (hreach : Reachable maxNodes dim h)
      (hupdate : Returns
        (fun fuel => hnswUpdate distfunc randomLevel fuel mem h rowid vec reinsert) (h', rc)) :
      Reachable maxNodes dim h'

theorem Reachable.sound {maxNodes dim : Nat} {m : Graph α} (hreach : Reachable maxNodes dim m) :
    (∃ h, Sound m h ∧ h.maxNodes = maxNodes) ∧ m.dim = dim := by
  induction hreach with
  | create => exact ⟨⟨_, sound_hnswCreate maxNodes dim, rfl⟩, rfl⟩
  | @add distfunc randomLevel hrandom mem vec hvec rowid m₁ m' rc _ hadd ih =>
    obtain ⟨⟨h, hs, hmax⟩, hdim⟩ := ih
    obtain ⟨m₂, hadd₂, hs₂, hdim₂⟩ := hs.hnswAdd distfunc hrandom mem (hvec.trans hdim.symm) rowid
    obtain ⟨rfl, -⟩ := Prod.mk.inj (hadd.unique hadd₂)
    exact ⟨⟨_, hs₂, (maxNodes_hnswAdd ..).trans hmax⟩, hdim₂.trans hdim⟩
  | @delete rowid m₁ _ ih =>
    obtain ⟨⟨h, hs, hmax⟩, hdim⟩ := ih
    unfold hnswDelete
    split
    · exact ⟨⟨h, hs, hmax⟩, hdim⟩
    · exact ⟨⟨_, hs.mark _, hmax⟩, hdim⟩
  | @update distfunc randomLevel hrandom mem rowid vec hvec reinsert m₁ m' rc _ hupdate ih =>
    obtain ⟨⟨h, hs, hmax⟩, hdim⟩ := ih
    obtain ⟨m₂, rc₂, hupdate₂, ⟨h₂, hs₂, hmax₂⟩, hdim₂⟩ := hs.hnswUpdate distfunc hrandom mem
      (hvec.trans hdim.symm) rowid reinsert
    obtain ⟨rfl, -⟩ := Prod.mk.inj (hupdate.unique hupdate₂)
    exact ⟨⟨h₂, hs₂, hmax₂.trans hmax⟩, hdim₂.trans hdim⟩

end Run

/-- `n->nbors[level]` up to its counter. -/
def Node.nborsAt (n : Node α) (level : Nat) : List Int :=
  (List.range (n.nborCount level).toNat).map (n.nbors level)

structure WellFormed (h : Graph α) : Prop where
  id : ∀ (i : Nat) n, h.nodes[i]? = some n → n.id = i
  count : ∀ n ∈ h.nodes, ∀ l < maxLevels, 0 ≤ n.nborCount l ∧ n.nborCount l ≤ maxNeighbors ∧
    (n.level < l → n.nborCount l = 0)
  nodup : ∀ n ∈ h.nodes, ∀ l < maxLevels, (n.nborsAt l).Nodup
  nbor : ∀ n ∈ h.nodes, ∀ l < maxLevels, ∀ j ∈ n.nborsAt l,
    j ≠ n.id ∧ ∃ m, load h.nodes j = .ok m ∧ l ≤ m.level
  entry : h.nodes ≠ [] → ∃ e : Nat, h.entryId = e ∧
    (∃ n, h.nodes[e]? = some n ∧ n.level = h.maxLevel) ∧ (∀ n ∈ h.nodes, n.level ≤ h.maxLevel) ∧
    ∀ i < e, ∀ n, h.nodes[i]? = some n → n.level < h.maxLevel

theorem LinksRep.nborsAt {m : Node α} {l : Nat} {nbors : List Nat} (h : LinksRep m l nbors) :
    m.nborsAt l = nbors.map Int.ofNat := by
  apply List.ext_getElem?
  intro k
  rw [Node.nborsAt, h.count, Int.toNat_natCast, List.getElem?_map, List.getElem?_map]
  cases hk : nbors[k]? with
  | none =>
    rw [List.getElem?_eq_none]
    · rfl
    · rw [List.length_range]
      exact List.getElem?_eq_none_iff.mp hk
  | some j =>
    rw [List.getElem?_range (List.getElem?_eq_some_iff.mp hk).1, Option.map_some, Option.map_some,
      h.nbor k j hk]
    rfl

theorem Sound.wellFormed {m : Graph α} {h : HNSW α} (hs : Sound m h) : WellFormed m := by
  have hnode : ∀ n ∈ m.nodes, ∃ (i : Nat) (k : HNSWNode α), h.nodes[i]? = some k ∧
      NodeRep Created i n k ∧ NodeWf h.nodes i k := fun n hn => by
    obtain ⟨i, hi⟩ := List.mem_iff_getElem?.mp hn
    obtain ⟨k, hk, hrep⟩ := hs.rep.nodes.exists_right hi
    exact ⟨i, k, hk, hrep, hs.wf.nodes i k hk⟩
  have hlevel : ∀ (i : Nat) (n : Node α), m.nodes[i]? = some n →
      ∃ k, h.nodes[i]? = some k ∧ n.level = k.level := fun i n hn => by
    obtain ⟨k, hk, hrep⟩ := hs.rep.nodes.exists_right hn
    exact ⟨k, hk, hrep.level⟩
  refine ⟨fun i n hn => ?_, fun n hn l hl => ?_, fun n hn l hl => ?_, fun n hn l hl j hj => ?_,
    fun hne => ?_⟩
  · obtain ⟨k, -, hrep⟩ := hs.rep.nodes.exists_right hn
    exact hrep.id
  · obtain ⟨i, k, -, hrep, hwf⟩ := hnode n hn
    have hle := (hwf.nbors l).length_le
    rw [(hrep.links l hl).count]
    refine ⟨by omega, by omega, fun hlt => ?_⟩
    rw [hwf.above l (hrep.level ▸ hlt)]
    rfl
  · obtain ⟨i, k, -, hrep, hwf⟩ := hnode n hn
    rw [(hrep.links l hl).nborsAt]
    exact (hwf.nbors l).nodup.map fun _ _ => Int.ofNat.inj
  · obtain ⟨i, k, -, hrep, hwf⟩ := hnode n hn
    rw [(hrep.links l hl).nborsAt] at hj
    obtain ⟨j, hmem, rfl⟩ := List.mem_map.mp hj
    refine ⟨fun heq => (hwf.nbors l).ne j hmem ?_, ?_⟩
    · rw [hrep.id] at heq
      exact Int.ofNat.inj heq
    · obtain ⟨k', hk', hle⟩ := (hwf.nbors l).level j hmem
      obtain ⟨m', hm', hrep'⟩ := hs.rep.nodes.exists_left hk'
      exact ⟨m', load_of_getElem? hm', hrep'.level ▸ hle⟩
  · cases hentry : h.entryId with
    | none =>
      have hnil := hs.rep.nodes.length
      rw [hs.wf.none hentry] at hnil
      exact absurd (List.length_eq_zero_iff.mp hnil) hne
    | some e =>
      obtain ⟨⟨k, hk, hmax⟩, hle, hlt⟩ := hs.wf.some e hentry
      obtain ⟨n, hn, hrep⟩ := hs.rep.nodes.exists_left hk
      rw [hs.rep.maxLevel]
      refine ⟨e, ?_, ⟨n, hn, hrep.level.trans hmax⟩, fun n' hn' => ?_, fun i hi n' hn' => ?_⟩
      · rw [hs.rep.entryId, hentry]
        rfl
      · obtain ⟨i, hi⟩ := List.mem_iff_getElem?.mp hn'
        obtain ⟨k', hk', heq⟩ := hlevel i n' hi
        exact heq ▸ hle k' (List.mem_of_getElem? hk')
      · obtain ⟨k', hk', heq⟩ := hlevel i n' hn'
        exact heq ▸ hlt i hi k' hk'

section Nearest

variable [LinearOrder α] (distfunc : List α → List α → α)

/-- The neighbours of `n` at level `l` are the nearest other nodes that are not marked and of at
least this level, by distance. -/
def NearestLinks (h : Graph α) (n : Node α) (l : Nat) : Prop :=
  ∃ sorted : List (Node α),
    sorted.Perm (h.nodes.filter fun c => !c.deleted && l ≤ c.level && c.id ≠ n.id) ∧
    (sorted.Pairwise fun a b => distfunc n.vec a.vec ≤ distfunc n.vec b.vec) ∧
    n.nborsAt l = (sorted.take maxNeighbors).map Node.id

theorem nearestLinks_of_candidates {h : Graph α} {n : Node α} {l : Nat}
    (hnbors : n.nborsAt l = (candidates distfunc h.nodes n l).take maxNeighbors) :
    NearestLinks distfunc h n l := by
  have hcand : candidates distfunc h.nodes n l =
      (Sorting.exchangeSort (fun c : Node α => distfunc n.vec c.vec)
        (h.nodes.filter fun c => !c.deleted && l ≤ c.level && c.id ≠ n.id)).map Node.id := by
    have hkey : ∀ c : Node α, (c.id, distfunc n.vec c.vec).2 = distfunc n.vec c.vec := fun _ => rfl
    rw [candidates, Sorting.exchangeSort_map hkey, List.map_map]
    rfl
  refine ⟨_, Sorting.exchangeSort_perm .., Sorting.exchangeSort_sorted .., ?_⟩
  rw [hnbors, hcand, List.map_take]

theorem Sound.nearestLinks {randomLevel : Nat → Nat} {m m' : Graph α} {h : HNSW α}
    {vec : List α} {rowid : Int32} (hs : Sound m h)
    (hs' : Sound m' (Hnsw.hnswAdd distfunc randomLevel h vec rowid).1)
    (hok : (Hnsw.hnswAdd distfunc randomLevel h vec rowid).2 = sqliteOk) :
    ∃ n, m'.nodes[m.nodes.length]? = some n ∧ n.rowid = rowid ∧ n.vec = vec ∧
      ∀ l ≤ n.level, NearestLinks distfunc m' n l := by
  have hroom : h.nodes.length < h.maxNodes := by
    by_contra hfull
    rw [Hnsw.hnswAdd, if_pos (Nat.not_lt.mp hfull)] at hok
    exact absurd hok (show sqliteNomem ≠ sqliteOk by decide)
  have hnodes := hnswAdd_nodes distfunc randomLevel hroom hs.wf.none vec rowid
  have hnew := getElem?_added_new distfunc h.nodes rowid vec (randomLevel h.nodes.length)
  have hkept := kept_linked distfunc h.nodes vec (randomLevel h.nodes.length) h.nodes.length
    (Hnsw.nodeCreate rowid vec (randomLevel h.nodes.length))
  have hrep' := hs'.rep.nodes
  have hlevel := (hs'.wf.nodes h.nodes.length _ (by rw [hnodes, hnew])).level_lt
  rw [hnodes] at hrep'
  obtain ⟨n, hn, hrep⟩ := hrep'.exists_left hnew
  rw [hs.rep.nodes.length]
  refine ⟨n, hn, hrep.rowid.trans hkept.rowid, hrep.vec.trans hkept.vec, fun l hl => ?_⟩
  rw [hrep.level] at hl
  have hl' : l < maxLevels := Nat.lt_of_le_of_lt hl hlevel
  rw [hkept.level] at hl
  apply nearestLinks_of_candidates
  rw [(hrep.links l hl').nborsAt, nborsAt_linked_new distfunc rowid hl', candidates_eq distfunc
    hrep' hrep, hkept.vec, candidates_added, ← List.map_take]
  exact congrArg _ (if_pos hl)

/-- In every state that is reached the graph is well formed; and a node that is then added is linked
to the nearest others. -/
theorem reachable_wellFormed {maxNodes dim : Nat} {h : Graph α}
    (hreach : Reachable maxNodes dim h) :
    WellFormed h ∧ ∀ (distfunc : List α → List α → α) (randomLevel : Nat → Nat),
      (∀ i, randomLevel i < maxLevels) → ∀ (mem : Node α) (vec : List α), vec.length = dim →
        ∀ rowid : Int32, ∃ h' rc,
          Returns (fun fuel => hnswAdd distfunc randomLevel fuel mem h vec rowid) (h', rc) ∧
          (rc = sqliteOk → ∃ n, h'.nodes[h.nodes.length]? = some n ∧ n.rowid = rowid ∧
            n.vec = vec ∧ ∀ l ≤ n.level, NearestLinks distfunc h' n l) := by
  obtain ⟨⟨g, hs, -⟩, hdim⟩ := hreach.sound
  refine ⟨hs.wellFormed, fun distfunc randomLevel hrandom mem vec hvec rowid => ?_⟩
  obtain ⟨h', hadd, hs', -⟩ := hs.hnswAdd distfunc hrandom mem (hvec.trans hdim.symm) rowid
  exact ⟨h', _, hadd, hs.nearestLinks distfunc hs'⟩

end Nearest

section Sample

def blankNode : Node α := ⟨0, 0, 0, [], fun _ _ => 0, fun _ => 0, false, 0⟩

def addNode [LinearOrder α] (distfunc : List α → List α → α) (level : Nat) (h : Graph α)
    (vec : List α) (rowid : Int32) : Graph α :=
  match hnswAdd distfunc (fun _ => level) 20 blankNode h vec rowid with
  | .ok (h', _) => h'
  | .error _ => h

/-- Two nodes at level `0`, the first of which has been marked. -/
def pairGraph : Graph ℤ :=
  (hnswDelete (addNode lineDist 0 (addNode lineDist 0 (hnswCreate 4 1) [5] 7) [3] 8) 7).1

theorem pairGraph_reachable : Reachable 4 1 pairGraph := by
  have hrandom : ∀ i : Nat, (fun _ => 0 : Nat → Nat) i < maxLevels := fun _ => Nat.zero_lt_succ 7
  have h₁ : Reachable 4 1 (addNode lineDist 0 (hnswCreate 4 1) [5] 7) :=
    .add lineDist hrandom blankNode (rfl : [(5 : ℤ)].length = 1) 7 .create ⟨0, fun _ _ => rfl⟩
  have h₂ : Reachable 4 1
      (addNode lineDist 0 (addNode lineDist 0 (hnswCreate 4 1) [5] 7) [3] 8) :=
    .add lineDist hrandom blankNode (rfl : [(3 : ℤ)].length = 1) 8 h₁ ⟨0, fun _ _ => rfl⟩
  exact .delete 7 h₂

theorem pairGraph_wellFormed : WellFormed pairGraph ∧ ∃ h' rc,
    Returns (fun fuel => hnswAdd lineDist (fun _ => 1) fuel blankNode pairGraph [4] 9) (h', rc) ∧
    (rc = sqliteOk → ∃ n, h'.nodes[2]? = some n ∧ n.rowid = 9 ∧ n.vec = [4] ∧
      ∀ l ≤ n.level, NearestLinks lineDist h' n l) :=
  (reachable_wellFormed pairGraph_reachable).imp_right fun h =>
    h lineDist (fun _ => 1) (fun _ => Nat.succ_lt_succ (Nat.zero_lt_succ 6)) blankNode [4] rfl 9

end Sample

end Memory

end SqliteMultimodal.Vec.Hnsw
