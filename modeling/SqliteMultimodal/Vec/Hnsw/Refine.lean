import SqliteMultimodal.Vec.Hnsw.Memory
import SqliteMultimodal.Vec.Hnsw.Shape

namespace SqliteMultimodal.Vec.Hnsw.Memory

variable {α : Type}

section Arrays

variable {β : Type} {xs : List β} {k : Nat} {x : β}

theorem load_of_getElem? (h : xs[k]? = some x) : load xs k = .ok x := by
  rw [load, if_pos (Int.natCast_nonneg k), Int.toNat_natCast, h, Except.ofOption]

theorem load_eq_ok {i : Int} : load xs i = .ok x ↔ 0 ≤ i ∧ xs[i.toNat]? = some x := by
  unfold load
  split
  next h => rw [Except.ofOption_eq_ok, and_iff_right h]
  next h => exact iff_of_false (by simp) fun h' => h h'.1

theorem store_natCast (h : k < xs.length) : store xs k x = .ok (xs.set k x) := by
  rw [store, if_pos ⟨Int.natCast_nonneg k, Int.ofNat_lt.mpr h⟩, Int.toNat_natCast]

end Arrays

structure LinksRep (m : Node α) (level : Nat) (nbors : List Nat) : Prop where
  count : m.nborCount level = nbors.length
  nbor : ∀ (k : Nat) j, nbors[k]? = some j → m.nbors level k = j

/-- The node `m` in memory represents `n` at place `i`, with the neighbours at the levels that are
known. -/
structure NodeRep (known : Nat → HNSWNode α → Prop) (i : Nat) (m : Node α) (n : HNSWNode α) :
    Prop where
  id : m.id = i
  rowid : m.rowid = n.rowid
  level : m.level = n.level
  vec : m.vec = n.vec
  deleted : m.deleted = n.deleted
  levels : n.nbors.length = maxLevels
  links : ∀ l, known l n → LinksRep m l (n.nborsAt l)

structure NodesRep (known : Nat → HNSWNode α → Prop) (ms : List (Node α))
    (ns : List (HNSWNode α)) : Prop where
  length : ms.length = ns.length
  node : ∀ i m n, ms[i]? = some m → ns[i]? = some n → NodeRep known i m n

structure Rep (known : Nat → HNSWNode α → Prop) (m : Graph α) (h : HNSW α) : Prop where
  maxNodes : m.maxNodes = h.maxNodes
  nodes : NodesRep known m.nodes h.nodes
  entryId : m.entryId = h.entryId.elim (-1) fun e => (e : Int)
  maxLevel : m.maxLevel = h.maxLevel

/-- A node that was created in memory has its counters at all levels. -/
def Created (l : Nat) (_ : HNSWNode α) : Prop := l < maxLevels

section Nodes

variable {known : Nat → HNSWNode α → Prop} {ms : List (Node α)} {ns : List (HNSWNode α)}

theorem NodesRep.exists_left (h : NodesRep known ms ns) {i : Nat} {n : HNSWNode α}
    (hn : ns[i]? = some n) : ∃ m, ms[i]? = some m ∧ NodeRep known i m n := by
  have hi : i < ms.length := by
    rw [h.length]
    exact (List.getElem?_eq_some_iff.mp hn).1
  have hm := List.getElem?_eq_getElem hi
  exact ⟨_, hm, h.node i _ n hm hn⟩

theorem NodesRep.exists_right (h : NodesRep known ms ns) {i : Nat} {m : Node α}
    (hm : ms[i]? = some m) : ∃ n, ns[i]? = some n ∧ NodeRep known i m n := by
  have hi : i < ns.length := by
    rw [← h.length]
    exact (List.getElem?_eq_some_iff.mp hm).1
  have hn := List.getElem?_eq_getElem hi
  exact ⟨_, hn, h.node i m _ hm hn⟩

theorem NodesRep.modify (h : NodesRep known ms ns) (i : Nat) {f : Node α → Node α}
    {g : HNSWNode α → HNSWNode α}
    (hfg : ∀ m n, NodeRep known i m n → NodeRep known i (f m) (g n)) :
    NodesRep known (ms.modify i f) (ns.modify i g) where
  length := by rw [List.length_modify, List.length_modify, h.length]
  node k m' n' hm' hn' := by
    rw [List.getElem?_modify, Option.map_eq_map, Option.map_eq_some_iff] at hm' hn'
    obtain ⟨m, hm, rfl⟩ := hm'
    obtain ⟨n, hn, rfl⟩ := hn'
    have hrep := h.node k m n hm hn
    split
    next heq => exact hfg m n (heq ▸ hrep) |> (heq ▸ ·)
    next => exact hrep

theorem NodesRep.concat (h : NodesRep known ms ns) {m : Node α} {n : HNSWNode α}
    (hnew : NodeRep known ns.length m n) : NodesRep known (ms ++ [m]) (ns ++ [n]) where
  length := by rw [List.length_append, List.length_append, h.length]; rfl
  node k m' n' hm' hn' := by
    rcases Nat.lt_or_ge k ns.length with hk | hk
    · rw [List.getElem?_append_left (h.length ▸ hk)] at hm'
      rw [List.getElem?_append_left hk] at hn'
      exact h.node k m' n' hm' hn'
    · obtain rfl : k = ns.length := by
        have := (List.getElem?_eq_some_iff.mp hn').1
        rw [List.length_append, List.length_singleton] at this
        omega
      rw [List.getElem?_concat_length] at hn'
      rw [← h.length, List.getElem?_concat_length] at hm'
      obtain rfl := Option.some.inj hm'
      obtain rfl := Option.some.inj hn'
      exact hnew

end Nodes

theorem nodeRep_nodeCreate (mem : Node α) (id : Nat) (rowid : Int32) (vec : List α) (level : Nat) :
    NodeRep Created id (nodeCreate mem id rowid vec level) (Hnsw.nodeCreate rowid vec level) where
  id := rfl
  rowid := rfl
  level := rfl
  vec := rfl
  deleted := rfl
  levels := List.length_replicate
  links l hl := by
    have hnil : (Hnsw.nodeCreate rowid vec level).nborsAt l = [] := nborsAt_nodeCreate ..
    rw [hnil]
    exact ⟨rfl, fun k j hj => by simp at hj⟩

theorem LinksRep.connect {m : Node α} {level : Nat} {nbors : List Nat} (h : LinksRep m level nbors)
    (j : Nat) : LinksRep (m.connect j level) level (addLink nbors j) := by
  have hcond : m.nborCount level < maxNeighbors ↔ nbors.length < maxNeighbors := by
    rw [h.count]
    exact Int.ofNat_lt
  unfold Node.connect addLink
  by_cases hroom : nbors.length < maxNeighbors
  · rw [if_pos (hcond.mpr hroom), if_pos hroom]
    refine ⟨?_, fun k j' hk => ?_⟩
    · dsimp only
      rw [Function.update_self, h.count, List.length_append, List.length_singleton]
      rfl
    · dsimp only
      rw [Function.update_self, h.count, Int.toNat_natCast]
      by_cases hk' : k = nbors.length
      · subst hk'
        rw [List.getElem?_concat_length] at hk
        rw [Function.update_self, Option.some.inj hk]
      · have hlt := (List.getElem?_eq_some_iff.mp hk).1
        rw [List.length_append, List.length_singleton] at hlt
        rw [List.getElem?_append_left (by omega)] at hk
        rw [Function.update_of_ne hk', h.nbor k j' hk]
  · rw [if_neg (hcond.not.mpr hroom), if_neg hroom]
    exact h

theorem LinksRep.connect_ne {m : Node α} {l level : Nat} {nbors : List Nat}
    (h : LinksRep m l nbors) (j : Int) (hne : l ≠ level) :
    LinksRep (m.connect j level) l nbors := by
  unfold Node.connect
  split
  · exact ⟨(Function.update_of_ne hne ..).trans h.count, fun k j' hk =>
      (congrFun (Function.update_of_ne hne ..) k).trans (h.nbor k j' hk)⟩
  · exact h

theorem NodeRep.connect {i : Nat} {m : Node α} {n : HNSWNode α} (h : NodeRep Created i m n)
    (j : Nat) {level : Nat} (hlevel : level < maxLevels) :
    NodeRep Created i (m.connect j level) (n.addNbor j level) := by
  have hkept := n.kept_addNbor j level
  have hcore : (m.connect j level).id = m.id ∧ (m.connect j level).rowid = m.rowid ∧
      (m.connect j level).level = m.level ∧ (m.connect j level).vec = m.vec ∧
      (m.connect j level).deleted = m.deleted := by
    unfold Node.connect
    split <;> exact ⟨rfl, rfl, rfl, rfl, rfl⟩
  obtain ⟨hid, hrowid, hl, hvec, hdeleted⟩ := hcore
  refine ⟨hid.trans h.id, ?_, ?_, ?_, ?_, hkept.levels.trans h.levels, fun l hl => ?_⟩
  · rw [hrowid, h.rowid, hkept.rowid]
  · rw [hl, h.level, hkept.level]
  · rw [hvec, h.vec, hkept.vec]
  · rw [hdeleted, h.deleted, hkept.deleted]
  · by_cases hll : l = level
    · subst hll
      rw [n.nborsAt_addNbor j (h.levels ▸ hlevel)]
      exact (h.links l hlevel).connect j
    · rw [n.nborsAt_addNbor_ne j level hll]
      exact (h.links l hl).connect_ne j hll

section Code

variable [LinearOrder α] (distfunc : List α → List α → α) {ms : List (Node α)}
  {ns : List (HNSWNode α)}

omit [LinearOrder α] in
theorem linkOne_spec (h : NodesRep Created ms ns) {p c level : Nat} (hp : p < ns.length)
    (hc : c < ns.length) (hlevel : level < maxLevels) :
    ∃ ms', linkOne p level ms c = .ok ms' ∧
      NodesRep Created ms' (connectNodes (connectNodes ns p c level) c p level) := by
  obtain ⟨n, hn, hnrep⟩ := h.exists_left (List.getElem?_eq_getElem hp)
  obtain ⟨m, hm, hmrep⟩ := h.exists_left (List.getElem?_eq_getElem hc)
  refine ⟨(ms.modify p (·.connect m.id level)).modify c (·.connect n.id level), ?_, ?_⟩
  · simp only [linkOne, load_of_getElem? hn, load_of_getElem? hm, Except.ok_bind, Int.toNat_natCast]
    rfl
  · rw [hnrep.id, hmrep.id]
    exact (h.modify p fun m n hmn => hmn.connect c hlevel).modify c fun m n hmn =>
      hmn.connect p hlevel

def Node.core (m : Node α) : Int × Int32 × Nat × List α × Bool :=
  (m.id, m.rowid, m.level, m.vec, m.deleted)

omit [LinearOrder α] in
theorem NodesRep.core {known : Nat → HNSWNode α → Prop} (h : NodesRep known ms ns) :
    ms.map Node.core = ns.zipIdx.map fun x =>
      ((x.2 : Int), x.1.rowid, x.1.level, x.1.vec, x.1.deleted) := by
  apply List.ext_getElem?
  intro i
  rw [List.getElem?_map, List.getElem?_map, List.getElem?_zipIdx, Nat.zero_add]
  cases hn : ns[i]? with
  | none =>
    have hm : ms[i]? = none := by
      rw [List.getElem?_eq_none_iff, h.length]
      exact List.getElem?_eq_none_iff.mp hn
    rw [hm]
    rfl
  | some n =>
    obtain ⟨m, hm, hrep⟩ := h.exists_left hn
    rw [hm]
    simp only [Option.map_some, Node.core, hrep.id, hrep.rowid, hrep.level, hrep.vec, hrep.deleted]

theorem candidates_eq {known : Nat → HNSWNode α → Prop} (h : NodesRep known ms ns) {p : Nat}
    {m : Node α} {n : HNSWNode α} (hrep : NodeRep known p m n) (level : Nat) :
    candidates distfunc ms m level =
      (Hnsw.candidates distfunc ns p n.vec level).map Int.ofNat := by
  have hfound : (ms.filter fun c => !c.deleted && level ≤ c.level && c.id ≠ m.id).map
        (fun c => (c.id, distfunc m.vec c.vec)) =
      ((ns.zipIdx.filter fun x => !x.1.deleted && level ≤ x.1.level && x.2 ≠ p).map
        fun x => (x.2, distfunc n.vec x.1.vec)).map (Prod.map Int.ofNat id) := by
    have hleft : (ms.filter fun c => !c.deleted && level ≤ c.level && c.id ≠ m.id).map
        (fun c => (c.id, distfunc m.vec c.vec)) =
          ((ms.map Node.core).filter fun c =>
            !c.2.2.2.2 && level ≤ c.2.2.1 && c.1 ≠ (p : Int)).map
              fun c => (c.1, distfunc n.vec c.2.2.2.1) := by
      rw [List.filter_map, List.map_map, hrep.id, hrep.vec]
      rfl
    rw [hleft, h.core, List.filter_map, List.map_map, List.map_map]
    simp only [Function.comp_def, ne_eq, Nat.cast_inj]
    rfl
  unfold candidates Hnsw.candidates
  dsimp only
  have hkey : ∀ x : Nat × α, (Prod.map Int.ofNat id x).2 = x.2 := fun _ => rfl
  rw [hfound, Sorting.exchangeSort_map hkey, List.map_map, List.map_map]
  rfl

omit [LinearOrder α] in
theorem foldlM_linkOne_spec (h : NodesRep Created ms ns) {p level : Nat} (hp : p < ns.length)
    {cs : List Nat} (hcs : ∀ c ∈ cs, c < ns.length) (hlevel : level < maxLevels) :
    ∃ ms', (cs.map Int.ofNat).foldlM (linkOne p level) ms = .ok ms' ∧
      NodesRep Created ms' (cs.foldl (fun nodes nid =>
        connectNodes (connectNodes nodes p nid level) nid p level) ns) := by
  induction cs generalizing ms ns with
  | nil => exact ⟨ms, rfl, h⟩
  | cons c cs ih =>
    obtain ⟨ms₁, hms₁, hrep₁⟩ := linkOne_spec h hp (hcs c List.mem_cons_self) hlevel
    have hlen : (connectNodes (connectNodes ns p c level) c p level).length = ns.length := by
      rw [connectNodes, List.length_modify, connectNodes, List.length_modify]
    obtain ⟨ms₂, hms₂, hrep₂⟩ := ih hrep₁ (hlen ▸ hp)
      fun c' hc' => hlen ▸ hcs c' (List.mem_cons_of_mem c hc')
    refine ⟨ms₂, ?_, hrep₂⟩
    rw [List.map_cons, List.foldlM_cons]
    exact (congrArg (· >>= _) hms₁).trans hms₂

theorem linkLevel_spec (h : NodesRep Created ms ns) {p level : Nat} {n : HNSWNode α}
    (hn : ns[p]? = some n) (hlevel : level < maxLevels) :
    ∃ ms', linkLevel distfunc p ms level = .ok ms' ∧
      NodesRep Created ms' (Hnsw.linkLevel distfunc p n.vec ns level) := by
  obtain ⟨m, hm, hrep⟩ := h.exists_left hn
  have hcs : ∀ c ∈ chosen distfunc ns p n.vec level, c < ns.length := fun c hc => by
    obtain ⟨-, k, hk, -⟩ := mem_chosen distfunc hc
    exact (List.getElem?_eq_some_iff.mp hk).1
  obtain ⟨ms', hms', hrep'⟩ := foldlM_linkOne_spec h (List.getElem?_eq_some_iff.mp hn).1 hcs hlevel
  refine ⟨ms', ?_, hrep'⟩
  rw [linkLevel, load_of_getElem? hm, Except.ok_bind, candidates_eq distfunc h hrep,
    ← List.map_take]
  exact hms'

theorem foldlM_linkLevel_spec (h : NodesRep Created ms ns) {p : Nat} {vec : List α}
    (hp : ∃ n, ns[p]? = some n ∧ n.vec = vec) {levels : List Nat}
    (hlevels : ∀ l ∈ levels, l < maxLevels) :
    ∃ ms', levels.foldlM (linkLevel distfunc p) ms = .ok ms' ∧
      NodesRep Created ms' (levels.foldl (Hnsw.linkLevel distfunc p vec) ns) := by
  induction levels generalizing ms ns with
  | nil => exact ⟨ms, rfl, h⟩
  | cons l levels ih =>
    obtain ⟨n, hn, rfl⟩ := hp
    obtain ⟨ms₁, hms₁, hrep₁⟩ := linkLevel_spec distfunc h hn (hlevels l List.mem_cons_self)
    have hp₁ : ∃ n', (Hnsw.linkLevel distfunc p n.vec ns l)[p]? = some n' ∧ n'.vec = n.vec := by
      refine ⟨_, ?_, (kept_linkNode p l (chosen distfunc ns p n.vec l) p n).vec⟩
      rw [linkLevel_eq, List.getElem?_mapIdx, hn]
      rfl
    obtain ⟨ms₂, hms₂, hrep₂⟩ := ih hrep₁ hp₁ fun l' hl' => hlevels l' (List.mem_cons_of_mem l hl')
    refine ⟨ms₂, ?_, hrep₂⟩
    rw [List.foldlM_cons, hms₁]
    exact hms₂

end Code

end SqliteMultimodal.Vec.Hnsw.Memory
