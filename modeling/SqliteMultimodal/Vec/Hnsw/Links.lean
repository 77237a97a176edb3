import SqliteMultimodal.Vec.Hnsw.Defs

namespace SqliteMultimodal.Vec.Hnsw

variable {α : Type}

structure HNSWNode.Kept (n n' : HNSWNode α) : Prop where
  rowid : n'.rowid = n.rowid
  level : n'.level = n.level
  vec : n'.vec = n.vec
  deleted : n'.deleted = n.deleted
  levels : n'.nbors.length = n.nbors.length

theorem HNSWNode.Kept.refl (n : HNSWNode α) : n.Kept n := ⟨rfl, rfl, rfl, rfl, rfl⟩

theorem HNSWNode.Kept.trans {a b c : HNSWNode α} (hab : a.Kept b) (hbc : b.Kept c) : a.Kept c where
  rowid := hbc.rowid.trans hab.rowid
  level := hbc.level.trans hab.level
  vec := hbc.vec.trans hab.vec
  deleted := hbc.deleted.trans hab.deleted
  levels := hbc.levels.trans hab.levels

theorem HNSWNode.Kept.foldl {β : Type} {f : HNSWNode α → β → HNSWNode α}
    (h : ∀ (n : HNSWNode α) b, n.Kept (f n b)) (bs : List β) (n : HNSWNode α) :
    n.Kept (bs.foldl f n) := by
  induction bs generalizing n with
  | nil => exact .refl n
  | cons b bs ih => exact (h n b).trans (ih (f n b))

def addLink (nbors : List Nat) (id : Nat) : List Nat :=
  if nbors.length < maxNeighbors then nbors ++ [id] else nbors

theorem foldl_addLink {nbors cs : List Nat} (hroom : nbors.length + cs.length ≤ maxNeighbors) :
    cs.foldl addLink nbors = nbors ++ cs := by
  induction cs generalizing nbors with
  | nil => exact (List.append_nil _).symm
  | cons c cs ih =>
    rw [List.length_cons] at hroom
    have hadd : addLink nbors c = nbors ++ [c] := if_pos (by omega)
    rw [List.foldl_cons, hadd, ih (by
      rw [List.length_append, List.length_singleton]
      omega), List.append_assoc, List.singleton_append]

section Node

variable (n : HNSWNode α) (id level : Nat)

theorem HNSWNode.kept_addNbor : n.Kept (n.addNbor id level) := by
  unfold addNbor
  split
  · exact ⟨rfl, rfl, rfl, rfl, List.length_set⟩
  · exact .refl n

theorem HNSWNode.nborsAt_addNbor_ne {l : Nat} (h : l ≠ level) :
    (n.addNbor id level).nborsAt l = n.nborsAt l := by
  unfold addNbor
  split
  · simp only [nborsAt, List.getD_eq_getElem?_getD, List.getElem?_set_ne h.symm]
  · rfl

variable {n level}

theorem HNSWNode.nborsAt_addNbor (hlevel : level < n.nbors.length) :
    (n.addNbor id level).nborsAt level = addLink (n.nborsAt level) id := by
  unfold addNbor addLink
  split
  · simp only [nborsAt, List.getD_eq_getElem?_getD, List.getElem?_set_self hlevel, Option.getD_some]
  · rfl

theorem HNSWNode.nborsAt_foldl_addNbor (cs : List Nat) (hlevel : level < n.nbors.length) :
    (cs.foldl (fun n c => n.addNbor c level) n).nborsAt level =
      cs.foldl addLink (n.nborsAt level) := by
  induction cs generalizing n with
  | nil => rfl
  | cons c cs ih =>
    have hlevel' : level < (n.addNbor c level).nbors.length := by
      rwa [(n.kept_addNbor c level).levels]
    rw [List.foldl_cons, ih hlevel', nborsAt_addNbor c hlevel, List.foldl_cons]

end Node

section Level

variable (id level : Nat) (cs : List Nat) (i : Nat) (n : HNSWNode α)

/-- What linking node `id` with `cs` at this level does to the node at place `i`. -/
def linkNode : HNSWNode α :=
  if i = id then cs.foldl (fun n c => n.addNbor c level) n
  else if i ∈ cs then n.addNbor id level else n

theorem kept_linkNode : n.Kept (linkNode id level cs i n) := by
  unfold linkNode
  split_ifs
  · exact .foldl (fun n c => n.kept_addNbor c level) cs n
  · exact n.kept_addNbor id level
  · exact .refl n

theorem nborsAt_linkNode_ne {l : Nat} (h : l ≠ level) :
    (linkNode id level cs i n).nborsAt l = n.nborsAt l := by
  unfold linkNode
  split_ifs
  · induction cs generalizing n with
    | nil => rfl
    | cons c cs ih => rw [List.foldl_cons, ih, n.nborsAt_addNbor_ne c level h]
  · exact n.nborsAt_addNbor_ne id level h
  · rfl

def linkNbors (nbors : List Nat) : List Nat :=
  if i = id then cs.foldl addLink nbors else if i ∈ cs then addLink nbors id else nbors

variable {level n} in
theorem nborsAt_linkNode (hlevel : level < n.nbors.length) :
    (linkNode id level cs i n).nborsAt level = linkNbors id cs i (n.nborsAt level) := by
  unfold linkNode linkNbors
  split_ifs
  · exact n.nborsAt_foldl_addNbor cs hlevel
  · exact n.nborsAt_addNbor id hlevel
  · rfl

theorem linkNode_nil : linkNode id level [] i n = n := by
  unfold linkNode
  split <;> rfl

variable {id cs} in
theorem linkNode_cons {c : Nat} (hc : c ≠ id) (hcs : c ∉ cs) (h : id ∉ cs) :
    linkNode id level (c :: cs) i n =
      linkNode id level cs i
        (if i = c then n.addNbor id level else if i = id then n.addNbor c level else n) := by
  unfold linkNode
  by_cases hid : i = id
  · subst hid
    rw [if_pos rfl, if_pos rfl, if_neg hc.symm, if_pos rfl, List.foldl_cons]
  · by_cases hic : i = c
    · subst hic
      rw [if_neg hid, if_neg hid, if_pos List.mem_cons_self, if_neg hcs, if_pos rfl]
    · simp only [if_neg hid, if_neg hic, List.mem_cons, or_iff_right hic]

end Level

/-- What linking node `id` at these levels, with `cs l` at level `l`, does to the node at
place `i`. -/
def linkLevels (id : Nat) (cs : Nat → List Nat) (levels : List Nat) (i : Nat) (n : HNSWNode α) :
    HNSWNode α :=
  levels.foldl (fun n l => linkNode id l (cs l) i n) n

theorem kept_linkLevels (id : Nat) (cs : Nat → List Nat) (levels : List Nat) (i : Nat)
    (n : HNSWNode α) : n.Kept (linkLevels id cs levels i n) :=
  .foldl (fun n l => kept_linkNode id l (cs l) i n) levels n

theorem nborsAt_linkLevels {id : Nat} {cs : Nat → List Nat} {levels : List Nat}
    (hnodup : levels.Nodup) (i : Nat) {n : HNSWNode α} {l : Nat} (hl : l < n.nbors.length) :
    (linkLevels id cs levels i n).nborsAt l =
      if l ∈ levels then linkNbors id (cs l) i (n.nborsAt l) else n.nborsAt l := by
  induction levels generalizing n with
  | nil => rfl
  | cons k levels ih =>
    obtain ⟨hk, hnodup⟩ := List.nodup_cons.mp hnodup
    have hl' : l < (linkNode id k (cs k) i n).nbors.length := by
      rwa [(kept_linkNode id k (cs k) i n).levels]
    have hcons : linkLevels id cs (k :: levels) i n =
        linkLevels id cs levels i (linkNode id k (cs k) i n) := rfl
    rw [hcons, ih hnodup hl']
    by_cases hlk : l = k
    · subst hlk
      rw [if_neg hk, if_pos List.mem_cons_self, nborsAt_linkNode id (cs l) i hl]
    · rw [nborsAt_linkNode_ne id k (cs k) i n hlk]
      simp only [List.mem_cons, or_iff_right hlk]

theorem getElem?_connectNodes (nodes : List (HNSWNode α)) (a b level i : Nat) :
    (connectNodes nodes a b level)[i]? =
      nodes[i]?.map fun n => if i = a then n.addNbor b level else n := by
  rw [connectNodes, List.getElem?_modify]
  by_cases h : i = a
  · simp [h]
  · simp [h, Ne.symm h]

theorem foldl_connectNodes {id level : Nat} {cs : List Nat} (hnodup : cs.Nodup) (hid : id ∉ cs)
    (nodes : List (HNSWNode α)) :
    cs.foldl (fun nodes nid => connectNodes (connectNodes nodes id nid level) nid id level) nodes =
      nodes.mapIdx (linkNode id level cs) := by
  induction cs generalizing nodes with
  | nil =>
    apply List.ext_getElem?
    intro i
    rw [List.getElem?_mapIdx, funext (linkNode_nil id level i)]
    exact Option.map_id'.symm
  | cons c cs ih =>
    obtain ⟨hc, hnodup⟩ := List.nodup_cons.mp hnodup
    rw [List.mem_cons, not_or] at hid
    rw [List.foldl_cons, ih hnodup hid.2]
    apply List.ext_getElem?
    intro i
    rw [List.getElem?_mapIdx, List.getElem?_mapIdx, getElem?_connectNodes, getElem?_connectNodes,
      Option.map_map, Option.map_map]
    congr 1
    funext n
    rw [linkNode_cons level i n (Ne.symm hid.1) hc hid.2]
    simp only [Function.comp_apply]
    by_cases hic : i = c
    · subst hic
      rw [if_neg (Ne.symm hid.1)]
    · rw [if_neg hic, if_neg hic]

section Code

variable [LinearOrder α] (distfunc : List α → List α → α) (randomLevel : Nat → Nat)

/-- The neighbours that node `id` gets at this level. -/
def chosen (nodes : List (HNSWNode α)) (id : Nat) (vec : List α) (level : Nat) : List Nat :=
  (candidates distfunc nodes id vec level).take maxNeighbors

theorem candidates_mapIdx {f : Nat → HNSWNode α → HNSWNode α}
    (hf : ∀ i (n : HNSWNode α), n.Kept (f i n))
    (nodes : List (HNSWNode α)) (id : Nat) (vec : List α) (level : Nat) :
    candidates distfunc (nodes.mapIdx f) id vec level = candidates distfunc nodes id vec level := by
  have hzip : (nodes.mapIdx f).zipIdx = nodes.zipIdx.map fun x => (f x.2 x.1, x.2) := by
    apply List.ext_getElem?
    intro i
    simp only [List.getElem?_zipIdx, List.getElem?_mapIdx, List.getElem?_map, Option.map_map,
      Function.comp_def, Nat.zero_add]
  unfold candidates
  simp only [hzip, List.filter_map, List.map_map, Function.comp_def, (hf _ _).deleted,
    (hf _ _).level, (hf _ _).vec]

theorem candidates_perm (nodes : List (HNSWNode α)) (id : Nat) (vec : List α) (level : Nat) :
    (candidates distfunc nodes id vec level).Perm
      ((nodes.zipIdx.filter fun x => !x.1.deleted && level ≤ x.1.level && x.2 ≠ id).map
        Prod.snd) := by
  refine ((Sorting.exchangeSort_perm Prod.snd _).map Prod.fst).trans ?_
  rw [List.map_map]
  exact .refl _

theorem mem_candidates {nodes : List (HNSWNode α)} {id : Nat} {vec : List α} {level j : Nat} :
    j ∈ candidates distfunc nodes id vec level ↔
      j ≠ id ∧ ∃ n, nodes[j]? = some n ∧ n.deleted = false ∧ level ≤ n.level := by
  rw [(candidates_perm distfunc nodes id vec level).mem_iff]
  simp only [List.mem_map, List.mem_filter, List.mem_zipIdx_iff_getElem?, Bool.and_eq_true,
    Bool.not_eq_true', decide_eq_true_eq]
  constructor
  · rintro ⟨⟨n, k⟩, ⟨hk, ⟨hlive, hlevel⟩, hne⟩, rfl⟩
    exact ⟨hne, n, hk, hlive, hlevel⟩
  · rintro ⟨hne, n, hn, hlive, hlevel⟩
    exact ⟨(n, j), ⟨hn, ⟨hlive, hlevel⟩, hne⟩, rfl⟩

theorem nodup_candidates (nodes : List (HNSWNode α)) (id : Nat) (vec : List α) (level : Nat) :
    (candidates distfunc nodes id vec level).Nodup := by
  rw [(candidates_perm distfunc nodes id vec level).nodup_iff]
  refine List.Nodup.sublist (List.filter_sublist.map Prod.snd) ?_
  rw [List.zipIdx_map_snd]
  exact List.nodup_range'

theorem mem_chosen {nodes : List (HNSWNode α)} {id : Nat} {vec : List α} {level j : Nat}
    (h : j ∈ chosen distfunc nodes id vec level) :
    j ≠ id ∧ ∃ n, nodes[j]? = some n ∧ n.deleted = false ∧ level ≤ n.level :=
  (mem_candidates distfunc).mp (List.mem_of_mem_take h)

theorem nodup_chosen (nodes : List (HNSWNode α)) (id : Nat) (vec : List α) (level : Nat) :
    (chosen distfunc nodes id vec level).Nodup :=
  (nodup_candidates distfunc nodes id vec level).sublist (List.take_sublist ..)

theorem length_chosen_le (nodes : List (HNSWNode α)) (id : Nat) (vec : List α) (level : Nat) :
    (chosen distfunc nodes id vec level).length ≤ maxNeighbors :=
  List.length_take_le ..

theorem linkLevel_eq (id : Nat) (vec : List α) (nodes : List (HNSWNode α)) (level : Nat) :
    linkLevel distfunc id vec nodes level =
      nodes.mapIdx (linkNode id level (chosen distfunc nodes id vec level)) :=
  foldl_connectNodes (nodup_chosen distfunc nodes id vec level)
    (fun h => (mem_chosen distfunc h).1 rfl) nodes

theorem foldl_linkLevel (id : Nat) (vec : List α) (nodes : List (HNSWNode α)) (levels : List Nat) :
    levels.foldl (linkLevel distfunc id vec) nodes =
      nodes.mapIdx (linkLevels id (chosen distfunc nodes id vec) levels) := by
  induction levels generalizing nodes with
  | nil =>
    apply List.ext_getElem?
    intro i
    rw [List.getElem?_mapIdx]
    exact Option.map_id'.symm
  | cons l levels ih =>
    have hchosen : chosen distfunc (linkLevel distfunc id vec nodes l) id vec =
        chosen distfunc nodes id vec := by
      funext k
      rw [chosen, linkLevel_eq, candidates_mapIdx distfunc fun i n => kept_linkNode id l _ i n,
        chosen]
    rw [List.foldl_cons, ih, hchosen, linkLevel_eq, List.mapIdx_mapIdx]
    rfl

theorem candidates_concat (nodes : List (HNSWNode α)) (n : HNSWNode α) (vec : List α)
    (level : Nat) :
    candidates distfunc (nodes ++ [n]) nodes.length vec level =
      candidates distfunc nodes nodes.length vec level := by
  unfold candidates
  rw [List.zipIdx_append, List.filter_append]
  simp

/-- The node at place `i` of `nodes` after a node of level `level` with vector `vec` has been added
behind them. -/
def linked (nodes : List (HNSWNode α)) (vec : List α) (level i : Nat) (n : HNSWNode α) :
    HNSWNode α :=
  linkLevels nodes.length (chosen distfunc nodes nodes.length vec)
    (List.range (level + 1)).reverse i n

theorem kept_linked (nodes : List (HNSWNode α)) (vec : List α) (level i : Nat) (n : HNSWNode α) :
    n.Kept (linked distfunc nodes vec level i n) :=
  kept_linkLevels ..

def added (rowid : Int32) (vec : List α) (level : Nat) (nodes : List (HNSWNode α)) :
    List (HNSWNode α) :=
  (nodes ++ [nodeCreate rowid vec level]).mapIdx (linked distfunc nodes vec level)

theorem candidates_added (rowid : Int32) (vec : List α) (level : Nat) (nodes : List (HNSWNode α))
    (vec' : List α) (l : Nat) :
    candidates distfunc (added distfunc rowid vec level nodes) nodes.length vec' l =
      candidates distfunc nodes nodes.length vec' l := by
  rw [added, candidates_mapIdx distfunc (kept_linked distfunc nodes vec level), candidates_concat]

omit [LinearOrder α] in
theorem linkLevels_nil (id : Nat) (levels : List Nat) (i : Nat) (n : HNSWNode α) :
    linkLevels id (fun _ => []) levels i n = n := by
  induction levels generalizing n with
  | nil => rfl
  | cons l levels ih =>
    have hcons : linkLevels id (fun _ => []) (l :: levels) i n =
        linkLevels id (fun _ => []) levels i (linkNode id l [] i n) := rfl
    rw [hcons, linkNode_nil, ih]

theorem hnswAdd_nodes {h : HNSW α} (hroom : h.nodes.length < h.maxNodes)
    (hempty : h.entryId = none → h.nodes = []) (vec : List α) (rowid : Int32) :
    (hnswAdd distfunc randomLevel h vec rowid).1.nodes =
      added distfunc rowid vec (randomLevel h.nodes.length) h.nodes := by
  have hlinked : (List.range (randomLevel h.nodes.length + 1)).reverse.foldl
      (linkLevel distfunc h.nodes.length vec)
      (h.nodes ++ [nodeCreate rowid vec (randomLevel h.nodes.length)]) =
        added distfunc rowid vec (randomLevel h.nodes.length) h.nodes := by
    rw [foldl_linkLevel]
    have hchosen : chosen distfunc
        (h.nodes ++ [nodeCreate rowid vec (randomLevel h.nodes.length)]) h.nodes.length vec =
          chosen distfunc h.nodes h.nodes.length vec := by
      funext l
      rw [chosen, candidates_concat, chosen]
    rw [hchosen]
    rfl
  unfold hnswAdd
  rw [if_neg (Nat.not_le.mpr hroom)]
  dsimp only
  split
  next hnone =>
    rw [hempty hnone]
    exact congrArg (· :: []) (linkLevels_nil ..).symm
  next =>
    split
    · exact hlinked
    · exact hlinked

theorem hnswAdd_entry_none {h : HNSW α} (hroom : h.nodes.length < h.maxNodes)
    (hnone : h.entryId = none) (vec : List α) (rowid : Int32) :
    (hnswAdd distfunc randomLevel h vec rowid).1.entryId = some 0 ∧
      (hnswAdd distfunc randomLevel h vec rowid).1.maxLevel = randomLevel h.nodes.length := by
  unfold hnswAdd
  rw [if_neg (Nat.not_le.mpr hroom), hnone]
  exact ⟨rfl, rfl⟩

theorem hnswAdd_entry_some {h : HNSW α} (hroom : h.nodes.length < h.maxNodes) {entryId : Nat}
    (hsome : h.entryId = some entryId) (vec : List α) (rowid : Int32) :
    if h.maxLevel < randomLevel h.nodes.length then
      (hnswAdd distfunc randomLevel h vec rowid).1.entryId = some h.nodes.length ∧
        (hnswAdd distfunc randomLevel h vec rowid).1.maxLevel = randomLevel h.nodes.length
    else
      (hnswAdd distfunc randomLevel h vec rowid).1.entryId = some entryId ∧
        (hnswAdd distfunc randomLevel h vec rowid).1.maxLevel = h.maxLevel := by
  unfold hnswAdd
  rw [if_neg (Nat.not_le.mpr hroom), hsome]
  dsimp only [nodeCreate]
  split
  · exact ⟨rfl, rfl⟩
  · exact ⟨rfl, rfl⟩

theorem maxNodes_hnswAdd (h : HNSW α) (vec : List α) (rowid : Int32) :
    (hnswAdd distfunc randomLevel h vec rowid).1.maxNodes = h.maxNodes := by
  unfold hnswAdd
  dsimp only
  split_ifs
  · rfl
  · split <;> rfl
  · split <;> rfl

section Linked

variable {nodes : List (HNSWNode α)} {vec : List α} {level i l : Nat} {n : HNSWNode α}

variable (vec level) in
theorem nborsAt_linked (hl : l < n.nbors.length) :
    (linked distfunc nodes vec level i n).nborsAt l =
      if l ≤ level then
        linkNbors nodes.length (chosen distfunc nodes nodes.length vec l) i (n.nborsAt l)
      else n.nborsAt l := by
  rw [linked, nborsAt_linkLevels (List.nodup_reverse.mpr List.nodup_range) i hl]
  simp only [List.mem_reverse, List.mem_range, Nat.lt_succ_iff]

omit [LinearOrder α] in
theorem nborsAt_nodeCreate (rowid : Int32) (vec : List α) (level l : Nat) :
    (nodeCreate rowid vec level).nborsAt l = [] := by
  rw [nodeCreate, HNSWNode.nborsAt, List.getD_eq_getElem?_getD, List.getElem?_replicate]
  split <;> rfl

theorem nborsAt_linked_new (rowid : Int32) (hl : l < maxLevels) :
    (linked distfunc nodes vec level nodes.length (nodeCreate rowid vec level)).nborsAt l =
      if l ≤ level then chosen distfunc nodes nodes.length vec l else [] := by
  have hlen : l < (nodeCreate rowid vec level).nbors.length := by
    rwa [nodeCreate, List.length_replicate]
  rw [nborsAt_linked distfunc vec level hlen, nborsAt_nodeCreate, linkNbors, if_pos rfl,
    foldl_addLink (by
    rw [List.length_nil, Nat.zero_add]
    exact length_chosen_le ..), List.nil_append]

theorem nborsAt_linked_old (hi : i < nodes.length) (hl : l < n.nbors.length) :
    (linked distfunc nodes vec level i n).nborsAt l =
      if l ≤ level ∧ i ∈ chosen distfunc nodes nodes.length vec l then
        addLink (n.nborsAt l) nodes.length
      else n.nborsAt l := by
  rw [nborsAt_linked distfunc vec level hl, linkNbors, if_neg (Nat.ne_of_lt hi)]
  by_cases hle : l ≤ level
  · simp only [hle, if_true, true_and]
  · rw [if_neg hle, if_neg fun h => hle h.1]

theorem nborsAt_linked_full (hi : i < nodes.length) (hl : l < n.nbors.length)
    (hfull : maxNeighbors ≤ (n.nborsAt l).length) :
    (linked distfunc nodes vec level i n).nborsAt l = n.nborsAt l := by
  rw [nborsAt_linked_old distfunc hi hl, addLink, if_neg (Nat.not_lt.mpr hfull), ite_self]

theorem nborsAt_linked_room (hi : i < nodes.length) (hl : l < n.nbors.length)
    (hroom : (n.nborsAt l).length < maxNeighbors) (hle : l ≤ level)
    (hmem : i ∈ chosen distfunc nodes nodes.length vec l) :
    (linked distfunc nodes vec level i n).nborsAt l = n.nborsAt l ++ [nodes.length] := by
  rw [nborsAt_linked_old distfunc hi hl, if_pos ⟨hle, hmem⟩, addLink, if_pos hroom]

end Linked

end Code

end SqliteMultimodal.Vec.Hnsw
