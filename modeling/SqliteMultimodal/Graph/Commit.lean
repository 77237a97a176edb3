import SqliteMultimodal.Graph.Reach

namespace SqliteMultimodal.Graph

variable {host : Host} {s t : Session} {store : Store} {op : CypherWriteOp} {n e : Int}

section Marked

def NodeMarked (n : Int) (store : Store) : Prop := store.nodes.get n ≠ some ⟨none, none⟩

def EdgeMarked (e : Int) (store : Store) : Prop :=
  ∀ row, store.edges.get e = some row → row.edgeType ≠ none

theorem NodeMarked.updateNode {iNodeId : Int} {f : NodeRow → Option NodeRow}
    (h : NodeMarked n store) (hf : ∀ row, f row ≠ some ⟨none, none⟩) :
    NodeMarked n (updateNode store iNodeId f).2 := by
  unfold NodeMarked
  rw [get_updateNode]
  split
  next =>
    intro heq
    obtain ⟨row, hrow, heq⟩ := Option.map_eq_some_iff.mp heq
    cases hfrow : f row with
    | none =>
      rw [hfrow] at heq
      exact h (hrow.trans (congrArg some heq))
    | some row' =>
      rw [hfrow] at heq
      exact hf row (hfrow.trans (congrArg some heq))
  next => exact h

theorem NodeMarked.insertNode {iNodeId : Int} {row : NodeRow} (h : NodeMarked n store)
    (hrow : row.labels ≠ none) : NodeMarked n (insertNode store iNodeId row).2 := by
  obtain ⟨heq, -⟩ | ⟨key, nodes, -, hinsert, heq⟩ := insertNode_cases store iNodeId row
  · rw [heq]
    exact h
  · rw [heq]
    show nodes.get n ≠ _
    rw [(RowTable.insert_eq_some hinsert).2]
    split
    next => exact fun heq => hrow (congrArg NodeRow.labels (Option.some.inj heq))
    next => exact h

theorem NodeMarked.cypherStorageDeleteNode {iNodeId : Int} {bDetach : Bool}
    (h : NodeMarked n store) : NodeMarked n (cypherStorageDeleteNode store iNodeId bDetach).2 := by
  unfold NodeMarked
  rw [get_nodes_cypherStorageDeleteNode]
  split
  next => simp
  next => exact h

theorem NodeMarked.appendLabel {iNodeId : Int} {zLabel : Text} (h : NodeMarked n store) :
    NodeMarked n (appendLabel host store iNodeId zLabel).2 := by
  unfold Graph.appendLabel
  split
  next => exact h
  next =>
    refine h.updateNode fun row heq => ?_
    obtain ⟨l, -, hl⟩ := Option.map_eq_some_iff.mp heq
    exact Option.some_ne_none l (congrArg NodeRow.labels hl)

theorem NodeMarked.executeOperation (h : NodeMarked n store) (hop : op.WellFormed) :
    NodeMarked n (executeOperation host store op).2.1 := by
  unfold Graph.executeOperation
  split
  next =>
    dsimp only
    rw [cypherStorageAddNode_eq]
    exact h.insertNode (by simp)
  next =>
    dsimp only
    unfold NodeMarked
    rw [nodes_cypherStorageAddEdge]
    exact h
  next =>
    unfold executeMerge
    dsimp only
    split
    next => exact h
    next =>
      dsimp only
      rw [cypherStorageAddNode_eq]
      exact h.insertNode (by simp)
  next htype =>
    have hpos : 0 < op.iNodeId ∧ op.iRelId = 0 := by
      simpa only [CypherWriteOp.WellFormed, htype] using hop
    dsimp only
    rw [hpos.2, snd_cypherStorageUpdateProperties hpos.1]
    exact h.updateNode fun row heq => propertySet_properties heq rfl
  next => exact h.appendLabel
  next => exact h.cypherStorageDeleteNode
  next => exact h.cypherStorageDeleteNode
  next =>
    dsimp only
    unfold NodeMarked
    rw [nodes_cypherStorageDeleteEdge]
    exact h
  all_goals exact h

theorem EdgeMarked.mono {store' : Store} (h : EdgeMarked e store)
    (hget : ∀ row, store'.edges.get e = some row → store.edges.get e = some row) :
    EdgeMarked e store' :=
  fun row hrow => h row (hget row hrow)

theorem EdgeMarked.cypherStorageAddEdge {iEdgeId iFromId iToId : Int} {zType : Option Text}
    {rWeight : ℚ} {zProperties : Option Text} (h : EdgeMarked e store) (htype : zType ≠ none) :
    EdgeMarked e
      (cypherStorageAddEdge store iEdgeId iFromId iToId zType rWeight zProperties).2 := by
  unfold Graph.cypherStorageAddEdge
  rw [literalOrNull_eq, literalOrNull_eq]
  split
  next => exact h
  next =>
    dsimp only
    obtain ⟨heq, -⟩ | ⟨_, edges, -, hinsert, heq⟩ := insertEdge_cases store iEdgeId
      ⟨iFromId, iToId, zType, rWeight, zProperties⟩
    · rw [heq]
      exact h
    · rw [heq]
      intro row hrow
      change edges.get e = some row at hrow
      rw [(RowTable.insert_eq_some hinsert).2] at hrow
      split at hrow
      next =>
        cases hrow
        exact htype
      next => exact h row hrow

theorem EdgeMarked.cypherStorageDeleteNode {iNodeId : Int} {bDetach : Bool}
    (h : EdgeMarked e store) : EdgeMarked e (cypherStorageDeleteNode store iNodeId bDetach).2 := by
  refine h.mono fun row hrow => ?_
  rw [get_edges_cypherStorageDeleteNode, Option.filter_eq_some_iff] at hrow
  exact hrow.1

theorem EdgeMarked.executeOperation (h : EdgeMarked e store) (hop : op.WellFormed) :
    EdgeMarked e (executeOperation host store op).2.1 := by
  unfold Graph.executeOperation
  split
  next =>
    dsimp only
    rw [cypherStorageAddNode_eq]
    exact h.mono fun row hrow => by rwa [edges_insertNode] at hrow
  next htype =>
    have hrel : 0 < op.iRelId ∧ op.zRelType ≠ none := by
      simpa only [CypherWriteOp.WellFormed, htype] using hop
    dsimp only
    rw [if_neg hrel.1.ne']
    exact h.cypherStorageAddEdge hrel.2
  next =>
    unfold executeMerge
    dsimp only
    split
    next => exact h
    next =>
      dsimp only
      rw [cypherStorageAddNode_eq]
      exact h.mono fun row hrow => by rwa [edges_insertNode] at hrow
  next htype =>
    have hpos : 0 < op.iNodeId ∧ op.iRelId = 0 := by
      simpa only [CypherWriteOp.WellFormed, htype] using hop
    dsimp only
    rw [hpos.2, snd_cypherStorageUpdateProperties hpos.1]
    exact h.mono fun row hrow => by rwa [updateNode_edges] at hrow
  next =>
    dsimp only
    unfold appendLabel
    split
    next => exact h
    next => exact h.mono fun row hrow => by rwa [updateNode_edges] at hrow
  next => exact h.cypherStorageDeleteNode
  next => exact h.cypherStorageDeleteNode
  next =>
    refine h.mono fun row hrow => ?_
    rw [get_cypherStorageDeleteEdge] at hrow
    split at hrow
    next => cases hrow
    next => exact hrow
  all_goals exact h

def Marked (n e : Int) (store : Store) : Prop := NodeMarked n store ∨ EdgeMarked e store

theorem Marked.cypherExecuteOperations {ops : List CypherWriteOp} (h : Marked n e store)
    (hops : ∀ op ∈ ops, op.WellFormed) :
    Marked n e (cypherExecuteOperations host store ops).2.1 := by
  induction ops generalizing store with
  | nil => exact h
  | cons op ops ih =>
    have hop := hops op List.mem_cons_self
    have hmarked : Marked n e (executeOperation host store op).2.1 :=
      h.imp (fun hn => hn.executeOperation hop) (fun he => he.executeOperation hop)
    obtain ⟨-, heq⟩ | ⟨-, heq⟩ := cypherExecuteOperations_cons host store op ops
    · rw [heq]
      exact hmarked
    · rw [heq]
      exact ih hmarked fun op hmem => hops op (List.mem_cons_of_mem _ hmem)

end Marked

section Blank

def blankNode : NodeRow := ⟨none, none⟩

def blankEdge : EdgeRow := ⟨1, 1, none, 1, none⟩

def blankStore (n e : Int) : Store :=
  ⟨⟨[(n, blankNode)], List.pairwise_singleton _ _⟩, ⟨[(e, blankEdge)], List.pairwise_singleton _ _⟩⟩

theorem get_nodes_blankStore (n e : Int) : (blankStore n e).nodes.get n = some blankNode :=
  RowTable.get_eq_some.mpr (List.mem_singleton.mpr rfl)

theorem get_edges_blankStore (n e : Int) : (blankStore n e).edges.get e = some blankEdge :=
  RowTable.get_eq_some.mpr (List.mem_singleton.mpr rfl)

theorem not_marked_blankStore (n e : Int) : ¬Marked n e (blankStore n e) := by
  intro h
  obtain h | h := h
  · exact h (get_nodes_blankStore n e)
  · exact h blankEdge (get_edges_blankStore n e) rfl

theorem executeOperation_mergeNode (htype : op.type = .mergeNode) :
    executeOperation host store op = executeMerge host store op := by
  unfold executeOperation
  rw [htype]

theorem executeOperation_merge_blankStore (hpos : 0 < n) (htype : op.type = .mergeNode) :
    executeOperation host (blankStore n e) op = (.ok, blankStore n e, { op with iNodeId := n }) := by
  have hfound : cypherFindMatchingNode host (blankStore n e) [] [] = n := rfl
  rw [executeOperation_mergeNode htype, executeMerge, hfound]
  exact if_pos hpos

theorem updateNode_blankStore (f : NodeRow → Option NodeRow) (hf : f blankNode ≠ some blankNode)
    (hok : (updateNode (blankStore n e) n f).1 = .ok) :
    Marked n e (updateNode (blankStore n e) n f).2 := by
  refine .inl ?_
  unfold NodeMarked
  rw [get_updateNode, if_pos rfl, get_nodes_blankStore]
  unfold updateNode at hok
  rw [get_nodes_blankStore] at hok
  dsimp only at hok
  cases hrow : f blankNode with
  | none =>
    rw [hrow] at hok
    cases hok
  | some row =>
    rw [Option.map_some, hrow, Option.getD_some, ← hrow]
    exact hf

theorem insertNode_blankStore (hpos : 0 < n) (row : NodeRow) :
    (insertNode (blankStore n e) n row).1 ≠ .ok := by
  obtain ⟨heq, -⟩ | ⟨key, nodes, hkey, hinsert, -⟩ := insertNode_cases (blankStore n e) n row
  · rw [heq]
    simp
  · have hnone := (RowTable.insert_eq_some hinsert).1
    rw [hkey hpos, get_nodes_blankStore] at hnone
    cases hnone

theorem cypherStorageAddEdge_blankStore (hpos : 0 < e) (iFromId iToId : Int) (zType : Option Text)
    (rWeight : ℚ) (zProperties : Option Text) :
    (cypherStorageAddEdge (blankStore n e) e iFromId iToId zType rWeight zProperties).1 ≠ .ok := by
  rw [cypherStorageAddEdge, literalOrNull_eq, literalOrNull_eq]
  split
  next => simp
  next =>
    dsimp only
    obtain ⟨heq, -⟩ | ⟨key, edges, hkey, hinsert, -⟩ :=
      insertEdge_cases (blankStore n e) e ⟨iFromId, iToId, zType, rWeight, zProperties⟩
    · rw [heq]
      simp
    · have hnone := (RowTable.insert_eq_some hinsert).1
      rw [hkey hpos, get_edges_blankStore] at hnone
      cases hnone

theorem cypherStorageUpdateProperties_blankStore (hpos : 0 < n) {zProperty : Option Text}
    {pValue : Option CypherValue}
    (hok : (cypherStorageUpdateProperties host (blankStore n e) n 0 zProperty pValue).1 = .ok) :
    Marked n e (cypherStorageUpdateProperties host (blankStore n e) n 0 zProperty pValue).2 := by
  cases zProperty with
  | none => cases hok
  | some zProperty =>
    cases pValue with
    | none => cases hok
    | some value =>
      rw [cypherStorageUpdateProperties_eq hpos] at hok ⊢
      refine updateNode_blankStore _ (fun heq => ?_) hok
      obtain ⟨p, -, hp⟩ := Option.map_eq_some_iff.mp heq
      exact Option.some_ne_none p (congrArg NodeRow.properties hp)

theorem appendLabel_blankStore {zLabel : Text}
    (hok : (appendLabel host (blankStore n e) n zLabel).1 = .ok) :
    Marked n e (appendLabel host (blankStore n e) n zLabel).2 := by
  unfold appendLabel at hok ⊢
  cases hlabel : Text.literal zLabel with
  | none =>
    rw [hlabel] at hok
    cases hok
  | some label =>
    rw [hlabel] at hok
    refine updateNode_blankStore _ (fun heq => ?_) hok
    obtain ⟨l, -, hl⟩ := Option.map_eq_some_iff.mp heq
    exact Option.some_ne_none l (congrArg NodeRow.labels hl)

theorem cypherStorageDeleteNode_blankStore (hpos : 0 < n) (bDetach : Bool) :
    Marked n e (cypherStorageDeleteNode (blankStore n e) n bDetach).2 := by
  refine .inl ?_
  unfold NodeMarked
  rw [get_nodes_cypherStorageDeleteNode, if_pos ⟨hpos, rfl⟩]
  simp

theorem cypherStorageDeleteEdge_blankStore
    (hok : (cypherStorageDeleteEdge (blankStore n e) e).1 = .ok) :
    Marked n e (cypherStorageDeleteEdge (blankStore n e) e).2 := by
  refine .inr fun row hrow => ?_
  rw [get_cypherStorageDeleteEdge] at hrow
  unfold cypherStorageDeleteEdge at hok
  split at hok
  next => cases hok
  next hpos =>
    rw [if_pos ⟨not_le.mp hpos, rfl⟩] at hrow
    cases hrow

theorem executeOperation_blankStore (hop : op.WellFormed) (htype : op.type ≠ .mergeNode)
    (hn : 0 < op.iNodeId → n = op.iNodeId) (he : e = op.iRelId)
    (hok : (executeOperation host (blankStore n e) op).1 = .ok) :
    Marked n e (executeOperation host (blankStore n e) op).2.1 := by
  subst he
  unfold CypherWriteOp.WellFormed at hop
  cases htype' : op.type with
  | createNode =>
    simp only [htype'] at hop
    simp only [executeOperation, htype', if_neg hop.ne', cypherStorageAddNode_eq] at hok
    rw [← hn hop] at hok
    exact absurd hok (insertNode_blankStore (hn hop ▸ hop) _)
  | createRelationship =>
    simp only [htype'] at hop
    simp only [executeOperation, htype', if_neg hop.1.ne'] at hok
    exact absurd hok (cypherStorageAddEdge_blankStore hop.1 _ _ _ _ _)
  | mergeNode => exact absurd htype' htype
  | setProperty =>
    simp only [htype'] at hop
    simp only [executeOperation, htype', hop.2, ← hn hop.1] at hok ⊢
    exact cypherStorageUpdateProperties_blankStore (hn hop.1 ▸ hop.1) hok
  | setLabel =>
    simp only [htype'] at hop
    simp only [executeOperation, htype', ← hn hop] at hok ⊢
    exact appendLabel_blankStore hok
  | deleteNode =>
    simp only [htype'] at hop
    simp only [executeOperation, htype', ← hn hop]
    exact cypherStorageDeleteNode_blankStore (hn hop ▸ hop) false
  | detachDeleteNode =>
    simp only [htype'] at hop
    simp only [executeOperation, htype', ← hn hop]
    exact cypherStorageDeleteNode_blankStore (hn hop ▸ hop) true
  | deleteRelationship =>
    simp only [executeOperation, htype'] at hok ⊢
    exact cypherStorageDeleteEdge_blankStore hok
  | mergeRelationship | removeProperty | removeLabel =>
    simp only [executeOperation, htype'] at hok
    cases hok

theorem cypherExecuteOperations_blankStore {ops : List CypherWriteOp}
    (hops : ∀ op ∈ ops, op.WellFormed) (hpos : 0 < n)
    (hfind : ops.find? (fun op => op.type ≠ .mergeNode) = some op)
    (hn : 0 < op.iNodeId → n = op.iNodeId) (he : e = op.iRelId)
    (hok : (cypherExecuteOperations host (blankStore n e) ops).1 = .ok) :
    (cypherExecuteOperations host (blankStore n e) ops).2.1 ≠ blankStore n e := by
  induction ops with
  | nil => cases hfind
  | cons op' ops ih =>
    have hrest : ∀ op ∈ ops, op.WellFormed := fun op hmem => hops op (List.mem_cons_of_mem _ hmem)
    obtain ⟨hne, heq⟩ | ⟨hop, heq⟩ := cypherExecuteOperations_cons host (blankStore n e) op' ops
    · rw [heq] at hok
      exact absurd hok hne
    · by_cases htype : op'.type = .mergeNode
      · rw [List.find?_cons_of_neg (by simpa using htype)] at hfind
        rw [executeOperation_merge_blankStore hpos htype] at heq
        rw [heq] at hok ⊢
        exact ih hrest hfind hok
      · rw [List.find?_cons_of_pos (by simpa using htype)] at hfind
        cases hfind
        rw [heq]
        have hmarked := executeOperation_blankStore (hops op List.mem_cons_self) htype hn he hop
        intro hblank
        refine not_marked_blankStore n e ?_
        rw [← hblank]
        exact hmarked.cypherExecuteOperations hrest

theorem isSome_executeMerge {iNodeId : Int} (h : (store.nodes.get iNodeId).isSome) :
    ((executeMerge host store op).2.1.nodes.get iNodeId).isSome := by
  unfold executeMerge
  dsimp only
  split
  next => exact h
  next =>
    dsimp only
    rw [cypherStorageAddNode_eq]
    obtain ⟨heq, -⟩ | ⟨key, nodes, -, hinsert, heq⟩ := insertNode_cases store
      (if op.iNodeId = 0 then { op with iNodeId := cypherStorageGetNextNodeId store } else op).iNodeId
      ⟨some (labelsJson []), none⟩
    · rw [heq]
      exact h
    · rw [heq]
      show (nodes.get iNodeId).isSome
      rw [(RowTable.insert_eq_some hinsert).2]
      split
      next => rfl
      next => exact h

theorem isSome_cypherExecuteOperations {ops : List CypherWriteOp} {iNodeId : Int}
    (hops : ∀ op ∈ ops, op.type = .mergeNode) (h : (store.nodes.get iNodeId).isSome) :
    ((cypherExecuteOperations host store ops).2.1.nodes.get iNodeId).isSome := by
  induction ops generalizing store with
  | nil => exact h
  | cons op ops ih =>
    have hnode : ((executeOperation host store op).2.1.nodes.get iNodeId).isSome := by
      rw [executeOperation_mergeNode (hops op List.mem_cons_self)]
      exact isSome_executeMerge h
    obtain ⟨-, heq⟩ | ⟨-, heq⟩ := cypherExecuteOperations_cons host store op ops
    · rw [heq]
      exact hnode
    · rw [heq]
      exact ih (fun op hmem => hops op (List.mem_cons_of_mem _ hmem)) hnode

theorem isSome_executeMerge_empty (hop : op.WellFormed) (htype : op.type = .mergeNode) :
    ((executeMerge host .empty op).2.1.nodes.get op.iNodeId).isSome := by
  have hpos : 0 < op.iNodeId := by simpa only [CypherWriteOp.WellFormed, htype] using hop
  have hfound : cypherFindMatchingNode host .empty [] [] = 0 := rfl
  rw [executeMerge, hfound, if_neg (lt_irrefl 0), if_neg hpos.ne']
  dsimp only
  rw [cypherStorageAddNode_eq]
  obtain ⟨nodes, hinsert, heq⟩ := insertNode_eq ⟨some (labelsJson []), none⟩ hpos
    (rfl : Store.empty.nodes.get op.iNodeId = none)
  rw [heq]
  show (nodes.get op.iNodeId).isSome
  rw [(RowTable.insert_eq_some hinsert).2, if_pos rfl]
  rfl

theorem exists_executed_ne {ops : List CypherWriteOp} (hops : ∀ op ∈ ops, op.WellFormed)
    (hne : ops ≠ []) : ∃ store, (cypherExecuteOperations host store ops).1 = .ok →
      (cypherExecuteOperations host store ops).2.1 ≠ store := by
  cases hfind : ops.find? (fun op => op.type ≠ .mergeNode) with
  | some op =>
    by_cases hpos : 0 < op.iNodeId
    · exact ⟨blankStore op.iNodeId op.iRelId,
        cypherExecuteOperations_blankStore hops hpos hfind (fun _ => rfl) rfl⟩
    · exact ⟨blankStore 1 op.iRelId, cypherExecuteOperations_blankStore hops one_pos hfind
        (fun h => absurd h hpos) rfl⟩
  | none =>
    have hmerge : ∀ op ∈ ops, op.type = .mergeNode := by simpa using hfind
    refine ⟨.empty, fun _ hempty => ?_⟩
    cases ops with
    | nil => exact hne rfl
    | cons op ops =>
      have htype := hmerge op List.mem_cons_self
      have hnode : ((executeOperation host .empty op).2.1.nodes.get op.iNodeId).isSome := by
        rw [executeOperation_mergeNode htype]
        exact isSome_executeMerge_empty (hops op List.mem_cons_self) htype
      have hsome : ((cypherExecuteOperations host .empty (op :: ops)).2.1.nodes.get
          op.iNodeId).isSome := by
        obtain ⟨-, heq⟩ | ⟨-, heq⟩ := cypherExecuteOperations_cons host .empty op ops
        · rw [heq]
          exact hnode
        · rw [heq]
          exact isSome_cypherExecuteOperations
            (fun op hmem => hmerge op (List.mem_cons_of_mem _ hmem)) hnode
      rw [hempty] at hsome
      cases hsome

end Blank

section Log

theorem Session.record_operations_ne_nil (s : Session) (op : CypherWriteOp) (store : Store) :
    (s.record op store).operations ≠ [] :=
  List.append_ne_nil_of_right_ne_nil _ (List.cons_ne_nil _ _)

theorem operations_ne_nil_of_ok {call : WriteCall} (hok : (s.call host call).1 = .ok) :
    (s.call host call).2.operations ≠ [] := by
  cases call with
  | createNode op =>
    obtain ⟨hne, -⟩ | ⟨-, t, op', store, -, -, -, -, heq⟩ := cypherCreateNode_cases host s op
    · exact absurd hok hne
    · rw [Session.call, heq]
      exact t.record_operations_ne_nil _ _
  | createRelationship op =>
    obtain ⟨hne, -⟩ | ⟨-, op', store, -, -, -, heq⟩ := cypherCreateRelationship_cases host s op
    · exact absurd hok hne
    · rw [Session.call, heq]
      exact s.record_operations_ne_nil _ _
  | mergeNode op =>
    obtain ⟨-, ⟨hne, -⟩ | heq⟩ | ⟨-, heq⟩ := cypherMergeNode_cases host s op
    · exact absurd hok hne
    · rw [Session.call, heq]
      exact Session.record_operations_ne_nil _ _ _
    · rw [Session.call, heq]
      exact Session.record_operations_ne_nil _ _ _
  | setProperty op =>
    obtain ⟨hne, -⟩ | ⟨-, store, -, heq⟩ := cypherSetProperty_cases host s op
    · exact absurd hok hne
    · rw [Session.call, heq]
      exact s.record_operations_ne_nil _ _
  | setLabel op =>
    obtain ⟨hne, -⟩ | ⟨-, store, -, heq⟩ := cypherSetLabel_cases host s op
    · exact absurd hok hne
    · rw [Session.call, heq]
      exact s.record_operations_ne_nil _ _
  | delete op =>
    rw [Session.call, cypherDelete] at hok ⊢
    split
    next hnode =>
      rw [if_pos hnode] at hok
      obtain ⟨hne, -⟩ | ⟨-, _, _, store, -, -, heq⟩ :=
        cypherDeleteNode_cases host s op.iNodeId op.bDetach
      · exact absurd hok hne
      · rw [heq]
        exact s.record_operations_ne_nil _ _
    next => exact s.record_operations_ne_nil _ _

theorem Step.operations_ne_nil (hstep : Step host s t)
    (h : 0 < s.iNextNodeId ∧ s.operations ≠ []) : 0 < t.iNextNodeId ∧ t.operations ≠ [] := by
  cases hstep with
  | begin hbegin =>
    obtain ⟨-, rfl⟩ | ⟨-, -, rfl⟩ := cypherWriteContextBegin_eq_ok hbegin
    · exact h
    · exact h
  | count => exact ⟨Int.lt_add_one_of_le h.1.le, h.2⟩
  | record hrec => exact ⟨h.1, s.record_operations_ne_nil _ _⟩

/-- All the calls return `SQLITE_OK`. -/
def Session.AllOk (host : Host) : Session → List WriteCall → Prop
  | _, [] => True
  | s, call :: calls => (s.call host call).1 = .ok ∧ (s.call host call).2.AllOk host calls

theorem run_operations_eq_nil_iff {calls : List WriteCall} (h : s.Inv) (hok : s.AllOk host calls) :
    (s.run host calls).operations = [] ↔ s.operations = [] ∧ calls = [] := by
  refine ⟨fun hnil => ?_, fun ⟨hnil, hcalls⟩ => by rw [hcalls]; exact hnil⟩
  have hlog : ∀ t : Session, 0 < t.iNextNodeId → t.operations ≠ [] → ∀ calls,
      (t.run host calls).operations ≠ [] := fun t hpos hne calls =>
    (run_induct (P := fun t => 0 < t.iNextNodeId ∧ t.operations ≠ []) (fun _ h => h.1)
      (fun _ _ hstep h => hstep.operations_ne_nil h) ⟨hpos, hne⟩ calls).2
  cases calls with
  | nil => exact ⟨hnil, rfl⟩
  | cons call calls =>
    have hinv : (s.call host call).2.Inv := h.run [call]
    exact absurd hnil (hlog _ hinv.counter (operations_ne_nil_of_ok hok.1) calls)

end Log

/-- The next transaction of the context, over the tables `store`. -/
def Session.later (host : Host) (s : Session) (store : Store) : Session :=
  (cypherWriteContextBegin { (cypherWriteContextCommit host s).2 with store }).2

def CommitsOnce (host : Host) (s : Session) : Prop :=
  (cypherWriteContextCommit host s).1 = .ok ∧
    (cypherWriteContextCommit host s).2.store = s.store ∧
    ∀ store, (cypherWriteContextCommit host (s.later host store)).1 = .ok ∧
      (cypherWriteContextCommit host (s.later host store)).2.store = store

theorem commit_keeps_iff (host : Host) {S : Store} (h : s.Inside S) :
    (cypherWriteContextCommit host s).1 = .ok ∧
        (cypherWriteContextCommit host s).2.store = s.store ↔
      (cypherExecuteOperations host s.store s.operations).1 = .ok ∧
        (cypherExecuteOperations host s.store s.operations).2.1 = s.store := by
  by_cases hok : (cypherExecuteOperations host s.store s.operations).1 = .ok
  · rw [cypherWriteContextCommit_of_ok h.bInTransaction hok]
    exact and_congr_left fun _ => iff_of_true rfl hok
  · rw [cypherWriteContextCommit_of_ne_ok h.bInTransaction h.saved hok]
    exact iff_of_false (fun h => hok h.1) (fun h => hok h.1)

theorem later_keeps_iff {S : Store} (h : s.Inside S)
    (hok : (cypherExecuteOperations host s.store s.operations).1 = .ok) (store : Store) :
    (cypherWriteContextCommit host (s.later host store)).1 = .ok ∧
        (cypherWriteContextCommit host (s.later host store)).2.store = store ↔
      (cypherExecuteOperations host store
          (cypherExecuteOperations host s.store s.operations).2.2).1 = .ok ∧
        (cypherExecuteOperations host store
          (cypherExecuteOperations host s.store s.operations).2.2).2.1 = store := by
  have hlater : s.later host store = { s with
      store
      operations := (cypherExecuteOperations host s.store s.operations).2.2
      saved := some store } := by
    rw [Session.later, cypherWriteContextCommit_of_ok h.bInTransaction hok, h.bInTransaction]
    rfl
  have hinside : (s.later host store).Inside store := by
    rw [hlater]
    exact ⟨h.counter, rfl, h.bInTransaction⟩
  have hkeeps := commit_keeps_iff host hinside
  rw [hlater] at hkeeps ⊢
  exact hkeeps

/-- Operations that all succeed inside a transaction are applied once if there are none, now or in
an earlier transaction of the context. -/
theorem commitsOnce_iff {calls : List WriteCall} (hreach : Reachable host s)
    (htrans : s.bInTransaction = true) (hok : s.AllOk host calls) :
    CommitsOnce host (s.run host calls) ↔ s.operations = [] ∧ calls = [] := by
  obtain ⟨S, hinside⟩ := hreach.inv.inside htrans
  have hinside : (s.run host calls).Inside S := hinside.run calls
  have hinv : (s.run host calls).Inv := hreach.inv.run calls
  rw [← run_operations_eq_nil_iff hreach.inv hok]
  generalize s.run host calls = t at hinside hinv
  refine ⟨fun honce => ?_, fun hnil => ?_⟩
  · by_contra hne
    obtain ⟨hexec, -⟩ := (commit_keeps_iff host hinside).mp ⟨honce.1, honce.2.1⟩
    have hlog : (cypherExecuteOperations host t.store t.operations).2.2 ≠ [] :=
      List.ne_nil_of_length_pos
        ((length_cypherExecuteOperations t.operations).symm ▸ List.length_pos_iff.mpr hne)
    obtain ⟨store, hstore⟩ := exists_executed_ne
      (wellFormed_cypherExecuteOperations hinv.wellFormed) hlog
    have hlater := (later_keeps_iff hinside hexec store).mp (honce.2.2 store)
    exact hstore hlater.1 hlater.2
  · have hexec : ∀ store, cypherExecuteOperations host store t.operations = (.ok, store, []) := by
      rw [hnil]
      exact fun _ => rfl
    have hok : (cypherExecuteOperations host t.store t.operations).1 = .ok := by rw [hexec]
    obtain ⟨hcommit, hstore⟩ := (commit_keeps_iff host hinside).mpr ⟨hok, by rw [hexec]⟩
    refine ⟨hcommit, hstore, fun store => (later_keeps_iff hinside hok store).mpr ?_⟩
    rw [hexec]
    exact ⟨rfl, rfl⟩

theorem commitsOnce_of_no_calls :
    CommitsOnce sampleHost (cypherWriteContextBegin (cypherWriteContextCreate .empty)).2 :=
  (commitsOnce_iff (.begin (.create .empty)) rfl trivial : _ ↔ _ ∧ [] = []).mpr ⟨rfl, rfl⟩

theorem not_commitsOnce_of_created :
    let s := (cypherWriteContextBegin (cypherWriteContextCreate .empty)).2
    let call := .createNode { zVariable := none, azLabels := [], properties := [], seed := 1 }
    s.bInTransaction = true ∧ s.AllOk sampleHost [call] ∧
      (cypherWriteContextCommit sampleHost (s.run sampleHost [call])).1 = .constraint ∧
      ¬CommitsOnce sampleHost (s.run sampleHost [call]) := by
  have hcommit : (cypherWriteContextCommit sampleHost
      ((cypherWriteContextBegin (cypherWriteContextCreate .empty)).2.run sampleHost
        [.createNode ⟨none, [], [], 1⟩])).1 = .constraint := by decide +kernel
  refine ⟨rfl, ⟨by decide +kernel, trivial⟩, hcommit, fun honce => ?_⟩
  exact absurd (hcommit.symm.trans honce.1) (by decide)

end SqliteMultimodal.Graph
