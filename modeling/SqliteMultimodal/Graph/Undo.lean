import Mathlib.Data.List.Induction
import SqliteMultimodal.Graph.Reach

namespace SqliteMultimodal.Graph

variable {host : Host} {S X : Store} {log : List CypherWriteOp} {op : CypherWriteOp}

section Rows

/-- What `SET` has recorded, written back into a row; nothing for any other operation. -/
def restored (host : Host) (op : CypherWriteOp) (row : NodeRow) : Option NodeRow :=
  match op.type with
  | .setProperty => propertySet host op.zProperty op.pOldValue row
  | .setLabel =>
    (op.zOldLabels.bind Text.literal).map fun labels => { row with labels := some labels }
  | _ => none

def undoSet (host : Host) (op : CypherWriteOp) (iNodeId : Int) (row : NodeRow) : NodeRow :=
  if iNodeId = op.iNodeId then (restored host op row).getD row else row

def undoSets (host : Host) (log : List CypherWriteOp) (iNodeId : Int) (row : NodeRow) : NodeRow :=
  log.foldr (fun op row => undoSet host op iNodeId row) row

theorem undoSets_snoc (log : List CypherWriteOp) (op : CypherWriteOp) (iNodeId : Int)
    (row : NodeRow) : undoSets host (log ++ [op]) iNodeId row =
      undoSets host log iNodeId (undoSet host op iNodeId row) :=
  List.foldr_append

/-- The operation is `SET`. -/
def CypherWriteOp.Sets (op : CypherWriteOp) : Prop := op.type = .setProperty ∨ op.type = .setLabel

theorem undoSet_of_not_sets (h : ¬op.Sets) (iNodeId : Int) (row : NodeRow) :
    undoSet host op iNodeId row = row := by
  have hnone : restored host op row = none := by
    unfold restored
    split
    next htype => exact absurd (.inl htype) h
    next htype => exact absurd (.inr htype) h
    next => rfl
  unfold undoSet
  rw [hnone]
  exact ite_self row

/-- The quotes of the old labels come in pairs, so that they stand in a literal as they are. -/
def CypherWriteOp.LiteralLabels (op : CypherWriteOp) : Prop :=
  ∀ zOldLabels, op.type = .setLabel → op.zOldLabels = some zOldLabels →
    (Text.literal zOldLabels).isSome

theorem restoreLabels_of_literal {zOldLabels : Text} (h : (Text.literal zOldLabels).isSome)
    (X : Store) (iNodeId : Int) :
    restoreLabels host X iNodeId zOldLabels = (updateNode X iNodeId fun row =>
      (Text.literal zOldLabels).map fun labels => { row with labels := some labels }).2 := by
  obtain ⟨labels, hlabels⟩ := Option.isSome_iff_exists.mp h
  rw [restoreLabels, hlabels]
  rfl

theorem rollbackOperation_of_sets (h : op.Sets) (hop : op.WellFormed) (hlabels : op.LiteralLabels)
    (X : Store) :
    rollbackOperation host X op = (updateNode X op.iNodeId (restored host op)).2 := by
  obtain htype | htype := h
  · have hrestored : restored host op = propertySet host op.zProperty op.pOldValue := by
      funext row
      rw [restored, htype]
    simp only [CypherWriteOp.WellFormed, htype] at hop
    rw [hrestored, ← snd_cypherStorageUpdateProperties hop.1, rollbackOperation, htype]
    dsimp only
    cases op.pOldValue with
    | none => cases op.zProperty <;> rfl
    | some value => rw [hop.2]
  · have hrestored : restored host op = fun row =>
        (op.zOldLabels.bind Text.literal).map fun labels => { row with labels := some labels } := by
      funext row
      rw [restored, htype]
    rw [hrestored, rollbackOperation, htype]
    dsimp only
    cases hold : op.zOldLabels with
    | none => exact (snd_updateNode_of_none (fun _ => rfl) op.iNodeId).symm
    | some zOldLabels => exact restoreLabels_of_literal (hlabels _ htype hold) X op.iNodeId

theorem get_rollbackOperation_of_sets (h : op.Sets) (hop : op.WellFormed)
    (hlabels : op.LiteralLabels) (X : Store) (id : Int) :
    (rollbackOperation host X op).nodes.get id = (X.nodes.get id).map (undoSet host op id) := by
  rw [rollbackOperation_of_sets h hop hlabels, get_updateNode]
  unfold undoSet
  split
  next => rfl
  next => exact Option.map_id'.symm

end Rows

section Near

def Foreign (S : Store) (iNodeId : Int) : Prop :=
  S.nodes.get iNodeId = none ∧
    ∀ iEdgeId row, S.edges.get iEdgeId = some row → row.touches iNodeId = false

def CreatesNode (log : List CypherWriteOp) (iNodeId : Int) : Prop :=
  ∃ op ∈ log, op.type = .createNode ∧ op.iNodeId = iNodeId

def CreatesRelationship (log : List CypherWriteOp) (iRelId : Int) : Prop :=
  ∃ op ∈ log, op.type = .createRelationship ∧ op.iRelId = iRelId

def Harmless (host : Host) (S : Store) (log : List CypherWriteOp) (op : CypherWriteOp) : Prop :=
  match op.type with
  | .createNode => Foreign S op.iNodeId
  | .mergeNode => (∀ id, S.nodes.get id ≠ none → id ≤ 0) ∧ Foreign S op.iNodeId
  | .createRelationship => S.edges.get op.iRelId = none
  | .setProperty | .setLabel => op.LiteralLabels ∧ ∀ row, S.nodes.get op.iNodeId = some row →
      undoSets host (log ++ [op]) op.iNodeId row = row
  | .deleteNode | .detachDeleteNode =>
    S.nodes.get op.iNodeId ≠ none ∨ CreatesNode log op.iNodeId
  | .deleteRelationship => 0 < op.iFromId → 0 < op.iToId →
      0 < op.iRelId ∧ (S.edges.get op.iRelId ≠ none ∨ CreatesRelationship log op.iRelId)
  | .mergeRelationship | .removeProperty | .removeLabel => False

/-- `X` is `S` once the operations of the log are undone in it. -/
structure Near (host : Host) (S : Store) (log : List CypherWriteOp) (X : Store) : Prop where
  nodes : ∀ id row, S.nodes.get id = some row →
    ∃ row', X.nodes.get id = some row' ∧ undoSets host log id row' = row
  newNodes : ∀ id, S.nodes.get id = none → X.nodes.get id ≠ none → CreatesNode log id
  edges : ∀ id row, S.edges.get id = some row → X.edges.get id = some row
  newEdges : ∀ id, S.edges.get id = none → X.edges.get id ≠ none → CreatesRelationship log id

theorem Near.eq (h : Near host S [] X) : X = S := by
  have hnodes : X.nodes = S.nodes := RowTable.ext_get fun id => by
    cases hrow : S.nodes.get id with
    | some row =>
      obtain ⟨row', hrow', rfl⟩ := h.nodes id row hrow
      exact hrow'
    | none =>
      by_contra hne
      obtain ⟨op, hmem, -⟩ := h.newNodes id hrow hne
      exact List.not_mem_nil hmem
  have hedges : X.edges = S.edges := RowTable.ext_get fun id => by
    cases hrow : S.edges.get id with
    | some row => exact h.edges id row hrow
    | none =>
      by_contra hne
      obtain ⟨op, hmem, -⟩ := h.newEdges id hrow hne
      exact List.not_mem_nil hmem
  cases X
  cases S
  rw [Store.mk.injEq]
  exact ⟨hnodes, hedges⟩

theorem CreatesNode.of_snoc {id : Int} (h : CreatesNode (log ++ [op]) id)
    (hop : op.type = .createNode → op.iNodeId ≠ id) : CreatesNode log id := by
  obtain ⟨op', hmem, htype, hid⟩ := h
  obtain hmem | hmem := List.mem_append.mp hmem
  · exact ⟨op', hmem, htype, hid⟩
  · cases List.mem_singleton.mp hmem
    exact absurd hid (hop htype)

theorem CreatesRelationship.of_snoc {id : Int} (h : CreatesRelationship (log ++ [op]) id)
    (hop : op.type = .createRelationship → op.iRelId ≠ id) : CreatesRelationship log id := by
  obtain ⟨op', hmem, htype, hid⟩ := h
  obtain hmem | hmem := List.mem_append.mp hmem
  · exact ⟨op', hmem, htype, hid⟩
  · cases List.mem_singleton.mp hmem
    exact absurd hid (hop htype)

theorem Near.deleteNode {iNodeId : Int} (h : Near host S (log ++ [op]) X) (hsets : ¬op.Sets)
    (hforeign : Foreign S iNodeId) (hpos : 0 < iNodeId)
    (hop : op.type = .createNode → op.iNodeId = iNodeId) (hrel : op.type ≠ .createRelationship) :
    Near host S log (cypherStorageDeleteNode X iNodeId true).2 := by
  refine ⟨fun id row hrow => ?_, fun id hid hX => ?_, fun id row hrow => ?_, fun id hid hX => ?_⟩
  · have hne : id ≠ iNodeId := fun heq => by
      rw [heq, hforeign.1] at hrow
      cases hrow
    obtain ⟨row', hrow', hundo⟩ := h.nodes id row hrow
    rw [undoSets_snoc, undoSet_of_not_sets hsets] at hundo
    refine ⟨row', ?_, hundo⟩
    rw [get_nodes_cypherStorageDeleteNode, if_neg fun heq => hne heq.2]
    exact hrow'
  · rw [get_nodes_cypherStorageDeleteNode] at hX
    split at hX
    next => exact absurd rfl hX
    next hne =>
      refine (h.newNodes id hid hX).of_snoc fun htype heq => hne ⟨hpos, ?_⟩
      rw [← heq, hop htype]
  · rw [get_edges_cypherStorageDeleteNode, h.edges id row hrow, Option.filter_eq_some_iff]
    refine ⟨rfl, ?_⟩
    rw [hforeign.2 id row hrow, Bool.and_false]
    rfl
  · refine (h.newEdges id hid fun hnone => hX ?_).of_snoc fun htype => absurd htype hrel
    rw [get_edges_cypherStorageDeleteNode, hnone]
    rfl

theorem Near.nodes_of_snoc (h : Near host S (log ++ [op]) X) (hsets : ¬op.Sets) {id : Int}
    {row : NodeRow} (hrow : S.nodes.get id = some row) :
    ∃ row', X.nodes.get id = some row' ∧ undoSets host log id row' = row := by
  obtain ⟨row', hrow', hundo⟩ := h.nodes id row hrow
  rw [undoSets_snoc, undoSet_of_not_sets hsets] at hundo
  exact ⟨row', hrow', hundo⟩

theorem Near.deleteEdge (h : Near host S (log ++ [op]) X) (htype : op.type = .createRelationship)
    (hpos : 0 < op.iRelId) (hnone : S.edges.get op.iRelId = none) :
    Near host S log (cypherStorageDeleteEdge X op.iRelId).2 := by
  have hsets : ¬op.Sets := by
    unfold CypherWriteOp.Sets
    rw [htype]
    decide
  refine ⟨fun id row hrow => ?_, fun id hid hX => ?_, fun id row hrow => ?_, fun id hid hX => ?_⟩
  · rw [nodes_cypherStorageDeleteEdge]
    exact h.nodes_of_snoc hsets hrow
  · rw [nodes_cypherStorageDeleteEdge] at hX
    refine (h.newNodes id hid hX).of_snoc fun htype' => ?_
    rw [htype] at htype'
    cases htype'
  · have hne : id ≠ op.iRelId := fun heq => by
      rw [heq, hnone] at hrow
      cases hrow
    rw [get_cypherStorageDeleteEdge, if_neg fun heq => hne heq.2]
    exact h.edges id row hrow
  · rw [get_cypherStorageDeleteEdge] at hX
    split at hX
    next => exact absurd rfl hX
    next hne => exact (h.newEdges id hid hX).of_snoc fun _ heq => hne ⟨hpos, heq.symm⟩

theorem Near.sets (h : Near host S (log ++ [op]) X) (hsets : op.Sets) (hop : op.WellFormed)
    (hlabels : op.LiteralLabels) : Near host S log (rollbackOperation host X op) := by
  have htype : op.type ≠ .createNode ∧ op.type ≠ .createRelationship := by
    obtain htype | htype := hsets
    · rw [htype]
      decide
    · rw [htype]
      decide
  have hedges : (rollbackOperation host X op).edges = X.edges := by
    rw [rollbackOperation_of_sets hsets hop hlabels, updateNode_edges]
  refine ⟨fun id row hrow => ?_, fun id hid hX => ?_, fun id row hrow => ?_, fun id hid hX => ?_⟩
  · obtain ⟨row', hrow', hundo⟩ := h.nodes id row hrow
    rw [undoSets_snoc] at hundo
    refine ⟨undoSet host op id row', ?_, hundo⟩
    rw [get_rollbackOperation_of_sets hsets hop hlabels, hrow']
    rfl
  · refine (h.newNodes id hid fun hnone => hX ?_).of_snoc fun h => absurd h htype.1
    rw [get_rollbackOperation_of_sets hsets hop hlabels, hnone]
    rfl
  · rw [hedges]
    exact h.edges id row hrow
  · rw [hedges] at hX
    exact (h.newEdges id hid hX).of_snoc fun h => absurd h htype.2

theorem Near.of_snoc (h : Near host S (log ++ [op]) X) (hsets : ¬op.Sets)
    (hnode : op.type ≠ .createNode) (hrel : op.type ≠ .createRelationship) : Near host S log X where
  nodes _ _ hrow := h.nodes_of_snoc hsets hrow
  newNodes id hid hX := (h.newNodes id hid hX).of_snoc fun htype => absurd htype hnode
  edges := h.edges
  newEdges id hid hX := (h.newEdges id hid hX).of_snoc fun htype => absurd htype hrel

theorem Near.insertNode {iNodeId : Int} {row : NodeRow} (h : Near host S log X) (hpos : 0 < iNodeId)
    (hcreated : S.nodes.get iNodeId ≠ none ∨ CreatesNode log iNodeId) :
    Near host S log (insertNode X iNodeId row).2 := by
  obtain ⟨heq, -⟩ | ⟨key, nodes, hkey, hinsert, heq⟩ := insertNode_cases X iNodeId row
  · rw [heq]
    exact h
  · obtain ⟨hnone, hget⟩ := RowTable.insert_eq_some hinsert
    rw [hkey hpos] at hnone hget
    rw [heq]
    refine ⟨fun id row hrow => ?_, fun id hid hX => ?_, h.edges, h.newEdges⟩
    · obtain ⟨row', hrow', hundo⟩ := h.nodes id row hrow
      have hne : id ≠ iNodeId := fun heq => by
        rw [heq, hnone] at hrow'
        cases hrow'
      refine ⟨row', ?_, hundo⟩
      show nodes.get id = _
      rw [hget, if_neg hne]
      exact hrow'
    · change nodes.get id ≠ none at hX
      rw [hget] at hX
      split at hX
      next heq =>
        rw [heq] at hid ⊢
        exact hcreated.resolve_left (not_not.mpr hid)
      next => exact h.newNodes id hid hX

theorem Near.insertEdge {iEdgeId : Int} {row : EdgeRow} (h : Near host S log X) (hpos : 0 < iEdgeId)
    (hcreated : S.edges.get iEdgeId ≠ none ∨ CreatesRelationship log iEdgeId) :
    Near host S log (insertEdge X iEdgeId row).2 := by
  obtain ⟨heq, -⟩ | ⟨key, edges, hkey, hinsert, heq⟩ := insertEdge_cases X iEdgeId row
  · rw [heq]
    exact h
  · obtain ⟨hnone, hget⟩ := RowTable.insert_eq_some hinsert
    rw [hkey hpos] at hnone hget
    rw [heq]
    refine ⟨h.nodes, h.newNodes, fun id row hrow => ?_, fun id hid hX => ?_⟩
    · have hrow' := h.edges id row hrow
      have hne : id ≠ iEdgeId := fun heq => by
        rw [heq, hnone] at hrow'
        cases hrow'
      show edges.get id = _
      rw [hget, if_neg hne]
      exact hrow'
    · change edges.get id ≠ none at hX
      rw [hget] at hX
      split at hX
      next heq =>
        rw [heq] at hid ⊢
        exact hcreated.resolve_left (not_not.mpr hid)
      next => exact h.newEdges id hid hX

theorem not_sets (hproperty : op.type ≠ .setProperty) (hlabel : op.type ≠ .setLabel) : ¬op.Sets :=
  fun h => h.elim hproperty hlabel

theorem Near.rollbackOperation (h : Near host S (log ++ [op]) X) (hop : op.WellFormed)
    (hharmless : Harmless host S log op) : Near host S log (rollbackOperation host X op) := by
  unfold Harmless at hharmless
  cases htype : op.type with
  | setProperty =>
    simp only [htype] at hharmless
    exact h.sets (.inl htype) hop hharmless.1
  | setLabel =>
    simp only [htype] at hharmless
    exact h.sets (.inr htype) hop hharmless.1
  | createNode =>
    simp only [CypherWriteOp.WellFormed, htype] at hop hharmless
    simp only [Graph.rollbackOperation, htype, if_pos hop]
    exact h.deleteNode (not_sets (by simp [htype]) (by simp [htype])) hharmless hop (fun _ => rfl)
      (by simp [htype])
  | mergeNode =>
    simp only [CypherWriteOp.WellFormed, htype] at hop hharmless
    simp only [Graph.rollbackOperation, htype, if_pos hop]
    exact h.deleteNode (not_sets (by simp [htype]) (by simp [htype])) hharmless.2 hop (fun _ => rfl)
      (by simp [htype])
  | createRelationship =>
    simp only [CypherWriteOp.WellFormed, htype] at hop hharmless
    simp only [Graph.rollbackOperation, htype, if_pos hop.1]
    exact h.deleteEdge htype hop.1 hharmless
  | deleteNode =>
    simp only [CypherWriteOp.WellFormed, htype] at hop hharmless
    have h := h.of_snoc (not_sets (by simp [htype]) (by simp [htype])) (by simp [htype])
      (by simp [htype])
    simp only [Graph.rollbackOperation, htype]
    split
    next => 
      rw [cypherStorageAddNode_eq]
      exact h.insertNode hop hharmless
    next => exact h
  | detachDeleteNode =>
    simp only [CypherWriteOp.WellFormed, htype] at hop hharmless
    have h := h.of_snoc (not_sets (by simp [htype]) (by simp [htype])) (by simp [htype])
      (by simp [htype])
    simp only [Graph.rollbackOperation, htype]
    split
    next =>
      rw [cypherStorageAddNode_eq]
      exact h.insertNode hop hharmless
    next => exact h
  | deleteRelationship =>
    simp only [htype] at hharmless
    have h := h.of_snoc (not_sets (by simp [htype]) (by simp [htype])) (by simp [htype])
      (by simp [htype])
    simp only [Graph.rollbackOperation, htype]
    split
    next hends =>
      rw [cypherStorageAddEdge_eq hends.1 hends.2]
      exact h.insertEdge (hharmless hends.1 hends.2).1 (hharmless hends.1 hends.2).2
    next => exact h
  | mergeRelationship =>
    simp only [htype] at hharmless
  | removeProperty =>
    simp only [htype] at hharmless
  | removeLabel =>
    simp only [htype] at hharmless

end Near

section Log

def HarmlessAfter (host : Host) (S : Store) : List CypherWriteOp → List CypherWriteOp → Prop
  | _, [] => True
  | log, op :: ops => Harmless host S log op ∧ HarmlessAfter host S (log ++ [op]) ops

theorem harmlessAfter_append (log ops ops' : List CypherWriteOp) :
    HarmlessAfter host S log (ops ++ ops') ↔
      HarmlessAfter host S log ops ∧ HarmlessAfter host S (log ++ ops) ops' := by
  induction ops generalizing log with
  | nil =>
    rw [List.nil_append, List.append_nil]
    exact (and_iff_right trivial).symm
  | cons op ops ih =>
    rw [List.cons_append, HarmlessAfter, HarmlessAfter, ih, and_assoc, List.append_assoc]
    rfl

def HarmlessLog (host : Host) (S : Store) (log : List CypherWriteOp) : Prop :=
  HarmlessAfter host S [] log

theorem harmlessLog_snoc :
    HarmlessLog host S (log ++ [op]) ↔ HarmlessLog host S log ∧ Harmless host S log op := by
  rw [HarmlessLog, harmlessAfter_append, List.nil_append]
  exact and_congr_right fun _ => and_iff_left trivial

theorem HarmlessLog.undoSets_eq {id : Int} {row : NodeRow} (h : HarmlessLog host S log)
    (hrow : S.nodes.get id = some row) : undoSets host log id row = row := by
  induction log using List.reverseRecOn with
  | nil => rfl
  | append_singleton log op ih =>
    obtain ⟨hlog, hop⟩ := harmlessLog_snoc.mp h
    have hkept : undoSet host op id row = row → undoSets host (log ++ [op]) id row = row := by
      intro heq
      rw [undoSets_snoc, heq]
      exact ih hlog
    by_cases hid : id = op.iNodeId
    · by_cases hsets : op.Sets
      · subst hid
        unfold Harmless at hop
        obtain htype | htype := hsets
        · simp only [htype] at hop
          exact hop.2 row hrow
        · simp only [htype] at hop
          exact hop.2 row hrow
      · exact hkept (undoSet_of_not_sets hsets id row)
    · exact hkept (if_neg hid)

theorem HarmlessLog.near (h : HarmlessLog host S log) : Near host S log S where
  nodes _ row hrow := ⟨row, hrow, h.undoSets_eq hrow⟩
  newNodes _ hid hS := absurd hid hS
  edges _ _ hrow := hrow
  newEdges _ hid hS := absurd hid hS

theorem Near.foldl_undo (hnear : Near host S log X) (h : HarmlessLog host S log)
    (hlog : ∀ op ∈ log, op.WellFormed) :
    log.reverse.foldl (Graph.rollbackOperation host) X = S := by
  induction log using List.reverseRecOn generalizing X with
  | nil => exact hnear.eq
  | append_singleton log op ih =>
    obtain ⟨hrest, hop⟩ := harmlessLog_snoc.mp h
    rw [List.reverse_append, List.reverse_singleton, List.singleton_append, List.foldl_cons]
    have hwellFormed := hlog op (List.mem_append_right _ (List.mem_singleton.mpr rfl))
    exact ih (hnear.rollbackOperation hwellFormed hop) hrest
      fun op hmem => hlog op (List.mem_append_left _ hmem)

theorem HarmlessLog.cypherRollbackOperations_eq (h : HarmlessLog host S log)
    (hlog : ∀ op ∈ log, op.WellFormed) : cypherRollbackOperations host S log = S := by
  have hprefix : HarmlessLog host S (log.take maxRollback) := by
    rw [HarmlessLog, ← List.take_append_drop maxRollback log, harmlessAfter_append] at h
    exact h.1
  exact hprefix.near.foldl_undo hprefix
    fun op hmem => hlog op (List.mem_of_mem_take hmem)

end Log

end SqliteMultimodal.Graph
