import SqliteMultimodal.Graph.Steps

namespace SqliteMultimodal.Graph

variable {host : Host} {store store' : Store}

def Store.Linked (store : Store) : Prop :=
  ∀ iEdgeId row, store.edges.get iEdgeId = some row →
    (store.nodes.get row.fromNode).isSome ∧ (store.nodes.get row.toNode).isSome

def Store.Positive (store : Store) : Prop :=
  ∀ iNodeId, (store.nodes.get iNodeId).isSome → 0 < iNodeId

section Frames

variable {iNodeId : Int} {f : NodeRow → Option NodeRow}

theorem Store.Linked.mono (h : store.Linked)
    (hedges : ∀ iEdgeId row, store'.edges.get iEdgeId = some row →
      store.edges.get iEdgeId = some row)
    (hnodes : ∀ id, (store.nodes.get id).isSome → (store'.nodes.get id).isSome) :
    store'.Linked := by
  intro iEdgeId row hrow
  obtain ⟨hfrom, hto⟩ := h iEdgeId row (hedges iEdgeId row hrow)
  exact ⟨hnodes _ hfrom, hnodes _ hto⟩

theorem Store.Linked.updateNode (h : store.Linked) : (updateNode store iNodeId f).2.Linked := by
  refine h.mono (fun iEdgeId row hrow => ?_) (fun id hid => ?_)
  · rwa [updateNode_edges] at hrow
  · rwa [isSome_get_updateNode]

theorem Store.Positive.updateNode (h : store.Positive) :
    (updateNode store iNodeId f).2.Positive := by
  intro id hid
  rw [isSome_get_updateNode] at hid
  exact h id hid

theorem Store.Linked.insertNode {row : NodeRow} {nodes : RowTable NodeRow} (h : store.Linked)
    (hinsert : store.nodes.insert iNodeId row = some nodes) :
    Store.Linked { store with nodes } := by
  refine h.mono (fun _ _ hrow => hrow) (fun id hid => ?_)
  show (nodes.get id).isSome
  rw [(RowTable.insert_eq_some hinsert).2]
  split
  next => rfl
  next => exact hid

theorem Store.Positive.insertNode {row : NodeRow} {nodes : RowTable NodeRow} (h : store.Positive)
    (hpos : 0 < iNodeId) (hinsert : store.nodes.insert iNodeId row = some nodes) :
    Store.Positive { store with nodes } := by
  intro id hid
  change (nodes.get id).isSome at hid
  rw [(RowTable.insert_eq_some hinsert).2] at hid
  split at hid
  next heq => rwa [heq]
  next => exact h id hid

theorem Store.Positive.deleteNode (h : store.Positive) : (store.deleteNode iNodeId).Positive := by
  intro id hid
  change ((store.nodes.delete iNodeId).get id).isSome at hid
  rw [RowTable.get_delete] at hid
  split at hid
  next => cases hid
  next => exact h id hid

theorem Store.Linked.deleteNode (h : store.Linked)
    (hedges : ∀ iEdgeId row, store.edges.get iEdgeId = some row → row.touches iNodeId = false) :
    (store.deleteNode iNodeId).Linked := by
  intro iEdgeId row hrow
  obtain ⟨hfrom, hto⟩ := h iEdgeId row hrow
  have htouches := hedges iEdgeId row hrow
  rw [EdgeRow.touches, Bool.or_eq_false_iff, decide_eq_false_iff_not,
    decide_eq_false_iff_not] at htouches
  show ((store.nodes.delete iNodeId).get row.fromNode).isSome ∧
    ((store.nodes.delete iNodeId).get row.toNode).isSome
  rw [RowTable.get_delete, RowTable.get_delete, if_neg htouches.1, if_neg htouches.2]
  exact ⟨hfrom, hto⟩

theorem Store.Linked.detach (h : store.Linked) : (store.detach iNodeId).Linked := by
  refine h.mono (fun iEdgeId row hrow => ?_) (fun _ hid => hid)
  rw [get_detach, Option.filter_eq_some_iff] at hrow
  exact hrow.1

theorem Store.Linked.deleteEdge {iEdgeId : Int} (h : store.Linked) :
    (store.deleteEdge iEdgeId).Linked := by
  refine h.mono (fun id row hrow => ?_) (fun _ hid => hid)
  change (store.edges.delete iEdgeId).get id = some row at hrow
  rw [RowTable.get_delete] at hrow
  split at hrow
  next => cases hrow
  next => exact hrow

end Frames

structure Store.Sound (store : Store) : Prop where
  linked : store.Linked
  positive : store.Positive

theorem Recorded.sound {op : CypherWriteOp} (hrec : Recorded host store op store')
    (h : store.Sound) : store'.Sound := by
  cases hrec with
  | createNode hpos hinsert =>
    exact ⟨h.linked.insertNode hinsert, h.positive.insertNode hpos hinsert⟩
  | createRelationship hpos hinsert hfrom hto htype =>
    refine ⟨fun iEdgeId row hrow => ?_, h.positive⟩
    change RowTable.get _ iEdgeId = some row at hrow
    rw [(RowTable.insert_eq_some hinsert).2] at hrow
    split at hrow
    next =>
      cases hrow
      exact ⟨Option.isSome_iff_exists.mpr (cypherStorageNodeExists_iff.mp hfrom).2,
        Option.isSome_iff_exists.mpr (cypherStorageNodeExists_iff.mp hto).2⟩
    next => exact h.linked iEdgeId row hrow
  | mergeMatch hpos => exact h
  | mergeCreate hpos =>
    obtain ⟨heq, -⟩ | ⟨key, nodes, hkey, hinsert, heq⟩ := insertNode_cases store _ _
    · rw [heq]
      exact h
    · rw [heq]
      exact ⟨h.linked.insertNode hinsert, h.positive.insertNode (hkey hpos ▸ hpos) hinsert⟩
  | setProperty hnode =>
    rw [snd_cypherStorageUpdateProperties (cypherStorageNodeExists_iff.mp hnode).1]
    exact ⟨h.linked.updateNode, h.positive.updateNode⟩
  | setLabel hnode =>
    rw [snd_updateLabels]
    exact ⟨h.linked.updateNode, h.positive.updateNode⟩
  | deleteNode hpos hnode hedges =>
    refine ⟨h.linked.deleteNode fun iEdgeId row hrow => ?_, h.positive.deleteNode⟩
    refine Bool.eq_false_of_not_eq_true fun htouches => ?_
    exact List.ne_nil_of_mem (mem_edgeIds.mpr ⟨row, hrow, htouches⟩) hedges
  | detachDeleteNode hpos hnode =>
    refine ⟨h.linked.detach.deleteNode fun iEdgeId row hrow => ?_, h.positive.deleteNode⟩
    rw [get_detach, Option.filter_eq_some_iff, Bool.not_eq_true'] at hrow
    exact hrow.2
  | deleteRelationship iRelId =>
    unfold cypherStorageDeleteEdge
    split
    next => exact h
    next => exact ⟨h.linked.deleteEdge, h.positive⟩

theorem Step.sound {s t : Session} (hstep : Step host s t)
    (h : s.store.Sound ∧ 0 < s.iNextNodeId) : t.store.Sound ∧ 0 < t.iNextNodeId := by
  cases hstep with
  | begin hbegin =>
    obtain ⟨-, rfl⟩ | ⟨-, -, rfl⟩ := cypherWriteContextBegin_eq_ok hbegin
    · exact h
    · exact h
  | count => exact ⟨h.1, Int.lt_add_one_of_le h.2.le⟩
  | record hrec => exact ⟨hrec.sound h.1, h.2⟩

theorem sound_run (host : Host) (calls : List WriteCall) :
    ((cypherWriteContextCreate .empty).run host calls).store.Sound := by
  have hempty : (cypherWriteContextCreate .empty).store.Sound ∧
      0 < (cypherWriteContextCreate .empty).iNextNodeId :=
    ⟨⟨fun _ _ hrow => absurd hrow (by simp [cypherWriteContextCreate, Store.empty]),
      fun _ hid => absurd hid (by simp [cypherWriteContextCreate, Store.empty])⟩, by decide⟩
  exact (run_induct (P := fun s => s.store.Sound ∧ 0 < s.iNextNodeId) (fun _ h => h.2)
    (fun _ _ hstep h => hstep.sound h) hempty calls).1

/-- The second store is the first one without a node and without the edges that `gone` holds of. -/
def Store.Without (store store' : Store) (iNodeId : Int) (gone : EdgeRow → Bool) : Prop :=
  (∀ id, store'.nodes.get id = if id = iNodeId then none else store.nodes.get id) ∧
    ∀ id, store'.edges.get id = (store.edges.get id).filter fun row => !gone row

theorem without_deleteNode (store : Store) (iNodeId : Int) :
    store.Without (store.deleteNode iNodeId) iNodeId fun _ => false := by
  refine ⟨RowTable.get_delete _ _, fun id => ?_⟩
  show store.edges.get id = _
  cases store.edges.get id with
  | none => rfl
  | some row => rfl

theorem without_detach (store : Store) (iNodeId : Int) :
    store.Without ((store.detach iNodeId).deleteNode iNodeId) iNodeId fun row =>
      row.touches iNodeId :=
  ⟨RowTable.get_delete _ _, get_detach iNodeId⟩

theorem edgeIds_eq_nil_iff {iNodeId : Int} :
    edgeIds store iNodeId = [] ↔
      ∀ iEdgeId row, store.edges.get iEdgeId = some row → row.touches iNodeId = false := by
  rw [List.eq_nil_iff_forall_not_mem]
  refine ⟨fun h iEdgeId row hrow => ?_, fun h iEdgeId hmem => ?_⟩
  · exact Bool.eq_false_of_not_eq_true fun htouches =>
      h iEdgeId (mem_edgeIds.mpr ⟨row, hrow, htouches⟩)
  · obtain ⟨row, hrow, htouches⟩ := mem_edgeIds.mp hmem
    rw [h iEdgeId row hrow] at htouches
    cases htouches

/-- In every state of every run both ends of every edge are nodes, a node is deleted if no edge
touches it, and with its edges if it is detached. -/
theorem writes_keep_integrity (host : Host) (calls : List WriteCall) :
    let s := (cypherWriteContextCreate .empty).run host calls
    s.store.Linked ∧ ∀ op : DeleteOp, op.bIsNode = true → (s.store.nodes.get op.iNodeId).isSome →
      (op.bDetach = false →
        ((cypherDelete s op).1 = .ok ↔
          ∀ iEdgeId row, s.store.edges.get iEdgeId = some row → row.touches op.iNodeId = false) ∧
        ((cypherDelete s op).1 = .ok →
          s.store.Without (cypherDelete s op).2.store op.iNodeId fun _ => false)) ∧
      (op.bDetach = true → (cypherDelete s op).1 = .ok ∧
        s.store.Without (cypherDelete s op).2.store op.iNodeId fun row => row.touches op.iNodeId) := by
  intro s
  have hsound := sound_run host calls
  refine ⟨hsound.linked, fun op hisNode hnode => ?_⟩
  have hpos := hsound.positive op.iNodeId hnode
  obtain ⟨row, hrow⟩ := Option.isSome_iff_exists.mp hnode
  rw [cypherDelete, if_pos hisNode, ← edgeIds_eq_nil_iff]
  refine ⟨fun hdetach => ?_, fun hdetach => ?_⟩
  · rw [hdetach]
    by_cases hedges : edgeIds s.store op.iNodeId = []
    · rw [cypherDeleteNode_of_no_edges hpos hrow hedges]
      exact ⟨iff_of_true rfl hedges, fun _ => without_deleteNode s.store op.iNodeId⟩
    · rw [cypherDeleteNode_of_edges hpos hrow hedges]
      exact ⟨iff_of_false (by simp) hedges, fun h => absurd h (by simp)⟩
  · rw [hdetach, cypherDeleteNode_detach hpos hrow]
    exact ⟨rfl, without_detach s.store op.iNodeId⟩

def sampleNode (seed : Int) : WriteCall :=
  .createNode { zVariable := none, azLabels := ["Person".toList], properties := [], seed }

def sampleRelationship : WriteCall :=
  .createRelationship
    { zFromVar := none
      zToVar := none
      zRelVar := none
      zRelType := "KNOWS".toList
      properties := []
      iFromNodeId := 1
      iToNodeId := 2
      seed := 1 }

theorem integrity_of_two_nodes :
    let s := (cypherWriteContextCreate .empty).run sampleHost
      [sampleNode 1, sampleNode 2, sampleRelationship]
    s.store.edges.rows.length = 1 ∧ s.store.Linked ∧
      (cypherDelete s ⟨true, 1, 0, true⟩).1 = .ok ∧
      s.store.Without (cypherDelete s ⟨true, 1, 0, true⟩).2.store 1 fun row => row.touches 1 := by
  intro s
  have h := writes_keep_integrity sampleHost [sampleNode 1, sampleNode 2, sampleRelationship]
  exact ⟨by decide +kernel, h.1, (h.2 ⟨true, 1, 0, true⟩ rfl (by decide +kernel)).2 rfl⟩

end SqliteMultimodal.Graph
