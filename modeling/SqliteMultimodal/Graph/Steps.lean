import SqliteMultimodal.Graph.StorageLaws

namespace SqliteMultimodal.Graph

variable {host : Host} {store : Store}

section Calls

variable {s s' : Session}

inductive Recorded (host : Host) (store : Store) : CypherWriteOp → Store → Prop
  | createNode {iNodeId : Int} {row : NodeRow} {zNewLabels : Option Text}
      {pNewValue : Option CypherValue} {nodes : RowTable NodeRow} (hpos : 0 < iNodeId)
      (hinsert : store.nodes.insert iNodeId row = some nodes) :
      Recorded host store { type := .createNode, iNodeId, zNewLabels, pNewValue }
        { store with nodes }
  | createRelationship {iRelId : Int} {row : EdgeRow} {edges : RowTable EdgeRow}
      (hpos : 0 < iRelId) (hinsert : store.edges.insert iRelId row = some edges)
      (hfrom : cypherStorageNodeExists store row.fromNode = true)
      (hto : cypherStorageNodeExists store row.toNode = true) (htype : row.edgeType ≠ none) :
      Recorded host store
        { type := .createRelationship
          iRelId
          iFromId := row.fromNode
          iToId := row.toNode
          zRelType := row.edgeType }
        { store with edges }
  | mergeMatch {iNodeId : Int} {zProperty : Option Text} (hpos : 0 < iNodeId) :
      Recorded host store { type := .mergeNode, iNodeId, zProperty } store
  | mergeCreate {iNodeId : Int} {row : NodeRow} {zNewLabels zProperty : Option Text}
      (hpos : 0 < iNodeId) :
      Recorded host store { type := .mergeNode, iNodeId, zNewLabels, zProperty }
        (insertNode store iNodeId row).2
  | setProperty {iNodeId : Int} {zProperty : Text} {pOldValue pNewValue : CypherValue}
      (hnode : cypherStorageNodeExists store iNodeId = true) :
      Recorded host store
        { type := .setProperty
          iNodeId
          zProperty := some zProperty
          pOldValue := some pOldValue
          pNewValue := some pNewValue }
        (cypherStorageUpdateProperties host store iNodeId 0 (some zProperty) (some pNewValue)).2
  | setLabel {iNodeId : Int} {zNewLabels zOldLabels : Text}
      (hnode : cypherStorageNodeExists store iNodeId = true) :
      Recorded host store
        { type := .setLabel
          iNodeId
          zNewLabels := some zNewLabels
          zOldLabels := some zOldLabels }
        (updateLabels store iNodeId zNewLabels).2
  | deleteNode {iNodeId : Int} {row : NodeRow} (hpos : 0 < iNodeId)
      (hnode : store.nodes.get iNodeId = some row) (hedges : edgeIds store iNodeId = []) :
      Recorded host store (deleteNodeRecord .deleteNode iNodeId (some row))
        (store.deleteNode iNodeId)
  | detachDeleteNode {iNodeId : Int} {row : NodeRow} (hpos : 0 < iNodeId)
      (hnode : store.nodes.get iNodeId = some row) :
      Recorded host store (deleteNodeRecord .detachDeleteNode iNodeId (some row))
        ((store.detach iNodeId).deleteNode iNodeId)
  | deleteRelationship (iRelId : Int) :
      Recorded host store (deleteRelationshipRecord iRelId (store.edges.get iRelId))
        (cypherStorageDeleteEdge store iRelId).2

def Session.record (s : Session) (op : CypherWriteOp) (store : Store) : Session :=
  { s with store, operations := s.operations ++ [op] }

theorem cypherWriteContextBegin_eq_ok (h : cypherWriteContextBegin s = (.ok, s')) :
    s.bInTransaction = true ∧ s' = s ∨
    s.bInTransaction = false ∧ s.saved = none ∧
      s' = { s with saved := some s.store, bInTransaction := true } := by
  unfold cypherWriteContextBegin at h
  split at h
  next htrans =>
    cases h
    exact .inl ⟨htrans, rfl⟩
  next htrans =>
    split at h
    next => cases h
    next hsaved =>
      cases h
      exact .inr ⟨Bool.eq_false_of_not_eq_true htrans, Option.not_isSome_iff_eq_none.mp hsaved, rfl⟩

theorem store_cypherWriteContextBegin (s : Session) :
    (cypherWriteContextBegin s).2.store = s.store := by
  unfold cypherWriteContextBegin
  split
  next => rfl
  next => split <;> rfl

theorem cypherWriteContextBegin_ne_ok (h : (cypherWriteContextBegin s).1 ≠ .ok) :
    (cypherWriteContextBegin s).2 = s := by
  unfold cypherWriteContextBegin at h ⊢
  split
  next => rfl
  next htrans =>
    split
    next => rfl
    next hsaved =>
      rw [if_neg htrans, if_neg hsaved] at h
      exact absurd rfl h

theorem cypherCreateNode_cases (host : Host) (s : Session) (op : CreateNodeOp) :
    ((cypherCreateNode host s op).1 ≠ .ok ∧ (cypherCreateNode host s op).2 = s) ∨
    op.check = none ∧ ∃ t op' store, cypherWriteContextBegin s = (.ok, t) ∧
      Recorded host t.store op' store ∧ op'.type = .createNode ∧
      op'.iNodeId = cypherGenerateSecureNodeId s.store op.seed ∧
      (cypherCreateNode host s op).2 = t.record op' store := by
  unfold cypherCreateNode
  split
  next rc hcheck => exact .inl ⟨fun heq => op.check_ne_ok (hcheck.trans (congrArg some heq)), rfl⟩
  next hcheck =>
    dsimp only
    split
    next => exact .inl ⟨by simp, rfl⟩
    next hpos =>
      split
      next t hbegin =>
        refine .inr ⟨hcheck, ?_⟩
        have hstore : t.store = s.store := by
          rw [← store_cypherWriteContextBegin s, hbegin]
        have hnone := get_cypherGenerateSecureNodeId (not_le.mp hpos)
        rw [← hstore] at hnone hpos ⊢
        obtain ⟨nodes, hinsert, heq⟩ := insertNode_eq
          ⟨some (labelsJson op.azLabels), some (createNodeProps host op.properties)⟩ (not_le.mp hpos)
          hnone
        rw [cypherStorageAddNode_eq, cypherWriteContextAddOperation]
        dsimp only
        rw [heq]
        refine ⟨t, _, { t.store with nodes }, hbegin, ?_, ?_, ?_, rfl⟩
        · exact .createNode (not_le.mp hpos) hinsert
        · rfl
        · rfl
      next rc t hne hbegin =>
        have hrc : (cypherWriteContextBegin s).1 ≠ .ok := by
          rw [hbegin]
          exact hne
        exact .inl ⟨hne, (congrArg Prod.snd hbegin).symm.trans (cypherWriteContextBegin_ne_ok hrc)⟩

theorem cypherCreateRelationship_cases (host : Host) (s : Session) (op : CreateRelOp) :
    ((cypherCreateRelationship host s op).1 ≠ .ok ∧ (cypherCreateRelationship host s op).2 = s) ∨
    op.check = none ∧ ∃ op' store, Recorded host s.store op' store ∧
      op'.type = .createRelationship ∧
      op'.iRelId = cypherGenerateSecureRelationshipId s.store op.seed ∧
      (cypherCreateRelationship host s op).2 = s.record op' store := by
  unfold cypherCreateRelationship
  split
  next rc hcheck => exact .inl ⟨fun heq => op.check_ne_ok (hcheck.trans (congrArg some heq)), rfl⟩
  next hcheck =>
    split
    next => exact .inl ⟨by simp, rfl⟩
    next hends =>
      simp only [cypherValidateNodeExists, Bool.or_eq_true, not_or, Bool.not_not_eq] at hends
      obtain ⟨hfrom, hto⟩ := hends
      dsimp only
      split
      next => exact .inl ⟨by simp, rfl⟩
      next hpos =>
        split
        next => exact .inl ⟨by simp, rfl⟩
        next zPropsJson _ =>
          obtain ⟨edges, hinsert, heq⟩ := insertEdge_eq
            ⟨op.iFromNodeId, op.iToNodeId, some op.zRelType, 1, some zPropsJson⟩
            (not_le.mp hpos) (get_cypherGenerateSecureRelationshipId op.seed)
          rw [cypherWriteContextAddOperation, cypherStorageAddEdge_eq
            (cypherStorageNodeExists_iff.mp hfrom).1 (cypherStorageNodeExists_iff.mp hto).1]
          dsimp only
          rw [heq]
          refine .inr ⟨hcheck, _, { s.store with edges }, ?_, ?_, ?_, rfl⟩
          · exact .createRelationship (not_le.mp hpos) hinsert hfrom hto (by simp)
          · rfl
          · rfl

def setPropertyRecord (host : Host) (store : Store) (op : SetPropertyOp) : CypherWriteOp :=
  { type := .setProperty
    iNodeId := op.iNodeId
    zProperty := some op.zProperty
    pOldValue := some (oldValue host ((store.nodes.get op.iNodeId).bind NodeRow.properties)
      op.zProperty)
    pNewValue := some op.value }

theorem cypherSetProperty_cases (host : Host) (s : Session) (op : SetPropertyOp) :
    ((cypherSetProperty host s op).1 ≠ .ok ∧ (cypherSetProperty host s op).2 = s) ∨
    cypherStorageNodeExists s.store op.iNodeId = true ∧
    ∃ store, Recorded host s.store (setPropertyRecord host s.store op) store ∧
      (cypherSetProperty host s op).2 = s.record (setPropertyRecord host s.store op) store := by
  unfold cypherSetProperty
  split
  next => exact .inl ⟨by simp, rfl⟩
  next hnode =>
    have hnode : cypherStorageNodeExists s.store op.iNodeId = true := Bool.not_not_eq.mp hnode
    exact .inr ⟨hnode, _, .setProperty hnode, rfl⟩

def setLabelRecord (store : Store) (op : SetLabelOp) : CypherWriteOp :=
  { type := .setLabel
    iNodeId := op.iNodeId
    zNewLabels := some (labelsJson op.azLabels)
    zOldLabels := some (oldLabels store op.iNodeId) }

theorem cypherSetLabel_cases (host : Host) (s : Session) (op : SetLabelOp) :
    ((cypherSetLabel s op).1 ≠ .ok ∧ (cypherSetLabel s op).2 = s) ∨
    cypherStorageNodeExists s.store op.iNodeId = true ∧
    ∃ store, Recorded host s.store (setLabelRecord s.store op) store ∧
      (cypherSetLabel s op).2 = s.record (setLabelRecord s.store op) store := by
  unfold cypherSetLabel
  split
  next => exact .inl ⟨by simp, rfl⟩
  next hnode =>
    have hnode : cypherStorageNodeExists s.store op.iNodeId = true := Bool.not_not_eq.mp hnode
    exact .inr ⟨hnode, _, .setLabel hnode, rfl⟩

section DeleteNode

variable {iNodeId : Int} {row : NodeRow}

theorem cypherDeleteNode_of_not_exists (h : cypherStorageNodeExists s.store iNodeId = false)
    (bDetach : Bool) : cypherDeleteNode s iNodeId bDetach = (.error, s) := by
  rw [cypherDeleteNode, cypherValidateNodeExists, h]
  rfl

theorem cypherDeleteNode_of_edges (hpos : 0 < iNodeId) (hrow : s.store.nodes.get iNodeId = some row)
    (hedges : edgeIds s.store iNodeId ≠ []) : cypherDeleteNode s iNodeId false = (.error, s) := by
  have hnode := cypherStorageNodeExists_iff.mpr ⟨hpos, row, hrow⟩
  have hlen := decide_eq_true ((two_lt_length_iff hpos).mpr hedges)
  rw [cypherDeleteNode, cypherValidateNodeExists, hnode]
  simp only [gt_iff_lt, hlen]
  rfl

theorem cypherDeleteNode_of_no_edges (hpos : 0 < iNodeId)
    (hrow : s.store.nodes.get iNodeId = some row) (hedges : edgeIds s.store iNodeId = []) :
    cypherDeleteNode s iNodeId false =
      (.ok, s.record (deleteNodeRecord .deleteNode iNodeId (some row))
        (s.store.deleteNode iNodeId)) := by
  have hnode := cypherStorageNodeExists_iff.mpr ⟨hpos, row, hrow⟩
  have hlen := decide_eq_false (mt (two_lt_length_iff hpos).mp (not_not.mpr hedges))
  rw [cypherDeleteNode, cypherValidateNodeExists, hnode]
  simp only [gt_iff_lt, hlen, cypherStorageDeleteNode, if_neg (not_le.mpr hpos)]
  rw [← hrow]
  rfl

theorem cypherDeleteNode_detach (hpos : 0 < iNodeId) (hrow : s.store.nodes.get iNodeId = some row) :
    cypherDeleteNode s iNodeId true =
      (.ok, s.record (deleteNodeRecord .detachDeleteNode iNodeId (some row))
        ((s.store.detach iNodeId).deleteNode iNodeId)) := by
  have hnode := cypherStorageNodeExists_iff.mpr ⟨hpos, row, hrow⟩
  rw [cypherDeleteNode, cypherValidateNodeExists, hnode]
  simp only [gt_iff_lt, cypherStorageDeleteNode, if_neg (not_le.mpr hpos)]
  by_cases hlen : 2 < (cypherGetNodeRelationships s.store iNodeId).length
  · rw [decide_eq_true hlen]
    have hnodes : (deleteRelationships s.store (cypherGetNodeRelationships s.store iNodeId)).nodes =
        s.store.nodes := (get_foldl_deleteEdge _ s.store 0).2
    have hdetach : (deleteRelationships s.store (cypherGetNodeRelationships s.store iNodeId)).detach
        iNodeId = s.store.detach iNodeId := detach_deleteRelationships hpos
    rw [← hdetach, ← hrow, ← hnodes]
    rfl
  · rw [decide_eq_false hlen, ← hrow]
    rfl

theorem cypherDeleteNode_cases (host : Host) (s : Session) (iNodeId : Int) (bDetach : Bool) :
    ((cypherDeleteNode s iNodeId bDetach).1 ≠ .ok ∧ (cypherDeleteNode s iNodeId bDetach).2 = s) ∨
    cypherStorageNodeExists s.store iNodeId = true ∧ ∃ type row store,
      (type = .deleteNode ∨ type = .detachDeleteNode) ∧
      Recorded host s.store (deleteNodeRecord type iNodeId (some row)) store ∧
      (cypherDeleteNode s iNodeId bDetach).2 =
        s.record (deleteNodeRecord type iNodeId (some row)) store := by
  cases hnode : cypherStorageNodeExists s.store iNodeId with
  | false =>
    rw [cypherDeleteNode_of_not_exists hnode]
    exact .inl ⟨by simp, rfl⟩
  | true =>
    obtain ⟨hpos, row, hrow⟩ := cypherStorageNodeExists_iff.mp hnode
    cases bDetach with
    | true =>
      rw [cypherDeleteNode_detach hpos hrow]
      exact .inr ⟨rfl, _, row, _, .inr rfl, .detachDeleteNode hpos hrow, rfl⟩
    | false =>
      by_cases hedges : edgeIds s.store iNodeId = []
      · rw [cypherDeleteNode_of_no_edges hpos hrow hedges]
        exact .inr ⟨rfl, _, row, _, .inl rfl, .deleteNode hpos hrow hedges, rfl⟩
      · rw [cypherDeleteNode_of_edges hpos hrow hedges]
        exact .inl ⟨by simp, rfl⟩

end DeleteNode

section Merge

theorem firstMatch_mem {matching : NodeRow → Option Bool} {rows : List (Int × NodeRow)}
    (h : 0 < firstMatch matching rows) :
    ∃ row, (firstMatch matching rows, row) ∈ rows ∧ matching row = some true := by
  induction rows with
  | nil => exact absurd h (lt_irrefl 0)
  | cons x rows ih =>
    obtain ⟨iNodeId, row⟩ := x
    unfold firstMatch at h ⊢
    split at h
    next => exact absurd h (lt_irrefl 0)
    next heq => exact ⟨row, List.mem_cons_self, heq⟩
    next =>
      obtain ⟨row', hmem, hmatch⟩ := ih h
      exact ⟨row', List.mem_cons_of_mem _ hmem, hmatch⟩

theorem cypherStorageNodeExists_cypherFindMatchingNode {azLabels : List Text}
    {matchProps : List Property}
    (h : 0 < cypherFindMatchingNode host store azLabels matchProps) :
    cypherStorageNodeExists store (cypherFindMatchingNode host store azLabels matchProps) = true := by
  refine cypherStorageNodeExists_iff.mpr ⟨h, ?_⟩
  unfold cypherFindMatchingNode at h ⊢
  split
  next heq =>
    rw [if_pos heq] at h
    exact absurd h (by decide)
  next heq =>
    rw [if_neg heq] at h
    split at h
    next hlabels hprops =>
      obtain ⟨row, hmem, -⟩ := firstMatch_mem h
      exact ⟨row, RowTable.get_eq_some.mpr hmem⟩
    next => exact absurd h (by decide)

theorem applyOnMatch_induct {P : Session → Prop} {iNodeId : Int}
    (hset : ∀ s (p : Property), P s → P (cypherSetProperty host s ⟨p.1, p.2, iNodeId⟩).2)
    (properties : List Property) (h : P s) : P (applyOnMatch host iNodeId s properties).2 := by
  induction properties generalizing s with
  | nil => exact h
  | cons p properties ih =>
    have hp := hset s p h
    rw [applyOnMatch]
    split
    next heq =>
      rw [heq] at hp
      exact ih hp
    next heq =>
      rw [heq] at hp
      exact hp

theorem cypherMergeNode_cases (host : Host) (s : Session) (op : MergeNodeOp) :
    let iFoundNodeId := cypherFindMatchingNode host s.store op.azLabels op.matchProps
    0 < iFoundNodeId ∧
      ((cypherMergeNode host s op).1 ≠ .ok ∧ (cypherMergeNode host s op).2 =
          (applyOnMatch host iFoundNodeId s op.onMatchProps).2 ∨
        (cypherMergeNode host s op).2 =
          cypherWriteContextAddOperation (applyOnMatch host iFoundNodeId s op.onMatchProps).2
            { type := .mergeNode, iNodeId := iFoundNodeId, zProperty := some "MATCH".toList }) ∨
    iFoundNodeId ≤ 0 ∧ (cypherMergeNode host s op).2 =
      Session.record { s with iNextNodeId := s.iNextNodeId + 1 }
        { type := .mergeNode
          iNodeId := s.iNextNodeId
          zNewLabels := some (labelsJson op.azLabels)
          zProperty := some "CREATE".toList }
        (insertNode s.store s.iNextNodeId ⟨some (labelsJson op.azLabels),
          some (mergeProps (op.matchProps ++ op.onCreateProps))⟩).2 := by
  unfold cypherMergeNode
  dsimp only
  split
  next hfound =>
    refine .inl ⟨hfound, ?_⟩
    split
    next heq =>
      rw [heq]
      exact .inr rfl
    next hne heq =>
      rw [heq]
      exact .inl ⟨hne, rfl⟩
  next hfound =>
    refine .inr ⟨not_lt.mp hfound, ?_⟩
    rw [cypherStorageAddNode_eq]
    rfl

end Merge

section Step

inductive Step (host : Host) (s : Session) : Session → Prop
  | begin {t : Session} (h : cypherWriteContextBegin s = (.ok, t)) : Step host s t
  | count : Step host s { s with iNextNodeId := s.iNextNodeId + 1 }
  | record {op : CypherWriteOp} {store : Store} (h : Recorded host s.store op store) :
      Step host s (s.record op store)

theorem call_induct {P : Session → Prop} (hpos : ∀ s, P s → 0 < s.iNextNodeId)
    (hstep : ∀ s t, Step host s t → P s → P t) (h : P s) (call : WriteCall) :
    P (s.call host call).2 := by
  have hset : ∀ s op, P s → P (cypherSetProperty host s op).2 := fun s op hs => by
    obtain ⟨-, heq⟩ | ⟨-, store, hrec, heq⟩ := cypherSetProperty_cases host s op
    · rw [heq]
      exact hs
    · rw [heq]
      exact hstep s _ (.record hrec) hs
  cases call with
  | createNode op =>
    rw [Session.call]
    obtain ⟨-, heq⟩ | ⟨-, t, op', store, hbegin, hrec, -, -, heq⟩ := cypherCreateNode_cases host s op
    · rw [heq]
      exact h
    · rw [heq]
      exact hstep t _ (.record hrec) (hstep s t (.begin hbegin) h)
  | createRelationship op =>
    rw [Session.call]
    obtain ⟨-, heq⟩ | ⟨-, op', store, hrec, -, -, heq⟩ := cypherCreateRelationship_cases host s op
    · rw [heq]
      exact h
    · rw [heq]
      exact hstep s _ (.record hrec) h
  | mergeNode op =>
    rw [Session.call]
    have hmatch : ∀ iNodeId, P (applyOnMatch host iNodeId s op.onMatchProps).2 :=
      fun _ => applyOnMatch_induct (fun s p => hset s _) op.onMatchProps h
    obtain ⟨hfound, ⟨-, heq⟩ | heq⟩ | ⟨-, heq⟩ := cypherMergeNode_cases host s op
    · rw [heq]
      exact hmatch _
    · rw [heq]
      exact hstep _ _ (.record (.mergeMatch hfound)) (hmatch _)
    · rw [heq]
      exact hstep _ _ (.record (.mergeCreate (hpos s h))) (hstep s _ .count h)
  | setProperty op => exact hset s op h
  | setLabel op =>
    rw [Session.call]
    obtain ⟨-, heq⟩ | ⟨-, store, hrec, heq⟩ := cypherSetLabel_cases host s op
    · rw [heq]
      exact h
    · rw [heq]
      exact hstep s _ (.record hrec) h
  | delete op =>
    rw [Session.call, cypherDelete]
    split
    next =>
      obtain ⟨-, heq⟩ | ⟨-, _, _, _, -, hrec, heq⟩ :=
        cypherDeleteNode_cases host s op.iNodeId op.bDetach
      · rw [heq]
        exact h
      · rw [heq]
        exact hstep s _ (.record hrec) h
    next => exact hstep s _ (.record (.deleteRelationship op.iRelId)) h

def Session.run (host : Host) (s : Session) (calls : List WriteCall) : Session :=
  calls.foldl (fun s call => (s.call host call).2) s

theorem run_induct {P : Session → Prop} (hpos : ∀ s, P s → 0 < s.iNextNodeId)
    (hstep : ∀ s t, Step host s t → P s → P t) (h : P s) (calls : List WriteCall) :
    P (s.run host calls) := by
  induction calls generalizing s with
  | nil => exact h
  | cons call calls ih => exact ih (call_induct hpos hstep h call)

end Step

def sampleHost : Host where
  g _ := "0".toList
  g6 _ := "0".toList
  g15 _ := "0".toList
  jsonSet doc property value :=
    if doc = braced [] then some (braced (propertyText property value)) else none
  jsonExtract _ _ := none
  jsonAppend doc label := if doc = bracketed [] then some (bracketed (quoted label)) else none
  labelIs _ _ _ := some false
  propertyIs _ _ _ := some false
  pastedUpdate _ _ nodes := nodes

end Calls

end SqliteMultimodal.Graph
