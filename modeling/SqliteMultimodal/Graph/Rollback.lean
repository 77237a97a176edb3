import SqliteMultimodal.Graph.Undo

namespace SqliteMultimodal.Graph

variable {host : Host} {S X store store' : Store} {s t : Session}
variable {log log' ops : List CypherWriteOp} {op op' : CypherWriteOp}

def CypherWriteOp.Makes (op : CypherWriteOp) (iNodeId : Int) : Prop :=
  (op.type = .createNode ∨ op.type = .mergeNode) ∧ op.iNodeId = iNodeId

def NewForeign (S X : Store) : Prop :=
  ∀ id, X.nodes.get id ≠ none → S.nodes.get id = none → Foreign S id

section Growth

variable {id : Int}

theorem get_insertNode_ne_none {iNodeId : Int} {row : NodeRow} (hpos : 0 < iNodeId)
    (h : (insertNode X iNodeId row).2.nodes.get id ≠ none) :
    X.nodes.get id ≠ none ∨ iNodeId = id := by
  obtain ⟨heq, -⟩ | ⟨key, nodes, hkey, hinsert, heq⟩ := insertNode_cases X iNodeId row
  · rw [heq] at h
    exact .inl h
  · rw [heq] at h
    change nodes.get id ≠ none at h
    rw [(RowTable.insert_eq_some hinsert).2, hkey hpos] at h
    split at h
    next hid => exact .inr hid.symm
    next => exact .inl h

theorem get_updateNode_ne_none {iNodeId : Int} {f : NodeRow → Option NodeRow}
    (h : (updateNode X iNodeId f).2.nodes.get id ≠ none) : X.nodes.get id ≠ none := by
  rw [← Option.isSome_iff_ne_none, isSome_get_updateNode] at h
  exact Option.isSome_iff_ne_none.mp h

theorem get_deleteNode_ne_none {iNodeId : Int} {bDetach : Bool}
    (h : (cypherStorageDeleteNode X iNodeId bDetach).2.nodes.get id ≠ none) :
    X.nodes.get id ≠ none := by
  rw [get_nodes_cypherStorageDeleteNode] at h
  split at h
  next => exact absurd rfl h
  next => exact h

theorem executeMerge_makes (hpos : 0 < op.iNodeId) (htype : op.type = .mergeNode)
    (h : (executeMerge host X op).2.1.nodes.get id ≠ none) :
    X.nodes.get id ≠ none ∨ op.Makes id := by
  unfold executeMerge at h
  dsimp only at h
  split at h
  next => exact .inl h
  next =>
    rw [if_neg hpos.ne', cypherStorageAddNode_eq] at h
    exact (get_insertNode_ne_none hpos h).imp_right fun hid => ⟨.inr htype, hid⟩

theorem executeOperation_makes (hop : op.WellFormed)
    (h : (executeOperation host X op).2.1.nodes.get id ≠ none) :
    X.nodes.get id ≠ none ∨ op.Makes id := by
  unfold CypherWriteOp.WellFormed at hop
  cases htype : op.type with
  | createNode =>
    simp only [htype] at hop
    simp only [executeOperation, htype, if_neg hop.ne', cypherStorageAddNode_eq] at h
    exact (get_insertNode_ne_none hop h).imp_right fun hid => ⟨.inl htype, hid⟩
  | mergeNode =>
    simp only [htype] at hop
    simp only [executeOperation, htype] at h
    exact executeMerge_makes hop htype h
  | createRelationship =>
    simp only [executeOperation, htype, nodes_cypherStorageAddEdge] at h
    exact .inl h
  | setProperty =>
    simp only [htype] at hop
    simp only [executeOperation, htype, hop.2, snd_cypherStorageUpdateProperties hop.1] at h
    exact .inl (get_updateNode_ne_none h)
  | setLabel =>
    simp only [executeOperation, htype, appendLabel] at h
    split at h
    next => exact .inl h
    next => exact .inl (get_updateNode_ne_none h)
  | deleteNode =>
    simp only [executeOperation, htype] at h
    exact .inl (get_deleteNode_ne_none h)
  | detachDeleteNode =>
    simp only [executeOperation, htype] at h
    exact .inl (get_deleteNode_ne_none h)
  | deleteRelationship =>
    simp only [executeOperation, htype, nodes_cypherStorageDeleteEdge] at h
    exact .inl h
  | mergeRelationship | removeProperty | removeLabel =>
    simp only [executeOperation, htype] at h
    exact .inl h

end Growth

theorem Harmless.foreign {id : Int} (h : Harmless host S log op) (hmakes : op.Makes id) :
    Foreign S id := by
  unfold Harmless at h
  obtain ⟨htype | htype, rfl⟩ := hmakes
  · simp only [htype] at h
    exact h
  · simp only [htype] at h
    exact h.2

theorem NewForeign.executeOperation (h : NewForeign S X) (hharmless : Harmless host S log op)
    (hop : op.WellFormed) : NewForeign S (executeOperation host X op).2.1 := by
  intro id hid hS
  obtain hid | hmakes := executeOperation_makes hop hid
  · exact h id hid hS
  · exact hharmless.foreign hmakes

section Execute

structure Alike (host : Host) (log log' : List CypherWriteOp) : Prop where
  node : ∀ id, CreatesNode log id → CreatesNode log' id
  relationship : ∀ id, CreatesRelationship log id → CreatesRelationship log' id
  undo : ∀ id row, undoSets host log' id row = undoSets host log id row

theorem CreatesNode.snoc {id : Int} (op : CypherWriteOp) (h : CreatesNode log id) :
    CreatesNode (log ++ [op]) id := by
  obtain ⟨op', hmem, hcreates⟩ := h
  exact ⟨op', List.mem_append_left _ hmem, hcreates⟩

theorem CreatesRelationship.snoc {id : Int} (op : CypherWriteOp) (h : CreatesRelationship log id) :
    CreatesRelationship (log ++ [op]) id := by
  obtain ⟨op', hmem, hcreates⟩ := h
  exact ⟨op', List.mem_append_left _ hmem, hcreates⟩

theorem Alike.snoc (h : Alike host log log') (op : CypherWriteOp) :
    Alike host (log ++ [op]) (log' ++ [op]) := by
  refine ⟨fun id hid => ?_, fun id hid => ?_, fun id row => ?_⟩
  · by_cases hop : op.type = .createNode ∧ op.iNodeId = id
    · exact ⟨op, List.mem_append_right _ (List.mem_singleton.mpr rfl), hop⟩
    · exact (h.node id (hid.of_snoc fun htype heq => hop ⟨htype, heq⟩)).snoc op
  · by_cases hop : op.type = .createRelationship ∧ op.iRelId = id
    · exact ⟨op, List.mem_append_right _ (List.mem_singleton.mpr rfl), hop⟩
    · exact (h.relationship id (hid.of_snoc fun htype heq => hop ⟨htype, heq⟩)).snoc op
  · rw [undoSets_snoc, undoSets_snoc, h.undo]

theorem Alike.snoc_merge (h : Alike host log log') (htype : op.type = .mergeNode)
    (htype' : op'.type = .mergeNode) : Alike host (log ++ [op]) (log' ++ [op']) := by
  have hsets : ∀ op : CypherWriteOp, op.type = .mergeNode → ¬op.Sets := fun op htype =>
    not_sets (by simp [htype]) (by simp [htype])
  refine ⟨fun id hid => ?_, fun id hid => ?_, fun id row => ?_⟩
  · exact (h.node id (hid.of_snoc fun hcreate => by rw [htype] at hcreate; cases hcreate)).snoc op'
  · exact (h.relationship id
      (hid.of_snoc fun hcreate => by rw [htype] at hcreate; cases hcreate)).snoc op'
  · rw [undoSets_snoc, undoSets_snoc, undoSet_of_not_sets (hsets op htype),
      undoSet_of_not_sets (hsets op' htype'), h.undo]

theorem Harmless.alike (halike : Alike host log log') (h : Harmless host S log op) :
    Harmless host S log' op := by
  unfold Harmless at h ⊢
  split at h
  next => exact h
  next => exact h
  next => exact h
  next =>
    refine ⟨h.1, fun row hrow => ?_⟩
    rw [(halike.snoc op).undo]
    exact h.2 row hrow
  next =>
    refine ⟨h.1, fun row hrow => ?_⟩
    rw [(halike.snoc op).undo]
    exact h.2 row hrow
  next => exact h.imp_right (halike.node _)
  next => exact h.imp_right (halike.node _)
  next =>
    exact fun hfrom hto =>
      (h hfrom hto).imp_right fun hrel => hrel.imp_right (halike.relationship _)
  all_goals exact h

theorem HarmlessAfter.alike (halike : Alike host log log') (h : HarmlessAfter host S log ops) :
    HarmlessAfter host S log' ops := by
  induction ops generalizing log log' with
  | nil => trivial
  | cons op ops ih => exact ⟨h.1.alike halike, ih (halike.snoc op) h.2⟩

theorem Harmless.executeOperation (h : Harmless host S log op) (hop : op.WellFormed)
    (hX : NewForeign S X) (halike : Alike host log log') :
    Harmless host S log' (executeOperation host X op).2.2 ∧
      Alike host (log ++ [op]) (log' ++ [(executeOperation host X op).2.2]) := by
  obtain heq | ⟨htype, hfound, heq⟩ := executeOperation_record host X hop
  · rw [heq]
    exact ⟨h.alike halike, halike.snoc op⟩
  · rw [heq]
    refine ⟨?_, halike.snoc_merge htype htype⟩
    unfold Harmless at h ⊢
    simp only [htype] at h ⊢
    have hnone : S.nodes.get (cypherFindMatchingNode host X [] []) = none := by
      by_contra hne
      exact absurd hfound (h.1 _ hne).not_gt
    obtain ⟨-, row, hrow⟩ :=
      cypherStorageNodeExists_iff.mp (cypherStorageNodeExists_cypherFindMatchingNode hfound)
    exact ⟨h.1, hX _ (by simp [hrow]) hnone⟩

theorem HarmlessAfter.executed (h : HarmlessAfter host S log ops)
    (hops : ∀ op ∈ ops, op.WellFormed) (hX : NewForeign S X) (halike : Alike host log log') :
    HarmlessAfter host S log' (cypherExecuteOperations host X ops).2.2 := by
  induction ops generalizing X log log' with
  | nil => trivial
  | cons op ops ih =>
    have hop := hops op List.mem_cons_self
    obtain ⟨hharmless, hsnoc⟩ := h.1.executeOperation hop hX halike
    obtain ⟨-, heq⟩ | ⟨-, heq⟩ := cypherExecuteOperations_cons host X op ops
    · rw [heq]
      exact ⟨hharmless, h.2.alike hsnoc⟩
    · rw [heq]
      exact ⟨hharmless, ih h.2 (fun op hmem => hops op (List.mem_cons_of_mem _ hmem))
        (hX.executeOperation h.1 hop) hsnoc⟩

theorem HarmlessLog.executed (h : HarmlessLog host S log) (hlog : ∀ op ∈ log, op.WellFormed)
    (hX : NewForeign S X) : HarmlessLog host S (cypherExecuteOperations host X log).2.2 :=
  HarmlessAfter.executed h hlog hX ⟨fun _ h => h, fun _ h => h, fun _ _ => rfl⟩

end Execute

section Calls

theorem Recorded.makes {id : Int} (hrec : Recorded host store op store')
    (h : store'.nodes.get id ≠ none) : store.nodes.get id ≠ none ∨ op.Makes id := by
  cases hrec with
  | createNode hpos hinsert =>
    change RowTable.get _ id ≠ none at h
    rw [(RowTable.insert_eq_some hinsert).2] at h
    split at h
    next hid => exact .inr ⟨.inl rfl, hid.symm⟩
    next => exact .inl h
  | createRelationship hpos hinsert hfrom hto htype => exact .inl h
  | mergeMatch hpos => exact .inl h
  | mergeCreate hpos => exact (get_insertNode_ne_none hpos h).imp_right fun hid => ⟨.inr rfl, hid⟩
  | setProperty hnode =>
    rw [snd_cypherStorageUpdateProperties (cypherStorageNodeExists_iff.mp hnode).1] at h
    exact .inl (get_updateNode_ne_none h)
  | setLabel hnode =>
    rw [snd_updateLabels] at h
    exact .inl (get_updateNode_ne_none h)
  | deleteNode hpos hnode hedges =>
    rw [Store.deleteNode, RowTable.get_delete] at h
    split at h
    next => exact absurd rfl h
    next => exact .inl h
  | detachDeleteNode hpos hnode =>
    rw [Store.deleteNode, RowTable.get_delete] at h
    split at h
    next => exact absurd rfl h
    next => exact .inl h
  | deleteRelationship iRelId =>
    rw [nodes_cypherStorageDeleteEdge] at h
    exact .inl h

theorem Recorded.makesRelationship {id : Int} (hrec : Recorded host store op store')
    (h : store'.edges.get id ≠ none) :
    store.edges.get id ≠ none ∨ op.type = .createRelationship ∧ op.iRelId = id := by
  cases hrec with
  | createNode hpos hinsert => exact .inl h
  | createRelationship hpos hinsert hfrom hto htype =>
    change RowTable.get _ id ≠ none at h
    rw [(RowTable.insert_eq_some hinsert).2] at h
    split at h
    next hid => exact .inr ⟨rfl, hid.symm⟩
    next => exact .inl h
  | mergeMatch hpos => exact .inl h
  | mergeCreate hpos =>
    rw [edges_insertNode] at h
    exact .inl h
  | setProperty hnode =>
    rw [snd_cypherStorageUpdateProperties (cypherStorageNodeExists_iff.mp hnode).1,
      updateNode_edges] at h
    exact .inl h
  | setLabel hnode =>
    rw [snd_updateLabels, updateNode_edges] at h
    exact .inl h
  | deleteNode hpos hnode hedges => exact .inl h
  | detachDeleteNode hpos hnode =>
    refine .inl fun hnone => h ?_
    show (store.detach _).edges.get id = none
    rw [get_detach, hnone]
    rfl
  | deleteRelationship iRelId =>
    rw [get_cypherStorageDeleteEdge] at h
    split at h
    next => exact absurd rfl h
    next => exact .inl h

/-- What safe calls keep inside a transaction that was opened over the tables `S`. -/
structure Kept (host : Host) (S : Store) (s : Session) : Prop where
  inside : s.Inside S
  wellFormed : ∀ op ∈ s.operations, op.WellFormed
  harmless : HarmlessLog host S s.operations
  nodes : NewForeign S s.store
  edges : ∀ id, s.store.edges.get id ≠ none → S.edges.get id = none →
    CreatesRelationship s.operations id

theorem Kept.record (h : Kept host S s) (hrec : Recorded host s.store op store)
    (hop : Harmless host S s.operations op) : Kept host S (s.record op store) where
  inside := ⟨h.inside.counter, h.inside.saved, h.inside.bInTransaction⟩
  wellFormed := List.forall_mem_append.mpr
    ⟨h.wellFormed, List.forall_mem_singleton.mpr hrec.wellFormed⟩
  harmless := harmlessLog_snoc.mpr ⟨h.harmless, hop⟩
  nodes id hid hS := by
    obtain hid | hmakes := hrec.makes hid
    · exact h.nodes id hid hS
    · exact hop.foreign hmakes
  edges id hid hS := by
    obtain hid | hcreates := hrec.makesRelationship hid
    · exact (h.edges id hid hS).snoc op
    · exact ⟨op, List.mem_append_right _ (List.mem_singleton.mpr rfl), hcreates⟩

def Quoted (z : Text) : Prop := (Text.literal z).isSome

/-- When undoing what a call records leaves the tables `S` alone.  A call that is refused is safe.
What is pasted into SQL has its quotes in pairs: other text would end the literal. -/
def Safe (host : Host) (S : Store) (s : Session) : WriteCall → Prop
  | .createNode op => op.check = none → Foreign S (cypherGenerateSecureNodeId s.store op.seed)
  | .createRelationship op =>
    op.check = none → S.edges.get (cypherGenerateSecureRelationshipId s.store op.seed) = none
  | .mergeNode op => (∀ id, S.nodes.get id ≠ none → id ≤ 0) ∧
      (∀ l ∈ op.azLabels, Quoted l) ∧
      (∀ p ∈ op.matchProps, Quoted p.1 ∧ Quoted (cypherValueToJson host p.2)) ∧
      (cypherFindMatchingNode host s.store op.azLabels op.matchProps ≤ 0 → Foreign S s.iNextNodeId)
  | .setProperty op => cypherStorageNodeExists s.store op.iNodeId = true →
      ∀ row, S.nodes.get op.iNodeId = some row → Quoted op.zProperty ∧
        undoSets host (s.operations ++ [setPropertyRecord host s.store op]) op.iNodeId row = row
  | .setLabel op => cypherStorageNodeExists s.store op.iNodeId = true →
      Quoted (labelsJson op.azLabels) ∧ Quoted (oldLabels s.store op.iNodeId) ∧
      ∀ row, S.nodes.get op.iNodeId = some row →
        undoSets host (s.operations ++ [setLabelRecord s.store op]) op.iNodeId row = row
  | .delete op =>
    if op.bIsNode then cypherStorageNodeExists s.store op.iNodeId = true →
      S.nodes.get op.iNodeId ≠ none ∨ CreatesNode s.operations op.iNodeId
    else s.store.edges.get op.iRelId ≠ none → 0 < op.iRelId

theorem Kept.setProperty {op : SetPropertyOp} (h : Kept host S s)
    (hsafe : Safe host S s (.setProperty op)) : Kept host S (cypherSetProperty host s op).2 := by
  obtain ⟨-, heq⟩ | ⟨hnode, store, hrec, heq⟩ := cypherSetProperty_cases host s op
  · rw [heq]
    exact h
  · rw [heq]
    have hlabels : (setPropertyRecord host s.store op).LiteralLabels := fun _ htype => nomatch htype
    have hop : Harmless host S s.operations (setPropertyRecord host s.store op) :=
      And.intro hlabels fun row hrow => (hsafe hnode row hrow).2
    exact h.record hrec hop

theorem Kept.mergeNode {op : MergeNodeOp} (h : Kept host S s)
    (hsafe : Safe host S s (.mergeNode op)) : Kept host S (cypherMergeNode host s op).2 := by
  obtain ⟨hempty, -, -, hnext⟩ := hsafe
  obtain ⟨hfound, hmatch⟩ | ⟨hfound, heq⟩ := cypherMergeNode_cases host s op
  · have hnone :
        S.nodes.get (cypherFindMatchingNode host s.store op.azLabels op.matchProps) = none := by
      by_contra hne
      exact absurd hfound (hempty _ hne).not_gt
    obtain ⟨-, row, hrow⟩ :=
      cypherStorageNodeExists_iff.mp (cypherStorageNodeExists_cypherFindMatchingNode hfound)
    have hforeign := h.nodes _ (Option.ne_none_iff_exists'.mpr ⟨row, hrow⟩) hnone
    have hset := applyOnMatch_induct (fun t p (ht : Kept host S t) =>
      ht.setProperty fun _ row hrow => absurd (hnone.symm.trans hrow) (by simp)) op.onMatchProps h
    obtain ⟨-, heq⟩ | heq := hmatch
    · rw [heq]
      exact hset
    · rw [heq]
      exact hset.record (.mergeMatch hfound) ⟨hempty, hforeign⟩
  · rw [heq]
    have hcount : Kept host S { s with iNextNodeId := s.iNextNodeId + 1 } :=
      ⟨⟨Int.lt_add_one_of_le h.inside.counter.le, h.inside.saved, h.inside.bInTransaction⟩,
        h.wellFormed, h.harmless, h.nodes, h.edges⟩
    exact hcount.record (.mergeCreate h.inside.counter) ⟨hempty, hnext hfound⟩

theorem Kept.delete {op : DeleteOp} (h : Kept host S s) (hsafe : Safe host S s (.delete op)) :
    Kept host S (cypherDelete s op).2 := by
  rw [Safe] at hsafe
  unfold cypherDelete
  split
  next hisNode =>
    rw [if_pos hisNode] at hsafe
    obtain ⟨-, heq⟩ | ⟨hnode, type, row, store, htype, hrec, heq⟩ :=
      cypherDeleteNode_cases host s op.iNodeId op.bDetach
    · rw [heq]
      exact h
    · rw [heq]
      refine h.record hrec ?_
      obtain rfl | rfl := htype
      · exact hsafe hnode
      · exact hsafe hnode
  next hisNode =>
    rw [if_neg hisNode] at hsafe
    refine h.record (.deleteRelationship op.iRelId) ?_
    cases hrow : s.store.edges.get op.iRelId with
    | none => exact fun hfrom => absurd hfrom (lt_irrefl 0)
    | some row =>
      have hne := Option.ne_none_iff_exists'.mpr ⟨row, hrow⟩
      exact fun _ _ =>
        ⟨hsafe hne, or_iff_not_imp_left.mpr fun hnone => h.edges _ hne (not_not.mp hnone)⟩

theorem Kept.call {call : WriteCall} (h : Kept host S s) (hsafe : Safe host S s call) :
    Kept host S (s.call host call).2 := by
  cases call with
  | createNode op =>
    rw [Session.call]
    obtain ⟨-, heq⟩ | ⟨hcheck, t, op', store, hbegin, hrec, htype, hid, heq⟩ :=
      cypherCreateNode_cases host s op
    · rw [heq]
      exact h
    · obtain ⟨-, rfl⟩ | ⟨hclosed, -, -⟩ := cypherWriteContextBegin_eq_ok hbegin
      · rw [heq]
        refine h.record hrec ?_
        unfold Harmless
        rw [htype, hid]
        exact hsafe hcheck
      · rw [h.inside.bInTransaction] at hclosed
        cases hclosed
  | createRelationship op =>
    rw [Session.call]
    obtain ⟨-, heq⟩ | ⟨hcheck, op', store, hrec, htype, hid, heq⟩ :=
      cypherCreateRelationship_cases host s op
    · rw [heq]
      exact h
    · rw [heq]
      refine h.record hrec ?_
      unfold Harmless
      rw [htype, hid]
      exact hsafe hcheck
  | mergeNode op => exact h.mergeNode hsafe
  | setProperty op => exact h.setProperty hsafe
  | setLabel op =>
    rw [Session.call]
    obtain ⟨-, heq⟩ | ⟨hnode, store, hrec, heq⟩ := cypherSetLabel_cases host s op
    · rw [heq]
      exact h
    · rw [heq]
      obtain ⟨-, hold, hundo⟩ := hsafe hnode
      exact h.record hrec ⟨fun _ _ heq => Option.some.inj heq ▸ hold, hundo⟩
  | delete op => exact h.delete hsafe

end Calls

section Transaction

def Session.AllSafe (host : Host) (S : Store) : Session → List WriteCall → Prop
  | _, [] => True
  | s, call :: calls => Safe host S s call ∧ (s.call host call).2.AllSafe host S calls

theorem Kept.run {calls : List WriteCall} (h : Kept host S s) (hsafe : s.AllSafe host S calls) :
    Kept host S (s.run host calls) := by
  induction calls generalizing s with
  | nil => exact h
  | cons call calls ih => exact ih (h.call hsafe.1) hsafe.2

theorem Kept.commit (h : Kept host S s) (hfail : (cypherWriteContextCommit host s).1 ≠ .ok) :
    (cypherWriteContextCommit host s).2.store = S := by
  by_cases hok : (cypherExecuteOperations host s.store s.operations).1 = .ok
  · rw [cypherWriteContextCommit_of_ok h.inside.bInTransaction hok] at hfail
    exact absurd rfl hfail
  · rw [cypherWriteContextCommit_of_ne_ok h.inside.bInTransaction h.inside.saved hok]
    exact (h.harmless.executed h.wellFormed h.nodes).cypherRollbackOperations_eq
      (wellFormed_cypherExecuteOperations h.wellFormed)

theorem Session.Inv.begin (h : s.Inv) (hclosed : s.bInTransaction = false) :
    (cypherWriteContextBegin s).2 = { s with saved := some s.store, bInTransaction := true } := by
  have hsaved : s.saved.isSome = false := h.saved.trans hclosed
  rw [cypherWriteContextBegin, hclosed, hsaved]
  rfl

end Transaction

end SqliteMultimodal.Graph
