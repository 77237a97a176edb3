import SqliteMultimodal.Graph.Operations

namespace SqliteMultimodal.Graph

variable {host : Host} {store : Store}

section Storage

theorem literalOrNull_eq (t : Option Text) : literalOrNull t = some t := by
  cases t with
  | none => rfl
  | some t => rw [literalOrNull, Text.literal_escape]; rfl

theorem escape_labelsJson (labels : List Text) :
    Text.escape (labelsJson labels) = labelsJson (labels.map Text.escape) := by
  have hquoted : ∀ t, Text.escape (quoted t) = quoted (Text.escape t) := fun t => by
    rw [quoted, Text.escape_append, Text.escape_cons (by decide)]
    rfl
  rw [labelsJson, bracketed, Text.escape_append, Text.escape_cons (by decide),
    Text.escape_join (by decide), labelsJson, bracketed, List.map_map, List.map_map]
  congr 3
  exact List.map_congr_left fun t _ => hquoted t

theorem cypherStorageAddNode_eq (iNodeId : Int) (azLabels : List Text) (zProperties : Option Text) :
    cypherStorageAddNode store iNodeId azLabels zProperties =
      insertNode store iNodeId ⟨some (labelsJson azLabels), zProperties⟩ := by
  rw [cypherStorageAddNode, ← escape_labelsJson, Text.literal_escape, literalOrNull_eq]

theorem cypherStorageAddEdge_eq {iFromId iToId : Int} (hfrom : 0 < iFromId) (hto : 0 < iToId)
    (iEdgeId : Int) (zType : Option Text) (rWeight : ℚ) (zProperties : Option Text) :
    cypherStorageAddEdge store iEdgeId iFromId iToId zType rWeight zProperties =
      insertEdge store iEdgeId ⟨iFromId, iToId, zType, rWeight, zProperties⟩ := by
  rw [cypherStorageAddEdge, if_neg (by omega), literalOrNull_eq, literalOrNull_eq]

theorem cypherStorageNodeExists_iff {iNodeId : Int} :
    cypherStorageNodeExists store iNodeId = true ↔
      0 < iNodeId ∧ ∃ row, store.nodes.get iNodeId = some row := by
  rw [cypherStorageNodeExists, Bool.and_eq_true, decide_eq_true_eq, Option.isSome_iff_exists]

theorem insertNode_cases (store : Store) (iNodeId : Int) (row : NodeRow) :
    insertNode store iNodeId row = (.constraint, store) ∧
      (0 < iNodeId → store.nodes.get iNodeId ≠ none) ∨
    ∃ key nodes, (0 < iNodeId → key = iNodeId) ∧ store.nodes.insert key row = some nodes ∧
      insertNode store iNodeId row = (.ok, { store with nodes }) := by
  rw [insertNode]
  cases hinsert : store.nodes.insert (if iNodeId > 0 then iNodeId else store.nodes.nextKey) row with
  | none =>
    refine .inl ⟨rfl, fun hpos => ?_⟩
    rw [if_pos hpos] at hinsert
    exact RowTable.insert_eq_none.mp hinsert
  | some nodes => exact .inr ⟨_, nodes, fun hpos => if_pos hpos, hinsert, rfl⟩

theorem insertEdge_cases (store : Store) (iEdgeId : Int) (row : EdgeRow) :
    insertEdge store iEdgeId row = (.constraint, store) ∧
      (0 < iEdgeId → store.edges.get iEdgeId ≠ none) ∨
    ∃ key edges, (0 < iEdgeId → key = iEdgeId) ∧ store.edges.insert key row = some edges ∧
      insertEdge store iEdgeId row = (.ok, { store with edges }) := by
  rw [insertEdge]
  cases hinsert : store.edges.insert (if iEdgeId > 0 then iEdgeId else store.edges.nextKey) row with
  | none =>
    refine .inl ⟨rfl, fun hpos => ?_⟩
    rw [if_pos hpos] at hinsert
    exact RowTable.insert_eq_none.mp hinsert
  | some edges => exact .inr ⟨_, edges, fun hpos => if_pos hpos, hinsert, rfl⟩

theorem insertNode_eq {iNodeId : Int} (row : NodeRow) (hpos : 0 < iNodeId)
    (hnone : store.nodes.get iNodeId = none) :
    ∃ nodes, store.nodes.insert iNodeId row = some nodes ∧
      insertNode store iNodeId row = (.ok, { store with nodes }) := by
  obtain ⟨-, hne⟩ | ⟨key, nodes, hkey, hinsert, heq⟩ := insertNode_cases store iNodeId row
  · exact absurd hnone (hne hpos)
  · exact ⟨nodes, hkey hpos ▸ hinsert, heq⟩

theorem insertEdge_eq {iEdgeId : Int} (row : EdgeRow) (hpos : 0 < iEdgeId)
    (hnone : store.edges.get iEdgeId = none) :
    ∃ edges, store.edges.insert iEdgeId row = some edges ∧
      insertEdge store iEdgeId row = (.ok, { store with edges }) := by
  obtain ⟨-, hne⟩ | ⟨key, edges, hkey, hinsert, heq⟩ := insertEdge_cases store iEdgeId row
  · exact absurd hnone (hne hpos)
  · exact ⟨edges, hkey hpos ▸ hinsert, heq⟩

theorem updateNode_edges (iNodeId : Int) (f : NodeRow → Option NodeRow) :
    (updateNode store iNodeId f).2.edges = store.edges := by
  unfold updateNode
  split
  next => rfl
  next => split <;> rfl

theorem get_updateNode (iNodeId : Int) (f : NodeRow → Option NodeRow) (id : Int) :
    (updateNode store iNodeId f).2.nodes.get id =
      if id = iNodeId then (store.nodes.get id).map fun row => (f row).getD row
      else store.nodes.get id := by
  unfold updateNode
  split
  next hnone =>
    split
    next heq => rw [heq, hnone]; rfl
    next => rfl
  next row hrow =>
    split
    next hf =>
      split
      next heq => rw [heq, hrow, Option.map_some, hf]; rfl
      next => rfl
    next row' hf =>
      rw [RowTable.get_modify]
      split
      next heq => rw [heq, hrow, Option.map_some, Option.map_some, hf]; rfl
      next => rfl

theorem isSome_get_updateNode (iNodeId : Int) (f : NodeRow → Option NodeRow) (id : Int) :
    ((updateNode store iNodeId f).2.nodes.get id).isSome = (store.nodes.get id).isSome := by
  rw [get_updateNode]
  split
  next => exact Option.isSome_map
  next => rfl

theorem cypherStorageUpdateProperties_eq {iNodeId : Int} (hpos : 0 < iNodeId) (zProperty : Text)
    (value : CypherValue) :
    cypherStorageUpdateProperties host store iNodeId 0 (some zProperty) (some value) =
      updateNode store iNodeId fun row =>
        (setProperties host row.properties zProperty (cypherValueToJson host value)).map fun p =>
          { row with properties := some p } := by
  unfold cypherStorageUpdateProperties
  dsimp only
  rw [if_neg (by omega), Text.literal_escape, Text.literal_escape]
  exact if_pos hpos

theorem snd_updateNode_of_none {f : NodeRow → Option NodeRow} (h : ∀ row, f row = none)
    (iNodeId : Int) : (updateNode store iNodeId f).2 = store := by
  unfold updateNode
  split
  next => rfl
  next row _ => rw [h row]

def propertySet (host : Host) (zProperty : Option Text) (pValue : Option CypherValue)
    (row : NodeRow) : Option NodeRow :=
  match zProperty, pValue with
  | some zProperty, some value =>
    (setProperties host row.properties zProperty (cypherValueToJson host value)).map fun p =>
      { row with properties := some p }
  | _, _ => none

theorem propertySet_properties {zProperty : Option Text} {pValue : Option CypherValue}
    {row row' : NodeRow} (h : propertySet host zProperty pValue row = some row') :
    row'.properties ≠ none := by
  unfold propertySet at h
  split at h
  next =>
    obtain ⟨p, -, rfl⟩ := Option.map_eq_some_iff.mp h
    exact Option.some_ne_none p
  next => cases h

theorem snd_cypherStorageUpdateProperties {iNodeId : Int} (hpos : 0 < iNodeId)
    (zProperty : Option Text) (pValue : Option CypherValue) :
    (cypherStorageUpdateProperties host store iNodeId 0 zProperty pValue).2 =
      (updateNode store iNodeId (propertySet host zProperty pValue)).2 := by
  cases zProperty with
  | none => exact (snd_updateNode_of_none (fun _ => rfl) iNodeId).symm
  | some zProperty =>
    cases pValue with
    | none => exact (snd_updateNode_of_none (fun _ => rfl) iNodeId).symm
    | some value =>
      rw [cypherStorageUpdateProperties_eq hpos]
      rfl

theorem snd_updateLabels (iNodeId : Int) (zLabels : Text) :
    (updateLabels store iNodeId zLabels).2 = (updateNode store iNodeId fun row =>
      (Text.literal zLabels).map fun labels => { row with labels := some labels }).2 := by
  unfold updateLabels
  cases Text.literal zLabels with
  | some labels => rfl
  | none => exact (snd_updateNode_of_none (fun _ => rfl) iNodeId).symm

theorem get_detach (iNodeId iEdgeId : Int) :
    (store.detach iNodeId).edges.get iEdgeId =
      (store.edges.get iEdgeId).filter fun row => !row.touches iNodeId :=
  RowTable.get_filter _ _ _

theorem get_nodes_cypherStorageDeleteNode (store : Store) (iNodeId : Int) (bDetach : Bool)
    (id : Int) :
    (cypherStorageDeleteNode store iNodeId bDetach).2.nodes.get id =
      if 0 < iNodeId ∧ id = iNodeId then none else store.nodes.get id := by
  unfold cypherStorageDeleteNode
  split
  next hpos => rw [if_neg fun h => hpos.not_gt h.1]
  next hpos =>
    have hnodes : (if bDetach = true then store.detach iNodeId else store).nodes = store.nodes := by
      split <;> rfl
    show (RowTable.delete _ iNodeId).get id = _
    rw [RowTable.get_delete, hnodes]
    simp only [not_le.mp hpos, true_and]

theorem get_edges_cypherStorageDeleteNode (store : Store) (iNodeId : Int) (bDetach : Bool)
    (id : Int) :
    (cypherStorageDeleteNode store iNodeId bDetach).2.edges.get id =
      (store.edges.get id).filter fun row =>
        !(decide (0 < iNodeId) && bDetach && row.touches iNodeId) := by
  unfold cypherStorageDeleteNode
  split
  next hpos =>
    rw [decide_eq_false hpos.not_gt]
    cases store.edges.get id <;> rfl
  next hpos =>
    rw [decide_eq_true (not_le.mp hpos)]
    cases bDetach with
    | true => exact get_detach iNodeId id
    | false =>
      show store.edges.get id = _
      cases store.edges.get id <;> rfl

theorem get_cypherStorageDeleteEdge (store : Store) (iEdgeId id : Int) :
    (cypherStorageDeleteEdge store iEdgeId).2.edges.get id =
      if 0 < iEdgeId ∧ id = iEdgeId then none else store.edges.get id := by
  unfold cypherStorageDeleteEdge
  split
  next hpos => rw [if_neg fun h => hpos.not_gt h.1]
  next hpos =>
    show (RowTable.delete _ iEdgeId).get id = _
    rw [RowTable.get_delete]
    simp only [not_le.mp hpos, true_and]

theorem nodes_cypherStorageDeleteEdge (store : Store) (iEdgeId : Int) :
    (cypherStorageDeleteEdge store iEdgeId).2.nodes = store.nodes := by
  unfold cypherStorageDeleteEdge
  split <;> rfl

theorem edges_insertNode (store : Store) (iNodeId : Int) (row : NodeRow) :
    (insertNode store iNodeId row).2.edges = store.edges := by
  obtain ⟨heq, -⟩ | ⟨_, _, -, -, heq⟩ := insertNode_cases store iNodeId row
  · rw [heq]
  · rw [heq]

theorem nodes_insertEdge (store : Store) (iEdgeId : Int) (row : EdgeRow) :
    (insertEdge store iEdgeId row).2.nodes = store.nodes := by
  obtain ⟨heq, -⟩ | ⟨_, _, -, -, heq⟩ := insertEdge_cases store iEdgeId row
  · rw [heq]
  · rw [heq]

theorem nodes_cypherStorageAddEdge (store : Store) (iEdgeId iFromId iToId : Int)
    (zType : Option Text) (rWeight : ℚ) (zProperties : Option Text) :
    (cypherStorageAddEdge store iEdgeId iFromId iToId zType rWeight zProperties).2.nodes =
      store.nodes := by
  unfold cypherStorageAddEdge
  rw [literalOrNull_eq, literalOrNull_eq]
  split
  next => rfl
  next => exact nodes_insertEdge _ _ _

end Storage

section Ids

variable {ρ : Type} {taken : Int → Bool}

theorem length_filter_succ_lt {table : RowTable ρ} {id : Int} (h : (table.get id).isSome) :
    (table.rows.filter fun x => id + 1 ≤ x.1).length <
      (table.rows.filter fun x => id ≤ x.1).length := by
  obtain ⟨row, hrow⟩ := Option.isSome_iff_exists.mp h
  have hfilter : (table.rows.filter fun x => id + 1 ≤ x.1) =
      (table.rows.filter fun x => id ≤ x.1).filter fun x => id + 1 ≤ x.1 := by
    rw [List.filter_filter]
    refine List.filter_congr fun x _ => ?_
    rw [← Bool.decide_and]
    congr 1
    exact propext ⟨fun hle => ⟨hle, by omega⟩, fun hle => hle.1⟩
  rw [hfilter, List.length_filter_lt_length_iff_exists]
  refine ⟨(id, row), List.mem_filter.mpr ⟨RowTable.get_eq_some.mp hrow, by simp⟩, ?_⟩
  rw [decide_eq_true_eq]
  omega

theorem taken_nextFree {table : RowTable ρ} (h : ∀ id, taken id = true → (table.get id).isSome)
    {fuel : Nat} {id : Int} (hfuel : (table.rows.filter fun x => id ≤ x.1).length ≤ fuel) :
    taken (nextFree taken fuel id) = false := by
  induction fuel generalizing id with
  | zero =>
    by_contra htaken
    have hlt := length_filter_succ_lt (h id (by simpa [nextFree] using htaken))
    omega
  | succ fuel ih =>
    rw [nextFree]
    split
    next htaken =>
      exact ih (Nat.le_of_lt_succ ((length_filter_succ_lt (h id htaken)).trans_le hfuel))
    next htaken => exact Bool.eq_false_of_not_eq_true htaken

theorem get_cypherGenerateSecureNodeId {seed : Int}
    (hpos : 0 < cypherGenerateSecureNodeId store seed) :
    store.nodes.get (cypherGenerateSecureNodeId store seed) = none := by
  have hnodes : ∀ id, cypherStorageNodeExists store id = true → (store.nodes.get id).isSome :=
    fun id hid => Option.isSome_iff_exists.mpr (cypherStorageNodeExists_iff.mp hid).2
  have hfree : cypherStorageNodeExists store (cypherGenerateSecureNodeId store seed) = false :=
    taken_nextFree hnodes (List.length_filter_le ..)
  rw [cypherStorageNodeExists, Bool.and_eq_false_iff] at hfree
  obtain hfree | hfree := hfree
  · exact absurd hpos (of_decide_eq_false hfree)
  · exact Option.not_isSome_iff_eq_none.mp (by simp [hfree])

theorem get_cypherGenerateSecureRelationshipId (seed : Int) :
    store.edges.get (cypherGenerateSecureRelationshipId store seed) = none := by
  have hedges : ∀ id, (store.edges.get id).isSome = true → (store.edges.get id).isSome :=
    fun _ hid => hid
  have hfree : (store.edges.get (cypherGenerateSecureRelationshipId store seed)).isSome = false :=
    taken_nextFree hedges (List.length_filter_le ..)
  exact Option.not_isSome_iff_eq_none.mp (by simp [hfree])

end Ids

section Relationships

def edgeIds (store : Store) (iNodeId : Int) : List Int :=
  (store.edges.rows.filter fun x => x.2.touches iNodeId).map Prod.fst

theorem mem_edgeIds {iNodeId iEdgeId : Int} :
    iEdgeId ∈ edgeIds store iNodeId ↔
      ∃ row, store.edges.get iEdgeId = some row ∧ row.touches iNodeId = true := by
  simp only [edgeIds, List.mem_map, List.mem_filter, Prod.exists, exists_and_right, exists_eq_right,
    RowTable.get_eq_some]

theorem cypherGetNodeRelationships_eq {iNodeId : Int} (hpos : 0 < iNodeId) :
    cypherGetNodeRelationships store iNodeId =
      bracketed (Text.join ',' ((edgeIds store iNodeId).map Text.ofInt)) := by
  rw [cypherGetNodeRelationships, if_neg (by omega), edgeIds, List.map_map]
  rfl

theorem length_bracketed (t : Text) : (bracketed t).length = t.length + 2 := by
  rw [bracketed, List.length_append, List.length_cons, List.length_singleton]

theorem two_lt_length_iff {iNodeId : Int} (hpos : 0 < iNodeId) :
    2 < (cypherGetNodeRelationships store iNodeId).length ↔ edgeIds store iNodeId ≠ [] := by
  rw [cypherGetNodeRelationships_eq hpos, length_bracketed]
  cases hids : edgeIds store iNodeId with
  | nil => simp [Text.join]
  | cons id ids =>
    have hne := List.length_pos_iff.mpr (Text.ofInt_ne_nil id)
    have hlen : 0 < (Text.join ',' ((id :: ids).map Text.ofInt)).length := by
      cases ids with
      | nil => simpa [Text.join] using hne
      | cons id' ids =>
        rw [List.map_cons, List.map_cons, Text.join, List.intercalate_cons_cons, List.length_append,
          List.length_append]
        omega
    exact ⟨fun _ => List.cons_ne_nil id ids, fun _ => by omega⟩

theorem not_mem_join_ofInt {c : Char} (hc : c.isDigit = false) (hminus : c ≠ '-') (hcomma : c ≠ ',')
    (ids : List Int) : c ∉ Text.join ',' (ids.map Text.ofInt) := by
  induction ids with
  | nil => exact List.not_mem_nil
  | cons id ids ih =>
    have hid := Text.not_mem_ofInt hc hminus id
    cases ids with
    | nil => simpa [Text.join] using hid
    | cons id' ids =>
      rw [List.map_cons, List.map_cons, Text.join, List.intercalate_cons_cons]
      intro hmem
      obtain hmem | hmem := List.mem_append.mp hmem
      · obtain hmem | hmem := List.mem_append.mp hmem
        · exact hid hmem
        · exact hcomma (List.mem_singleton.mp hmem)
      · exact ih hmem

theorem dropWhile_ofInt (id : Int) :
    (Text.ofInt id).dropWhile (fun c => c = ' ' || c = '\t') = Text.ofInt id := by
  have hspace : ' ' ∉ Text.ofInt id := Text.not_mem_ofInt rfl (by decide) id
  have htab : '\t' ∉ Text.ofInt id := Text.not_mem_ofInt rfl (by decide) id
  refine List.dropWhile_eq_self_iff.mpr fun hlen => ?_
  have hmem := List.getElem_mem hlen
  simp only [Bool.or_eq_true, decide_eq_true_eq, not_or]
  exact ⟨fun heq => hspace (heq ▸ hmem), fun heq => htab (heq ▸ hmem)⟩

theorem parseRelationships_eq {iNodeId : Int} (hpos : 0 < iNodeId) :
    parseRelationships (cypherGetNodeRelationships store iNodeId) = edgeIds store iNodeId := by
  rw [cypherGetNodeRelationships_eq hpos]
  generalize edgeIds store iNodeId = ids
  have hclose : ∀ c ∈ Text.join ',' (ids.map Text.ofInt), (decide (c ≠ ']')) = true := fun c hc =>
    decide_eq_true fun heq => not_mem_join_ofInt rfl (by decide) (by decide) ids (heq ▸ hc)
  have hinner : (((bracketed (Text.join ',' (ids.map Text.ofInt))).dropWhile (· ≠ '[')).drop 1).takeWhile
      (· ≠ ']') = Text.join ',' (ids.map Text.ofInt) := by
    show (Text.join ',' (ids.map Text.ofInt) ++ [']']).takeWhile (· ≠ ']') = _
    rw [List.takeWhile_append_of_pos hclose]
    exact List.append_nil _
  have hmem : '[' ∈ bracketed (Text.join ',' (ids.map Text.ofInt)) ∧
      ']' ∈ bracketed (Text.join ',' (ids.map Text.ofInt)) :=
    ⟨List.mem_append_left _ List.mem_cons_self, List.mem_append_right _ (List.mem_singleton.mpr rfl)⟩
  rw [parseRelationships, if_pos hmem]
  dsimp only
  rw [hinner, Text.tokens_join, List.map_map]
  · refine (List.map_congr_left fun id _ => ?_).trans (List.map_id ids)
    rw [Function.comp_apply, dropWhile_ofInt, Text.atoll_ofInt]
    rfl
  · intro t ht
    obtain ⟨id, -, rfl⟩ := List.mem_map.mp ht
    exact Text.not_mem_ofInt rfl (by decide) id
  · intro t ht
    obtain ⟨id, -, rfl⟩ := List.mem_map.mp ht
    exact Text.ofInt_ne_nil id

theorem get_foldl_deleteEdge (ids : List Int) (store : Store) (iEdgeId : Int) :
    ((ids.foldl (fun store iRelId =>
        if iRelId > 0 then (cypherStorageDeleteEdge store iRelId).2 else store) store).edges.get iEdgeId =
      if iEdgeId ∈ ids ∧ 0 < iEdgeId then none else store.edges.get iEdgeId) ∧
    (ids.foldl (fun store iRelId =>
        if iRelId > 0 then (cypherStorageDeleteEdge store iRelId).2 else store) store).nodes =
      store.nodes := by
  induction ids generalizing store with
  | nil => simp
  | cons id ids ih =>
    rw [List.foldl_cons]
    obtain ⟨hedges, hnodes⟩ := ih (if id > 0 then (cypherStorageDeleteEdge store id).2 else store)
    rw [hedges, hnodes]
    by_cases hid : id > 0
    · have hdelete : (cypherStorageDeleteEdge store id).2 = store.deleteEdge id := by
        rw [cypherStorageDeleteEdge, if_neg (by omega)]
      rw [if_pos hid, hdelete]
      refine ⟨?_, rfl⟩
      rw [Store.deleteEdge, RowTable.get_delete]
      by_cases heq : iEdgeId = id
      · simp [heq, hid]
      · simp [heq]
    · rw [if_neg hid]
      refine ⟨?_, rfl⟩
      by_cases heq : iEdgeId = id
      · simp [heq, hid]
      · simp [heq]

theorem detach_deleteRelationships {iNodeId : Int} (hpos : 0 < iNodeId) :
    (deleteRelationships store (cypherGetNodeRelationships store iNodeId)).detach iNodeId =
      store.detach iNodeId := by
  rw [deleteRelationships, parseRelationships_eq hpos]
  obtain ⟨-, hnodes⟩ := get_foldl_deleteEdge (edgeIds store iNodeId) store 0
  rw [Store.detach, Store.detach, hnodes]
  congr 1
  refine RowTable.ext_get fun iEdgeId => ?_
  rw [RowTable.get_filter, RowTable.get_filter, (get_foldl_deleteEdge _ store iEdgeId).1]
  split
  next hmem =>
    obtain ⟨row, hrow, htouches⟩ := mem_edgeIds.mp hmem.1
    rw [hrow]
    simp [Option.filter, htouches]
  next => rfl

end Relationships

section Checks

variable {a b : Check}

theorem reject_ne_ok {rc : ResultCode} (bad : Bool) (h : rc ≠ .ok) : reject bad rc ≠ some .ok := by
  unfold reject
  split
  next => simpa using h
  next => simp

theorem orElse_ne_ok (ha : a ≠ some .ok) (hb : b ≠ some .ok) : (a <|> b) ≠ some .ok := by
  cases a with
  | none => simpa using hb
  | some rc => simpa using ha

theorem findSome?_ne_ok {α : Type} {f : α → Check} (h : ∀ x, f x ≠ some .ok) (xs : List α) :
    xs.findSome? f ≠ some .ok := by
  intro heq
  obtain ⟨x, -, hx⟩ := List.exists_of_findSome?_eq_some heq
  exact h x hx

theorem bind_ne_ok {f : Text → Check} (h : ∀ z, f z ≠ some .ok) (z : Option Text) :
    z.bind f ≠ some .ok := by
  cases z with
  | none => simp
  | some z => exact h z

theorem checkName_ne_ok (isValid : Text → Bool) (name : Text) :
    checkName isValid name ≠ some .ok :=
  orElse_ne_ok (reject_ne_ok _ (by decide)) (reject_ne_ok _ (by decide))

theorem checkProperties_ne_ok (properties : List Property) :
    checkProperties properties ≠ some .ok := by
  refine orElse_ne_ok (reject_ne_ok _ (by decide)) (findSome?_ne_ok (fun p => ?_) _)
  refine orElse_ne_ok (checkName_ne_ok _ _) ?_
  split
  next => exact reject_ne_ok _ (by decide)
  next => simp

theorem checkRelVariable_ne_ok (zVar : Option Text) : checkRelVariable zVar ≠ some .ok :=
  bind_ne_ok (fun _ => reject_ne_ok _ (by decide)) zVar

theorem CreateNodeOp.check_ne_ok (op : CreateNodeOp) : op.check ≠ some .ok :=
  orElse_ne_ok (bind_ne_ok (fun _ => checkName_ne_ok _ _) _) <|
    orElse_ne_ok (reject_ne_ok _ (by decide)) <|
      orElse_ne_ok (findSome?_ne_ok (fun _ => checkName_ne_ok _ _) _) (checkProperties_ne_ok _)

theorem CreateRelOp.check_ne_ok (op : CreateRelOp) : op.check ≠ some .ok :=
  orElse_ne_ok (reject_ne_ok _ (by decide)) <|
    orElse_ne_ok (reject_ne_ok _ (by decide)) <|
      orElse_ne_ok (reject_ne_ok _ (by decide)) <|
        orElse_ne_ok (reject_ne_ok _ (by decide)) <|
          orElse_ne_ok (checkRelVariable_ne_ok _) <|
            orElse_ne_ok (checkRelVariable_ne_ok _) <|
              orElse_ne_ok (checkRelVariable_ne_ok _) (checkProperties_ne_ok _)

end Checks

end SqliteMultimodal.Graph
