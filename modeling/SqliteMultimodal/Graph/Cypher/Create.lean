import SqliteMultimodal.Graph.Cypher.CreateMap
import SqliteMultimodal.Graph.Cypher.Iterators

namespace SqliteMultimodal.Graph.Cypher

section Code

structure StoredNode where
  id : Int
  labels : Text
  properties : Text

structure StoredEdge where
  id : Int
  source : Int
  target : Int
  edgeType : Text
  properties : Text

structure GraphStore where
  nodes : List StoredNode
  edges : List StoredEdge

structure Rowids where
  nodeId : GraphStore → Option Int
  edgeId : GraphStore → Option Int

structure NodeIds where
  ids : List Int
  bounded : ids.length ≤ 10

namespace NodeIds

def empty : NodeIds := ⟨[], Nat.zero_le 10⟩

/-- A write behind the end of the array is undefined. -/
def push (aiNodeIds : NodeIds) (id : Int) : Option NodeIds :=
  if h : aiNodeIds.ids.length < 10 then
    some ⟨aiNodeIds.ids ++ [id], by rw [List.length_append]; exact h⟩
  else none

end NodeIds

def lastLabel (pAst : CypherAst) : Option Text :=
  ((pAst.apChildren.filter (·.isType .labels)).filterMap (·.zValue)).getLast?

def createLabels (pNode : CypherAst) : Text :=
  match lastLabel pNode with
  | some zLabel => "[\"".toList ++ zLabel ++ "\"]".toList
  | none => "[]".toList

def createProperties (pAst : CypherAst) : Text :=
  ((pAst.apChildren.filter (·.isType .map)).getLast?.map convertMapToJson).getD "{}".toList

variable (rowids : Rowids)

def createNodes : List CypherAst → NodeIds → GraphStore →
    Option (Except GraphStore (NodeIds × GraphStore))
  | [], aiNodeIds, store => some (.ok (aiNodeIds, store))
  | pChild :: rest, aiNodeIds, store =>
    if pChild.isType .nodePattern then
      match rowids.nodeId store with
      | none => some (.error store)
      | some id =>
        let node : StoredNode := ⟨id, createLabels pChild, createProperties pChild⟩
        match aiNodeIds.push id with
        | none => none
        | some aiNodeIds => createNodes rest aiNodeIds ⟨store.nodes ++ [node], store.edges⟩
    else createNodes rest aiNodeIds store

def createEdges (aiNodeIds : NodeIds) :
    List CypherAst → Nat → GraphStore → Except GraphStore GraphStore
  | [], _, store => .ok store
  | pChild :: rest, nodeIndex, store =>
    if pChild.isType .relPattern then
      if h : nodeIndex + 1 < aiNodeIds.ids.length then
        match rowids.edgeId store with
        | none => .error store
        | some id =>
          let edge : StoredEdge := ⟨id, aiNodeIds.ids[nodeIndex], aiNodeIds.ids[nodeIndex + 1],
            (lastLabel pChild).getD [], createProperties pChild⟩
          createEdges aiNodeIds rest (nodeIndex + 1) ⟨store.nodes, store.edges ++ [edge]⟩
      else createEdges aiNodeIds rest nodeIndex store
    else createEdges aiNodeIds rest nodeIndex store

structure CreateState where
  store : GraphStore
  bExecuted : Bool

open Pull.Step

def createPattern (pPlan : PhysicalPlanNode) (pPattern : CypherAst) (store : GraphStore) :
    Option (Pull.Step Row ResultCode × CreateState) :=
  (createNodes rowids pPattern.apChildren .empty store).map fun
    | .error store => (failed .error, ⟨store, false⟩)
    | .ok (aiNodeIds, store) =>
      match createEdges rowids aiNodeIds pPattern.apChildren 0 store with
      | .error store => (failed .error, ⟨store, false⟩)
      | .ok store =>
        (row (aiNodeIds.ids.head?.toList.map fun id => (pPlan.zAlias.getD "node".toList, .node id)),
          ⟨store, true⟩)

def createSingle (pPlan : PhysicalPlanNode) (store : GraphStore) :
    Pull.Step Row ResultCode × CreateState :=
  match rowids.nodeId store with
  | none => (failed .error, ⟨store, false⟩)
  | some id =>
    let node : StoredNode :=
      ⟨id, pPlan.zLabel.getD [], (pPlan.zProperty.filter (· ≠ [])).getD "{}".toList⟩
    (row [(pPlan.zAlias.getD "node".toList, .node id)],
      ⟨⟨store.nodes ++ [node], store.edges⟩, true⟩)

def createIteratorNext (pPlan : PhysicalPlanNode) (state : CreateState) :
    Option (Pull.Step Row ResultCode × CreateState) :=
  if state.bExecuted then some (done, state)
  else match pPlan.pExecState.filter (·.isType .pattern) with
    | some pPattern => createPattern rowids pPlan pPattern state.store
    | none => some (createSingle rowids pPlan state.store)

def createIteratorOpen (store : GraphStore) : CreateState := ⟨store, false⟩

end Code

namespace Written

section Queries

open ParserState Fuel

variable {zQuery zCreate t k : Text} {pattern : Pattern}

def Pattern.createQuery (pattern : Pattern) : CypherAst :=
  .create .query [.create .singleQuery [.create .create [pattern.toAst]]]

theorem parseFirstClause_create (hcreate : cypherLexerNextToken zQuery = (⟨.create, zCreate⟩, t))
    (n : Nat) : parseFirstClause n ⟨zQuery, none⟩ =
      (parsePattern n ⟨t, none⟩).andThen id fun pPattern s =>
        found (CypherAst.create .create [pPattern]) s := by
  simp only [parseFirstClause, parserPeekToken, hcreate]
  rw [parseCreateClause, parsePatternClause]
  exact expect_of_next hcreate _ _

theorem Pattern.parsed_create (h : ∀ hop ∈ pattern.hops, hop.arrow ≠ .left)
    (ht : Lexes zQuery (⟨.create, zCreate⟩ :: pattern.tokens) k) (hk : nextType k = .eof) :
    ∃ s, Settles (fun n => cypherParse n zQuery) (found pattern.createQuery s) := by
  obtain ⟨t, hcreate, hpattern⟩ := ht.of_cons
  refine ⟨_, cypherParse_clause (.congr (parseFirstClause_create hcreate) ?_) hk⟩
  exact (reads_pattern h hpattern hk).andThen id
    (fun _ pPattern s => found (CypherAst.create .create [pPattern]) s) (.of_eq fun _ => rfl)

end Queries

section Specification

structure Fresh (rowids : Rowids) : Prop where
  node : ∀ store, ∃ id, rowids.nodeId store = some id ∧ ∀ node ∈ store.nodes, node.id ≠ id
  edge : ∀ store, rowids.edgeId store ≠ none

inductive Joins : List Hop → List Int → List StoredEdge → Prop
  | nil {i : Int} : Joins [] [i] []
  | cons {hop : Hop} {hops : List Hop} {i j : Int} {ids : List Int} {edge : StoredEdge}
    {edges : List StoredEdge} : edge.source = i → edge.target = j →
    edge.edgeType = hop.rel.zLabel.getD [] → Joins hops (j :: ids) edges →
    Joins (hop :: hops) (i :: j :: ids) (edge :: edges)

structure NewNodes (store : GraphStore) (nodes : List StoredNode) : Prop where
  nodup : (nodes.map (·.id)).Nodup
  apart : ∀ old ∈ store.nodes, ∀ node ∈ nodes, old.id ≠ node.id

def CreatesWhole (rowids : Rowids) (bUseIndexes : Bool) (pattern : Pattern) : Prop :=
  ∃ pLogical, compileAstNode pattern.createQuery = some pLogical ∧ ∀ store,
    ∃ nodes edges row state,
      createIteratorNext rowids (logicalPlanToPhysical bUseIndexes pLogical)
        (createIteratorOpen store) = some (.row row, state) ∧
      state.store = ⟨store.nodes ++ nodes, store.edges ++ edges⟩ ∧
      NewNodes store nodes ∧ Joins pattern.hops (nodes.map (·.id)) edges ∧
      createIteratorNext rowids (logicalPlanToPhysical bUseIndexes pLogical) state =
        some (.done, state)

end Specification

section Passes

variable {rowids : Rowids} {aiNodeIds : NodeIds} {store : GraphStore}

theorem push_of_lt (h : aiNodeIds.ids.length < 10) (id : Int) :
    ∃ aiNodeIds', aiNodeIds.push id = some aiNodeIds' ∧ aiNodeIds'.ids = aiNodeIds.ids ++ [id] :=
  ⟨_, dif_pos h, rfl⟩

theorem lastLabel_relAst (hop : Hop) : lastLabel (relAst hop) = hop.rel.zLabel := by
  obtain ⟨arrow, ⟨zVariable, zLabel, properties⟩, node⟩ := hop
  cases zVariable with
  | none => cases zLabel <;> cases properties <;> rfl
  | some zVariable => cases zLabel <;> cases properties <;> rfl

theorem NewNodes.nil : NewNodes store [] :=
  ⟨List.nodup_nil, fun _ _ _ hmem => absurd hmem List.not_mem_nil⟩

theorem NewNodes.cons {node : StoredNode} {nodes : List StoredNode}
    (hnode : ∀ old ∈ store.nodes, old.id ≠ node.id)
    (h : NewNodes ⟨store.nodes ++ [node], store.edges⟩ nodes) : NewNodes store (node :: nodes) where
  nodup := by
    rw [List.map_cons, List.nodup_cons]
    refine ⟨fun hmem => ?_, h.nodup⟩
    obtain ⟨other, hother, hid⟩ := List.mem_map.mp hmem
    exact h.apart node (List.mem_append_right _ List.mem_cons_self) other hother hid.symm
  apart old hold := List.forall_mem_cons.mpr
    ⟨hnode old hold, h.apart old (List.mem_append_left _ hold)⟩

theorem createNodes_node (hfresh : Fresh rowids) (element : Element) (rest : List CypherAst) :
    ∃ node, (∀ old ∈ store.nodes, old.id ≠ node.id) ∧
      createNodes rowids (nodeAst element :: rest) aiNodeIds store =
        (aiNodeIds.push node.id).bind fun aiNodeIds =>
          createNodes rowids rest aiNodeIds ⟨store.nodes ++ [node], store.edges⟩ := by
  obtain ⟨id, hid, hnew⟩ := hfresh.node store
  refine ⟨⟨id, createLabels (nodeAst element), createProperties (nodeAst element)⟩, hnew, ?_⟩
  have htype : (nodeAst element).isType .nodePattern = true := rfl
  rw [createNodes, if_pos htype, hid]
  dsimp only
  cases aiNodeIds.push id with
  | none => rfl
  | some aiNodeIds => rfl

theorem createNodes_hop (hop : Hop) (rest : List CypherAst) :
    createNodes rowids (hop.asts ++ rest) aiNodeIds store =
      createNodes rowids (nodeAst hop.node :: rest) aiNodeIds store := rfl

theorem createNodes_hops (hfresh : Fresh rowids) {hops : List Hop}
    (h : aiNodeIds.ids.length + hops.length ≤ 10) : ∃ nodes aiNodeIds',
      createNodes rowids (hops.flatMap Hop.asts) aiNodeIds store =
        some (.ok (aiNodeIds', ⟨store.nodes ++ nodes, store.edges⟩)) ∧
      aiNodeIds'.ids = aiNodeIds.ids ++ nodes.map (·.id) ∧ nodes.length = hops.length ∧
      NewNodes store nodes := by
  induction hops generalizing aiNodeIds store with
  | nil => exact ⟨[], aiNodeIds, by rw [List.append_nil]; rfl, (List.append_nil _).symm, rfl, .nil⟩
  | cons hop hops ih =>
    rw [List.length_cons] at h
    obtain ⟨node, hnode, hstep⟩ := createNodes_node hfresh hop.node (hops.flatMap Hop.asts)
    have hroom : aiNodeIds.ids.length < 10 := by omega
    obtain ⟨pushed, hpush, hids⟩ := push_of_lt hroom node.id
    have hpushed : pushed.ids.length + hops.length ≤ 10 := by
      rw [hids, List.length_append, List.length_singleton]
      omega
    obtain ⟨nodes, aiNodeIds', hrest, hids', hlength, hnew⟩ := ih hpushed
    refine ⟨node :: nodes, aiNodeIds', ?_, ?_, congrArg (· + 1) hlength, hnew.cons hnode⟩
    · rw [List.flatMap_cons, createNodes_hop, hstep, hpush, Option.bind_some, hrest]
      rw [List.append_assoc, List.singleton_append]
    · rw [hids', hids, List.append_assoc, List.singleton_append, List.map_cons]

theorem createNodes_full (hfresh : Fresh rowids) {hops : List Hop}
    (h : 10 < aiNodeIds.ids.length + hops.length) :
    createNodes rowids (hops.flatMap Hop.asts) aiNodeIds store = none := by
  induction hops generalizing aiNodeIds store with
  | nil => exact absurd aiNodeIds.bounded (not_le.mpr h)
  | cons hop hops ih =>
    rw [List.length_cons] at h
    obtain ⟨node, -, hstep⟩ := createNodes_node hfresh hop.node (hops.flatMap Hop.asts)
    rw [List.flatMap_cons, createNodes_hop, hstep]
    by_cases hroom : aiNodeIds.ids.length < 10
    · obtain ⟨pushed, hpush, hids⟩ := push_of_lt hroom node.id
      rw [hpush, Option.bind_some]
      refine ih ?_
      rw [hids, List.length_append, List.length_singleton]
      omega
    · rw [NodeIds.push, dif_neg hroom]
      rfl

theorem createEdges_hop (hfresh : Fresh rowids) (hop : Hop) (rest : List CypherAst)
    (store : GraphStore) {nodeIndex : Nat} (hroom : nodeIndex + 1 < aiNodeIds.ids.length) :
    ∃ edge : StoredEdge, edge.source = aiNodeIds.ids[nodeIndex] ∧
      edge.target = aiNodeIds.ids[nodeIndex + 1] ∧ edge.edgeType = hop.rel.zLabel.getD [] ∧
      createEdges rowids aiNodeIds (hop.asts ++ rest) nodeIndex store =
        createEdges rowids aiNodeIds rest (nodeIndex + 1)
          ⟨store.nodes, store.edges ++ [edge]⟩ := by
  obtain ⟨id, hid⟩ := Option.ne_none_iff_exists'.mp (hfresh.edge store)
  refine ⟨⟨id, aiNodeIds.ids[nodeIndex], aiNodeIds.ids[nodeIndex + 1],
    (lastLabel (relAst hop)).getD [], createProperties (relAst hop)⟩, rfl, rfl, ?_, ?_⟩
  · rw [lastLabel_relAst]
  · have htype : (relAst hop).isType .relPattern = true := rfl
    change createEdges rowids aiNodeIds (relAst hop :: nodeAst hop.node :: rest) nodeIndex store = _
    rw [createEdges, if_pos htype, dif_pos hroom, hid]
    rfl

theorem createEdges_hops (hfresh : Fresh rowids) {hops : List Hop} {before rest : List Int}
    {i : Int} (hids : aiNodeIds.ids = before ++ i :: rest) (hlength : rest.length = hops.length)
    (store : GraphStore) : ∃ edges,
      createEdges rowids aiNodeIds (hops.flatMap Hop.asts) before.length store =
        .ok ⟨store.nodes, store.edges ++ edges⟩ ∧ Joins hops (i :: rest) edges := by
  induction hops generalizing before i rest store with
  | nil =>
    obtain rfl := List.length_eq_zero_iff.mp hlength
    exact ⟨[], by rw [List.append_nil]; rfl, .nil⟩
  | cons hop hops ih =>
    obtain ⟨j, rest, rfl⟩ := List.exists_cons_of_length_eq_add_one hlength
    have hnext : aiNodeIds.ids = (before ++ [i]) ++ j :: rest := by
      rw [hids, List.append_assoc, List.singleton_append]
    have hroom : before.length + 1 < aiNodeIds.ids.length := by
      rw [hids, List.length_append, List.length_cons, List.length_cons]
      omega
    obtain ⟨edge, hsource, htarget, htype, hstep⟩ :=
      createEdges_hop hfresh hop (hops.flatMap Hop.asts) store hroom
    obtain ⟨edges, hrest, hjoins⟩ := ih hnext (Nat.succ.inj hlength)
      ⟨store.nodes, store.edges ++ [edge]⟩
    refine ⟨edge :: edges, ?_, .cons ?_ ?_ htype hjoins⟩
    · rw [List.flatMap_cons, hstep]
      rw [List.length_append, List.length_singleton] at hrest
      rw [hrest, List.append_assoc, List.singleton_append]
    · simp [hsource, hids]
    · simp [htarget, hids]

end Passes

section Runs

open ParserState Fuel

variable {rowids : Rowids}

theorem pExtra_compileCreate (pattern : Pattern) :
    (compileCreate [pattern.toAst]).pExtra = some pattern.toAst := by
  obtain ⟨start, hops⟩ := pattern
  cases hops with
  | nil => rfl
  | cons hop hops => rfl

theorem pExecState_physical (bUseIndexes : Bool) (pLogical : LogicalPlanNode) :
    (logicalPlanToPhysical bUseIndexes pLogical).pExecState = pLogical.pExtra := by
  cases pLogical
  rfl

theorem createIteratorNext_open (bUseIndexes : Bool) (pattern : Pattern) (store : GraphStore) :
    createIteratorNext rowids (logicalPlanToPhysical bUseIndexes (compileCreate [pattern.toAst]))
        (createIteratorOpen store) =
      createPattern rowids (logicalPlanToPhysical bUseIndexes (compileCreate [pattern.toAst]))
        pattern.toAst store := by
  have hpattern : (some pattern.toAst).filter (·.isType .pattern) = some pattern.toAst := rfl
  rw [createIteratorNext, pExecState_physical, pExtra_compileCreate, hpattern]
  rfl

theorem createNodes_toAst (hfresh : Fresh rowids) (pattern : Pattern) (store : GraphStore) :
    ∃ node, (∀ old ∈ store.nodes, old.id ≠ node.id) ∧ ∃ aiNodeIds : NodeIds,
      aiNodeIds.ids = [node.id] ∧ createNodes rowids pattern.toAst.apChildren .empty store =
        createNodes rowids (pattern.hops.flatMap Hop.asts) aiNodeIds
          ⟨store.nodes ++ [node], store.edges⟩ := by
  obtain ⟨node, hnode, hstep⟩ :=
    createNodes_node hfresh pattern.start (pattern.hops.flatMap Hop.asts)
  have hroom : NodeIds.empty.ids.length < 10 := Nat.zero_lt_succ 9
  obtain ⟨aiNodeIds, hpush, hids⟩ := push_of_lt hroom node.id
  refine ⟨node, hnode, aiNodeIds, hids, ?_⟩
  change createNodes rowids (nodeAst pattern.start :: _) .empty store = _
  rw [hstep, hpush, Option.bind_some]

theorem createPattern_of_lt (hfresh : Fresh rowids) (pPlan : PhysicalPlanNode) {pattern : Pattern}
    (h : pattern.hops.length < 10) (store : GraphStore) : ∃ nodes edges row,
      createPattern rowids pPlan pattern.toAst store =
        some (.row row, ⟨⟨store.nodes ++ nodes, store.edges ++ edges⟩, true⟩) ∧
      NewNodes store nodes ∧ Joins pattern.hops (nodes.map (·.id)) edges := by
  obtain ⟨node, hnode, aiNodeIds, hids, hfirst⟩ := createNodes_toAst hfresh pattern store
  have hroom : aiNodeIds.ids.length + pattern.hops.length ≤ 10 := by
    rw [hids, List.length_singleton]
    omega
  obtain ⟨nodes, all, hrest, hall, hlength, hnew⟩ := createNodes_hops hfresh hroom
  rw [hids, List.singleton_append] at hall
  have hbefore : all.ids = [] ++ node.id :: nodes.map (·.id) := hall
  obtain ⟨edges, hedges, hjoins⟩ := createEdges_hops hfresh hbefore
    ((List.length_map _).trans hlength) ⟨store.nodes ++ [node] ++ nodes, store.edges⟩
  refine ⟨node :: nodes, edges, [(pPlan.zAlias.getD "node".toList, .node node.id)], ?_,
    hnew.cons hnode, hjoins⟩
  have hsecond : createEdges rowids all pattern.toAst.apChildren 0
      ⟨store.nodes ++ [node] ++ nodes, store.edges⟩ = _ := hedges
  rw [createPattern, hfirst, hrest, Option.map_some]
  dsimp only
  rw [hsecond, hall, List.append_assoc, List.singleton_append]
  rfl

theorem createPattern_of_ge (hfresh : Fresh rowids) (pPlan : PhysicalPlanNode) {pattern : Pattern}
    (h : 10 ≤ pattern.hops.length) (store : GraphStore) :
    createPattern rowids pPlan pattern.toAst store = none := by
  obtain ⟨node, -, aiNodeIds, hids, hfirst⟩ := createNodes_toAst hfresh pattern store
  have hfull : 10 < aiNodeIds.ids.length + pattern.hops.length := by
    rw [hids, List.length_singleton]
    omega
  rw [createPattern, hfirst, createNodes_full hfresh hfull]
  rfl

theorem not_createsWhole (hfresh : Fresh rowids) (bUseIndexes : Bool) {pattern : Pattern}
    (h : 10 ≤ pattern.hops.length) : ¬CreatesWhole rowids bUseIndexes pattern := by
  rintro ⟨pLogical, hcompile, hcreates⟩
  obtain rfl : compileCreate [pattern.toAst] = pLogical := Option.some.inj hcompile
  obtain ⟨nodes, edges, row, state, hrun, -⟩ := hcreates ⟨[], []⟩
  rw [createIteratorNext_open, createPattern_of_ge hfresh _ h] at hrun
  cases hrun

/-- The array has room for ten nodes. -/
theorem createsWhole_iff (rowids : Rowids) (hfresh : Fresh rowids) (bUseIndexes : Bool)
    (pattern : Pattern) : CreatesWhole rowids bUseIndexes pattern ↔ pattern.hops.length < 10 := by
  constructor
  · intro h
    by_contra hlong
    exact not_createsWhole hfresh bUseIndexes (not_lt.mp hlong) h
  · intro h
    refine ⟨compileCreate [pattern.toAst], rfl, fun store => ?_⟩
    obtain ⟨nodes, edges, row, hrun, hnew, hjoins⟩ := createPattern_of_lt hfresh
      (logicalPlanToPhysical bUseIndexes (compileCreate [pattern.toAst])) h store
    exact ⟨nodes, edges, row, _, (createIteratorNext_open bUseIndexes pattern store).trans hrun,
      rfl, hnew, hjoins, rfl⟩

def nextRowid (ids : List Int) : Int := ids.foldr max 0 + 1

theorem le_foldr_max {ids : List Int} {id : Int} (h : id ∈ ids) : id ≤ ids.foldr max 0 := by
  induction ids with
  | nil => exact absurd h List.not_mem_nil
  | cons first ids ih =>
    obtain rfl | h := List.mem_cons.mp h
    · exact le_max_left _ _
    · exact (ih h).trans (le_max_right _ _)

def nextRowids : Rowids where
  nodeId store := some (nextRowid (store.nodes.map (·.id)))
  edgeId store := some (nextRowid (store.edges.map (·.id)))

theorem fresh_nextRowids : Fresh nextRowids where
  node _ := ⟨_, rfl, fun _ hnode =>
    ne_of_lt (Int.lt_add_one_of_le (le_foldr_max (List.mem_map_of_mem hnode)))⟩
  edge _ := Option.some_ne_none _

def unnamed : Element := ⟨none, none, none⟩

def elevenNodes : Pattern :=
  ⟨unnamed, List.replicate 10 ⟨.right, ⟨none, some ['R'], none⟩, unnamed⟩⟩

def elevenNodesText : Text :=
  "CREATE ()-[:R]->()-[:R]->()-[:R]->()-[:R]->()-[:R]->()".toList ++
    "-[:R]->()-[:R]->()-[:R]->()-[:R]->()-[:R]->()".toList

set_option maxRecDepth 4000 in
theorem elevenNodes_lexes : Lexes elevenNodesText
    (⟨.create, "CREATE".toList⟩ :: elevenNodes.tokens) [] := by
  repeat' apply Lexes.cons rfl
  exact .nil

theorem not_createsWhole_elevenNodes :
    (∃ s, Settles (fun n => cypherParse n elevenNodesText) (found elevenNodes.createQuery s)) ∧
      ¬CreatesWhole nextRowids true elevenNodes := by
  constructor
  · refine Pattern.parsed_create ?_ elevenNodes_lexes rfl
    rw [elevenNodes, List.forall_mem_replicate]
    decide
  · exact not_createsWhole fresh_nextRowids true (le_refl 10)

theorem createsWhole_mixedPattern :
    CreatesWhole nextRowids true mixedPattern ↔ mixedPattern.hops.length < 10 :=
  createsWhole_iff nextRowids fresh_nextRowids true mixedPattern

end Runs

end Written

end SqliteMultimodal.Graph.Cypher
