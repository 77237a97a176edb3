import SqliteMultimodal.Graph.Cypher.Iterators

namespace SqliteMultimodal.Graph.Cypher

open Pull

section Patterns

structure Hop where
  zRel : Text
  zType : Option Text
  zNode : Text
  zLabel : Option Text

def Hop.variables (hop : Hop) : List Text := [hop.zNode, hop.zRel]

structure ChainPattern where
  zStart : Text
  hops : List Hop
  distinct : (zStart :: hops.flatMap Hop.variables).Nodup
  types : ∀ hop ∈ hops, hop.zType ≠ some []
  labels : ∀ hop ∈ hops, hop.zLabel ≠ some []

def nodePatternAst (zNode : Text) (zLabel : Option Text) : CypherAst :=
  .create .nodePattern (.createIdentifier zNode :: zLabel.toList.map .createNodeLabel)

def relPatternAst (hop : Hop) : CypherAst :=
  { CypherAst.create .relPattern
      (.createIdentifier hop.zRel :: hop.zType.toList.map .createNodeLabel) with iFlags := 1 }

def Hop.toAst (hop : Hop) : List CypherAst :=
  [relPatternAst hop, nodePatternAst hop.zNode hop.zLabel]

def ChainPattern.toAst (p : ChainPattern) : CypherAst :=
  .create .pattern (nodePatternAst p.zStart none :: p.hops.flatMap Hop.toAst)

end Patterns

section Plans

def startPlan (zStart : Text) : LogicalPlanNode :=
  { LogicalPlanNode.ofType .nodeScan with zAlias := some zStart }

def targetPlan (hop : Hop) : LogicalPlanNode :=
  { LogicalPlanNode.ofType .nodeScan with zAlias := some hop.zNode, zLabel := hop.zLabel }

def hopPlan (pLogical : LogicalPlanNode) (hop : Hop) : LogicalPlanNode :=
  { LogicalPlanNode.ofType .expand with
    zAlias := some hop.zNode
    zLabel := some hop.zRel
    zProperty := hop.zType
    apChildren := [pLogical, targetPlan hop] }

theorem targetOf_nodePatternAst (hop : Hop) :
    targetOf (nodePatternAst hop.zNode hop.zLabel) = targetPlan hop := by
  cases hl : hop.zLabel with
  | none => simp only [targetPlan, hl]; rfl
  | some zLabel => simp only [targetPlan, hl]; rfl

theorem expandOf_relPatternAst (hop : Hop) :
    expandOf (relPatternAst hop).apChildren = { LogicalPlanNode.ofType .expand with
      zLabel := some hop.zRel, zProperty := hop.zType } := by
  cases ht : hop.zType with
  | none => simp only [relPatternAst, ht]; rfl
  | some zType => simp only [relPatternAst, ht]; rfl

theorem overSource_hop (hop : Hop) (pLogical : LogicalPlanNode) :
    { (overSource (expandOf (relPatternAst hop).apChildren) (some pLogical)).addChild
        (targetOf (nodePatternAst hop.zNode hop.zLabel)) with zAlias := some hop.zNode } =
      hopPlan pLogical hop := by
  rw [targetOf_nodePatternAst, expandOf_relPatternAst]
  rfl

theorem compileElements_hops (hops : List Hop) (pLogical : LogicalPlanNode) :
    compileElements (some pLogical)
      ((hops.flatMap Hop.toAst).zip (compileChildren (hops.flatMap Hop.toAst))) =
    some (hops.foldl hopPlan pLogical) := by
  induction hops generalizing pLogical with
  | nil => rfl
  | cons hop hops ih =>
    rw [List.foldl_cons, ← ih, ← overSource_hop]
    rfl

theorem compileAstNode_toAst (p : ChainPattern) :
    compileAstNode p.toAst = some (p.hops.foldl hopPlan (startPlan p.zStart)) :=
  compileElements_hops p.hops (startPlan p.zStart)

def startPhysical (zStart : Text) : PhysicalPlanNode :=
  ⟨.allNodesScan, some zStart, none, none, none, 0, none, []⟩

variable (targetType : Option Text → PhysicalOperatorType) (bUseIndexes : Bool)

def targetPhysical (hop : Hop) : PhysicalPlanNode :=
  ⟨targetType hop.zLabel, some hop.zNode, hop.zLabel, none, none, 0, none, []⟩

def hopPhysical (pSource : PhysicalPlanNode) (hop : Hop) : PhysicalPlanNode :=
  ⟨.expand, some hop.zNode, some hop.zRel, hop.zType, none, 0, none,
    [pSource, targetPhysical targetType hop]⟩

theorem logicalPlanToPhysical_hops (hops : List Hop) (pLogical : LogicalPlanNode) :
    logicalPlanToPhysical bUseIndexes (hops.foldl hopPlan pLogical) =
      hops.foldl (hopPhysical fun _ => .allNodesScan)
        (logicalPlanToPhysical bUseIndexes pLogical) := by
  induction hops generalizing pLogical with
  | nil => rfl
  | cons hop hops ih =>
    rw [List.foldl_cons, ih]
    rfl

/-- The scan that `optimizeIndexUsage` makes of a node that is scanned with the label. -/
def optimizedScan (zLabel : Option Text) : PhysicalOperatorType :=
  if bUseIndexes && zLabel.any (· ≠ []) then .labelIndexScan else .allNodesScan

theorem optimize_scan (zAlias zLabel : Option Text) :
    cypherPlannerOptimize bUseIndexes
        { LogicalPlanNode.ofType .nodeScan with zAlias := zAlias, zLabel := zLabel } =
      ⟨optimizedScan bUseIndexes zLabel, zAlias, zLabel, none, none, 0, none, []⟩ := by
  cases zLabel with
  | none => cases bUseIndexes <;> rfl
  | some zLabel => cases zLabel <;> cases bUseIndexes <;> rfl

theorem cypherPlannerOptimize_hops (hops : List Hop) (pLogical : LogicalPlanNode) :
    cypherPlannerOptimize bUseIndexes (hops.foldl hopPlan pLogical) =
      hops.foldl (hopPhysical (optimizedScan bUseIndexes))
        (cypherPlannerOptimize bUseIndexes pLogical) := by
  induction hops generalizing pLogical with
  | nil => rfl
  | cons hop hops ih =>
    have htarget : cypherPlannerOptimize bUseIndexes (targetPlan hop) =
        targetPhysical (optimizedScan bUseIndexes) hop :=
      optimize_scan bUseIndexes (some hop.zNode) hop.zLabel
    rw [List.foldl_cons, ih, List.foldl_cons, hopPhysical, ← htarget]
    rfl

end Plans

section Steps

variable {realText : ℚ → Text} {g : GraphTables}

theorem xNext_steady : Steady (xNext realText g) := by
  intro n
  induction n with
  | zero => intro s r h; cases h
  | succ n ih =>
    intro s r h
    cases s with
    | noSource => exact h
    | scan pPlan bEof pStmt => exact h
    | filter pPlan pSource =>
      rw [xNext] at h ⊢
      cases hnext : xNext realText g n pSource with
      | none => rw [hnext] at h; cases h
      | some x =>
        rw [ih _ _ hnext]
        rw [hnext] at h
        obtain ⟨step, pSource'⟩ := x
        cases step with
        | row row =>
          simp only at h ⊢
          split
          next hpass => rwa [if_pos hpass] at h
          next hpass =>
            rw [if_neg hpass] at h
            exact ih _ _ h
        | done => exact h
        | failed rc => exact h
    | projection pPlan pSource =>
      rw [xNext] at h ⊢
      obtain ⟨x, hx, heq⟩ := Option.map_eq_some_iff.mp h
      rw [ih _ _ hx, Option.map_some, heq]
    | expand pPlan pSource pStmt pCurrentRow bSourceExhausted =>
      cases pStmt with
      | cons e rest =>
        cases e with
        | none => exact h
        | some e => exact h
      | nil =>
        rw [xNext] at h ⊢
        split
        next hexhausted => rwa [if_pos hexhausted] at h
        next hexhausted =>
          rw [if_neg hexhausted] at h
          cases hnext : xNext realText g n pSource with
          | none => rw [hnext] at h; cases h
          | some x =>
            rw [ih _ _ hnext]
            rw [hnext] at h
            obtain ⟨step, pSource'⟩ := x
            cases step with
            | row row =>
              simp only at h ⊢
              split
              next i hcolumn =>
                simp only [hcolumn] at h
                exact ih _ _ h
              next hcolumn =>
                split at h
                next i hi => exact absurd hi (hcolumn i)
                next => exact h
            | done => exact h
            | failed rc => exact h

end Steps

section Matches

variable (g : GraphTables)

/-- Node `i` is stored and has the label. -/
def Carries (zLabel : Text) (i : Int) : Prop :=
  ∃ node ∈ g.nodes, node.id = i ∧ ∃ values, Json.parse node.labels = some (.array values) ∧
    .scalar (.string zLabel) ∈ values

def Hop.Matches (hop : Hop) (i : Int) (e : EdgeRow) (j : Int) : Prop :=
  e ∈ g.edges ∧ e.source = i ∧ e.target = j ∧ (∀ zType ∈ hop.zType, e.edgeType = some zType) ∧
    ∀ zLabel ∈ hop.zLabel, Carries g zLabel j

/-- The edges of a walk from node `i`, each with the node it leads to. -/
inductive Walk : List Hop → Int → List (EdgeRow × Int) → Prop
  | nil {i : Int} : Walk [] i []
  | cons {hop : Hop} {hops : List Hop} {i j : Int} {e : EdgeRow} {steps : List (EdgeRow × Int)} :
    hop.Matches g i e j → Walk hops j steps → Walk (hop :: hops) i ((e, j) :: steps)

def ChainPattern.IsMatch (p : ChainPattern) (t : Int × List (EdgeRow × Int)) : Prop :=
  (∃ node ∈ g.nodes, node.id = t.1) ∧ Walk g p.hops t.1 t.2

def Hop.row (hop : Hop) (step : EdgeRow × Int) : Row :=
  [(hop.zNode, .node step.2), (hop.zRel, .string (some (relationshipText step.1)))]

def stepsRow (hops : List Hop) (steps : List (EdgeRow × Int)) : Row :=
  (hops.zip steps).flatMap fun s => s.1.row s.2

def ChainPattern.row (p : ChainPattern) (t : Int × List (EdgeRow × Int)) : Row :=
  (p.zStart, .node t.1) :: stepsRow p.hops t.2

def targetCarries : Option Text → Int → Bool
  | none, _ => true
  | some zLabel, i => (g.node i).any fun node => labelExists node.labels zLabel = some true

def hopEdges (hop : Hop) (i : Int) : List EdgeRow :=
  (g.edges.filter fun e => e.source = i && typeMatches hop.zType e.edgeType).filter fun e =>
    targetCarries g hop.zLabel e.target

def walks : List Hop → Int → List (List (EdgeRow × Int))
  | [], _ => [[]]
  | hop :: hops, i => (hopEdges g hop i).flatMap fun e =>
    (walks hops e.target).map ((e, e.target) :: ·)

def ChainPattern.tuples (p : ChainPattern) : List (Int × List (EdgeRow × Int)) :=
  g.nodes.flatMap fun node => (walks g p.hops node.id).map (node.id, ·)

def LabelArrays : Prop := ∀ node ∈ g.nodes, ∃ values, Json.parse node.labels = some (.array values)

variable {g}

theorem id_of_node {i : Int} {node : NodeRow} (h : g.node i = some node) : node.id = i := by
  have hid := List.find?_some h
  exact of_decide_eq_true hid

theorem node_eq_some {i : Int} {node : NodeRow} :
    g.node i = some node ↔ node ∈ g.nodes ∧ node.id = i := by
  constructor
  · intro h
    exact ⟨List.mem_of_find?_eq_some h, id_of_node h⟩
  · rintro ⟨hmem, rfl⟩
    cases hfind : g.node node.id with
    | none => exact absurd (List.find?_eq_none.mp hfind node hmem) (by simp)
    | some found =>
      rw [List.inj_on_of_nodup_map g.nodesNodup (List.mem_of_find?_eq_some hfind) hmem
        (id_of_node hfind)]

theorem nodes_filter (i : Int) : (g.nodes.filter fun n => n.id = i) = (g.node i).toList := by
  have h := g.nodesNodup
  rw [GraphTables.node]
  generalize g.nodes = nodes at h ⊢
  induction nodes with
  | nil => rfl
  | cons node nodes ih =>
    rw [List.map_cons, List.nodup_cons] at h
    rw [List.filter_cons, List.find?_cons]
    by_cases hid : node.id = i
    · subst hid
      simp only [decide_true, if_true, Option.toList_some, List.cons.injEq, true_and]
      refine List.filter_eq_nil_iff.mpr fun n hn => ?_
      simp only [decide_eq_true_eq]
      intro heq
      exact h.1 (heq ▸ List.mem_map_of_mem hn)
    · simp only [hid, decide_false, Bool.false_eq_true, if_false]
      exact ih h.2

theorem isLabel_iff {zLabel : Text} {v : Json.Value} :
    isLabel zLabel v = true ↔ v = .scalar (.string zLabel) := by
  unfold isLabel
  split
  next s => simp
  next hv => simp only [Bool.false_eq_true, false_iff]; exact fun h => hv _ h

theorem targetCarries_iff (hlabels : LabelArrays g) {zLabel : Text} {i : Int} :
    targetCarries g (some zLabel) i = true ↔ Carries g zLabel i := by
  rw [targetCarries, Option.any_eq_true]
  constructor
  · rintro ⟨node, hnode, hexists⟩
    obtain ⟨hmem, hid⟩ := node_eq_some.mp hnode
    obtain ⟨values, hvalues⟩ := hlabels node hmem
    rw [labelExists, hvalues, Option.map_some, decide_eq_true_eq, Option.some.injEq,
      List.any_eq_true] at hexists
    obtain ⟨v, hv, hlabel⟩ := hexists
    exact ⟨node, hmem, hid, values, hvalues, isLabel_iff.mp hlabel ▸ hv⟩
  · rintro ⟨node, hmem, hid, values, hvalues, hv⟩
    refine ⟨node, node_eq_some.mpr ⟨hmem, hid⟩, ?_⟩
    rw [labelExists, hvalues, Option.map_some, decide_eq_true_eq, Option.some.injEq,
      List.any_eq_true]
    exact ⟨_, hv, isLabel_iff.mpr rfl⟩

theorem typeMatches_iff {zType edgeType : Option Text} (h : zType ≠ some []) :
    typeMatches zType edgeType = true ↔ ∀ t ∈ zType, edgeType = some t := by
  unfold typeMatches
  split
  next c t => simp
  next hne =>
    simp only [true_iff]
    intro t ht
    cases t with
    | nil => exact absurd ht h
    | cons c t => exact absurd ht (hne c t)

theorem mem_hopEdges (hlabels : LabelArrays g) {hop : Hop} (htype : hop.zType ≠ some []) {i : Int}
    {e : EdgeRow} : e ∈ hopEdges g hop i ↔ hop.Matches g i e e.target := by
  simp only [hopEdges, Hop.Matches, List.mem_filter, Bool.and_eq_true, decide_eq_true_eq,
    typeMatches_iff htype, true_and, and_assoc]
  refine and_congr_right fun _ => and_congr_right fun _ => and_congr_right fun _ => ?_
  cases hop.zLabel with
  | none => simp [targetCarries]
  | some zLabel => simp [targetCarries_iff hlabels]

theorem mem_walks (hlabels : LabelArrays g) {hops : List Hop}
    (htypes : ∀ hop ∈ hops, hop.zType ≠ some []) {i : Int} {steps : List (EdgeRow × Int)} :
    steps ∈ walks g hops i ↔ Walk g hops i steps := by
  induction hops generalizing i steps with
  | nil =>
    rw [walks, List.mem_singleton]
    constructor
    · rintro rfl
      exact .nil
    · intro h
      cases h
      rfl
  | cons hop hops ih =>
    have ih := fun i steps => @ih (fun h hh => htypes h (List.mem_cons_of_mem _ hh)) i steps
    simp only [walks, List.mem_flatMap, List.mem_map, ih,
      mem_hopEdges hlabels (htypes hop List.mem_cons_self)]
    constructor
    · rintro ⟨e, he, rest, hrest, rfl⟩
      exact .cons he hrest
    · intro h
      cases h with
      | cons hmatch hrest =>
        obtain ⟨-, -, rfl, -⟩ := id hmatch
        exact ⟨_, hmatch, _, hrest, rfl⟩

theorem ChainPattern.mem_tuples (hlabels : LabelArrays g) (p : ChainPattern)
    {t : Int × List (EdgeRow × Int)} : t ∈ p.tuples g ↔ p.IsMatch g t := by
  simp only [tuples, IsMatch, List.mem_flatMap, List.mem_map, mem_walks hlabels p.types]
  constructor
  · rintro ⟨node, hnode, steps, hsteps, rfl⟩
    exact ⟨⟨node, hnode, rfl⟩, hsteps⟩
  · rintro ⟨⟨node, hnode, hid⟩, hsteps⟩
    exact ⟨node, hnode, t.2, hid ▸ hsteps, by rw [hid]⟩

theorem walks_nodup (hops : List Hop) (i : Int) : (walks g hops i).Nodup := by
  induction hops generalizing i with
  | nil => exact List.nodup_singleton []
  | cons hop hops ih =>
    refine List.nodup_flatMap.mpr
      ⟨fun e _ => (ih e.target).map fun _ _ h => (List.cons.inj h).2, ?_⟩
    have hnodup : (hopEdges g hop i).Nodup := (g.edgesNodup.of_map.filter _).filter _
    refine hnodup.imp fun hne => ?_
    intro steps hsteps hsteps'
    obtain ⟨_, _, rfl⟩ := List.mem_map.mp hsteps
    obtain ⟨_, _, heq⟩ := List.mem_map.mp hsteps'
    exact hne (Prod.mk.inj (List.cons.inj heq).1).1.symm

theorem ChainPattern.tuples_nodup (p : ChainPattern) : (p.tuples g).Nodup := by
  refine List.nodup_flatMap.mpr
    ⟨fun node _ => (walks_nodup p.hops node.id).map fun _ _ h => (Prod.mk.inj h).2, ?_⟩
  refine (List.pairwise_map.mp g.nodesNodup).imp fun hne => ?_
  intro t ht ht'
  obtain ⟨_, _, rfl⟩ := List.mem_map.mp ht
  obtain ⟨_, _, heq⟩ := List.mem_map.mp ht'
  exact hne (Prod.mk.inj heq).1.symm

end Matches

section Rows

variable {g : GraphTables} {realText : ℚ → Text}
  {targetType : Option Text → PhysicalOperatorType}

theorem targetLabel_hopPhysical (pSource : PhysicalPlanNode) {hop : Hop}
    (hlabel : hop.zLabel ≠ some []) :
    targetLabel (hopPhysical targetType pSource hop) = hop.zLabel := by
  change hop.zLabel.filter (· ≠ []) = _
  cases hl : hop.zLabel with
  | none => rfl
  | some zLabel =>
    rw [hl] at hlabel
    rw [Option.filter_some, if_pos]
    simpa using hlabel

theorem targetRows (hlabels : LabelArrays g) (zLabel : Text) (e : EdgeRow) :
    ((g.nodes.filter fun n => n.id = e.target).filterMap fun n =>
      match labelExists n.labels zLabel with
      | none => some none
      | some true => some (some e)
      | some false => none) =
    if targetCarries g (some zLabel) e.target then [some e] else [] := by
  rw [nodes_filter, targetCarries]
  cases hnode : g.node e.target with
  | none => rfl
  | some node =>
    obtain ⟨values, hvalues⟩ := hlabels node (node_eq_some.mp hnode).1
    simp only [Option.toList_some, List.filterMap_cons, List.filterMap_nil, labelExists, hvalues,
      Option.map_some, Option.any_some]
    cases values.any (isLabel zLabel) with
    | true => rfl
    | false => rfl

theorem flatMap_ite {α β : Type*} (p : α → Bool) (f : α → β) (as : List α) :
    (as.flatMap fun a => if p a then [f a] else []) = (as.filter p).map f := by
  induction as with
  | nil => rfl
  | cons a as ih =>
    rw [List.flatMap_cons, ih, List.filter_cons]
    cases p a with
    | true => rfl
    | false => rfl

theorem expandQuery_hopPhysical (hlabels : LabelArrays g) (pSource : PhysicalPlanNode) {hop : Hop}
    (hlabel : hop.zLabel ≠ some []) (i : Int) :
    expandQuery g (hopPhysical targetType pSource hop) i = (hopEdges g hop i).map some := by
  rw [expandQuery, targetLabel_hopPhysical pSource hlabel, hopEdges]
  cases hop.zLabel with
  | none => simp only [targetCarries, List.filter_true]; rfl
  | some zLabel =>
    exact (congrArg (List.flatMap · _) (funext (targetRows hlabels zLabel))).trans
      (flatMap_ite _ some _)

def Yields (realText : ℚ → Text) (g : GraphTables) (pPlan : PhysicalPlanNode) (rows : List Row) :
    Prop :=
  ∃ it opened, cypherIteratorCreate pPlan = some it ∧ xOpen g it = some opened ∧
    Produces (xNext realText g) opened rows

def scanned : Statement Int → List Int
  | some i :: rest => i :: scanned rest
  | _ => []

theorem scanned_map (is : List Int) : scanned (is.map some) = is := by
  induction is with
  | nil => rfl
  | cons i is ih => rw [List.map_cons, scanned, ih]

theorem scan_produces (pPlan : PhysicalPlanNode) (pStmt : Statement Int) :
    Produces (xNext realText g) (.scan pPlan false pStmt)
      ((scanned pStmt).map fun i => [(pPlan.zAlias.getD "node".toList, .node i)]) := by
  induction pStmt with
  | nil => exact .done (n := 1) rfl
  | cons i rest ih =>
    cases i with
    | none => exact .done (n := 1) rfl
    | some i => exact .row (n := 1) rfl ih

theorem yields_scan {pPlan : PhysicalPlanNode} {pStmt : Statement Int}
    (hcreate : cypherIteratorCreate pPlan = some (.scan pPlan false []))
    (hopen : scanOpen g pPlan = some pStmt) : Yields realText g pPlan
      ((scanned pStmt).map fun i => [(pPlan.zAlias.getD "node".toList, .node i)]) :=
  ⟨_, .scan pPlan false pStmt, hcreate, by rw [xOpen, hopen, Option.map_some],
    scan_produces pPlan pStmt⟩

theorem yields_start (zStart : Text) : Yields realText g (startPhysical zStart)
    (g.nodes.map fun node => [(zStart, .node node.id)]) := by
  have hopen : scanOpen g (startPhysical zStart) = some ((g.nodes.map (·.id)).map some) := by
    rw [List.map_map]
    rfl
  have h : Yields realText g (startPhysical zStart) _ := yields_scan rfl hopen
  rw [scanned_map, List.map_map] at h
  exact h

def contents (g : GraphTables) (pPlan : PhysicalPlanNode) (hop : Hop) (zSource : Text) (row : Row) :
    List Row :=
  match columnOf row zSource with
  | some (.node i) => (hopEdges g hop i).map (expandRow pPlan row)
  | _ => []

theorem yields_hop (targetType : Option Text → PhysicalOperatorType) (hlabels : LabelArrays g)
    {pSource : PhysicalPlanNode} {zSource : Text}
    {hop : Hop} {rows : List Row} (hlabel : hop.zLabel ≠ some [])
    (hsource : pSource.zAlias = some zSource)
    (hnodes : ∀ row ∈ rows, ∃ i, columnOf row zSource = some (.node i))
    (h : Yields realText g pSource rows) :
    Yields realText g (hopPhysical targetType pSource hop)
      (rows.flatMap (contents g (hopPhysical targetType pSource hop) hop zSource)) := by
  obtain ⟨it, opened, hcreate, hopen, hrows⟩ := h
  refine ⟨.expand (hopPhysical targetType pSource hop) it [] [] false,
    .expand (hopPhysical targetType pSource hop) opened [] [] false, ?_, ?_, ?_⟩
  · simp only [cypherIteratorCreate, hopPhysical, createFirst, hcreate, Option.map_some]
  · rw [xOpen, hopen, Option.map_some]
  · have halias : sourceAlias (hopPhysical targetType pSource hop) = zSource := by
      change pSource.zAlias.getD _ = _
      rw [hsource, Option.getD_some]
    have := hrows.flatMap xNext_steady
      (fun s (t : List EdgeRow × Row) =>
        .expand (hopPhysical targetType pSource hop) s (t.1.map some) t.2 false)
      (fun t => t.1.map (expandRow (hopPhysical targetType pSource hop) t.2))
      (contents g (hopPhysical targetType pSource hop) hop zSource) ?_ ?_ ?_ ([], [])
    · exact this
    · rintro s ⟨edges, row⟩ a rest hpending
      cases edges with
      | nil => cases hpending
      | cons e edges =>
        cases hpending
        exact ⟨(edges, row), rfl, rfl⟩
    · rintro n s s' ⟨edges, row⟩ hpending hnext
      cases List.map_eq_nil_iff.mp hpending
      refine ⟨.expand (hopPhysical targetType pSource hop) s' [] [] true, ?_⟩
      simp only [List.map_nil, xNext, hnext]
      rfl
    · rintro n s s' ⟨edges, row⟩ a ha hpending hnext
      cases List.map_eq_nil_iff.mp hpending
      obtain ⟨i, hi⟩ := hnodes a ha
      refine ⟨(hopEdges g hop i, a), by simp only [contents, hi], fun m hm => ?_⟩
      simp only [List.map_nil, xNext, xNext_steady.mono hnext hm, halias, hi,
        expandQuery_hopPhysical hlabels pSource hlabel]
      rfl

theorem columnOf_of_not_mem {row : Row} {zName : Text} (h : zName ∉ row.map (·.1)) :
    columnOf row zName = none := by
  rw [columnOf, Option.map_eq_none_iff, List.find?_eq_none]
  intro column hcolumn heq
  exact h (of_decide_eq_true heq ▸ List.mem_map_of_mem hcolumn)

theorem columnOf_append {row row' : Row} {zName : Text} (h : zName ∉ row.map (·.1)) :
    columnOf (row ++ row') zName = columnOf row' zName := by
  have hnone := columnOf_of_not_mem h
  rw [columnOf, Option.map_eq_none_iff] at hnone
  rw [columnOf, columnOf, List.find?_append, hnone, Option.none_or]

def extend (g : GraphTables) (hop : Hop) (x : Row × Int) : List (Row × Int) :=
  (hopEdges g hop x.2).map fun e => (x.1 ++ hop.row (e, e.target), e.target)

theorem columnOf_extend {hop : Hop} {x y : Row × Int} (hfresh : hop.zNode ∉ x.1.map (·.1))
    (hy : y ∈ extend g hop x) : columnOf y.1 hop.zNode = some (.node y.2) := by
  obtain ⟨e, -, rfl⟩ := List.mem_map.mp hy
  rw [columnOf_append hfresh, columnOf, Hop.row, List.find?_cons_of_pos (by simp)]
  rfl

theorem names_extend {hop : Hop} {x y : Row × Int} (hy : y ∈ extend g hop x) :
    y.1.map (·.1) = x.1.map (·.1) ++ hop.variables := by
  obtain ⟨e, -, rfl⟩ := List.mem_map.mp hy
  rw [List.map_append]
  rfl

theorem contents_eq {pSource : PhysicalPlanNode} {hop : Hop} {zSource : Text} {x : Row × Int}
    (h : columnOf x.1 zSource = some (.node x.2)) :
    contents g (hopPhysical targetType pSource hop) hop zSource x.1 =
      (extend g hop x).map (·.1) := by
  simp only [contents, h, extend, List.map_map]
  rfl

theorem walks_cons (hop : Hop) (hops : List Hop) (x : Row × Int) :
    ((walks g (hop :: hops) x.2).map fun steps => x.1 ++ stepsRow (hop :: hops) steps) =
      (extend g hop x).flatMap fun y => (walks g hops y.2).map fun steps =>
        y.1 ++ stepsRow hops steps := by
  simp only [walks, extend, List.map_flatMap, List.flatMap_map, List.map_map]
  refine List.flatMap_congr fun e _ => List.map_congr_left fun steps _ => ?_
  simp only [Function.comp, stepsRow, List.zip_cons_cons, List.flatMap_cons, List.append_assoc]

theorem yields_hops (targetType : Option Text → PhysicalOperatorType) (hlabels : LabelArrays g)
    {hops : List Hop}
    (hlabel : ∀ hop ∈ hops, hop.zLabel ≠ some []) {pSource : PhysicalPlanNode} {zSource : Text}
    (hsource : pSource.zAlias = some zSource) {names : List Text} {xs : List (Row × Int)}
    (hdistinct : (names ++ hops.flatMap Hop.variables).Nodup)
    (hnames : ∀ x ∈ xs, x.1.map (·.1) = names)
    (hnodes : ∀ x ∈ xs, columnOf x.1 zSource = some (.node x.2))
    (h : Yields realText g pSource (xs.map (·.1))) :
    Yields realText g (hops.foldl (hopPhysical targetType) pSource)
      (xs.flatMap fun x => (walks g hops x.2).map fun steps => x.1 ++ stepsRow hops steps) := by
  induction hops generalizing pSource zSource names xs with
  | nil =>
    have hrows : (xs.flatMap fun x => (walks g [] x.2).map fun steps => x.1 ++ stepsRow [] steps) =
        xs.map (·.1) := by
      simp only [walks, stepsRow, List.map_cons, List.map_nil, List.zip_nil_left, List.flatMap_nil,
        List.append_nil]
      exact List.map_eq_flatMap.symm
    rwa [hrows]
  | cons hop hops ih =>
    rw [List.flatMap_cons, ← List.append_assoc] at hdistinct
    have hfresh : ∀ x ∈ xs, hop.zNode ∉ x.1.map (·.1) := by
      intro x hx hmem
      have := (List.nodup_append.mp (List.nodup_append.mp hdistinct).1).2.2
      exact this _ (hnames x hx ▸ hmem) _ List.mem_cons_self rfl
    have hstep := yields_hop targetType hlabels (hlabel hop List.mem_cons_self) hsource
      (fun row hrow => by
        obtain ⟨x, hx, rfl⟩ := List.mem_map.mp hrow
        exact ⟨x.2, hnodes x hx⟩) h
    rw [List.flatMap_map, List.flatMap_congr fun x hx => contents_eq (hnodes x hx),
      ← List.map_flatMap] at hstep
    have hnext : (hopPhysical targetType pSource hop).zAlias = some hop.zNode := rfl
    have hrest := ih (fun hop' hhop' => hlabel hop' (List.mem_cons_of_mem _ hhop')) hnext hdistinct
      ?_ ?_ hstep
    · rw [List.flatMap_assoc] at hrest
      rw [List.foldl_cons, List.flatMap_congr fun x _ => walks_cons hop hops x]
      exact hrest
    · intro y hy
      obtain ⟨x, hx, hy⟩ := List.mem_flatMap.mp hy
      rw [names_extend hy, hnames x hx]
    · intro y hy
      obtain ⟨x, hx, hy⟩ := List.mem_flatMap.mp hy
      exact columnOf_extend (hfresh x hx) hy

theorem ofInt_append_inj {c : Char} (hc : c.isDigit = false) (hminus : c ≠ '-') {i j : Int}
    {t t' : Text} (h : Text.ofInt i ++ c :: t = Text.ofInt j ++ c :: t') : i = j := by
  have hread : ∀ (k : Int) (u : Text),
      (Text.ofInt k ++ c :: u).takeWhile (· ≠ c) = Text.ofInt k := by
    intro k u
    rw [List.takeWhile_append_of_pos, List.takeWhile_cons_of_neg (by simp), List.append_nil]
    intro d hd
    exact decide_eq_true fun heq => Text.not_mem_ofInt hc hminus k (heq ▸ hd)
  have htext := congrArg (List.takeWhile (· ≠ c)) h
  rw [hread, hread] at htext
  exact Text.ofInt_injective htext

theorem ofInt_append_ne {c : Char} (hc : c.isDigit = false) (hminus : c ≠ '-') (i : Int)
    (t t' : Text) : Text.ofInt i ++ t ≠ c :: t' := by
  intro h
  obtain ⟨d, rest, hd⟩ := List.exists_cons_of_ne_nil (Text.ofInt_ne_nil i)
  rw [hd] at h
  obtain rfl : d = c := (List.cons.inj h).1
  exact Text.not_mem_ofInt hc hminus i (hd ▸ List.mem_cons_self)

theorem relationshipText_cases (e : EdgeRow) :
    (∃ t, relationshipText e =
      "Relationship(".toList ++ 'i' :: ("d=".toList ++ (Text.ofInt e.id ++ ',' :: t))) ∨
    relationshipText e = "Relationship(".toList ++ (Text.ofInt e.id ++ [')']) := by
  unfold relationshipText
  split
  next c t _ =>
    refine .inl ⟨"type=".toList ++ c :: t ++ [')'], ?_⟩
    simp
  next => exact .inr (List.append_assoc _ _ _)

theorem relationshipText_inj {e e' : EdgeRow} (h : relationshipText e = relationshipText e') :
    e.id = e'.id := by
  rcases relationshipText_cases e with ⟨t, he⟩ | he <;>
    rcases relationshipText_cases e' with ⟨t', he'⟩ | he' <;>
    rw [he, he'] at h <;> replace h := List.append_cancel_left h
  · exact ofInt_append_inj (c := ',') rfl (by decide) (List.append_cancel_left (List.cons.inj h).2)
  · exact absurd h.symm (ofInt_append_ne rfl (by decide) _ _ _)
  · exact absurd h (ofInt_append_ne rfl (by decide) _ _ _)
  · exact ofInt_append_inj (c := ')') rfl (by decide) h

theorem stepsRow_inj {hops : List Hop} {i j : Int} {steps steps' : List (EdgeRow × Int)}
    (h : Walk g hops i steps) (h' : Walk g hops j steps')
    (hrow : stepsRow hops steps = stepsRow hops steps') : steps = steps' := by
  induction h generalizing j steps' with
  | nil =>
    cases h'
    rfl
  | cons hmatch _ ih =>
    cases h' with
    | cons hmatch' hrest' =>
      simp only [stepsRow, List.zip_cons_cons, List.flatMap_cons, Hop.row, List.cons_append,
        List.nil_append, List.cons.injEq, Prod.mk.injEq, true_and, CypherValue.node.injEq,
        CypherValue.string.injEq, Option.some.injEq] at hrow
      obtain ⟨rfl, htext, hrest⟩ := hrow
      rw [List.inj_on_of_nodup_map g.edgesNodup hmatch.1 hmatch'.1 (relationshipText_inj htext),
        ih hrest' hrest]

theorem ChainPattern.rows_nodup (hlabels : LabelArrays g) (p : ChainPattern) :
    ((p.tuples g).map p.row).Nodup := by
  refine (p.tuples_nodup).map_on fun t ht t' ht' hrow => ?_
  rw [p.mem_tuples hlabels] at ht ht'
  simp only [row, List.cons.injEq, Prod.mk.injEq, true_and, CypherValue.node.injEq] at hrow
  exact Prod.ext hrow.1 (stepsRow_inj ht.2 ht'.2 hrow.2)

theorem ChainPattern.yields (targetType : Option Text → PhysicalOperatorType)
    (hlabels : LabelArrays g) (p : ChainPattern) :
    Yields realText g (p.hops.foldl (hopPhysical targetType) (startPhysical p.zStart))
      ((p.tuples g).map p.row) := by
  have halias : (startPhysical p.zStart).zAlias = some p.zStart := rfl
  have hdistinct : ([p.zStart] ++ p.hops.flatMap Hop.variables).Nodup := p.distinct
  have hstart : Yields realText g (startPhysical p.zStart)
      ((g.nodes.map fun node => (([(p.zStart, .node node.id)] : Row), node.id)).map (·.1)) := by
    rw [List.map_map]
    exact yields_start p.zStart
  have h := yields_hops targetType hlabels p.labels halias hdistinct ?_ ?_ hstart
  · rw [List.flatMap_map] at h
    rw [tuples, List.map_flatMap]
    simp only [List.map_map]
    exact h
  · intro x hx
    obtain ⟨node, -, rfl⟩ := List.mem_map.mp hx
    rfl
  · intro x hx
    obtain ⟨node, -, rfl⟩ := List.mem_map.mp hx
    rw [columnOf, List.find?_cons_of_pos (by simp)]
    rfl

def Drains (realText : ℚ → Text) (g : GraphTables) (pPlan : PhysicalPlanNode) (rows : List Row) :
    Prop :=
  ∃ it opened, cypherIteratorCreate pPlan = some it ∧ xOpen g it = some opened ∧
    ∃ n, ∀ m, n ≤ m → drain (xNext realText g) m opened = some rows

def Answers (realText : ℚ → Text) (g : GraphTables) (bUseIndexes : Bool) (pAst : CypherAst)
    (rows : List Row) : Prop :=
  ∃ pLogical, compileAstNode pAst = some pLogical ∧
    Drains realText g (cypherPlannerOptimize bUseIndexes pLogical) rows

theorem drains_iff {pPlan : PhysicalPlanNode} {rows : List Row} :
    Drains realText g pPlan rows ↔ Yields realText g pPlan rows := by
  constructor
  · rintro ⟨it, opened, hcreate, hopen, n, hn⟩
    exact ⟨it, opened, hcreate, hopen, .of_drain (hn n (Nat.le_refl n))⟩
  · rintro ⟨it, opened, hcreate, hopen, hrows⟩
    exact ⟨it, opened, hcreate, hopen, hrows.drain xNext_steady⟩

theorem Yields.unique {pPlan : PhysicalPlanNode} {rows rows' : List Row}
    (h : Yields realText g pPlan rows) (h' : Yields realText g pPlan rows') : rows = rows' := by
  obtain ⟨it, opened, hcreate, hopen, hrows⟩ := h
  obtain ⟨it', opened', hcreate', hopen', hrows'⟩ := h'
  obtain rfl := Option.some.inj (hcreate.symm.trans hcreate')
  obtain rfl := Option.some.inj (hopen.symm.trans hopen')
  exact hrows.unique xNext_steady hrows'

theorem Yields.answers {bUseIndexes : Bool} {pAst : CypherAst} {pLogical : LogicalPlanNode}
    {rows : List Row} (hcompile : compileAstNode pAst = some pLogical)
    (h : Yields realText g (cypherPlannerOptimize bUseIndexes pLogical) rows) :
    Answers realText g bUseIndexes pAst rows :=
  ⟨pLogical, hcompile, drains_iff.mpr h⟩

theorem Answers.yields {bUseIndexes : Bool} {pAst : CypherAst} {rows : List Row}
    (h : Answers realText g bUseIndexes pAst rows) :
    ∃ pLogical, compileAstNode pAst = some pLogical ∧
      Yields realText g (cypherPlannerOptimize bUseIndexes pLogical) rows := by
  obtain ⟨pLogical, hcompile, hrows⟩ := h
  exact ⟨pLogical, hcompile, drains_iff.mp hrows⟩

theorem Answers.unique {bUseIndexes : Bool} {pAst : CypherAst} {rows rows' : List Row}
    (h : Answers realText g bUseIndexes pAst rows)
    (h' : Answers realText g bUseIndexes pAst rows') : rows = rows' := by
  obtain ⟨pLogical, hcompile, hrows⟩ := h.yields
  obtain ⟨pLogical', hcompile', hrows'⟩ := h'.yields
  obtain rfl := Option.some.inj (hcompile.symm.trans hcompile')
  exact hrows.unique hrows'

/-- The rows of a chain are its matches, each of them once, with the plan as it is compiled and
as it is optimized. -/
theorem chain_matches (realText : ℚ → Text) (g : GraphTables) (hlabels : LabelArrays g)
    (p : ChainPattern) (bUseIndexes : Bool) :
    ∃ tuples : List (Int × List (EdgeRow × Int)),
      (∃ pLogical, compileAstNode p.toAst = some pLogical ∧
        Drains realText g (logicalPlanToPhysical bUseIndexes pLogical) (tuples.map p.row)) ∧
      Answers realText g bUseIndexes p.toAst (tuples.map p.row) ∧
      (tuples.map p.row).Nodup ∧ ∀ t, t ∈ tuples ↔ p.IsMatch g t := by
  refine ⟨p.tuples g, ⟨_, compileAstNode_toAst p, drains_iff.mpr ?_⟩,
    Yields.answers (compileAstNode_toAst p) ?_, p.rows_nodup hlabels,
    fun t => p.mem_tuples hlabels⟩
  · rw [logicalPlanToPhysical_hops]
    exact p.yields _ hlabels
  · have hstart : cypherPlannerOptimize bUseIndexes (startPlan p.zStart) =
        startPhysical p.zStart := by
      rw [startPlan, optimize_scan]
      cases bUseIndexes <;> rfl
    rw [cypherPlannerOptimize_hops, hstart]
    exact p.yields _ hlabels

def friends : GraphTables where
  nodes := [⟨1, "[\"Person\"]".toList, []⟩, ⟨2, "[\"Person\", \"Friend\"]".toList, []⟩]
  edges := [⟨7, 1, 2, some "KNOWS".toList⟩]
  nodesNodup := by decide
  edgesNodup := by decide

theorem friends_labelArrays : LabelArrays friends := by
  intro node hnode
  rcases List.mem_cons.mp hnode with rfl | hnode
  · exact ⟨_, rfl⟩
  · rcases List.mem_singleton.mp hnode with rfl
    exact ⟨_, rfl⟩

def aKnowsFriend : ChainPattern where
  zStart := ['a']
  hops := [⟨['r'], some "KNOWS".toList, ['b'], some "Friend".toList⟩]
  distinct := by decide
  types := by decide
  labels := by decide

theorem chain_matches_friends :
    ∃ tuples : List (Int × List (EdgeRow × Int)),
      (∃ pLogical, compileAstNode aKnowsFriend.toAst = some pLogical ∧
        Drains (fun _ => []) friends (logicalPlanToPhysical true pLogical)
          (tuples.map aKnowsFriend.row)) ∧
      Answers (fun _ => []) friends true aKnowsFriend.toAst (tuples.map aKnowsFriend.row) ∧
      (tuples.map aKnowsFriend.row).Nodup ∧
      ∀ t, t ∈ tuples ↔ aKnowsFriend.IsMatch friends t :=
  chain_matches (fun _ => []) friends friends_labelArrays aKnowsFriend true

end Rows

end SqliteMultimodal.Graph.Cypher
