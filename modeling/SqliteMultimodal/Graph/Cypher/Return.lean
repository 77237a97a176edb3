import SqliteMultimodal.Graph.Cypher.Accepted
import SqliteMultimodal.Graph.Cypher.Where

namespace SqliteMultimodal.Graph.Cypher

open Pull Accepted

section Items

inductive ReturnItem
  | identifier (zVar : Text)
  | property (zVar zProperty : Text)

def ReturnItem.toAst : ReturnItem → CypherAst
  | identifier zVar => .createIdentifier zVar
  | property zVar zProperty => propertyAst zVar zProperty

def ReturnItem.zVar : ReturnItem → Text
  | identifier zVar => zVar
  | property zVar _ => zVar

def variablesOf (elements : List CypherAst) : List Text :=
  ((elements.flatMap (·.apChildren)).filter (·.isType .identifier)).filterMap (·.zValue)

def ReturnItem.Bound (pPattern : CypherAst) : ReturnItem → Prop
  | identifier zVar => zVar ∈ variablesOf pPattern.apChildren
  | property zVar _ => zVar ∈ variablesOf (pPattern.apChildren.filter (·.isType .nodePattern))

inductive HasValue : PropertyValue → CypherValue → Prop
  | null : HasValue .null .null
  | boolean (b : Bool) : HasValue (.boolean b) (.boolean b)
  | integer (i : Int) : HasValue (.integer i) (.integer i)
  | real (r : ℚ) : HasValue (.real r) (.float r)
  | string (s : Text) : HasValue (.string s) (.string (some s))
  | list (json : Text) (values : List CypherValue) : HasValue (.compound json) (.list values)
  | map (json : Text) (pairs : List (Text × CypherValue)) : HasValue (.compound json) (.map pairs)

variable (g : GraphTables)

def ReturnItem.Has (binding : Row) : ReturnItem → CypherValue → Prop
  | identifier zVar, x => columnOf binding zVar = some x
  | property zVar zProperty, x => ∃ i, columnOf binding zVar = some (.node i) ∧
      HasValue (((g.node i).bind (·.property zProperty)).getD .null) x

variable (c : Conversions) (bUseIndexes : Bool) (pPattern : CypherAst) (pWhere : Option CypherAst)

def ReturnsNamed (item : ReturnItem) : Prop :=
  ∃ bindings rows, Answers c.realText g bUseIndexes (matchQuery pPattern pWhere none) bindings ∧
    Answers c.realText g bUseIndexes (matchQuery pPattern pWhere (some item.toAst)) rows ∧
    List.Forall₂ (fun binding row => ∃ zColumn x, row = [(zColumn, x)] ∧ item.Has g binding x)
      bindings rows

end Items

section Plans

variable (c : Conversions) (g : GraphTables) (bUseIndexes : Bool)

def wherePlan (pExpr : CypherAst) : LogicalPlanNode :=
  { (propertyFilter pExpr).getD (.ofType .filter) with pExtra := some pExpr }

def overWhere (pWhere : Option CypherAst) (pLogical : LogicalPlanNode) : LogicalPlanNode :=
  pWhere.elim pLogical fun pExpr => (wherePlan pExpr).addChild pLogical

def overReturn (pReturn : Option CypherAst) (pLogical : LogicalPlanNode) : LogicalPlanNode :=
  pReturn.elim pLogical fun pExpr => (compileReturn
    [.create .projectionList [.create .projectionItem [pExpr]]]).addChild pLogical

theorem pipeline_over (pPlan : LogicalPlanNode) (pWhere pReturn : Option CypherAst) :
    pipeline (some pPlan :: ((pWhere.map fun pExpr => some (wherePlan pExpr)).toList ++
      (pReturn.map fun pExpr => some (compileReturn
        [.create .projectionList [.create .projectionItem [pExpr]]])).toList)) =
      some (overReturn pReturn (overWhere pWhere pPlan)) := by
  cases pWhere <;> cases pReturn <;> rfl

theorem pipeline_none (plans : List (Option LogicalPlanNode)) :
    pipeline (none :: plans) = none := by
  rw [pipeline]
  induction plans with
  | nil => rfl
  | cons plan plans ih =>
    rw [List.foldl_cons]
    cases plan with
    | none => exact ih
    | some plan => exact ih

theorem compileAstNode_matchQuery (pPattern : CypherAst) (pWhere pReturn : Option CypherAst) :
    compileAstNode (matchQuery pPattern pWhere pReturn) =
      (compileAstNode pPattern).map fun pLogical =>
        overReturn pReturn (overWhere pWhere pLogical) := by
  have hcompile : compileAstNode (matchQuery pPattern pWhere pReturn) =
      pipeline (compileAstNode pPattern ::
        ((pWhere.map fun pExpr => some (wherePlan pExpr)).toList ++
          (pReturn.map fun pExpr => some (compileReturn
            [.create .projectionList [.create .projectionItem [pExpr]]])).toList)) := by
    cases pWhere <;> cases pReturn <;> rfl
  rw [hcompile]
  cases compileAstNode pPattern with
  | none => exact pipeline_none _
  | some pPlan => exact pipeline_over pPlan pWhere pReturn

theorem propertyFilter_cases (pExpr : CypherAst) :
    ((propertyFilter pExpr).getD (.ofType .filter)).apChildren = [] ∧
      (((propertyFilter pExpr).getD (.ofType .filter)).type = .filter ∨
        ((propertyFilter pExpr).getD (.ofType .filter)).type = .propertyFilter) := by
  unfold propertyFilter
  split
  next =>
    split
    next =>
      split
      next => exact ⟨rfl, .inr rfl⟩
      next => exact ⟨rfl, .inr rfl⟩
    next => exact ⟨rfl, .inl rfl⟩
  next => exact ⟨rfl, .inl rfl⟩

theorem where_physical (pExpr : CypherAst) (pLogical : LogicalPlanNode) :
    (cypherPlannerOptimize bUseIndexes ((wherePlan pExpr).addChild pLogical)).type = .filter ∧
      (cypherPlannerOptimize bUseIndexes ((wherePlan pExpr).addChild pLogical)).pExecState =
        some pExpr ∧
      (cypherPlannerOptimize bUseIndexes ((wherePlan pExpr).addChild pLogical)).apChildren =
        [cypherPlannerOptimize bUseIndexes pLogical] := by
  obtain ⟨hchildren, htype⟩ := propertyFilter_cases pExpr
  rw [wherePlan]
  generalize (propertyFilter pExpr).getD (.ofType .filter) = pPlan at hchildren htype
  obtain ⟨type, zAlias, zLabel, zProperty, zValue, iFlags, pExtra, apChildren⟩ := pPlan
  cases hchildren
  obtain rfl | rfl := htype
  · exact ⟨rfl, rfl, rfl⟩
  · exact ⟨rfl, rfl, rfl⟩

end Plans

section Rows

variable {c : Conversions} {g : GraphTables} {bUseIndexes : Bool} {pattern : Accepted.Pattern}
  {pWhere : Option CypherAst} {bindings rows : List Row}

theorem answers_return {pPattern : CypherAst}
    (h : Answers c.realText g bUseIndexes (matchQuery pPattern pWhere none) bindings)
    (pReturn : CypherAst) :
    Answers c.realText g bUseIndexes (matchQuery pPattern pWhere (some pReturn)) bindings := by
  obtain ⟨pLogical, hcompile, hyields⟩ := h.yields
  rw [compileAstNode_matchQuery] at hcompile
  obtain ⟨pPlan, hpattern, rfl⟩ := Option.map_eq_some_iff.mp hcompile
  have hreturn : compileAstNode (matchQuery pPattern pWhere (some pReturn)) =
      some (overReturn (some pReturn) (overWhere pWhere pPlan)) := by
    rw [compileAstNode_matchQuery, hpattern, Option.map_some]
  exact Yields.answers hreturn (yields_return c g bUseIndexes _ hyields)

theorem create_filter {pPlan pSource : PhysicalPlanNode} {pExpr : CypherAst}
    (htype : pPlan.type = .filter) (hexpr : pPlan.pExecState = some pExpr)
    (hsource : pPlan.apChildren = [pSource]) :
    cypherIteratorCreate pPlan = (cypherIteratorCreate pSource).map (.filter pPlan) := by
  obtain ⟨type, zAlias, zLabel, zProperty, zValue, iFlags, pExecState, apChildren⟩ := pPlan
  cases htype
  cases hexpr
  cases hsource
  rfl

theorem wide_where {pLogical : LogicalPlanNode} {m : Nat}
    (h : ∀ it, cypherIteratorCreate (cypherPlannerOptimize bUseIndexes pLogical) = some it →
      Wide m it) :
    ∀ it, cypherIteratorCreate
      (cypherPlannerOptimize bUseIndexes (overWhere pWhere pLogical)) = some it → Wide m it := by
  cases pWhere with
  | none => exact h
  | some pExpr =>
    intro it hit
    obtain ⟨htype, hexpr, hsource⟩ := where_physical bUseIndexes pExpr pLogical
    have hcreate := create_filter htype hexpr hsource
    obtain ⟨source, hcreated, rfl⟩ := Option.map_eq_some_iff.mp (hcreate.symm.trans hit)
    exact .filter _ (h source hcreated)

theorem wide_start (x : Element) :
    ∀ pSource ∈ x.scan.map (cypherPlannerOptimize bUseIndexes),
      ∀ it, cypherIteratorCreate pSource = some it → Wide 1 it := by
  intro pSource hsource it hit
  rw [scan_physical] at hsource
  split at hsource
  next => cases hsource
  next =>
    cases hsource
    cases (create_scanPhysical bUseIndexes x).symm.trans hit
    exact .scan _ false []

theorem width_bindings
    (h : Answers c.realText g bUseIndexes (matchQuery pattern.toAst pWhere none) bindings) :
    ∀ binding ∈ bindings, binding.length = 1 + 2 * pattern.hops.length := by
  obtain ⟨pLogical, hcompile, it, opened, hcreate, hopen, hrows⟩ := h.yields
  rw [compileAstNode_matchQuery, Accepted.compileAstNode_toAst] at hcompile
  obtain ⟨pPlan, hpattern, rfl⟩ := Option.map_eq_some_iff.mp hcompile
  have hphysical : cypherPlannerOptimize bUseIndexes pPlan ∈ patternPhysical bUseIndexes
      (pattern.start.scan.map (cypherPlannerOptimize bUseIndexes)) pattern.hops := by
    rw [← patternPlan_physical, hpattern]
    rfl
  have hwide := wide_pattern (wide_start pattern.start) (fun _ => rfl) _ hphysical
  exact ((wide_where hwide it hcreate).open hopen).produces hrows

theorem yields_where {pLogical : LogicalPlanNode}
    (h : Yields c.realText g (cypherPlannerOptimize bUseIndexes pLogical) rows) :
    ∃ kept, kept ⊆ rows ∧ Yields c.realText g
      (cypherPlannerOptimize bUseIndexes (overWhere pWhere pLogical)) kept := by
  cases pWhere with
  | none => exact ⟨rows, List.Subset.refl rows, h⟩
  | some pExpr =>
    obtain ⟨htype, hexpr, hsource⟩ := where_physical bUseIndexes pExpr pLogical
    have hfilter := yields_filter _ htype (by rw [hexpr]; rfl) hsource h
    exact ⟨_, List.filter_subset_self _, hfilter⟩

theorem bindings_node {x : Element} {zVar : Text} (hx : x.zVariable = some zVar)
    (h : Answers c.realText g bUseIndexes (matchQuery (Pattern.toAst ⟨x, []⟩) pWhere none)
      bindings) :
    ∀ binding ∈ bindings, ∃ i, binding = [(zVar, .node i)] := by
  obtain ⟨pLogical, hcompile, hyields⟩ := h.yields
  rw [compileAstNode_matchQuery, Accepted.compileAstNode_toAst] at hcompile
  obtain ⟨pPlan, hscan, rfl⟩ := Option.map_eq_some_iff.mp hcompile
  have hphysical : cypherPlannerOptimize bUseIndexes pPlan = x.scanPhysical bUseIndexes := by
    have hscanned := scan_physical bUseIndexes x
    rw [show x.scan = some pPlan from hscan, hx] at hscanned
    exact Option.some.inj hscanned
  obtain ⟨pStmt, hopen⟩ := scanOpen_scanPhysical bUseIndexes g x
  have hstart : Yields c.realText g (x.scanPhysical bUseIndexes) _ :=
    yields_scan (create_scanPhysical bUseIndexes x) hopen
  rw [← hphysical] at hstart
  obtain ⟨kept, hkept, hwhere⟩ := @yields_where c g bUseIndexes pWhere _ pPlan hstart
  obtain rfl := hyields.unique hwhere
  intro binding hbinding
  obtain ⟨i, -, rfl⟩ := List.mem_map.mp (hkept hbinding)
  refine ⟨i, ?_⟩
  rw [hphysical, Element.scanPhysical, hx]
  rfl

theorem identifiers_children (x : Element) :
    (x.children.filter (·.isType .identifier)).filterMap (·.zValue) = x.zVariable.toList := by
  obtain ⟨zVariable, zLabel, pMap, hmap⟩ := x
  have hnone : pMap.toList.filter (·.isType .identifier) = [] := by
    rw [List.filter_eq_nil_iff]
    intro m hm
    rw [isType_map (hmap m (Option.mem_toList.mp hm)) .identifier (by decide)]
    exact Bool.false_ne_true
  simp only [Element.children, List.filter_append, hnone]
  cases zVariable <;> cases zLabel <;> rfl

theorem variablesOf_single (x : Element) : variablesOf [nodeAst x] = x.zVariable.toList := by
  rw [← identifiers_children]
  simp [variablesOf, nodeAst, CypherAst.create]

theorem length_toAst (pattern : Accepted.Pattern) :
    pattern.toAst.apChildren.length = 1 + 2 * pattern.hops.length := by
  obtain ⟨start, hops⟩ := pattern
  rw [Pattern.toAst, CypherAst.create, List.length_cons]
  induction hops with
  | nil => rfl
  | cons hop hops ih =>
    simp only [List.flatMap_cons, List.length_append, List.length_cons, Hop.asts, List.length_nil]
      at ih ⊢
    omega

theorem exists_single (h : pattern.toAst.apChildren.length = 1) :
    ∃ x : Element, pattern = ⟨x, []⟩ := by
  rw [length_toAst] at h
  have hhops : pattern.hops = [] := List.eq_nil_of_length_eq_zero (by omega)
  exact ⟨pattern.start, by rw [← hhops]⟩

end Rows

section Exact

variable {pPattern : CypherAst} {pWhere : Option CypherAst} {item : ReturnItem} {n : Nat}
  {zQuery : Text} {s : ParserState}

theorem bound_single {x : Element} (h : item.Bound (Pattern.toAst ⟨x, []⟩)) :
    x.zVariable = some item.zVar := by
  cases item with
  | identifier zVar =>
    exact Option.mem_toList.mp (variablesOf_single x ▸ h)
  | property zVar zProperty =>
    exact Option.mem_toList.mp (variablesOf_single x ▸ h)

theorem columnOf_single {zVar : Text} {x : CypherValue} : columnOf [(zVar, x)] zVar = some x := by
  simp [columnOf]

theorem not_has_property {zVar zProperty : Text} {g : GraphTables} {i j : Int} :
    ¬ (ReturnItem.property zVar zProperty).Has g [(zVar, .node i)] (.node j) := by
  rintro ⟨k, -, hvalue⟩
  generalize ((g.node k).bind (·.property zProperty)).getD .null = value at hvalue
  cases hvalue

/-- The item is returned exactly where it is the only variable of the pattern, or nothing comes to
RETURN. -/
theorem returnsNamed_iff (c : Conversions) (g : GraphTables) (bUseIndexes : Bool)
    (haccepted : cypherParse n zQuery =
      .ok (some (matchQuery pPattern pWhere (some item.toAst)), s))
    (hbound : item.Bound pPattern) :
    ReturnsNamed g c bUseIndexes pPattern pWhere item ↔
      ∃ bindings, Answers c.realText g bUseIndexes (matchQuery pPattern pWhere none) bindings ∧
        (bindings = [] ∨ pPattern.apChildren.length = 1 ∧ ∃ zVar, item = .identifier zVar) := by
  obtain ⟨pattern, rfl⟩ := exists_pattern_of_accepted haccepted
  constructor
  · rintro ⟨bindings, rows, hbindings, hrows, hnamed⟩
    obtain rfl := hrows.unique (answers_return hbindings item.toAst)
    refine ⟨rows, hbindings, ?_⟩
    cases rows with
    | nil => exact .inl rfl
    | cons binding rows =>
      right
      cases hnamed with
      | cons hrow _ =>
        obtain ⟨zColumn, x, hsingle, hhas⟩ := hrow
        have hwidth := width_bindings hbindings binding List.mem_cons_self
        rw [hsingle, List.length_singleton] at hwidth
        rw [← length_toAst] at hwidth
        refine ⟨hwidth.symm, ?_⟩
        obtain ⟨x, rfl⟩ := exists_single hwidth.symm
        cases item with
        | identifier zVar => exact ⟨zVar, rfl⟩
        | property zVar zProperty =>
          obtain ⟨i, hnode⟩ := bindings_node (bound_single hbound) hbindings binding
            List.mem_cons_self
          rw [hnode] at hsingle hhas
          cases hsingle
          exact absurd hhas not_has_property
  · rintro ⟨bindings, hbindings, hsingle⟩
    refine ⟨bindings, bindings, hbindings, answers_return hbindings item.toAst, ?_⟩
    obtain rfl | ⟨hlength, zVar, rfl⟩ := hsingle
    · exact .nil
    · obtain ⟨x, rfl⟩ := exists_single hlength
      rw [List.forall₂_same]
      intro binding hbinding
      obtain ⟨i, rfl⟩ := bindings_node (bound_single hbound) hbindings binding hbinding
      exact ⟨zVar, .node i, rfl, columnOf_single⟩

def onlyNode : Accepted.Pattern := ⟨.named ['a'], []⟩

theorem answers_onlyNode : Answers plainConversions.realText friends true
    (matchQuery onlyNode.toAst none none) [[(['a'], .node 1)], [(['a'], .node 2)]] :=
  Yields.answers rfl (yields_start ['a'])

theorem returnsNamed_friends :
    ReturnsNamed friends plainConversions true onlyNode.toAst none (.identifier ['a']) := by
  have haccepted : cypherParse 14 "MATCH (a) RETURN a".toList = .ok (some (matchQuery
      onlyNode.toAst none (some (ReturnItem.identifier ['a']).toAst)), ⟨[], none⟩) := rfl
  exact (returnsNamed_iff plainConversions friends true haccepted (List.mem_singleton.mpr rfl)).mpr
    ⟨_, answers_onlyNode, .inr ⟨rfl, ['a'], rfl⟩⟩

theorem property_not_returned : ¬∀ (n : Nat) (zQuery : Text) (pPattern : CypherAst)
    (pWhere : Option CypherAst) (item : ReturnItem) (s : ParserState),
    cypherParse n zQuery = .ok (some (matchQuery pPattern pWhere (some item.toAst)), s) →
    item.Bound pPattern → ∀ (c : Conversions) (g : GraphTables) (bUseIndexes : Bool),
    ReturnsNamed g c bUseIndexes pPattern pWhere item := by
  intro h
  have haccepted : cypherParse 14 "MATCH (a) RETURN a.p".toList = .ok (some (matchQuery
      onlyNode.toAst none (some (ReturnItem.property ['a'] ['p']).toAst)), ⟨[], none⟩) := rfl
  obtain ⟨bindings, rows, hbindings, hrows, hnamed⟩ :=
    h _ _ _ _ _ _ haccepted (List.mem_singleton.mpr rfl) plainConversions friends true
  obtain rfl := hbindings.unique answers_onlyNode
  obtain rfl := hrows.unique (answers_return hbindings _)
  cases hnamed with
  | cons hrow _ =>
    obtain ⟨zColumn, x, hsingle, hhas⟩ := hrow
    cases hsingle
    exact not_has_property hhas

end Exact

end SqliteMultimodal.Graph.Cypher
