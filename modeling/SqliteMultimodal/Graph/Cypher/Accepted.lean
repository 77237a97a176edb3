import SqliteMultimodal.Graph.Cypher.Chain
import SqliteMultimodal.Graph.Cypher.Derivation

namespace SqliteMultimodal.Graph.Cypher.Accepted

section Trees

structure Element where
  zVariable : Option Text
  zLabel : Option Text
  pMap : Option CypherAst
  map : ∀ m ∈ pMap, m.type = .map

def Element.named (zVar : Text) : Element := ⟨some zVar, none, none, by simp⟩

structure Hop where
  iFlags : Int
  rel : Element
  node : Element

structure Pattern where
  start : Element
  hops : List Hop

def Element.children (x : Element) : List CypherAst :=
  (x.zVariable.map .createIdentifier).toList ++
    ((x.zLabel.map .createNodeLabel).toList ++ x.pMap.toList)

def nodeAst (x : Element) : CypherAst := .create .nodePattern x.children

def relAst (hop : Hop) : CypherAst :=
  { CypherAst.create .relPattern hop.rel.children with iFlags := hop.iFlags }

def Hop.asts (hop : Hop) : List CypherAst := [relAst hop, nodeAst hop.node]

def Pattern.toAst (pattern : Pattern) : CypherAst :=
  .create .pattern (nodeAst pattern.start :: pattern.hops.flatMap Hop.asts)

def matchQuery (pPattern : CypherAst) (pWhere pReturn : Option CypherAst) : CypherAst :=
  .create .query [.create .singleQuery (.create .match [pPattern] ::
    ((pWhere.map fun pExpr => CypherAst.create .where [pExpr]).toList ++
      (pReturn.map fun pExpr =>
        CypherAst.create .return [.create .projectionList [.create .projectionItem [pExpr]]]).toList))]

end Trees

section Shapes

open Grammar

variable {next : CypherTokenType} {a b p q : CypherAst} {ts : List CypherToken}

def withChildren (p : CypherAst) (apChildren : List CypherAst) : CypherAst :=
  { p with apChildren := p.apChildren ++ apChildren }

theorem withChildren_nil (p : CypherAst) : withChildren p [] = p := by
  cases p
  exact congrArg (CypherAst.mk _ _ · _) (List.append_nil _)

theorem withChildren_append (p : CypherAst) (as bs : List CypherAst) :
    withChildren (withChildren p as) bs = withChildren p (as ++ bs) := by
  simp only [withChildren, List.append_assoc]

theorem Properties.type_eq (h : Properties p q ts) : q.type = p.type := by
  induction h with
  | last => rfl
  | cons _ _ _ _ _ ih => exact ih

theorem PropertyMap.type_eq (h : PropertyMap a ts) : a.type = .map := by
  cases h with
  | empty => rfl
  | pairs _ ha _ => exact Properties.type_eq ha

theorem Variable.exists_children (h : Variable p q ts) :
    ∃ zVariable : Option Text, q = withChildren p (zVariable.map .createIdentifier).toList := by
  cases h with
  | none => exact ⟨none, (withChildren_nil p).symm⟩
  | some => exact ⟨some _, rfl⟩

theorem Label.exists_children (h : Label p q ts) :
    ∃ zLabel : Option Text, q = withChildren p (zLabel.map .createNodeLabel).toList := by
  cases h with
  | none => exact ⟨none, (withChildren_nil p).symm⟩
  | some => exact ⟨some _, rfl⟩

theorem OptionalMap.exists_children (h : OptionalMap p q ts) :
    ∃ pMap : Option CypherAst, (∀ m ∈ pMap, m.type = .map) ∧ q = withChildren p pMap.toList := by
  cases h with
  | none => exact ⟨none, by simp, (withChildren_nil p).symm⟩
  | some ha => exact ⟨some _, by simpa using PropertyMap.type_eq ha, rfl⟩

theorem exists_element {us vs : List CypherToken} (hp : Variable a p ts) (hq : Label p q us)
    (hb : OptionalMap q b vs) : ∃ x : Element, b = withChildren a x.children := by
  obtain ⟨zVariable, rfl⟩ := Variable.exists_children hp
  obtain ⟨zLabel, rfl⟩ := Label.exists_children hq
  obtain ⟨pMap, hmap, rfl⟩ := OptionalMap.exists_children hb
  exact ⟨⟨zVariable, zLabel, pMap, hmap⟩, by simp only [withChildren_append, Element.children,
    List.append_assoc]⟩

theorem exists_node (h : Node a ts) : ∃ x : Element, a = nodeAst x := by
  cases h with
  | read _ hp hq ha _ => exact exists_element hp hq ha
  | unreadMap _ hp hq _ _ _ => exact exists_element hp hq .none

theorem exists_hop {left : Bool} {us : List CypherToken} (ha : Relationship left a ts)
    (hb : Node b us) : ∃ hop : Hop, hop.asts = [a, b] := by
  obtain ⟨node, rfl⟩ := exists_node hb
  cases ha with
  | read _ hp hq ha _ _ =>
    obtain ⟨rel, rfl⟩ := exists_element hp hq ha
    exact ⟨⟨_, rel, node⟩, rfl⟩

theorem exists_hops (h : Relationships p q ts) :
    ∃ hops : List Hop, q = withChildren p (hops.flatMap Hop.asts) := by
  induction h with
  | nil => exact ⟨[], (withChildren_nil _).symm⟩
  | cons _ ha hb _ ih =>
    obtain ⟨hop, hhop⟩ := exists_hop ha hb
    obtain ⟨hops, rfl⟩ := ih
    refine ⟨hop :: hops, ?_⟩
    rw [List.flatMap_cons, hhop, ← withChildren_append]
    simp only [withChildren, CypherAst.addChild, List.append_assoc, List.cons_append,
      List.nil_append]

theorem exists_pattern (h : Grammar.Pattern a ts) :
    ∃ pattern : Pattern, a = pattern.toAst := by
  cases h with
  | read ha hb =>
    obtain ⟨start, rfl⟩ := exists_node ha
    obtain ⟨hops, rfl⟩ := exists_hops hb
    exact ⟨⟨start, hops⟩, rfl⟩

theorem FirstClause.exists_pattern (h : FirstClause next (.create .match [p]) ts) :
    ∃ pattern : Pattern, p = pattern.toAst := by
  generalize ha : CypherAst.create .match [p] = a at h
  cases h with
  | pattern _ hp =>
    cases ha
    exact Accepted.exists_pattern hp
  | expression hk _ =>
    cases ha
    simp [expressionClauses] at hk

theorem OptionalWhere.exists_children (h : OptionalWhere next p q ts) :
    ∃ as : List CypherAst, q = withChildren p as := by
  cases h with
  | none => exact ⟨[], (withChildren_nil p).symm⟩
  | some => exact ⟨[_], rfl⟩
  | unread => exact ⟨[], (withChildren_nil p).symm⟩

theorem OptionalReturn.exists_children (h : OptionalReturn next p q ts) :
    ∃ as : List CypherAst, q = withChildren p as := by
  cases h with
  | none => exact ⟨[], (withChildren_nil p).symm⟩
  | some => exact ⟨[_], rfl⟩

theorem exists_pattern_of_accepted {n : Nat} {zQuery : Text} {s : ParserState}
    {pWhere pReturn : Option CypherAst}
    (h : cypherParse n zQuery = .ok (some (matchQuery p pWhere pReturn), s)) :
    ∃ pattern : Pattern, p = pattern.toAst := by
  obtain ⟨tokens, -, htext⟩ := (query_reads n ⟨zQuery, none⟩).found _ s h
  obtain ⟨hquery, -, -⟩ := htext
  generalize hq : matchQuery p pWhere pReturn = q at hquery
  cases hquery with
  | read ha hp hq' =>
    obtain ⟨as, rfl⟩ := OptionalWhere.exists_children hp
    obtain ⟨bs, rfl⟩ := OptionalReturn.exists_children hq'
    simp only [matchQuery, withChildren, CypherAst.create, CypherAst.mk.injEq, List.cons.injEq,
      List.cons_append, true_and, and_true] at hq
    obtain ⟨rfl, -⟩ := hq
    exact FirstClause.exists_pattern ha

end Shapes

section Logical

def Element.scan (x : Element) : Option LogicalPlanNode :=
  if x.zVariable.isNone && x.zLabel.isNone && x.pMap.isSome then none
  else some { LogicalPlanNode.ofType (if x.zLabel.isSome then .labelScan else .nodeScan) with
    zAlias := x.zVariable
    zLabel := x.zLabel }

def Element.target (x : Element) : LogicalPlanNode :=
  { LogicalPlanNode.ofType .nodeScan with zAlias := x.zVariable, zLabel := x.zLabel }

def hopPlan (pLogical : Option LogicalPlanNode) (hop : Hop) : LogicalPlanNode :=
  { LogicalPlanNode.ofType .expand with
    zAlias := hop.node.zVariable
    zLabel := hop.rel.zVariable
    zProperty := hop.rel.zLabel
    apChildren := pLogical.toList ++ [hop.node.target] }

def patternPlan (start : Option LogicalPlanNode) (hops : List Hop) : Option LogicalPlanNode :=
  hops.foldl (fun pLogical hop => some (hopPlan pLogical hop)) start

theorem isType_map {m : CypherAst} (h : m.type = .map) (type : CypherAstNodeType)
    (hne : type ≠ .map) : m.isType type = false :=
  decide_eq_false fun heq => hne (heq.symm.trans h)

theorem compileNodePattern_children (x : Element) : compileNodePattern x.children = x.scan := by
  obtain ⟨zVariable, zLabel, pMap, hmap⟩ := x
  cases zLabel with
  | some l => cases zVariable <;> rfl
  | none => cases pMap with
    | none => cases zVariable <;> rfl
    | some m =>
      have hlabels := isType_map (hmap m rfl) .labels (by decide)
      cases zVariable with
      | some v =>
        change (if m.isType .labels then _ else _) = _
        rw [hlabels]
        rfl
      | none =>
        have hidentifier := isType_map (hmap m rfl) .identifier (by decide)
        change (if m.isType .identifier then _ else if m.isType .labels then _ else none) = _
        rw [hlabels, hidentifier]
        rfl

theorem expandOf_children (x : Element) : expandOf x.children =
    { LogicalPlanNode.ofType .expand with zLabel := x.zVariable, zProperty := x.zLabel } := by
  obtain ⟨zVariable, zLabel, pMap, hmap⟩ := x
  have hnone : ∀ type, type ≠ .map → pMap.toList.filter (·.isType type) = [] := by
    intro type hne
    rw [List.filter_eq_nil_iff]
    intro m hm
    rw [isType_map (hmap m (Option.mem_toList.mp hm)) type hne]
    exact Bool.false_ne_true
  simp only [expandOf, Element.children, List.filter_append, hnone .identifier (by decide),
    hnone .labels (by decide)]
  cases zVariable <;> cases zLabel <;> rfl

theorem targetOf_nodeAst (x : Element) : targetOf (nodeAst x) = x.target := by
  obtain ⟨zVariable, zLabel, pMap, hmap⟩ := x
  cases zLabel with
  | some l => cases zVariable <;> rfl
  | none => cases pMap with
    | none => cases zVariable <;> rfl
    | some m =>
      have hlabels := isType_map (hmap m rfl) .labels (by decide)
      have hlabel : nodeLabel [m] = none := by
        rw [nodeLabel, List.find?_cons_of_neg (by rw [hlabels]; exact Bool.false_ne_true)]
        rfl
      cases zVariable with
      | some v =>
        change { LogicalPlanNode.ofType .nodeScan with
          zAlias := some v, zLabel := nodeLabel [m] } = _
        rw [hlabel]
        rfl
      | none =>
        have hidentifier := isType_map (hmap m rfl) .identifier (by decide)
        have halias : nodeAlias [m] = none := by rw [nodeAlias, hidentifier]; rfl
        change { LogicalPlanNode.ofType .nodeScan with
          zAlias := nodeAlias [m], zLabel := nodeLabel [m] } = _
        rw [halias, hlabel]
        rfl

theorem compileElements_hops (hops : List Hop) (pLogical : Option LogicalPlanNode) :
    compileElements pLogical
      ((hops.flatMap Hop.asts).zip (compileChildren (hops.flatMap Hop.asts))) =
    patternPlan pLogical hops := by
  induction hops generalizing pLogical with
  | nil => rfl
  | cons hop hops ih =>
    have hfirst : { (overSource (expandOf (relAst hop).apChildren) pLogical).addChild
          (targetOf (nodeAst hop.node)) with zAlias := nodeAlias (nodeAst hop.node).apChildren } =
        hopPlan pLogical hop := by
      have halias : nodeAlias (nodeAst hop.node).apChildren = hop.node.zVariable :=
        congrArg LogicalPlanNode.zAlias (targetOf_nodeAst hop.node)
      rw [halias, targetOf_nodeAst]
      change { (overSource (expandOf hop.rel.children) pLogical).addChild hop.node.target with
        zAlias := hop.node.zVariable } = _
      rw [expandOf_children]
      cases pLogical <;> rfl
    rw [patternPlan, List.foldl_cons, ← patternPlan, ← ih, ← hfirst]
    rfl

theorem compileAstNode_toAst (pattern : Pattern) :
    compileAstNode pattern.toAst = patternPlan pattern.start.scan pattern.hops := by
  rw [← compileNodePattern_children]
  exact compileElements_hops pattern.hops _

end Logical

section Physical

variable (bUseIndexes : Bool)

def Element.scanPhysical (x : Element) : PhysicalPlanNode :=
  ⟨if bUseIndexes && x.zLabel.isSome then .labelIndexScan else .allNodesScan, x.zVariable, x.zLabel,
    none, none, 0, none, []⟩

def Element.targetPhysical (x : Element) : PhysicalPlanNode :=
  ⟨optimizedScan bUseIndexes x.zLabel, x.zVariable, x.zLabel, none, none, 0, none, []⟩

def hopPhysical (pSource : Option PhysicalPlanNode) (hop : Hop) : PhysicalPlanNode :=
  ⟨.expand, hop.node.zVariable, hop.rel.zVariable, hop.rel.zLabel, none, 0, none,
    pSource.toList ++ [hop.node.targetPhysical bUseIndexes]⟩

def patternPhysical (start : Option PhysicalPlanNode) (hops : List Hop) :
    Option PhysicalPlanNode :=
  hops.foldl (fun pSource hop => some (hopPhysical bUseIndexes pSource hop)) start

theorem scan_physical (x : Element) : x.scan.map (cypherPlannerOptimize bUseIndexes) =
    if x.zVariable.isNone && x.zLabel.isNone && x.pMap.isSome then none
    else some (x.scanPhysical bUseIndexes) := by
  rw [Element.scan]
  split
  · rfl
  · obtain ⟨zVariable, zLabel, pMap, hmap⟩ := x
    cases zLabel <;> cases bUseIndexes <;> rfl

theorem create_scanPhysical (x : Element) : cypherIteratorCreate (x.scanPhysical bUseIndexes) =
    some (.scan (x.scanPhysical bUseIndexes) false []) := by
  obtain ⟨zVariable, zLabel, pMap, hmap⟩ := x
  cases zLabel <;> cases bUseIndexes <;> rfl

theorem create_targetPhysical (x : Element) :
    cypherIteratorCreate (x.targetPhysical bUseIndexes) =
      some (.scan (x.targetPhysical bUseIndexes) false []) := by
  rw [Element.targetPhysical, optimizedScan]
  split
  · rfl
  · rfl

theorem scanOpen_scanPhysical (g : GraphTables) (x : Element) :
    ∃ pStmt, scanOpen g (x.scanPhysical bUseIndexes) = some pStmt := by
  obtain ⟨zVariable, zLabel, pMap, hmap⟩ := x
  cases zLabel with
  | none => cases bUseIndexes <;> exact ⟨_, rfl⟩
  | some zLabel => cases bUseIndexes <;> exact ⟨_, rfl⟩

theorem hopPlan_physical (start : Option LogicalPlanNode) (hop : Hop) :
    cypherPlannerOptimize bUseIndexes (hopPlan start hop) =
      hopPhysical bUseIndexes (start.map (cypherPlannerOptimize bUseIndexes)) hop := by
  have htarget : cypherPlannerOptimize bUseIndexes hop.node.target =
      hop.node.targetPhysical bUseIndexes :=
    optimize_scan bUseIndexes hop.node.zVariable hop.node.zLabel
  rw [hopPhysical, ← htarget]
  cases start <;> rfl

theorem patternPlan_physical (hops : List Hop) (start : Option LogicalPlanNode) :
    (patternPlan start hops).map (cypherPlannerOptimize bUseIndexes) =
      patternPhysical bUseIndexes (start.map (cypherPlannerOptimize bUseIndexes)) hops := by
  induction hops generalizing start with
  | nil => rfl
  | cons hop hops ih =>
    rw [patternPlan, List.foldl_cons, ← patternPlan, ih, Option.map_some, hopPlan_physical]
    rfl

end Physical

section Columns

open Pull

variable {realText : ℚ → Text} {g : GraphTables} {n : Nat} {it : CypherIterator} {rows : List Row}
  {bUseIndexes : Bool}

/-- Every row of the iterator has `n` columns. -/
inductive Wide : Nat → CypherIterator → Prop
  | noSource (n : Nat) : Wide n .noSource
  | scan (pPlan : PhysicalPlanNode) (bEof : Bool) (pStmt : Statement Int) :
    Wide 1 (.scan pPlan bEof pStmt)
  | filter {n : Nat} {it : CypherIterator} (pPlan : PhysicalPlanNode) (h : Wide n it) :
    Wide n (.filter pPlan it)
  | projection {n : Nat} {it : CypherIterator} (pPlan : PhysicalPlanNode) (h : Wide n it) :
    Wide n (.projection pPlan it)
  | expand {n : Nat} {it : CypherIterator} (pPlan : PhysicalPlanNode) (pStmt : Statement EdgeRow)
    {pCurrentRow : Row} (bSourceExhausted : Bool) (h : Wide n it)
    (hrow : pStmt = [] ∨ pCurrentRow.length = n) :
    Wide (n + 2) (.expand pPlan it pStmt pCurrentRow bSourceExhausted)

theorem done_wide (row : Row) (h : (.done : Pull.Step Row ResultCode) = .row row) :
    row.length = n := by
  cases h

theorem failed_wide {rc : ResultCode} (row : Row) (h : .failed rc = Pull.Step.row row) :
    row.length = n := by
  cases h

def KeepsWidth (realText : ℚ → Text) (g : GraphTables) (fuel : Nat) : Prop :=
  ∀ ⦃n : Nat⦄ ⦃it : CypherIterator⦄ ⦃r : Pull.Step Row ResultCode × CypherIterator⦄, Wide n it →
    xNext realText g fuel it = some r → Wide n r.2 ∧ ∀ row, r.1 = .row row → row.length = n

section Steps

variable {fuel : Nat} {r : Pull.Step Row ResultCode × CypherIterator} {pPlan : PhysicalPlanNode}
  {pCurrentRow : Row} {bSourceExhausted : Bool}

theorem scan_width (bEof : Bool) (pStmt : Statement Int) :
    Wide 1 (scanNext pPlan bEof pStmt).2 ∧
      ∀ row, (scanNext pPlan bEof pStmt).1 = .row row → row.length = 1 := by
  unfold scanNext
  split
  next i rest =>
    cases bEof with
    | true => exact ⟨.scan pPlan true _, done_wide⟩
    | false =>
      refine ⟨.scan pPlan false rest, fun row hrow => ?_⟩
      cases hrow
      rfl
  next => exact ⟨.scan pPlan true pStmt, done_wide⟩

theorem filter_width (ih : KeepsWidth realText g fuel) (h : Wide n it)
    (hnext : xNext realText g (fuel + 1) (.filter pPlan it) = some r) :
    Wide n r.2 ∧ ∀ row, r.1 = .row row → row.length = n := by
  rw [xNext] at hnext
  split at hnext
  next row it hsource =>
    obtain ⟨hwide, hrow⟩ := ih h hsource
    split at hnext
    next =>
      cases hnext
      exact ⟨.filter pPlan hwide, hrow⟩
    next => exact ih (.filter pPlan hwide) hnext
  next it hsource =>
    cases hnext
    exact ⟨.filter pPlan (ih h hsource).1, done_wide⟩
  next rc it hsource =>
    cases hnext
    exact ⟨.filter pPlan (ih h hsource).1, failed_wide⟩
  next => cases hnext

/-- The statement holds another edge of the row at hand. -/
theorem expand_edge_width {e : Option EdgeRow} {rest : Statement EdgeRow} (h : Wide n it)
    (hlength : pCurrentRow.length = n)
    (hnext : xNext realText g (fuel + 1)
      (.expand pPlan it (e :: rest) pCurrentRow bSourceExhausted) = some r) :
    Wide (n + 2) r.2 ∧ ∀ row, r.1 = .row row → row.length = n + 2 := by
  cases e with
  | some e =>
    cases hnext
    refine ⟨.expand pPlan rest bSourceExhausted h (.inr hlength), fun row hrow => ?_⟩
    cases hrow
    rw [expandRow, List.length_append, hlength]
    rfl
  | none =>
    cases hnext
    exact ⟨.expand pPlan rest bSourceExhausted h (.inr hlength), failed_wide⟩

theorem expand_source_width (ih : KeepsWidth realText g fuel) (h : Wide n it)
    (hnext : xNext realText g (fuel + 1) (.expand pPlan it [] pCurrentRow bSourceExhausted) =
      some r) :
    Wide (n + 2) r.2 ∧ ∀ row, r.1 = .row row → row.length = n + 2 := by
  rw [xNext] at hnext
  split at hnext
  next =>
    cases hnext
    exact ⟨.expand pPlan [] true h (.inl rfl), done_wide⟩
  next =>
    split at hnext
    next row it hsource =>
      obtain ⟨hwide, hlength⟩ := ih h hsource
      split at hnext
      next i _ => exact ih (.expand pPlan _ false hwide (.inr (hlength row rfl))) hnext
      next =>
        cases hnext
        exact ⟨.expand pPlan [] false hwide (.inl rfl), failed_wide⟩
    next it hsource =>
      cases hnext
      exact ⟨.expand pPlan [] true (ih h hsource).1 (.inl rfl), done_wide⟩
    next rc it hsource =>
      cases hnext
      exact ⟨.expand pPlan [] false (ih h hsource).1 (.inl rfl), failed_wide⟩
    next => cases hnext

end Steps

theorem xNext_keepsWidth (fuel : Nat) : KeepsWidth realText g fuel := by
  induction fuel with
  | zero =>
    intro n it r h hnext
    cases hnext
  | succ fuel ih =>
    intro n it r h hnext
    cases h with
    | noSource =>
      cases hnext
      exact ⟨.noSource n, done_wide⟩
    | scan pPlan bEof pStmt =>
      rw [xNext, Option.some.injEq] at hnext
      exact hnext ▸ scan_width bEof pStmt
    | filter pPlan h => exact filter_width ih h hnext
    | projection pPlan h =>
      rw [xNext] at hnext
      obtain ⟨x, hx, rfl⟩ := Option.map_eq_some_iff.mp hnext
      obtain ⟨hwide, hrow⟩ := ih h hx
      exact ⟨.projection pPlan hwide, hrow⟩
    | expand pPlan pStmt bSourceExhausted h hrow =>
      cases pStmt with
      | cons e rest =>
        exact expand_edge_width h (hrow.resolve_left (List.cons_ne_nil e rest)) hnext
      | nil => exact expand_source_width ih h hnext

theorem Wide.produces (h : Wide n it) (hrows : Produces (xNext realText g) it rows) :
    ∀ row ∈ rows, row.length = n := by
  induction hrows with
  | done => simp
  | row hnext _ ih =>
    obtain ⟨hwide, hrow⟩ := xNext_keepsWidth _ h hnext
    rw [List.forall_mem_cons]
    exact ⟨hrow _ rfl, ih hwide⟩

theorem Wide.open (h : Wide n it) {opened : CypherIterator} (hopen : xOpen g it = some opened) :
    Wide n opened := by
  induction h generalizing opened with
  | noSource n =>
    cases hopen
    exact .noSource n
  | scan pPlan =>
    obtain ⟨pStmt, -, rfl⟩ := Option.map_eq_some_iff.mp hopen
    exact .scan pPlan false pStmt
  | filter pPlan _ ih =>
    obtain ⟨it, hit, rfl⟩ := Option.map_eq_some_iff.mp hopen
    exact .filter pPlan (ih hit)
  | projection pPlan _ ih =>
    obtain ⟨it, hit, rfl⟩ := Option.map_eq_some_iff.mp hopen
    exact .projection pPlan (ih hit)
  | expand pPlan pStmt bSourceExhausted _ hrow ih =>
    obtain ⟨it, hit, rfl⟩ := Option.map_eq_some_iff.mp hopen
    exact .expand pPlan pStmt false (ih hit) hrow

theorem wide_hop {start : Option PhysicalPlanNode}
    (hstart : ∀ pSource ∈ start, ∀ it, cypherIteratorCreate pSource = some it → Wide n it)
    (hnone : start = none → n = 1) (hop : Hop) :
    ∀ it, cypherIteratorCreate (hopPhysical bUseIndexes start hop) = some it → Wide (n + 2) it := by
  intro it hit
  cases start with
  | some pSource =>
    obtain ⟨source, hsource, rfl⟩ := Option.map_eq_some_iff.mp hit
    exact .expand _ [] false (hstart pSource rfl source hsource) (.inl rfl)
  | none =>
    obtain rfl := hnone rfl
    obtain ⟨source, hsource, rfl⟩ := Option.map_eq_some_iff.mp hit
    cases (create_targetPhysical bUseIndexes hop.node).symm.trans hsource
    exact .expand _ [] false (.scan _ false []) (.inl rfl)

theorem wide_pattern {start : Option PhysicalPlanNode} {hops : List Hop}
    (hstart : ∀ pSource ∈ start, ∀ it, cypherIteratorCreate pSource = some it → Wide n it)
    (hnone : start = none → n = 1) :
    ∀ pPlan ∈ patternPhysical bUseIndexes start hops, ∀ it, cypherIteratorCreate pPlan = some it →
      Wide (n + 2 * hops.length) it := by
  induction hops generalizing start n with
  | nil => exact hstart
  | cons hop hops ih =>
    have hwide := @ih (n + 2) (some (hopPhysical bUseIndexes start hop)) ?_ (by simp)
    · rw [List.length_cons, Nat.mul_succ, Nat.add_comm _ 2, ← Nat.add_assoc]
      exact hwide
    · rintro _ ⟨⟩
      exact wide_hop hstart hnone hop

end Columns

end SqliteMultimodal.Graph.Cypher.Accepted
