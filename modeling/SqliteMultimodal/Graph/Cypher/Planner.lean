import SqliteMultimodal.Graph.Cypher.Parser

/-! The planner: from the syntax tree to a logical plan, and from there to a physical one.  Costs,
the table of variables and the messages are left out. -/

namespace SqliteMultimodal.Graph.Cypher

section Logical

inductive LogicalPlanNodeType
  | nodeScan | labelScan | indexScan | relationshipScan | typeScan | expand | varLengthExpand
  | optionalExpand | filter | propertyFilter | labelFilter | hashJoin | nestedLoopJoin
  | cartesianProduct | projection | distinct | aggregation | sort | limit | skip | create | merge
  | set | delete | detachDelete
  deriving DecidableEq

structure LogicalPlanNode where
  type : LogicalPlanNodeType
  zAlias : Option Text
  zLabel : Option Text
  zProperty : Option Text
  zValue : Option Text
  iFlags : Int
  pExtra : Option CypherAst
  apChildren : List LogicalPlanNode

namespace LogicalPlanNode

def ofType (type : LogicalPlanNodeType) : LogicalPlanNode :=
  ⟨type, none, none, none, none, 0, none, []⟩

def addChild (pParent pChild : LogicalPlanNode) : LogicalPlanNode :=
  { pParent with apChildren := pParent.apChildren ++ [pChild] }

end LogicalPlanNode

def pipeline : List (Option LogicalPlanNode) → Option LogicalPlanNode
  | [] => none
  | first :: rest => rest.foldl (fun pLogical pChild =>
    match pChild, pLogical with
    | some pChild, some pLogical => some (pChild.addChild pLogical)
    | _, _ => pLogical) first

def labelsText (pLabels : CypherAst) : Option Text :=
  match pLabels.apChildren with
  | pLabel :: _ => pLabel.zValue
  | [] => pLabels.zValue

def labelScan (zAlias : Option Text) (pLabels : CypherAst) : LogicalPlanNode :=
  { LogicalPlanNode.ofType .labelScan with zAlias := zAlias, zLabel := labelsText pLabels }

def compileNodePattern : List CypherAst → Option LogicalPlanNode
  | [] => some (.ofType .nodeScan)
  | first :: rest =>
    if first.isType .identifier then
      match rest with
      | second :: _ =>
        if second.isType .labels then some (labelScan first.zValue second)
        else some { LogicalPlanNode.ofType .nodeScan with zAlias := first.zValue }
      | [] => some { LogicalPlanNode.ofType .nodeScan with zAlias := first.zValue }
    else if first.isType .labels then some (labelScan none first)
    else none

def operatorFlag (zOp : Text) : Int :=
  if zOp = "=".toList then 1
  else if zOp = ">".toList then 2
  else if zOp = "<".toList then 3
  else if zOp = ">=".toList then 4
  else if zOp = "<=".toList then 5
  else if zOp = "<>".toList ∨ zOp = "!=".toList then 6
  else 0

def propertyFilter (pExpr : CypherAst) : Option LogicalPlanNode :=
  match pExpr.zValue, pExpr.apChildren with
  | some zOp, pProp :: pRight :: _ =>
    if (pExpr.isType .binaryOp || pExpr.isType .comparison) && pProp.isType .property then
      match pProp.apChildren with
      | pVar :: pName :: _ => some { LogicalPlanNode.ofType .propertyFilter with
          zAlias := pVar.zValue
          zProperty := pName.zValue
          zValue := pRight.zValue
          iFlags := operatorFlag zOp }
      | _ => some (.ofType .propertyFilter)
    else none
  | _, _ => none

def compileWhere : List CypherAst → Option LogicalPlanNode
  | [] => none
  | pExpr :: _ =>
    some { (propertyFilter pExpr).getD (.ofType .filter) with pExtra := some pExpr }

def compileReturn (children : List CypherAst) : LogicalPlanNode :=
  let pLogical := LogicalPlanNode.ofType .projection
  match children with
  | ⟨.projectionList, _, ⟨.projectionItem, _, pExpr :: _, _⟩ :: _, _⟩ :: _ =>
    if pExpr.isType .identifier then { pLogical with zAlias := pExpr.zValue }
    else if pExpr.isType .property then
      match pExpr.apChildren with
      | pVar :: pName :: _ => { pLogical with zAlias := pVar.zValue, zProperty := pName.zValue }
      | _ => pLogical
    else pLogical
  | _ => pLogical

def compileAmount (type : LogicalPlanNodeType) (children : List CypherAst) : LogicalPlanNode :=
  { LogicalPlanNode.ofType type with zValue := children.head?.bind (·.zValue) }

def compileComparison (children : List CypherAst) : LogicalPlanNode :=
  let pLogical := LogicalPlanNode.ofType .filter
  match children with
  | ⟨.property, _, pVar :: pName :: _, _⟩ :: pRight :: _ =>
    { pLogical with zAlias := pVar.zValue, zProperty := pName.zValue, zValue := pRight.zValue }
  | _ => pLogical

def compileBoth : List (Option LogicalPlanNode) → Option LogicalPlanNode
  | some pLeft :: some pRight :: _ =>
    some (((LogicalPlanNode.ofType .filter).addChild pLeft).addChild pRight)
  | _ => none

def compileNot : List (Option LogicalPlanNode) → Option LogicalPlanNode
  | some pChild :: _ => some { (LogicalPlanNode.ofType .filter).addChild pChild with iFlags := 1 }
  | _ => none

def expandOf (children : List CypherAst) : LogicalPlanNode :=
  { LogicalPlanNode.ofType .expand with
    zLabel := (children.filter (·.isType .identifier)).getLast?.bind (·.zValue)
    zProperty := ((children.filter (·.isType .labels)).filterMap (·.zValue)).getLast? }

def nodeAlias : List CypherAst → Option Text
  | first :: _ => if first.isType .identifier then first.zValue else none
  | [] => none

def nodeLabel (children : List CypherAst) : Option Text :=
  (children.find? (·.isType .labels)).bind labelsText

def targetOf (pTargetNode : CypherAst) : LogicalPlanNode :=
  { LogicalPlanNode.ofType .nodeScan with
    zAlias := nodeAlias pTargetNode.apChildren
    zLabel := nodeLabel pTargetNode.apChildren }

def overSource (pExpand : LogicalPlanNode) : Option LogicalPlanNode → LogicalPlanNode
  | some pLogical => pExpand.addChild pLogical
  | none => pExpand

def compileElements (pLogical : Option LogicalPlanNode) :
    List (CypherAst × Option LogicalPlanNode) → Option LogicalPlanNode
  | [] => pLogical
  | [(pElement, pChild)] =>
    if pElement.isType .relPattern then some (overSource (expandOf pElement.apChildren) pLogical)
    else match pChild, pLogical with
      | some pChild, some pLogical =>
        some (((LogicalPlanNode.ofType .hashJoin).addChild pLogical).addChild pChild)
      | _, _ => pLogical
  | (pElement, pChild) :: (pTargetNode, pTarget) :: rest =>
    if pElement.isType .relPattern then
      let pExpand := overSource (expandOf pElement.apChildren) pLogical
      if pTargetNode.isType .nodePattern then
        compileElements (some { pExpand.addChild (targetOf pTargetNode) with
          zAlias := nodeAlias pTargetNode.apChildren }) rest
      else compileElements (some pExpand) ((pTargetNode, pTarget) :: rest)
    else compileElements (match pChild, pLogical with
      | some pChild, some pLogical =>
        some (((LogicalPlanNode.ofType .hashJoin).addChild pLogical).addChild pChild)
      | _, _ => pLogical) ((pTargetNode, pTarget) :: rest)

def compilePattern : List (CypherAst × Option LogicalPlanNode) → Option LogicalPlanNode
  | [] => none
  | (_, pLogical) :: rest => compileElements pLogical rest

def pairJson (pPair : CypherAst) : Option Text :=
  if pPair.isType .propertyPair then do
    let zKey ← pPair.zValue
    let zValue ← pPair.apChildren.head?.bind (·.zValue)
    let value := if zValue.head? = some '\x27' ∨ zValue.head? = some '"' then
      '"' :: (zValue.tail.take (zValue.length - 2) ++ ['"']) else zValue
    return '"' :: zKey ++ "\": ".toList ++ value
  else none

def mapJson (pMap : CypherAst) : Text :=
  '\x7b' :: ((", ".toList).intercalate (pMap.apChildren.filterMap pairJson) ++ ['\x7d'])

def compileCreate (children : List CypherAst) : LogicalPlanNode :=
  let pLogical := LogicalPlanNode.ofType .create
  match children with
  | [] => pLogical
  | pPattern :: _ =>
    if pPattern.isType .pattern then
      let pLogical := { pLogical with pExtra := some pPattern }
      match pPattern.apChildren with
      | [⟨.nodePattern, _, elements, _⟩] => { pLogical with
          zAlias := nodeAlias elements
          zLabel := ((elements.filter (·.isType .labels)).filterMap labelsText).head?
          zProperty := (elements.find? (·.isType .map)).map mapJson }
      | _ => pLogical
    else pLogical

def compileDelete (children : List CypherAst) : LogicalPlanNode :=
  { LogicalPlanNode.ofType .delete with
    zAlias := ((children.filter (·.isType .identifier)).filterMap (·.zValue)).getLast? }

def compileSet (iFlags : Int) (compiled : List (Option LogicalPlanNode)) : LogicalPlanNode :=
  { LogicalPlanNode.ofType .set with iFlags := iFlags, apChildren := compiled.filterMap id }

def compileNode (pAst : CypherAst) (compiled : List (Option LogicalPlanNode)) :
    Option LogicalPlanNode :=
  match pAst.type with
  | .query => pipeline compiled
  | .singleQuery => pipeline compiled
  | .match => compiled.head?.join
  | .nodePattern => compileNodePattern pAst.apChildren
  | .where => compileWhere pAst.apChildren
  | .return => some (compileReturn pAst.apChildren)
  | .skip => some (compileAmount .skip pAst.apChildren)
  | .limit => some (compileAmount .limit pAst.apChildren)
  | .comparison => some (compileComparison pAst.apChildren)
  | .and => compileBoth compiled
  | .or => compileBoth compiled
  | .not => compileNot compiled
  | .pattern => compilePattern (pAst.apChildren.zip compiled)
  | .relPattern => some (expandOf pAst.apChildren)
  | .create => some (compileCreate pAst.apChildren)
  | .merge => some (overSource (.ofType .merge) compiled.head?.join)
  | .set => some (compileSet 0 compiled)
  | .delete => some (compileDelete pAst.apChildren)
  | .remove => some (compileSet 2 compiled)
  | _ => none

mutual

def compileAstNode : CypherAst → Option LogicalPlanNode
  | ⟨type, zValue, apChildren, iFlags⟩ =>
    compileNode ⟨type, zValue, apChildren, iFlags⟩ (compileChildren apChildren)

def compileChildren : List CypherAst → List (Option LogicalPlanNode)
  | [] => []
  | pAst :: rest => compileAstNode pAst :: compileChildren rest

end

def indexedType (pNode : LogicalPlanNode) : LogicalPlanNodeType :=
  if pNode.type = .nodeScan then
    if pNode.zProperty.isSome && pNode.zValue.isSome then .indexScan
    else if pNode.zLabel.any (· ≠ []) then .labelScan
    else .nodeScan
  else pNode.type

mutual

def optimizeIndexUsage : LogicalPlanNode → LogicalPlanNode
  | ⟨type, zAlias, zLabel, zProperty, zValue, iFlags, pExtra, apChildren⟩ =>
    let pNode : LogicalPlanNode :=
      ⟨type, zAlias, zLabel, zProperty, zValue, iFlags, pExtra, apChildren⟩
    ⟨indexedType pNode, zAlias, zLabel, zProperty, zValue, iFlags, pExtra,
      optimizeChildren apChildren⟩

def optimizeChildren : List LogicalPlanNode → List LogicalPlanNode
  | [] => []
  | pChild :: rest => optimizeIndexUsage pChild :: optimizeChildren rest

end

end Logical

section Physical

inductive PhysicalOperatorType
  | allNodesScan | labelIndexScan | propertyIndexScan | allRelsScan | typeIndexScan | hashJoin
  | nestedLoopJoin | indexNestedLoop | expand | filter | projection | sort | limit | aggregation
  | create | merge | set | delete | remove
  deriving DecidableEq

structure PhysicalPlanNode where
  type : PhysicalOperatorType
  zAlias : Option Text
  zLabel : Option Text
  zProperty : Option Text
  zValue : Option Text
  iFlags : Int
  pExecState : Option CypherAst
  apChildren : List PhysicalPlanNode

def PhysicalPlanNode.pChild (pPlan : PhysicalPlanNode) : Option PhysicalPlanNode :=
  pPlan.apChildren.head?

variable (bUseIndexes : Bool)

def physicalType (pLogical : LogicalPlanNode) : PhysicalOperatorType :=
  match pLogical.type with
  | .nodeScan => .allNodesScan
  | .labelScan => if bUseIndexes && pLogical.zLabel.isSome then .labelIndexScan else .allNodesScan
  | .indexScan => .propertyIndexScan
  | .filter => .filter
  | .propertyFilter => .filter
  | .labelFilter => .filter
  | .expand => .expand
  | .hashJoin => .hashJoin
  | .nestedLoopJoin => if bUseIndexes then .indexNestedLoop else .nestedLoopJoin
  | .projection => .projection
  | .sort => .sort
  | .skip => .limit
  | .limit => .limit
  | .aggregation => .aggregation
  | .create => .create
  | .merge => .merge
  | .set => .set
  | .delete => .delete
  | .detachDelete => .delete
  | _ => .filter

def physicalValue (pLogical : LogicalPlanNode) : Option Text :=
  if pLogical.type = .indexScan ∧ pLogical.zProperty.isSome then some (pLogical.zValue.getD [])
  else pLogical.zValue

mutual

def logicalPlanToPhysical : LogicalPlanNode → PhysicalPlanNode
  | ⟨type, zAlias, zLabel, zProperty, zValue, iFlags, pExtra, apChildren⟩ =>
    let pLogical : LogicalPlanNode :=
      ⟨type, zAlias, zLabel, zProperty, zValue, iFlags, pExtra, apChildren⟩
    ⟨physicalType bUseIndexes pLogical, zAlias, zLabel, zProperty, physicalValue pLogical, iFlags,
      pExtra, childrenToPhysical apChildren⟩

def childrenToPhysical : List LogicalPlanNode → List PhysicalPlanNode
  | [] => []
  | pChild :: rest => logicalPlanToPhysical pChild :: childrenToPhysical rest

end

def cypherPlannerOptimize (pLogical : LogicalPlanNode) : PhysicalPlanNode :=
  logicalPlanToPhysical bUseIndexes (optimizeIndexUsage pLogical)

end Physical

end SqliteMultimodal.Graph.Cypher
