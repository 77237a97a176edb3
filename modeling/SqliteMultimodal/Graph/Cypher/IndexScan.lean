import SqliteMultimodal.Graph.Cypher.LabelScan

namespace SqliteMultimodal.Graph.Cypher

open Pull

section Positions

variable {α β : Type} {childrenA : α → List α} {childrenB : β → List β}

def descendant (children : α → List α) : List Nat → α → Option α
  | [], a => some a
  | i :: path, a => ((children a)[i]?).bind (descendant children path)

theorem descendant_map {f : α → β} (h : ∀ a, childrenB (f a) = (childrenA a).map f)
    (path : List Nat) (a : α) :
    descendant childrenB path (f a) = (descendant childrenA path a).map f := by
  induction path generalizing a with
  | nil => rfl
  | cons i path ih =>
    rw [descendant, descendant, h, List.getElem?_map]
    cases (childrenA a)[i]? with
    | none => rfl
    | some child => exact ih child

theorem optimizeChildren_eq (nodes : List LogicalPlanNode) :
    optimizeChildren nodes = nodes.map optimizeIndexUsage := by
  induction nodes with
  | nil => rfl
  | cons pNode nodes ih => rw [optimizeChildren, ih, List.map_cons]

theorem childrenToPhysical_eq (bUseIndexes : Bool) (nodes : List LogicalPlanNode) :
    childrenToPhysical bUseIndexes nodes = nodes.map (logicalPlanToPhysical bUseIndexes) := by
  induction nodes with
  | nil => rfl
  | cons pNode nodes ih => rw [childrenToPhysical, ih, List.map_cons]

theorem apChildren_optimizeIndexUsage (pNode : LogicalPlanNode) :
    (optimizeIndexUsage pNode).apChildren = pNode.apChildren.map optimizeIndexUsage := by
  obtain ⟨type, zAlias, zLabel, zProperty, zValue, iFlags, pExtra, apChildren⟩ := pNode
  exact optimizeChildren_eq apChildren

theorem apChildren_logicalPlanToPhysical (bUseIndexes : Bool) (pNode : LogicalPlanNode) :
    (logicalPlanToPhysical bUseIndexes pNode).apChildren =
      pNode.apChildren.map (logicalPlanToPhysical bUseIndexes) := by
  obtain ⟨type, zAlias, zLabel, zProperty, zValue, iFlags, pExtra, apChildren⟩ := pNode
  exact childrenToPhysical_eq bUseIndexes apChildren

theorem descendant_physical (bUseIndexes : Bool) (path : List Nat) (pPlan : LogicalPlanNode) :
    descendant PhysicalPlanNode.apChildren path (logicalPlanToPhysical bUseIndexes pPlan) =
      (descendant LogicalPlanNode.apChildren path pPlan).map (logicalPlanToPhysical bUseIndexes) :=
  descendant_map (apChildren_logicalPlanToPhysical bUseIndexes) path pPlan

theorem descendant_optimized (path : List Nat) (pPlan : LogicalPlanNode) :
    descendant LogicalPlanNode.apChildren path (optimizeIndexUsage pPlan) =
      (descendant LogicalPlanNode.apChildren path pPlan).map optimizeIndexUsage :=
  descendant_map apChildren_optimizeIndexUsage path pPlan

end Positions

section Values

variable (c : Conversions)

def numberOf (zValue : Text) : Option ℚ :=
  match Json.number zValue with
  | some (_, []) =>
    if zValue.all fun d => d.isDigit || d = '-' then some (Text.atoll zValue)
    else some (c.atof zValue)
  | _ => none

def PropertyValue.Equals (zValue : Text) : PropertyValue → Prop
  | .null => False
  | .boolean b => zValue = if b then "true".toList else "false".toList
  | .integer i => numberOf c zValue = some (i : ℚ)
  | .real r => numberOf c zValue = some r
  | .string s => s = zValue
  | .compound json => json = zValue

end Values

section Scans

variable (c : Conversions) (g : GraphTables) (bUseIndexes : Bool)

def StringArrays : Prop :=
  ∀ node ∈ g.nodes, ∃ ls : List Text,
    Json.parse node.labels = some (.array (ls.map fun l => .scalar (.string l)))

def Labelled (zLabel : Option Text) (node : NodeRow) : Prop :=
  ∀ l ∈ zLabel, Carries g l node.id

def Wanted (pNode : LogicalPlanNode) (node : NodeRow) : Prop :=
  Labelled g pNode.zLabel node ∧ ∀ zProperty ∈ pNode.zProperty, ∀ zValue ∈ pNode.zValue,
    ∃ w, node.property zProperty = some w ∧ w.Equals c zValue

def filtered (pNode : LogicalPlanNode) (pSource : PhysicalPlanNode) : PhysicalPlanNode :=
  if pNode.zProperty.isSome && pNode.zValue.isSome then
    ⟨.filter, some (pNode.zAlias.getD "node".toList), none, pNode.zProperty, pNode.zValue, 1, none,
      [pSource]⟩
  else pSource

def KeepsMeaning (pPlan : LogicalPlanNode) (path : List Nat) (pNode : LogicalPlanNode) : Prop :=
  ∃ (pIndexed pPlain : PhysicalPlanNode) (ids : List Int),
    descendant PhysicalPlanNode.apChildren path
      (logicalPlanToPhysical bUseIndexes (optimizeIndexUsage pPlan)) = some pIndexed ∧
    descendant PhysicalPlanNode.apChildren path (logicalPlanToPhysical bUseIndexes pPlan) =
      some pPlain ∧
    Yields c.realText g pIndexed (ids.map (scanRow pNode.zAlias)) ∧
    (∀ i, i ∈ ids ↔ ∃ node ∈ g.nodes, node.id = i ∧ Wanted c g pNode node) ∧
    Yields c.realText g (filtered pNode pPlain) (ids.map (scanRow pNode.zAlias))

def columnAt (node : NodeRow) (zProperty : Text) : Option Text :=
  (node.property zProperty).bind (·.columnText c.realText)

def IndexAgrees (pNode : LogicalPlanNode) : Prop :=
  match pNode.zProperty, pNode.zValue with
  | some zProperty, some zValue => ∀ node ∈ g.nodes,
    (node.textAt zProperty = some zValue → Labelled g pNode.zLabel node) ∧
      (Labelled g pNode.zLabel node → ∀ w, node.property zProperty = some w →
        w.Equals c zValue ∨ w.columnText c.realText = some zValue →
          node.textAt zProperty = some zValue)
  | _, _ => bUseIndexes = true → ∀ zLabel ∈ pNode.zLabel, zLabel ≠ [] → ∀ node ∈ g.nodes,
    (Text.like ("%\"".toList ++ zLabel ++ "\"%".toList) node.labels = true ↔
      Carries g zLabel node.id)

end Scans

section Fields

variable (bUseIndexes : Bool) (pNode : LogicalPlanNode)

@[simp] theorem optimized_type : (optimizeIndexUsage pNode).type = indexedType pNode := by
  cases pNode
  rfl

@[simp] theorem optimized_zAlias : (optimizeIndexUsage pNode).zAlias = pNode.zAlias := by
  cases pNode
  rfl

@[simp] theorem optimized_zLabel : (optimizeIndexUsage pNode).zLabel = pNode.zLabel := by
  cases pNode
  rfl

@[simp] theorem optimized_zProperty :
    (optimizeIndexUsage pNode).zProperty = pNode.zProperty := by
  cases pNode
  rfl

@[simp] theorem optimized_zValue : (optimizeIndexUsage pNode).zValue = pNode.zValue := by
  cases pNode
  rfl

@[simp] theorem physical_type :
    (logicalPlanToPhysical bUseIndexes pNode).type = physicalType bUseIndexes pNode := by
  cases pNode
  rfl

@[simp] theorem physical_zAlias :
    (logicalPlanToPhysical bUseIndexes pNode).zAlias = pNode.zAlias := by
  cases pNode
  rfl

@[simp] theorem physical_zLabel :
    (logicalPlanToPhysical bUseIndexes pNode).zLabel = pNode.zLabel := by
  cases pNode
  rfl

@[simp] theorem physical_zProperty :
    (logicalPlanToPhysical bUseIndexes pNode).zProperty = pNode.zProperty := by
  cases pNode
  rfl

@[simp] theorem physical_zValue :
    (logicalPlanToPhysical bUseIndexes pNode).zValue = physicalValue pNode := by
  cases pNode
  rfl

end Fields

section Ids

variable {c : Conversions} {g : GraphTables}

def idsWhere (g : GraphTables) (p : NodeRow → Bool) : List Int := (g.nodes.filter p).map (·.id)

theorem mem_idsWhere {p : NodeRow → Bool} {node : NodeRow} (hnode : node ∈ g.nodes) :
    node.id ∈ idsWhere g p ↔ p node = true := by
  rw [idsWhere, List.mem_map]
  constructor
  · rintro ⟨found, hfound, hid⟩
    obtain ⟨hmem, hp⟩ := List.mem_filter.mp hfound
    rwa [List.inj_on_of_nodup_map g.nodesNodup hmem hnode hid] at hp
  · intro hp
    exact ⟨node, List.mem_filter.mpr ⟨hnode, hp⟩, rfl⟩

theorem node_of_mem_idsWhere {p : NodeRow → Bool} {i : Int} (h : i ∈ idsWhere g p) :
    ∃ node ∈ g.nodes, node.id = i := by
  obtain ⟨node, hnode, hid⟩ := List.mem_map.mp h
  exact ⟨node, List.mem_of_mem_filter hnode, hid⟩

theorem idsWhere_congr {p q : NodeRow → Bool} :
    idsWhere g p = idsWhere g q ↔ ∀ node ∈ g.nodes, (p node = true ↔ q node = true) := by
  constructor
  · intro h node hnode
    rw [← mem_idsWhere hnode, h, mem_idsWhere hnode]
  · intro h
    exact congrArg (List.map _) (List.filter_congr fun node hnode =>
      Bool.eq_iff_iff.mpr (h node hnode))

theorem filter_idsWhere {α : Type} {f : Int → α} {keep : α → Bool} {p q : NodeRow → Bool}
    (h : ∀ node ∈ g.nodes, keep (f node.id) = q node) :
    ((idsWhere g p).map f).filter keep = (idsWhere g fun node => p node && q node).map f := by
  rw [idsWhere, List.filter_map, List.filter_map, List.filter_filter, idsWhere]
  refine congrArg (fun nodes : List NodeRow => (nodes.map (·.id)).map f)
    (List.filter_congr fun node hnode => ?_)
  rw [Function.comp_apply, Function.comp_apply, h node hnode, Bool.and_comm]

/-- `labels` has the label that the full scan looks for. -/
def hasLabel (zLabel : Option Text) (node : NodeRow) : Bool :=
  zLabel.all fun l => labelExists node.labels l = some true

theorem StringArrays.labelArrays (h : StringArrays g) : LabelArrays g := by
  intro node hnode
  obtain ⟨ls, hls⟩ := h node hnode
  exact ⟨_, hls⟩

theorem hasLabel_iff (hlabels : LabelArrays g) {zLabel : Option Text} {node : NodeRow}
    (hnode : node ∈ g.nodes) : hasLabel zLabel node = true ↔ Labelled g zLabel node := by
  cases zLabel with
  | none =>
    refine iff_of_true rfl fun l hl => ?_
    cases hl
  | some zLabel =>
    rw [hasLabel, Option.all_some, decide_eq_true_eq, ← carries_iff zLabel hlabels hnode]
    constructor
    · intro h l hl
      rwa [← Option.some.inj hl]
    · intro h
      exact h zLabel rfl

theorem scanned_allNodes (hlabels : LabelArrays g) (zLabel : Option Text) :
    scanned (allNodesQuery g zLabel) = idsWhere g (hasLabel zLabel) := by
  cases zLabel with
  | none =>
    have hall : g.nodes.filter (hasLabel none) = g.nodes := List.filter_eq_self.mpr fun _ _ => rfl
    rw [idsWhere, hall, ← scanned_map (g.nodes.map _), List.map_map]
    rfl
  | some zLabel =>
    rw [allNodesQuery_eq zLabel hlabels, scanned_map]
    rfl

theorem scanned_propertyIndex (zProperty zValue : Text) :
    scanned (propertyIndexQuery g zProperty zValue) =
      idsWhere g fun node => node.textAt zProperty = some zValue := by
  rw [propertyIndexQuery, ← scanned_map (idsWhere g _), idsWhere, List.map_map]
  rfl

end Ids

section Yielded

variable {c : Conversions} {g : GraphTables} {pPlan : PhysicalPlanNode}

theorem yields_scanOpen {pStmt : Statement Int}
    (htype : pPlan.type = .allNodesScan ∨ pPlan.type = .labelIndexScan ∨
      pPlan.type = .propertyIndexScan) (hopen : scanOpen g pPlan = some pStmt) :
    Yields c.realText g pPlan ((scanned pStmt).map (scanRow pPlan.zAlias)) := by
  have hcreate : cypherIteratorCreate pPlan = some (.scan pPlan false []) := by
    obtain ⟨type, zAlias, zLabel, zProperty, zValue, iFlags, pExecState, apChildren⟩ := pPlan
    obtain h | h | h := htype
    · cases h
      rfl
    · cases h
      rfl
    · cases h
      rfl
  exact yields_scan hcreate hopen

theorem yields_allNodes (hlabels : LabelArrays g) (htype : pPlan.type = .allNodesScan) :
    Yields c.realText g pPlan
      ((idsWhere g (hasLabel pPlan.zLabel)).map (scanRow pPlan.zAlias)) := by
  rw [← scanned_allNodes hlabels]
  refine yields_scanOpen (.inl htype) ?_
  rw [scanOpen, htype]
  rfl

theorem yields_labelIndex (zLabel : Text) (htype : pPlan.type = .labelIndexScan)
    (hlabel : pPlan.zLabel = some zLabel) :
    Yields c.realText g pPlan ((idsWhere g fun node =>
      Text.like ("%\"".toList ++ zLabel ++ "\"%".toList) node.labels).map
        (scanRow pPlan.zAlias)) := by
  rw [idsWhere, ← labelIndexQuery_eq]
  refine yields_scanOpen (.inr (.inl htype)) ?_
  rw [scanOpen, if_pos htype, hlabel, Option.map_some]

theorem yields_propertyIndex (zProperty zValue : Text)
    (htype : pPlan.type = .propertyIndexScan)
    (hproperty : pPlan.zProperty = some zProperty) (hvalue : pPlan.zValue = some zValue) :
    Yields c.realText g pPlan ((idsWhere g fun node =>
      node.textAt zProperty = some zValue).map (scanRow pPlan.zAlias)) := by
  rw [← scanned_propertyIndex]
  refine yields_scanOpen (.inr (.inr htype)) ?_
  rw [scanOpen, htype, hproperty, hvalue]
  rfl

theorem filterPasses_scanRow {pSource : PhysicalPlanNode} {zAlias : Option Text}
    {zProperty zValue : Text} {node : NodeRow} (hnode : node ∈ g.nodes) :
    filterPasses c.realText g ⟨.filter, some (zAlias.getD "node".toList), none, some zProperty,
      some zValue, 1, none, [pSource]⟩ (scanRow zAlias node.id) =
        decide (columnAt c node zProperty = some zValue) := by
  have hcolumn : columnOf (scanRow zAlias node.id) (zAlias.getD "node".toList) =
      some (.node node.id) := by
    rw [scanRow, columnOf, List.find?_cons_of_pos (by simp), Option.map_some]
  have hproperty : cypherValueGetProperty c.realText g zProperty (.node node.id) =
      columnAt c node zProperty := by
    rw [cypherValueGetProperty, node_eq_some.mpr ⟨hnode, rfl⟩]
    rfl
  rw [filterPasses_eq c.realText g _ zProperty zValue rfl rfl rfl, hcolumn, Option.bind_some,
    hproperty]
  cases columnAt c node zProperty with
  | none => simp
  | some z =>
    rw [Option.any_some]
    simp [filterCompare, Text.strcmp_eq_zero]

def meets (c : Conversions) (pNode : LogicalPlanNode) (node : NodeRow) : Bool :=
  pNode.zProperty.all fun zProperty => pNode.zValue.all fun zValue =>
    columnAt c node zProperty = some zValue

theorem yields_filtered {pNode : LogicalPlanNode} {p : NodeRow → Bool}
    (h : Yields c.realText g pPlan ((idsWhere g p).map (scanRow pNode.zAlias))) :
    Yields c.realText g (filtered pNode pPlan)
      ((idsWhere g fun node => p node && meets c pNode node).map (scanRow pNode.zAlias)) := by
  unfold filtered meets
  cases hproperty : pNode.zProperty with
  | none =>
    simp only [Option.all_none, Bool.and_true]
    exact h
  | some zProperty =>
    cases hvalue : pNode.zValue with
    | none =>
      simp only [Option.all_none, Option.all_some, Bool.and_true]
      exact h
    | some zValue =>
      have hrows := @yields_filter c.realText g pPlan _
        ⟨.filter, some (pNode.zAlias.getD "node".toList), none, some zProperty, some zValue, 1,
          none, [pPlan]⟩ rfl rfl rfl h
      rwa [filter_idsWhere fun node => filterPasses_scanRow] at hrows

theorem keepsMeaning_iff {bUseIndexes : Bool} {pNode pTree : LogicalPlanNode} {path : List Nat}
    {p q : NodeRow → Bool}
    (hnode : descendant LogicalPlanNode.apChildren path pTree = some pNode)
    (hindexed : Yields c.realText g
      (logicalPlanToPhysical bUseIndexes (optimizeIndexUsage pNode))
      ((idsWhere g p).map (scanRow pNode.zAlias)))
    (hplain : Yields c.realText g (filtered pNode (logicalPlanToPhysical bUseIndexes pNode))
      ((idsWhere g q).map (scanRow pNode.zAlias))) :
    KeepsMeaning c g bUseIndexes pTree path pNode ↔ ∀ node ∈ g.nodes,
      (p node = true ↔ Wanted c g pNode node) ∧ (p node = true ↔ q node = true) := by
  have hinjective := List.map_injective_iff.mpr (scanRow_injective pNode.zAlias)
  have hfirst : descendant PhysicalPlanNode.apChildren path
      (logicalPlanToPhysical bUseIndexes (optimizeIndexUsage pTree)) =
        some (logicalPlanToPhysical bUseIndexes (optimizeIndexUsage pNode)) := by
    rw [descendant_physical, descendant_optimized, hnode]
    rfl
  have hsecond : descendant PhysicalPlanNode.apChildren path
      (logicalPlanToPhysical bUseIndexes pTree) =
        some (logicalPlanToPhysical bUseIndexes pNode) := by
    rw [descendant_physical, hnode]
    rfl
  constructor
  · rintro ⟨pIndexed, pPlain, ids, hi, hp, hids, hmem, hrows⟩ node hstored
    obtain rfl := Option.some.inj (hfirst.symm.trans hi)
    obtain rfl := Option.some.inj (hsecond.symm.trans hp)
    obtain rfl := hinjective (hids.unique hindexed)
    have hsame := hinjective (hrows.unique hplain)
    refine ⟨?_, idsWhere_congr.mp hsame node hstored⟩
    rw [← mem_idsWhere hstored, hmem]
    constructor
    · rintro ⟨found, hfound, hid, hwanted⟩
      rwa [List.inj_on_of_nodup_map g.nodesNodup hfound hstored hid] at hwanted
    · intro hwanted
      exact ⟨node, hstored, rfl, hwanted⟩
  · intro h
    have hsame : idsWhere g p = idsWhere g q :=
      idsWhere_congr.mpr fun node hstored => (h node hstored).2
    refine ⟨_, _, idsWhere g p, hfirst, hsecond, hindexed, fun i => ?_, hsame ▸ hplain⟩
    constructor
    · intro hi
      obtain ⟨node, hstored, rfl⟩ := node_of_mem_idsWhere hi
      exact ⟨node, hstored, rfl, (h node hstored).1.mp ((mem_idsWhere hstored).mp hi)⟩
    · rintro ⟨node, hstored, rfl, hwanted⟩
      exact (mem_idsWhere hstored).mpr ((h node hstored).1.mpr hwanted)

theorem wanted_of_property {pNode : LogicalPlanNode} {zProperty zValue : Text}
    (hproperty : pNode.zProperty = some zProperty) (hvalue : pNode.zValue = some zValue)
    (node : NodeRow) : Wanted c g pNode node ↔ Labelled g pNode.zLabel node ∧
      ∃ w, node.property zProperty = some w ∧ w.Equals c zValue := by
  rw [Wanted, hproperty, hvalue]
  simp

theorem wanted_of_label {pNode : LogicalPlanNode}
    (h : pNode.zProperty = none ∨ pNode.zValue = none) (node : NodeRow) :
    Wanted c g pNode node ↔ Labelled g pNode.zLabel node := by
  refine and_iff_left fun zProperty hproperty zValue hvalue => ?_
  obtain h | h := h
  · rw [h] at hproperty
    cases hproperty
  · rw [h] at hvalue
    cases hvalue

theorem equals_of_textAt {node : NodeRow} {zProperty zValue : Text} (hnul : '\x00' ∉ zValue)
    (h : node.textAt zProperty = some zValue) : ∃ w, node.property zProperty = some w ∧
      w.Equals c zValue ∧ w.columnText c.realText = some zValue := by
  unfold NodeRow.textAt at h
  split at h
  next s hs =>
    obtain rfl := Option.some.inj h
    refine ⟨_, hs, rfl, congrArg some (List.takeWhile_eq_self_iff.mpr fun d hd => ?_)⟩
    exact decide_eq_true fun heq => hnul (heq ▸ hd)
  next json hjson =>
    obtain rfl := Option.some.inj h
    exact ⟨_, hjson, rfl, rfl⟩
  next => cases h

variable {bUseIndexes : Bool} {pNode pTree : LogicalPlanNode} {path : List Nat}

theorem yields_plain (hlabels : LabelArrays g) (htype : pNode.type = .nodeScan) :
    Yields c.realText g (filtered pNode (logicalPlanToPhysical bUseIndexes pNode))
      ((idsWhere g fun node => hasLabel pNode.zLabel node && meets c pNode node).map
        (scanRow pNode.zAlias)) := by
  refine yields_filtered ?_
  have h : Yields c.realText g (logicalPlanToPhysical bUseIndexes pNode) _ :=
    yields_allNodes hlabels (by rw [physical_type, physicalType, htype])
  rwa [physical_zAlias, physical_zLabel] at h

theorem keepsMeaning_of_property (hlabels : LabelArrays g) (htype : pNode.type = .nodeScan)
    (hnode : descendant LogicalPlanNode.apChildren path pTree = some pNode)
    {zProperty zValue : Text} (hproperty : pNode.zProperty = some zProperty)
    (hvalue : pNode.zValue = some zValue) (hnul : '\x00' ∉ zValue) :
    KeepsMeaning c g bUseIndexes pTree path pNode ↔ ∀ node ∈ g.nodes,
      (node.textAt zProperty = some zValue → Labelled g pNode.zLabel node) ∧
        (Labelled g pNode.zLabel node → ∀ w, node.property zProperty = some w →
          w.Equals c zValue ∨ w.columnText c.realText = some zValue →
            node.textAt zProperty = some zValue) := by
  have hindexed : Yields c.realText g
      (logicalPlanToPhysical bUseIndexes (optimizeIndexUsage pNode))
      ((idsWhere g fun node => node.textAt zProperty = some zValue).map
        (scanRow pNode.zAlias)) := by
    have hindexedType : indexedType pNode = .indexScan := by
      rw [indexedType, if_pos htype, hproperty, hvalue]
      rfl
    have h : Yields c.realText g (logicalPlanToPhysical bUseIndexes (optimizeIndexUsage pNode)) _ :=
      yields_propertyIndex zProperty zValue
        (by rw [physical_type, physicalType, optimized_type, hindexedType])
        (by rw [physical_zProperty, optimized_zProperty, hproperty])
        (by simp [physicalValue, hindexedType, hproperty, hvalue])
    rwa [physical_zAlias, optimized_zAlias] at h
  rw [keepsMeaning_iff hnode hindexed (yields_plain hlabels htype)]
  refine forall₂_congr fun node hstored => ?_
  rw [wanted_of_property hproperty hvalue, Bool.and_eq_true, hasLabel_iff hlabels hstored,
    decide_eq_true_eq]
  have hmeets : meets c pNode node = true ↔
      ∃ w, node.property zProperty = some w ∧ w.columnText c.realText = some zValue := by
    rw [meets, hproperty, hvalue, Option.all_some, Option.all_some, decide_eq_true_eq, columnAt,
      Option.bind_eq_some_iff]
  rw [hmeets]
  constructor
  · rintro ⟨hwanted, hplain⟩
    refine ⟨fun h => (hwanted.mp h).1, fun hlabel w hw hequal => ?_⟩
    obtain hequal | hcolumn := hequal
    · exact hwanted.mpr ⟨hlabel, w, hw, hequal⟩
    · exact hplain.mpr ⟨hlabel, w, hw, hcolumn⟩
  · rintro ⟨hlabel, htext⟩
    refine ⟨⟨fun h => ?_, fun h => ?_⟩, ⟨fun h => ?_, fun h => ?_⟩⟩
    · obtain ⟨w, hw, hequal, -⟩ := equals_of_textAt (c := c) hnul h
      exact ⟨hlabel h, w, hw, hequal⟩
    · obtain ⟨hlabelled, w, hw, hequal⟩ := h
      exact htext hlabelled w hw (.inl hequal)
    · obtain ⟨w, hw, -, hcolumn⟩ := equals_of_textAt (c := c) hnul h
      exact ⟨hlabel h, w, hw, hcolumn⟩
    · obtain ⟨hlabelled, w, hw, hcolumn⟩ := h
      exact htext hlabelled w hw (.inr hcolumn)

theorem keepsMeaning_of_label (hlabels : LabelArrays g) (htype : pNode.type = .nodeScan)
    (hnode : descendant LogicalPlanNode.apChildren path pTree = some pNode)
    (hnone : pNode.zProperty = none ∨ pNode.zValue = none) :
    KeepsMeaning c g bUseIndexes pTree path pNode ↔ (bUseIndexes = true →
      ∀ zLabel ∈ pNode.zLabel, zLabel ≠ [] → ∀ node ∈ g.nodes,
        (Text.like ("%\"".toList ++ zLabel ++ "\"%".toList) node.labels = true ↔
          Carries g zLabel node.id)) := by
  have hmeets : ∀ node, meets c pNode node = true := by
    intro node
    unfold meets
    obtain h | h := hnone
    · rw [h, Option.all_none]
    · simp [h]
  have hboth : (pNode.zProperty.isSome && pNode.zValue.isSome) = false := by
    obtain h | h := hnone
    · rw [h, Option.isSome_none, Bool.false_and]
    · rw [h, Option.isSome_none, Bool.and_false]
  have htyped : indexedType pNode =
      if pNode.zLabel.any (· ≠ []) then .labelScan else .nodeScan := by
    rw [indexedType, if_pos htype, hboth, if_neg Bool.false_ne_true]
  by_cases hindex : bUseIndexes = true ∧ ∃ zLabel, pNode.zLabel = some zLabel ∧ zLabel ≠ []
  · obtain ⟨huse, zLabel, hlabel, hne⟩ := hindex
    have hindexed : Yields c.realText g
        (logicalPlanToPhysical bUseIndexes (optimizeIndexUsage pNode)) _ :=
      yields_labelIndex zLabel
        (by simp [physicalType, htyped, hlabel, hne, huse]) (by simp [hlabel])
    rw [physical_zAlias, optimized_zAlias] at hindexed
    rw [keepsMeaning_iff hnode hindexed (yields_plain hlabels htype)]
    have hcarries : ∀ node, Labelled g (some zLabel) node ↔ Carries g zLabel node.id := by
      intro node
      simp [Labelled]
    have hq : ∀ node ∈ g.nodes, (hasLabel (some zLabel) node && meets c pNode node) = true ↔
        Carries g zLabel node.id := by
      intro node hstored
      rw [hmeets, Bool.and_true, hasLabel_iff hlabels hstored, hcarries]
    simp only [wanted_of_label hnone, hlabel, hcarries]
    constructor
    · rintro h - l hl - node hstored
      obtain rfl := Option.some.inj hl
      exact (h node hstored).1
    · intro h node hstored
      have hlike := h huse zLabel rfl hne node hstored
      exact ⟨hlike, hlike.trans (hq node hstored).symm⟩
  · have hscan : (logicalPlanToPhysical bUseIndexes (optimizeIndexUsage pNode)).type =
        .allNodesScan := by
      rw [physical_type, physicalType, optimized_type, htyped]
      cases hany : pNode.zLabel.any (· ≠ []) with
      | false => rfl
      | true =>
        obtain ⟨zLabel, hlabel, hne⟩ := (Option.any_eq_true _ _).mp hany
        have huse : bUseIndexes = false := Bool.eq_false_of_not_eq_true fun huse =>
          hindex ⟨huse, zLabel, hlabel, of_decide_eq_true hne⟩
        rw [huse]
        rfl
    have hindexed : Yields c.realText g
        (logicalPlanToPhysical bUseIndexes (optimizeIndexUsage pNode)) _ :=
      yields_allNodes hlabels hscan
    rw [physical_zAlias, optimized_zAlias, physical_zLabel, optimized_zLabel] at hindexed
    rw [keepsMeaning_iff hnode hindexed (yields_plain hlabels htype)]
    refine iff_of_true (fun node hstored => ?_) fun huse zLabel hlabel hne => ?_
    · rw [wanted_of_label hnone, hasLabel_iff hlabels hstored, hmeets, Bool.and_true,
        hasLabel_iff hlabels hstored]
      exact ⟨Iff.rfl, Iff.rfl⟩
    · exact absurd ⟨huse, zLabel, hlabel, hne⟩ hindex

/-- The rewrite to an index keeps the meaning of a scan exactly where the index agrees with it.
The property of the scan stands for a member, as an identifier does in a path. -/
theorem keepsMeaning_iff_indexAgrees (hlabels : StringArrays g) (bUseIndexes : Bool)
    (pTree : LogicalPlanNode) (path : List Nat) (pNode : LogicalPlanNode)
    (hnode : descendant LogicalPlanNode.apChildren path pTree = some pNode)
    (htype : pNode.type = .nodeScan) (hnul : ∀ zValue ∈ pNode.zValue, '\x00' ∉ zValue) :
    KeepsMeaning c g bUseIndexes pTree path pNode ↔ IndexAgrees c g bUseIndexes pNode := by
  unfold IndexAgrees
  split
  next zProperty zValue hproperty hvalue =>
    exact keepsMeaning_of_property hlabels.labelArrays htype hnode hproperty hvalue
      (hnul zValue hvalue)
  next hnone =>
    refine keepsMeaning_of_label hlabels.labelArrays htype hnode ?_
    cases hproperty : pNode.zProperty with
    | none => exact .inl rfl
    | some zProperty =>
      cases hvalue : pNode.zValue with
      | none => exact .inr rfl
      | some zValue => exact absurd hvalue (hnone zProperty zValue hproperty)

end Yielded

section Samples

/-- A scan for the nodes whose `x` is 5. -/
def fiveScan : LogicalPlanNode :=
  { LogicalPlanNode.ofType .nodeScan with
    zAlias := some ['n'], zProperty := some ['x'], zValue := some ['5'] }

def fiveTree : LogicalPlanNode := (LogicalPlanNode.ofType .projection).addChild fiveScan

theorem five_stringArrays : StringArrays five := by
  intro node hnode
  rcases List.mem_cons.mp hnode with rfl | hnode
  · exact ⟨[], rfl⟩
  · rcases List.mem_singleton.mp hnode with rfl
    exact ⟨[], rfl⟩

theorem five_not_nul : ∀ zValue ∈ fiveScan.zValue, '\x00' ∉ zValue := by
  intro zValue h
  obtain rfl := Option.some.inj h
  decide

def letters : GraphTables where
  nodes := [⟨1, "[]".toList, [(['x'], .string ['a'])]⟩, ⟨2, "[]".toList, [(['x'], .string ['b'])]⟩]
  edges := []
  nodesNodup := by decide
  edgesNodup := List.nodup_nil

def letterScan : LogicalPlanNode :=
  { LogicalPlanNode.ofType .nodeScan with
    zAlias := some ['n'], zProperty := some ['x'], zValue := some ['a'] }

def letterTree : LogicalPlanNode := (LogicalPlanNode.ofType .projection).addChild letterScan

theorem letters_stringArrays : StringArrays letters := by
  intro node hnode
  rcases List.mem_cons.mp hnode with rfl | hnode
  · exact ⟨[], rfl⟩
  · rcases List.mem_singleton.mp hnode with rfl
    exact ⟨[], rfl⟩

theorem letter_not_nul : ∀ zValue ∈ letterScan.zValue, '\x00' ∉ zValue := by
  intro zValue h
  obtain rfl := Option.some.inj h
  decide

theorem keepsMeaning_letters :
    KeepsMeaning plainConversions letters true letterTree [0] letterScan := by
  refine (keepsMeaning_iff_indexAgrees letters_stringArrays true letterTree [0] letterScan rfl rfl
    letter_not_nul).mpr fun node hnode => ⟨fun _ l hl => ?_, fun _ w hw hvalue => ?_⟩
  · cases hl
  · rcases List.mem_cons.mp hnode with rfl | hnode
    · rfl
    · rcases List.mem_singleton.mp hnode with rfl
      cases hw
      obtain h | h := hvalue
      · cases h
      · cases h

theorem not_keepsMeaning_number :
    StringArrays five ∧ descendant LogicalPlanNode.apChildren [0] fiveTree = some fiveScan ∧
      fiveScan.type = .nodeScan ∧
      ¬KeepsMeaning plainConversions five true fiveTree [0] fiveScan := by
  refine ⟨five_stringArrays, rfl, rfl, fun h => ?_⟩
  rw [keepsMeaning_of_property five_stringArrays.labelArrays rfl rfl rfl rfl
    (five_not_nul _ rfl)] at h
  have hlabelled : Labelled five fiveScan.zLabel ⟨1, "[]".toList, [(['x'], .integer 5)]⟩ := by
    intro l hl
    cases hl
  have htext := (h _ List.mem_cons_self).2 hlabelled (.integer 5) rfl (.inr rfl)
  cases htext

end Samples

end SqliteMultimodal.Graph.Cypher
