import SqliteMultimodal.Graph.Cypher.Printed
import SqliteMultimodal.Graph.Cypher.Where

namespace SqliteMultimodal.Graph.Cypher

open Pull

section Lookalikes

def Lookalike (zLabel labels : Text) : Prop :=
  ∃ w, '"' :: w ++ ['"'] <:+: labels ∧ Text.like zLabel w = true

theorem lookalike_iff (zLabel : Name) {labels : Text} :
    Text.like ("%\"".toList ++ zLabel.text ++ "\"%".toList) labels = true ↔
      Lookalike zLabel.text labels := by
  rw [List.append_assoc]
  exact Text.like_between (by decide) (by decide) rfl rfl (zLabel.not_mem rfl)

end Lookalikes

section Scans

variable (c : Conversions) (g : GraphTables) (zAlias : Option Text) (zLabel : Text)

def scanPlan (type : PhysicalOperatorType) : PhysicalPlanNode :=
  ⟨type, zAlias, some zLabel, none, none, 0, none, []⟩

def scanRow (i : Int) : Row := [(zAlias.getD "node".toList, .node i)]

def SameNodes : Prop :=
  ∃ index full : List Int,
    Yields c.realText g (scanPlan zAlias zLabel .labelIndexScan) (index.map (scanRow zAlias)) ∧
    Yields c.realText g (scanPlan zAlias zLabel .allNodesScan) (full.map (scanRow zAlias)) ∧
    ∀ i, i ∈ index ↔ i ∈ full

/-- A query of the nodes with the label has the same answer with `bUseIndexes` and without. -/
def SameAnswers : Prop :=
  ∀ (zVar : Text) (cond : Option Condition) (items : List CypherAst) (rows : List Row),
    Answers c.realText g true (queryAst zVar (some zLabel) cond items) rows ↔
      Answers c.realText g false (queryAst zVar (some zLabel) cond items) rows

variable {g}

theorem allNodesQuery_eq (hlabels : LabelArrays g) : allNodesQuery g (some zLabel) =
    ((g.nodes.filter fun n => labelExists n.labels zLabel = some true).map (·.id)).map some := by
  rw [List.map_map, ← List.filterMap_eq_map, List.filterMap_filter]
  refine List.filterMap_congr fun node hnode => ?_
  obtain ⟨values, hvalues⟩ := hlabels node hnode
  rw [hvalues]
  simp [isArray]

theorem mem_allNodes (hlabels : LabelArrays g) {i : Int} :
    i ∈ scanned (allNodesQuery g (some zLabel)) ↔ Carries g zLabel i := by
  rw [allNodesQuery_eq zLabel hlabels, scanned_map, ← targetCarries_iff hlabels, targetCarries,
    Option.any_eq_true]
  simp only [List.mem_map, List.mem_filter, decide_eq_true_eq, node_eq_some, and_assoc]
  exact exists_congr fun node => and_congr_right fun _ => and_comm

theorem labelIndexQuery_eq : scanned (labelIndexQuery g zLabel) =
    (g.nodes.filter fun n =>
      Text.like ("%\"".toList ++ zLabel ++ "\"%".toList) n.labels).map (·.id) := by
  rw [labelIndexQuery, ← scanned_map (List.map _ _), List.map_map]
  rfl

theorem mem_labelIndex (zLabel : Name) {node : NodeRow} (hnode : node ∈ g.nodes) :
    node.id ∈ scanned (labelIndexQuery g zLabel.text) ↔ Lookalike zLabel.text node.labels := by
  rw [labelIndexQuery_eq, ← lookalike_iff, List.mem_map]
  constructor
  · rintro ⟨found, hfound, hid⟩
    obtain ⟨hmem, hlike⟩ := List.mem_filter.mp hfound
    rwa [List.inj_on_of_nodup_map g.nodesNodup hmem hnode hid] at hlike
  · intro hlike
    exact ⟨node, List.mem_filter.mpr ⟨hnode, hlike⟩, rfl⟩

theorem carries_iff (hlabels : LabelArrays g) {node : NodeRow} (hnode : node ∈ g.nodes) :
    Carries g zLabel node.id ↔ labelExists node.labels zLabel = some true := by
  rw [← targetCarries_iff hlabels, targetCarries, node_eq_some.mpr ⟨hnode, rfl⟩, Option.any_some,
    decide_eq_true_eq]

theorem scanned_eq (hlabels : LabelArrays g) (zLabel : Name)
    (h : ∀ node ∈ g.nodes, (Lookalike zLabel.text node.labels ↔ Carries g zLabel.text node.id)) :
    scanned (labelIndexQuery g zLabel.text) = scanned (allNodesQuery g (some zLabel.text)) := by
  rw [labelIndexQuery_eq, allNodesQuery_eq _ hlabels, scanned_map]
  refine congrArg (List.map _) (List.filter_congr fun node hnode => ?_)
  rw [Bool.eq_iff_iff, lookalike_iff, h node hnode, carries_iff _ hlabels hnode,
    decide_eq_true_eq]

theorem yields_index : Yields c.realText g (scanPlan zAlias zLabel .labelIndexScan)
    ((scanned (labelIndexQuery g zLabel)).map (scanRow zAlias)) := yields_scan rfl rfl

theorem yields_full : Yields c.realText g (scanPlan zAlias zLabel .allNodesScan)
    ((scanned (allNodesQuery g (some zLabel))).map (scanRow zAlias)) := yields_scan rfl rfl

theorem scanRow_injective : Function.Injective (scanRow zAlias) := by
  intro i j h
  exact CypherValue.node.inj (Prod.mk.inj (List.cons.inj h).1).2

theorem sameAnswers_of_eq {zLabel : Text}
    (h : scanned (labelIndexQuery g zLabel) = scanned (allNodesQuery g (some zLabel))) :
    SameAnswers c g zLabel := by
  intro zVar cond items rows
  have hids : matchedIds g true (some zLabel) = matchedIds g false (some zLabel) := h
  have hboth : ∃ rows', Answers c.realText g true (queryAst zVar (some zLabel) cond items) rows' ∧
      Answers c.realText g false (queryAst zVar (some zLabel) cond items) rows' := by
    cases cond with
    | none =>
      refine ⟨_, answers_match c g true zVar (some zLabel) items, ?_⟩
      rw [hids]
      exact answers_match c g false zVar (some zLabel) items
    | some cond =>
      refine ⟨_, answers_where c g true zVar (some zLabel) cond items, ?_⟩
      rw [hids]
      exact answers_where c g false zVar (some zLabel) cond items
  obtain ⟨rows', htrue, hfalse⟩ := hboth
  constructor
  · intro hrows
    rwa [hrows.unique htrue]
  · intro hrows
    rwa [hrows.unique hfalse]

/-- The two scans agree exactly where no node only looks as if it carried the label, and none
carries it in a spelling that LIKE does not take for it. -/
theorem sameNodes_iff (hlabels : LabelArrays g) (zLabel : Name) :
    SameNodes c g zAlias zLabel.text ∧ SameAnswers c g zLabel.text ↔
      ∀ node ∈ g.nodes, (Lookalike zLabel.text node.labels ↔ Carries g zLabel.text node.id) := by
  constructor
  · rintro ⟨⟨index, full, hindex, hfull, hsame⟩, -⟩ node hnode
    have hindex := List.map_injective_iff.mpr (scanRow_injective zAlias)
      (hindex.unique (yields_index c zAlias zLabel.text))
    have hfull := List.map_injective_iff.mpr (scanRow_injective zAlias)
      (hfull.unique (yields_full c zAlias zLabel.text))
    rw [← mem_labelIndex zLabel hnode, ← mem_allNodes zLabel.text hlabels, ← hindex, ← hfull]
    exact hsame node.id
  · intro h
    have heq := scanned_eq hlabels zLabel h
    refine ⟨⟨_, _, yields_index c zAlias zLabel.text, yields_full c zAlias zLabel.text, ?_⟩,
      sameAnswers_of_eq c heq⟩
    intro i
    rw [heq]

end Scans

section Samples

theorem person_word : isWord "Person".toList = true := by decide

theorem person_identifier : cypherGetKeywordToken "Person".toList = .identifier := by decide

def personLabel : Name := ⟨"Person".toList, person_word, person_identifier⟩

theorem persons_nodup : [(1 : Int), 2].Nodup := by decide

def persons : GraphTables where
  nodes := [⟨1, "[\"Person\"]".toList, []⟩, ⟨2, "[\"person\"]".toList, []⟩]
  edges := []
  nodesNodup := persons_nodup
  edgesNodup := List.nodup_nil

theorem persons_labelArrays : LabelArrays persons := by
  intro node hnode
  rcases List.mem_cons.mp hnode with rfl | hnode
  · exact ⟨_, rfl⟩
  · rcases List.mem_singleton.mp hnode with rfl
    exact ⟨_, rfl⟩

def friendLabel : Name := ⟨"Friend".toList, by decide, by decide⟩

theorem sameNodes_friends :
    SameNodes plainConversions friends (some ['n']) friendLabel.text ∧
      SameAnswers plainConversions friends friendLabel.text := by
  refine (sameNodes_iff plainConversions (some ['n']) friends_labelArrays friendLabel).mpr ?_
  intro node hnode
  rw [← lookalike_iff, ← targetCarries_iff friends_labelArrays]
  rcases List.mem_cons.mp hnode with rfl | hnode
  · decide +kernel
  · rcases List.mem_singleton.mp hnode with rfl
    decide +kernel

theorem not_sameNodes_case :
    LabelArrays persons ∧ ¬SameNodes plainConversions persons (some ['n']) personLabel.text ∧
      ¬SameAnswers plainConversions persons personLabel.text := by
  have hindex : scanned (labelIndexQuery persons personLabel.text) = [1, 2] := by decide +kernel
  have hfull : scanned (allNodesQuery persons (some personLabel.text)) = [1] := by decide +kernel
  refine ⟨persons_labelArrays, ?_, fun h => ?_⟩
  · rintro ⟨index, full, hi, hf, hsame⟩
    have hi := List.map_injective_iff.mpr (scanRow_injective (some ['n']))
      (hi.unique (yields_index plainConversions (some ['n']) personLabel.text))
    have hf := List.map_injective_iff.mpr (scanRow_injective (some ['n']))
      (hf.unique (yields_full plainConversions (some ['n']) personLabel.text))
    rw [hi, hf, hindex, hfull] at hsame
    exact absurd ((hsame 2).mp (by decide)) (by decide)
  · have hrows := (h ['n'] none [] _).mp
      (answers_match plainConversions persons true ['n'] (some personLabel.text) [])
    have heq := hrows.unique
      (answers_match plainConversions persons false ['n'] (some personLabel.text) [])
    change (scanned (labelIndexQuery persons personLabel.text)).map _ =
      (scanned (allNodesQuery persons (some personLabel.text))).map _ at heq
    rw [hindex, hfull] at heq
    exact absurd (congrArg List.length heq) (by decide)

end Samples

end SqliteMultimodal.Graph.Cypher
