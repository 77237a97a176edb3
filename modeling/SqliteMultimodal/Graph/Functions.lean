import SqliteMultimodal.Graph.Integrity
import SqliteMultimodal.Graph.Traverse.Cycle
import SqliteMultimodal.Graph.VTab.Effects

namespace SqliteMultimodal.Graph.Functions

open VTab (Code Conversions Value newRowid)

section Code

inductive Result
  | error (zErr : Text)
  | errorCode (rc : Code)
  | int64 (n : Int64)
  deriving DecidableEq

def exec (zErr : Text) (pGraph : Option Store) (statement : Store → Code × Int64 × Store) :
    Result × Option Store :=
  match pGraph with
  | none => (.error zErr, none)
  | some store =>
    let done := statement store
    (if done.1 = .ok then .int64 done.2.1 else .errorCode done.1, some done.2.2)

def noTable : Text := "No graph table available".toList

def noTableToAdd : Text :=
  ("No graph table available. Create a graph table first using: " ++
    "CREATE VIRTUAL TABLE mygraph USING graph();").toList

variable (conv : Conversions)

def graphNodeAddFunc (pGraph : Option Store) (nodeId properties : Value) : Result × Option Store :=
  let iNodeId := nodeId.int64 conv
  exec noTableToAdd pGraph fun store =>
    match store.nodes.insert iNodeId.toInt ⟨some "[]".toList, properties.toText conv⟩ with
    | none => (.constraint, iNodeId, store)
    | some nodes => (.ok, iNodeId, { store with nodes })

/-- The weight is `NULL`, which is read as zero. -/
def graphEdgeAddFunc (pGraph : Option Store) (draws : Nat → Int64)
    (source target edgeType properties : Value) : Result × Option Store :=
  let row : EdgeRow :=
    ⟨(source.int64 conv).toInt, (target.int64 conv).toInt, edgeType.toText conv, 0,
      properties.toText conv⟩
  exec noTableToAdd pGraph fun store =>
    match newRowid store.edges draws with
    | none => (.full, 0, store)
    | some key => (.ok, Int64.ofInt key, { store with edges := store.edges.put key row })

def graphNodeUpdateFunc (pGraph : Option Store) (nodeId properties : Value) :
    Result × Option Store :=
  let iNodeId := nodeId.int64 conv
  exec noTable pGraph fun store =>
    (.ok, iNodeId, { store with nodes := store.nodes.modify iNodeId.toInt fun row =>
      { row with properties := properties.toText conv } })

def graphNodeDeleteFunc (pGraph : Option Store) (nodeId : Value) : Result × Option Store :=
  let iNodeId := nodeId.int64 conv
  exec noTable pGraph fun store => (.ok, iNodeId, store.deleteNode iNodeId.toInt)

/-- `%f` writes a name where the statement has a number. -/
def graphEdgeUpdateFunc (pGraph : Option Store) (edgeId source target weight properties : Value) :
    Result × Option Store :=
  let iEdgeId := edgeId.int64 conv
  exec noTable pGraph fun store =>
    match weight.double conv with
    | .infinite _ => (.error, iEdgeId, store)
    | .finite rWeight =>
      (.ok, iEdgeId, { store with edges := store.edges.modify iEdgeId.toInt fun row =>
        { row with
          fromNode := (source.int64 conv).toInt
          toNode := (target.int64 conv).toInt
          weight := conv.decimal rWeight
          properties := properties.toText conv } })

def graphEdgeDeleteFunc (pGraph : Option Store) (edgeId : Value) : Result × Option Store :=
  let iEdgeId := edgeId.int64 conv
  exec noTable pGraph fun store => (.ok, iEdgeId, store.deleteEdge iEdgeId.toInt)

def graphNodeUpsertFunc (pGraph : Option Store) (nodeId properties : Value) :
    Result × Option Store :=
  let iNodeId := nodeId.int64 conv
  exec noTable pGraph fun store =>
    (.ok, iNodeId, { store with
      nodes := store.nodes.put iNodeId.toInt ⟨some "[]".toList, properties.toText conv⟩ })

def graphCascadeDeleteNodeFunc (pGraph : Option Store) (nodeId : Value) : Result × Option Store :=
  let iNodeId := nodeId.int64 conv
  exec noTable pGraph fun store =>
    (.ok, iNodeId, (store.detach iNodeId.toInt).deleteNode iNodeId.toInt)

inductive Call
  | nodeAdd (nodeId properties : Value)
  | edgeAdd (draws : Nat → Int64) (source target edgeType properties : Value)
  | nodeUpdate (nodeId properties : Value)
  | nodeDelete (nodeId : Value)
  | edgeUpdate (edgeId source target weight properties : Value)
  | edgeDelete (edgeId : Value)
  | nodeUpsert (nodeId properties : Value)
  | cascadeDelete (nodeId : Value)

def Call.run (pGraph : Option Store) : Call → Result × Option Store
  | .nodeAdd nodeId properties => graphNodeAddFunc conv pGraph nodeId properties
  | .edgeAdd draws source target edgeType properties =>
    graphEdgeAddFunc conv pGraph draws source target edgeType properties
  | .nodeUpdate nodeId properties => graphNodeUpdateFunc conv pGraph nodeId properties
  | .nodeDelete nodeId => graphNodeDeleteFunc conv pGraph nodeId
  | .edgeUpdate edgeId source target weight properties =>
    graphEdgeUpdateFunc conv pGraph edgeId source target weight properties
  | .edgeDelete edgeId => graphEdgeDeleteFunc conv pGraph edgeId
  | .nodeUpsert nodeId properties => graphNodeUpsertFunc conv pGraph nodeId properties
  | .cascadeDelete nodeId => graphCascadeDeleteNodeFunc conv pGraph nodeId

end Code

section Linked

variable {store : Store} {iNodeId key : Int}

theorem linked_put_node (h : store.Linked) (row : NodeRow) :
    Store.Linked { store with nodes := store.nodes.put iNodeId row } := by
  refine h.mono (fun _ _ hrow => hrow) fun id hid => ?_
  show ((store.nodes.put iNodeId row).get id).isSome
  rw [RowTable.get_put]
  split
  next => rfl
  next => exact hid

theorem linked_modify_node (h : store.Linked) (f : NodeRow → NodeRow) :
    Store.Linked { store with nodes := store.nodes.modify iNodeId f } := by
  refine h.mono (fun _ _ hrow => hrow) fun id hid => ?_
  show ((store.nodes.modify iNodeId f).get id).isSome
  rw [RowTable.get_modify]
  split
  next => rwa [Option.isSome_map]
  next => exact hid

theorem linked_put_edge_iff (h : store.Linked) (row : EdgeRow) :
    Store.Linked { store with edges := store.edges.put key row } ↔
      (store.nodes.get row.fromNode).isSome ∧ (store.nodes.get row.toNode).isSome := by
  constructor
  · intro hlinked
    refine hlinked key row ?_
    show (store.edges.put key row).get key = some row
    rw [RowTable.get_put, if_pos rfl]
  · intro hends iEdgeId row' hrow
    change (store.edges.put key row).get iEdgeId = some row' at hrow
    rw [RowTable.get_put] at hrow
    split at hrow
    next =>
      cases hrow
      exact hends
    next => exact h iEdgeId row' hrow

theorem linked_modify_edge_iff (h : store.Linked) (fromNode toNode : Int) (f : EdgeRow → EdgeRow)
    (hfrom : ∀ row, (f row).fromNode = fromNode) (hto : ∀ row, (f row).toNode = toNode) :
    Store.Linked { store with edges := store.edges.modify key f } ↔
      (store.edges.get key ≠ none →
        (store.nodes.get fromNode).isSome ∧ (store.nodes.get toNode).isSome) := by
  constructor
  · intro hlinked hsome
    obtain ⟨row, hget⟩ := Option.ne_none_iff_exists'.mp hsome
    have hrow : (store.edges.modify key f).get key = some (f row) := by
      rw [RowTable.get_modify, if_pos rfl, hget, Option.map_some]
    have hends := hlinked key (f row) hrow
    rwa [hfrom, hto] at hends
  · intro hsafe iEdgeId row' hrow
    change (store.edges.modify key f).get iEdgeId = some row' at hrow
    rw [RowTable.get_modify] at hrow
    split at hrow
    next heq =>
      subst heq
      obtain ⟨row, hget, rfl⟩ := Option.map_eq_some_iff.mp hrow
      rw [hfrom, hto]
      refine hsafe ?_
      rw [hget]
      exact Option.some_ne_none row
    next => exact h iEdgeId row' hrow

def Untouched (store : Store) (iNodeId : Int) : Prop :=
  ∀ x ∈ store.edges.rows, x.2.touches iNodeId = false

theorem linked_deleteNode_iff (h : store.Linked) :
    (store.deleteNode iNodeId).Linked ↔ Untouched store iNodeId := by
  constructor
  · intro hlinked x hx
    obtain ⟨hfrom, hto⟩ := hlinked x.1 x.2 (RowTable.get_eq_some.mpr hx)
    change ((store.nodes.delete iNodeId).get x.2.fromNode).isSome at hfrom
    change ((store.nodes.delete iNodeId).get x.2.toNode).isSome at hto
    rw [RowTable.get_delete] at hfrom hto
    rw [EdgeRow.touches, Bool.or_eq_false_iff, decide_eq_false_iff_not, decide_eq_false_iff_not]
    constructor
    · intro heq
      rw [if_pos heq] at hfrom
      cases hfrom
    · intro heq
      rw [if_pos heq] at hto
      cases hto
  · exact fun hfree => h.deleteNode fun iEdgeId row hrow =>
      hfree (iEdgeId, row) (RowTable.get_eq_some.mp hrow)

theorem linked_cascade (h : store.Linked) : ((store.detach iNodeId).deleteNode iNodeId).Linked := by
  refine h.detach.deleteNode fun iEdgeId row hrow => ?_
  rw [get_detach, Option.filter_eq_some_iff, Bool.not_eq_true'] at hrow
  exact hrow.2

end Linked

section Runs

variable (conv : Conversions)

inductive Action
  | statement (a : VTab.Action)
  | call (f : Call)

def step (c : VTab.Config) : Action → Option VTab.Config
  | .statement a => VTab.step conv c a
  | .call f =>
    if c.frames = [] then (f.run conv (some c.store)).2.map fun store => { c with store } else none

def EndsStored (store : Store) (source target : Value) : Prop :=
  (store.nodes.get (source.int64 conv).toInt).isSome ∧
    (store.nodes.get (target.int64 conv).toInt).isSome

def isFinite : VTab.Double → Bool
  | .finite _ => true
  | .infinite _ => false

def Call.Safe (store : Store) : Call → Prop
  | .edgeAdd draws source target _ _ =>
    newRowid store.edges draws ≠ none → EndsStored conv store source target
  | .edgeUpdate edgeId source target weight _ =>
    isFinite (weight.double conv) = true → store.edges.get (edgeId.int64 conv).toInt ≠ none →
      EndsStored conv store source target
  | .nodeDelete nodeId => Untouched store (nodeId.int64 conv).toInt
  | _ => True

def Safe (c : VTab.Config) : Action → Prop
  | .statement (.start _) => True
  | .statement (.call _) => c.NextCall fun argv => argv.length = 1 →
    VTab.isEdge ((argv.getD 0 .null).int64 conv) = false →
      Untouched c.store ((argv.getD 0 .null).int64 conv).toInt
  | .call f => f.Safe conv c.store

section Decidable

instance decidableEndsStored (store : Store) (source target : Value) :
    Decidable (EndsStored conv store source target) :=
  inferInstanceAs (Decidable (_ ∧ _))

instance decidableUntouched (store : Store) (iNodeId : Int) : Decidable (Untouched store iNodeId) :=
  inferInstanceAs (Decidable (∀ _ ∈ _, _))

instance Call.decidableSafe (store : Store) : (f : Call) → Decidable (f.Safe conv store)
  | .edgeAdd _ _ _ _ _ => inferInstanceAs (Decidable (_ → _))
  | .edgeUpdate _ _ _ _ _ => inferInstanceAs (Decidable (_ → _ → _))
  | .nodeDelete _ => inferInstanceAs (Decidable (Untouched _ _))
  | .nodeAdd _ _ | .nodeUpdate _ _ | .edgeDelete _ | .nodeUpsert _ _ | .cascadeDelete _ =>
    isTrue trivial

instance decidableSafe (c : VTab.Config) : (a : Action) → Decidable (Safe conv c a)
  | .statement (.start _) => isTrue trivial
  | .statement (.call _) => VTab.Config.decidableNextCall c _
  | .call f => Call.decidableSafe conv c.store f

end Decidable

variable {conv} {c c' : VTab.Config} {store store' : Store}

theorem Call.linked_iff (f : Call) (h : store.Linked)
    (hrun : (f.run conv (some store)).2 = some store') : store'.Linked ↔ f.Safe conv store := by
  cases f with
  | nodeAdd nodeId properties =>
    simp only [Call.run, graphNodeAddFunc, exec, Option.some.injEq] at hrun
    subst hrun
    refine iff_of_true ?_ trivial
    split
    next => exact h
    next hinsert => exact h.insertNode hinsert
  | edgeAdd draws source target edgeType properties =>
    simp only [Call.run, graphEdgeAddFunc, exec, Option.some.injEq] at hrun
    subst hrun
    cases hkey : newRowid store.edges draws with
    | none => exact iff_of_true h fun hsome => absurd hkey hsome
    | some key =>
      have hsome : newRowid store.edges draws ≠ none := hkey ▸ Option.some_ne_none key
      exact (linked_put_edge_iff h _).trans ⟨fun hends _ => hends, fun hsafe => hsafe hsome⟩
  | nodeUpdate nodeId properties =>
    cases hrun
    exact iff_of_true (linked_modify_node h _) trivial
  | nodeDelete nodeId =>
    cases hrun
    exact linked_deleteNode_iff h
  | edgeUpdate edgeId source target weight properties =>
    simp only [Call.run, graphEdgeUpdateFunc, exec, Option.some.injEq] at hrun
    subst hrun
    cases hweight : weight.double conv with
    | infinite negative =>
      refine iff_of_true h fun hfinite => ?_
      rw [hweight] at hfinite
      cases hfinite
    | finite rWeight =>
      have hfinite : isFinite (weight.double conv) = true := by rw [hweight, isFinite]
      exact (linked_modify_edge_iff h (source.int64 conv).toInt (target.int64 conv).toInt _
        (fun _ => rfl) fun _ => rfl).trans ⟨fun hends _ => hends, fun hsafe => hsafe hfinite⟩
  | edgeDelete edgeId =>
    cases hrun
    exact iff_of_true h.deleteEdge trivial
  | nodeUpsert nodeId properties =>
    cases hrun
    exact iff_of_true (linked_put_node h _) trivial
  | cascadeDelete nodeId =>
    cases hrun
    exact iff_of_true (linked_cascade h) trivial

variable {draws : Nat → Int64} {argv : List Value}

theorem linked_effect (h : store.Linked) (heffect : VTab.Effect conv store draws argv store')
    (hsafe : argv.length = 1 → VTab.isEdge ((argv.getD 0 .null).int64 conv) = false →
      Untouched store ((argv.getD 0 .null).int64 conv).toInt) : store'.Linked := by
  cases heffect with
  | same => exact h
  | upsert row => exact linked_put_node h row
  | newNode key row => exact linked_put_node h row
  | newEdge key row _ _ hfrom hto =>
    exact (linked_put_edge_iff h row).mpr
      ⟨Option.isSome_iff_ne_none.mpr hfrom, Option.isSome_iff_ne_none.mpr hto⟩
  | modifyNode id f => exact linked_modify_node h f
  | deleteNode hargv hnode => exact (linked_deleteNode_iff h).mpr (hsafe hargv hnode)
  | deleteEdge => exact h.deleteEdge

structure Linked (c : VTab.Config) : Prop where
  store : c.store.Linked
  saved : c.saved.1.Linked

def DeletesNode (conv : Conversions) (c : VTab.Config) (iNodeId : Int) : Prop :=
  ∃ argv calls frames, c.frames = (argv :: calls) :: frames ∧ argv.length = 1 ∧
    VTab.isEdge ((argv.getD 0 .null).int64 conv) = false ∧
    ((argv.getD 0 .null).int64 conv).toInt = iNodeId

theorem safe_call_iff :
    Safe conv c (.statement (.call draws)) ↔ ∀ iNodeId, DeletesNode conv c iNodeId →
      Untouched c.store iNodeId := by
  constructor
  · rintro hsafe iNodeId ⟨argv, calls, frames, hframes, hargv, hnode, rfl⟩
    exact hsafe argv calls frames hframes hargv hnode
  · exact fun hsafe argv calls frames hframes hargv hnode =>
      hsafe _ ⟨argv, calls, frames, hframes, hargv, hnode, rfl⟩

theorem DeletesNode.step {iNodeId : Int} (h : DeletesNode conv c iNodeId)
    (hstep : VTab.step conv c (.call draws) = some c') :
    c'.store = c.store.deleteNode iNodeId := by
  obtain ⟨argv, calls, frames, hframes, hargv, hnode, rfl⟩ := h
  have hupdate : VTab.graphUpdate conv c.store draws argv = .done .ok none none
      (c.store.deleteNode ((argv.getD 0 .null).int64 conv).toInt) := by
    rw [VTab.graphUpdate, if_pos hargv, VTab.deleteRow, if_neg (Bool.eq_false_iff.mp hnode)]
    rfl
  simp only [VTab.step, hframes, hupdate, Option.some.injEq] at hstep
  subst hstep
  rfl

theorem DeletesNode.eq {i j : Int} (hi : DeletesNode conv c i) (hj : DeletesNode conv c j) :
    i = j := by
  obtain ⟨argv, calls, frames, hframes, -, -, rfl⟩ := hi
  obtain ⟨argv', calls', frames', hframes', -, -, rfl⟩ := hj
  cases hframes.symm.trans hframes'
  rfl

theorem linked_call_iff (h : Linked c) (hstep : VTab.step conv c (.call draws) = some c') :
    (c'.store.Linked ↔ Safe conv c (.statement (.call draws))) ∧ c'.saved = c.saved := by
  rw [safe_call_iff]
  refine ⟨?_, ?_⟩
  · by_cases hdelete : ∃ iNodeId, DeletesNode conv c iNodeId
    · obtain ⟨iNodeId, hdelete⟩ := hdelete
      rw [hdelete.step hstep, linked_deleteNode_iff h.store]
      exact ⟨fun hfree _ hother => hdelete.eq hother ▸ hfree, fun hsafe => hsafe iNodeId hdelete⟩
    · refine iff_of_true ?_ fun iNodeId hother => absurd ⟨iNodeId, hother⟩ hdelete
      cases VTab.step_stepped hstep with
      | finish => exact h.store
      | undo => exact h.saved
      | nest => exact h.store
      | take draws argv calls frames hframes store' heffect =>
        exact linked_effect h.store heffect fun hargv hnode =>
          absurd ⟨_, argv, calls, frames, hframes, hargv, hnode, rfl⟩ hdelete
  · cases VTab.step_stepped hstep <;> rfl

theorem linked_step_iff {a : Action} (h : Linked c) (hstep : step conv c a = some c') :
    (c'.store.Linked ↔ Safe conv c a) ∧ (c'.store.Linked → Linked c') := by
  cases a with
  | call f =>
    simp only [step] at hstep
    split at hstep
    next =>
      obtain ⟨store', hrun, rfl⟩ := Option.map_eq_some_iff.mp hstep
      exact ⟨f.linked_iff h.store hrun, fun hlinked => ⟨hlinked, h.saved⟩⟩
    next => cases hstep
  | statement a =>
    cases a with
    | start statement =>
      have hstep : VTab.step conv c (.start statement) = some c' := hstep
      cases VTab.step_stepped hstep with
      | start => exact ⟨iff_of_true h.store trivial, fun _ => ⟨h.store, h.store⟩⟩
    | call draws =>
      obtain ⟨hiff, hsaved⟩ := linked_call_iff h hstep
      exact ⟨hiff, fun hlinked => ⟨hlinked, hsaved ▸ h.saved⟩⟩

theorem linked_start : Linked .start := by
  have hempty : Store.Linked .empty := fun iEdgeId row hrow => by cases hrow
  exact ⟨hempty, hempty⟩

/-- In every run of calls and of statements on the virtual table each edge names stored nodes in
every state, if and only if each step is safe. -/
theorem linked_iff_safe (conv : Conversions) (actions : List Action)
    (hrun : Machine.run (step conv) .start actions = some c) :
    (∀ m c', Machine.run (step conv) .start (actions.take m) = some c' → c'.store.Linked) ↔
      ∀ ca ∈ Machine.trace (step conv) .start actions, Safe conv ca.1 ca.2 :=
  Machine.run_iff (P := fun c => c.store.Linked) (I := Linked)
    (fun _ _ _ hlinked hstep => linked_step_iff hlinked hstep) linked_start.store linked_start hrun

def sampleActions : List Action :=
  [.call (.nodeAdd (.integer 1) (.text "\x7b\x7d".toList)),
    .call (.nodeUpsert (.integer 2) .null),
    .call (.edgeAdd (fun _ => 0) (.integer 1) (.integer 2) (.text "KNOWS".toList) .null)] ++
  (VTab.insertActions (VTab.nodeColumns 3)).map .statement ++
  [.call (.cascadeDelete (.integer 1))]

theorem sample_linked : ∃ c,
    Machine.run (step VTab.plainConversions) .start sampleActions = some c ∧
      c.store.nodes.rows.length = 2 ∧ c.store.edges = .empty ∧
      ∀ m c', Machine.run (step VTab.plainConversions) .start (sampleActions.take m) = some c' →
        c'.store.Linked := by
  refine ⟨_, rfl, by decide +kernel, by decide +kernel, ?_⟩
  exact (linked_iff_safe VTab.plainConversions sampleActions rfl).mpr (by decide +kernel)

end Runs

section Cycles

variable {conv : Conversions} {c : VTab.Config} {store : Store}

def ids (store : Store) : List Int := store.nodes.rows.map (·.1)

def ends (store : Store) : List Traverse.Edge :=
  store.edges.rows.map fun x => ⟨x.2.fromNode, x.2.toNode⟩

def tables (store : Store) : Traverse.Tables := ⟨ids store, some (ends store)⟩

theorem nodup_ids (store : Store) : (ids store).Nodup :=
  List.pairwise_map.mpr (store.nodes.sorted.imp fun hlt => ne_of_lt hlt)

theorem mem_ids {iNodeId : Int} : iNodeId ∈ ids store ↔ (store.nodes.get iNodeId).isSome := by
  rw [ids, List.mem_map, Option.isSome_iff_exists]
  simp only [RowTable.get_eq_some, Prod.exists, exists_and_right, exists_eq_right]

theorem stored_of_linked (h : store.Linked) : Traverse.Stored (ids store) (ends store) := by
  intro e he
  obtain ⟨x, hx, rfl⟩ := List.mem_map.mp he
  obtain ⟨hfrom, hto⟩ := h x.1 x.2 (RowTable.get_eq_some.mpr hx)
  exact ⟨mem_ids.mpr hfrom, mem_ids.mpr hto⟩

theorem reached_linked (h : Machine.Reached (step conv) (Safe conv) .start c) : Linked c := by
  refine h.invariant linked_start fun c a c' hc hok hstep => ?_
  obtain ⟨hiff, hkeep⟩ := linked_step_iff hc hstep
  exact hkeep (hiff.mpr hok)

/-- Where all steps were safe and there is a node, what `graph_has_cycle` calls a cycle is one, and
it misses a cycle only where the graph is in parts. -/
theorem hasCycle_reached (h : Machine.Reached (step conv) (Safe conv) .start c)
    (hne : ids c.store ≠ []) :
    ∃ verdict, Traverse.graphHasCycleFunc (tables c.store) = some verdict ∧
      Traverse.FindsCycle (ids c.store) (ends c.store) verdict :=
  Traverse.graphHasCycleFunc_cycle (nodup_ids c.store) (stored_of_linked (reached_linked h).store)
    hne

def cycleActions : List Action :=
  [.call (.nodeAdd (.integer 1) .null), .call (.nodeAdd (.integer 2) .null),
    .call (.edgeAdd (fun _ => 0) (.integer 1) (.integer 2) .null .null),
    .call (.edgeAdd (fun _ => 0) (.integer 2) (.integer 1) .null .null)]

theorem sample_cycle : ∃ c,
    Machine.run (step VTab.plainConversions) .start cycleActions = some c ∧
      Traverse.graphHasCycleFunc (tables c.store) = some 1 ∧ Traverse.Cycle (ends c.store) := by
  have hreached : ∀ c, Machine.run (step VTab.plainConversions) .start cycleActions = some c →
      Machine.Reached (step VTab.plainConversions) (Safe VTab.plainConversions) .start c :=
    fun c hrun => .run .start cycleActions hrun (by decide +kernel)
  refine ⟨_, rfl, ?_⟩
  obtain ⟨verdict, hverdict, hfinds⟩ := hasCycle_reached (hreached _ rfl) (by decide +kernel)
  have hone : verdict = 1 := Option.some.inj (hverdict.symm.trans (by decide +kernel))
  exact ⟨hone ▸ hverdict, hfinds.sound hone⟩

end Cycles

end SqliteMultimodal.Graph.Functions
