import SqliteMultimodal.Graph.VTab.Calls

namespace SqliteMultimodal.Graph.VTab

variable (conv : Conversions)

section Defs

def Value.number : Value → Value
  | .integer n => .real (.finite n.toInt)
  | v => v

def Seen.Is (seen seen' : Seen) : Prop :=
  seen.rowid = seen'.rowid ∧
    seen.columns.values.map Value.number = seen'.columns.values.map Value.number

def Seen.assign (argv : List Value) (seen : Seen) : Seen :=
  { seen with columns :=
      if seen.columns.type = .text "node".toList then
        { seen.columns with labels := argv.getD 6 .null, properties := argv.getD 9 .null }
      else
        { seen.columns with
          fromId := argv.getD 4 .null
          toId := argv.getD 5 .null
          relType := argv.getD 7 .null
          weight := argv.getD 8 .null
          properties := argv.getD 9 .null } }

structure Updates (argv : List Value) (rowid : Int64) : Prop where
  length : 11 ≤ argv.length
  old : argv.getD 0 .null = .integer rowid
  new : (argv.getD 1 .null).int64 conv = rowid

/-- If `graphUpdate` returns `SQLITE_OK`, a scan shows the new values in the row and every other row
as it was. -/
def UpdatesRow (store : Store) (argv : List Value) (before : List Seen) (seen : Seen)
    (after : List Seen) : Prop :=
  ∀ store', Ends conv store [argv] store' → ∃ new, new.Is (seen.assign argv) ∧
    scan conv store' 0 [] = some (before ++ new :: after)

/-- No column of an edge that `graphUpdate` assigns is given a value. -/
def Unassigned (argv : List Value) : Prop :=
  argv.getD 4 .null = .null ∧ argv.getD 5 .null = .null ∧ argv.getD 8 .null = .null ∧
    argv.getD 9 .null = .null

/-- The `UPDATE` of the virtual table that the call would run has no number to write, or it selects
an edge, whose call runs it again. -/
def Unanswered (store : Store) (rowid : Int64) (argv : List Value) : Prop :=
  ¬ Unassigned argv ∧ ((∃ negative, (argv.getD 8 .null).double conv = .infinite negative) ∨
    store.edges.get (rowid &&& ~~~edgeBit).toInt ≠ none)

def Assignable (store : Store) (seen : Seen) (argv : List Value) : Prop :=
  if isEdge seen.rowid then
    Unanswered conv store seen.rowid argv ∨
      seen.Is (seen.assign argv) ∧ (argv.getD 9 .null = .null ∨
        ∀ row, store.nodes.get (seen.rowid &&& ~~~edgeBit).toInt = some row →
          Value.ofText row.properties = .ofText ((argv.getD 9 .null).toText conv))
  else
    argv.getD 6 .null = seen.columns.labels ∧
      if argv.getD 9 .null = .null then seen.columns.properties = .null
      else argv.getD 9 .null = .ofText ((argv.getD 9 .null).toText conv)

/-- An id that a `sqlite3_int64` holds, of either sign. -/
def Fits (k : Int) : Prop := -9223372036854775808 ≤ k ∧ k ≤ 9223372036854775807

def Seen.isNode (seen : Seen) : Bool := seen.columns.type = .text "node".toList

def Seen.setProperties (id : Int64) (properties : Option Text) (seen : Seen) : Seen :=
  if seen.isNode ∧ seen.columns.id = .integer id then
    { seen with columns := { seen.columns with
      properties := (properties.map fun t => .text t).getD seen.columns.properties } }
  else seen

def setNodeProperties (store : Store) (id : Int64) (properties : Option Text) : Store :=
  { store with nodes := store.nodes.modify id.toInt fun row =>
    { row with properties := (properties.map some).getD row.properties } }

/-- The arguments with which the statement calls `graphUpdate` for a row. -/
def Nested.arguments (nested : Nested) (seen : Seen) : List Value :=
  .integer seen.rowid :: .integer seen.rowid :: ({ seen.columns with
    fromId := (nested.fromId.map .integer).getD seen.columns.fromId
    toId := (nested.toId.map .integer).getD seen.columns.toId
    weight := (nested.weight.map fun q => .real (.finite q)).getD seen.columns.weight
    properties := (nested.properties.map .text).getD seen.columns.properties } : Columns).values

end Defs

variable {conv} {store store' : Store} {argv : List Value} {calls : List (List Value)}
  {rowid id : Int64} {seen : Seen} {before after : List Seen}

section Rows

@[simp] theorem isNode_nodeSeen (x : Int × NodeRow) : (nodeSeen x).isNode = true := rfl

@[simp] theorem isNode_edgeSeen (x : Int × EdgeRow) : (edgeSeen x).isNode = false := rfl

@[simp] theorem cString_cString (t : Text) : Value.cString (Value.cString t) = Value.cString t :=
  List.takeWhile_idem

theorem ofInt_eq_of_fits {k : Int} (hk : Fits k) (id : Int64) :
    Int64.ofInt k = id ↔ k = id.toInt := by
  constructor
  · rintro rfl
    rw [Int64.toInt_ofInt_of_le hk.1 (Int.lt_add_one_of_le hk.2)]
  · rintro rfl
    exact Int64.ofInt_toInt id

theorem setProperties_none (id : Int64) (seen : Seen) : seen.setProperties id none = seen := by
  unfold Seen.setProperties
  split <;> rfl

theorem allRows_setNodeProperties (hids : Ids Fits store) (id : Int64) (properties : Option Text) :
    allRows (setNodeProperties store id properties) =
      (allRows store).map (Seen.setProperties id (properties.map Value.cString)) := by
  have hnodes : ∀ x ∈ store.nodes.rows,
      nodeSeen (x.1, if x.1 = id.toInt then
        { x.2 with properties := (properties.map some).getD x.2.properties } else x.2) =
        (nodeSeen x).setProperties id (properties.map Value.cString) := by
    intro x hx
    have hid := ofInt_eq_of_fits (hids.1 x.1 (RowTable.get_ne_none hx)) id
    by_cases hk : x.1 = id.toInt
    · rw [if_pos hk, Seen.setProperties, if_pos ⟨rfl, congrArg Value.integer (hid.mpr hk)⟩]
      cases properties <;> rfl
    · rw [if_neg hk, Seen.setProperties, if_neg fun h => hk (hid.mp (Value.integer.inj h.2))]
  rw [allRows, allRows, List.map_append, List.map_map, List.map_map]
  refine congrArg₂ (· ++ ·) ?_ (List.map_congr_left fun x hx => ?_)
  · rw [setNodeProperties, RowTable.modify, List.map_map]
    exact List.map_congr_left hnodes
  · rw [Function.comp_apply, Seen.setProperties, if_neg fun h => Bool.false_ne_true h.1]

theorem mem_allRows_node (hids : Ids Fits store) (hseen : seen ∈ allRows store)
    (hnode : seen.isNode = true) (hid : seen.columns.id = .integer id) :
    ∃ row, store.nodes.get id.toInt = some row ∧ seen = nodeSeen (id.toInt, row) := by
  obtain hseen | hseen := List.mem_append.mp hseen
  · obtain ⟨⟨k, row⟩, hx, rfl⟩ := List.mem_map.mp hseen
    obtain rfl := (ofInt_eq_of_fits (hids.1 _ (RowTable.get_ne_none hx)) id).mp
      (Value.integer.inj hid)
    exact ⟨row, RowTable.get_eq_some.mpr hx, rfl⟩
  · obtain ⟨x, -, rfl⟩ := List.mem_map.mp hseen
    exact absurd hnode Bool.false_ne_true

theorem allRows_pairwise (hids : Ids Fits store) : (allRows store).Pairwise fun seen seen' =>
    seen.isNode = seen'.isNode → seen.columns.id ≠ seen'.columns.id := by
  rw [allRows, List.pairwise_append, List.pairwise_map, List.pairwise_map]
  refine ⟨store.nodes.sorted.imp_of_mem fun hx hy hlt _ heq => ?_,
    store.edges.sorted.imp_of_mem fun hx hy hlt _ heq => ?_, fun seen hnode seen' hedge htype => ?_⟩
  · have hid := (ofInt_eq_of_fits (hids.1 _ (RowTable.get_ne_none hx)) _).mp (Value.integer.inj heq)
    rw [(ofInt_eq_of_fits (hids.1 _ (RowTable.get_ne_none hy)) _).mp rfl, hid] at hlt
    exact lt_irrefl _ hlt
  · have hid := (ofInt_eq_of_fits (hids.2 _ (RowTable.get_ne_none hx)) _).mp (Value.integer.inj heq)
    rw [(ofInt_eq_of_fits (hids.2 _ (RowTable.get_ne_none hy)) _).mp rfl, hid] at hlt
    exact lt_irrefl _ hlt
  · obtain ⟨x, -, rfl⟩ := List.mem_map.mp hnode
    obtain ⟨y, -, rfl⟩ := List.mem_map.mp hedge
    exact absurd htype (by simp)

end Rows

section Ends

theorem and_not_eq (h : isEdge rowid = false) : rowid &&& ~~~edgeBit = rowid := by
  conv_lhs => rw [← or_and_not h]
  rw [Int64.and_assoc, Int64.and_self, or_and_not h]

theorem toText_eq_none {v : Value} : v.toText conv = none ↔ v = .null := by
  cases v <;> simp [Value.toText]

theorem assigned_eq_none {α : Type} {i : Nat} {f : Value → α} :
    assigned argv i f = none ↔ argv.getD i .null = .null := by
  unfold assigned
  split
  next h => exact iff_of_true rfl h
  next h => exact iff_of_false (Option.some_ne_none _) h

theorem Updates.eq (h : Updates conv argv rowid) (store : Store) (draws : Nat → Int64) :
    graphUpdate conv store draws argv = updateRow conv store argv := by
  have hlength := h.length
  rw [graphUpdate, if_neg (by omega), if_neg (fun hnull => by rw [h.old] at hnull; cases hnull.2.1),
    if_pos hlength]

theorem Updates.node (h : Updates conv argv rowid) (hrowid : isEdge rowid = false) :
    updateRow conv store argv = .done .ok none none
      (setNodeProperties store rowid ((argv.getD 9 .null).toText conv)) := by
  have hold : (argv.getD 0 .null).int64 conv = rowid := congrArg (Value.int64 conv) h.old
  have hmodify : store.nodes.modify rowid.toInt (fun row => row) = store.nodes :=
    RowTable.ext_get fun k => by
      rw [RowTable.get_modify]
      split
      · exact Option.map_id'
      · rfl
  rw [updateRow]
  simp only
  rw [hold, h.new, if_neg (not_not_intro rfl), if_neg (Bool.not_eq_true _ ▸ hrowid)]
  cases (argv.getD 9 .null).toText conv with
  | none => simp only [setNodeProperties, Option.map_none, Option.getD_none, hmodify]
  | some properties => rfl

theorem Updates.edge (h : Updates conv argv rowid) (hrowid : isEdge rowid = true) (store : Store) :
    (Unassigned argv ∧ updateRow conv store argv = .done .ok none none store) ∨
      (¬ Unassigned argv ∧ (∃ negative, (argv.getD 8 .null).double conv = .infinite negative) ∧
        ∃ zErr, updateRow conv store argv = .fail .error zErr store) ∨
      ∃ nested : Nested, ¬ Unassigned argv ∧
        (∀ negative, (argv.getD 8 .null).double conv ≠ .infinite negative) ∧
        nested.edgeId = rowid &&& ~~~edgeBit ∧
        nested.properties = (argv.getD 9 .null).toText conv ∧
        updateRow conv store argv = .exec nested := by
  have hold : (argv.getD 0 .null).int64 conv = rowid := congrArg (Value.int64 conv) h.old
  have hassigned : (assigned argv 4 (Value.int64 conv) = none ∧
      assigned argv 5 (Value.int64 conv) = none ∧ assigned argv 8 (Value.double conv) = none ∧
      (argv.getD 9 .null).toText conv = none) ↔ Unassigned argv := by
    rw [assigned_eq_none, assigned_eq_none, assigned_eq_none, toText_eq_none, Unassigned]
  rw [updateRow]
  simp only
  rw [hold, h.new, if_neg (not_not_intro rfl), if_pos hrowid]
  by_cases hnone : Unassigned argv
  · rw [if_pos (hassigned.mpr hnone)]
    exact .inl ⟨hnone, rfl⟩
  rw [if_neg (mt hassigned.mp hnone)]
  unfold assigned
  by_cases hweight : argv.getD 8 .null = .null
  · rw [if_pos hweight, hweight]
    exact .inr (.inr ⟨_, hnone, fun negative heq => (by cases heq), rfl, rfl, rfl⟩)
  · rw [if_neg hweight]
    cases hdouble : (argv.getD 8 .null).double conv with
    | infinite negative => exact .inr (.inl ⟨hnone, ⟨negative, rfl⟩, _, rfl⟩)
    | finite q =>
      exact .inr (.inr ⟨_, hnone, fun negative heq => (by cases heq), rfl, rfl, rfl⟩)

theorem Nested.updates (nested : Nested) (seen : Seen) :
    Updates conv (nested.arguments seen) seen.rowid where
  length := le_rfl
  old := rfl
  new := rfl

theorem Nested.calls_eq (nested : Nested) (store : Store) : nested.statement.calls conv store =
    ((store.nodes.rows.filter fun x => Int64.ofInt x.1 = nested.edgeId).map fun x =>
      nested.arguments (nodeSeen x)) ++
    (store.edges.rows.filter fun x => Int64.ofInt x.1 = nested.edgeId).map fun x =>
      nested.arguments (edgeSeen x) := by
  have hcalls : nested.statement.calls conv store = (((scan conv store 0 []).getD []).filter
      fun seen => seen.columns.id = .integer nested.edgeId).map nested.arguments := rfl
  rw [hcalls, scan_full, Option.getD_some, allRows, List.filter_append, List.filter_map,
    List.filter_map, List.map_append, List.map_map, List.map_map]
  simp [nodeSeen, edgeSeen, Function.comp_def]

theorem ends_node (h : Updates conv argv rowid) (hrowid : isEdge rowid = false) :
    Ends conv store (argv :: calls) store' ↔
      Ends conv (setNodeProperties store rowid ((argv.getD 9 .null).toText conv)) calls store' :=
  ends_done_iff fun _ => (h.eq _ _).trans (h.node hrowid)

def EdgeCall (conv : Conversions) (id : Int64) (argv : List Value) : Prop :=
  ∃ rowid, Updates conv argv rowid ∧ isEdge rowid = true ∧ rowid &&& ~~~edgeBit = id ∧
    ¬ Unassigned argv

theorem Nested.edgeCall (nested : Nested) {x : Int × EdgeRow} (hx : Int64.ofInt x.1 = id)
    (hid : isEdge id = false) : EdgeCall conv id (nested.arguments (edgeSeen x)) := by
  refine ⟨_, nested.updates _, isEdge_or _, ?_, fun hnone => ?_⟩
  · rw [edgeSeen, hx]
    exact or_and_not hid
  · have hfrom : (nested.fromId.map Value.integer).getD (edgeSeen x).columns.fromId = .null := hnone.1
    cases hvalue : nested.fromId <;> rw [hvalue] at hfrom <;> cases hfrom

theorem edgeCall_never_ends {call : List Value} {earlier : List (List Value)}
    (hends : Ends conv store (earlier ++ call :: calls) store') (hcall : EdgeCall conv id call)
    (hstored : store.edges.get id.toInt ≠ none)
    (hearlier : ∀ argv ∈ earlier, ∃ rowid, Updates conv argv rowid ∧ isEdge rowid = false) :
    False := by
  generalize hall : earlier ++ call :: calls = all at hends
  induction hends generalizing earlier call calls with
  | nil => simp at hall
  | @done store store₁ store' draws argv later _ _ hdone hcalls ih =>
    cases earlier with
    | nil =>
      obtain ⟨rfl, rfl⟩ := List.cons.inj hall
      obtain ⟨rowid, hupdates, hedge, -, hassigned⟩ := hcall
      rw [hupdates.eq] at hdone
      obtain ⟨hnone, -⟩ | ⟨-, -, _, hfail⟩ | ⟨_, -, -, -, -, hexec⟩ := hupdates.edge hedge store
      · exact hassigned hnone
      · rw [hfail] at hdone
        cases hdone
      · rw [hexec] at hdone
        cases hdone
    | cons first earlier =>
      obtain ⟨rfl, htail⟩ := List.cons.inj hall
      obtain ⟨rowid, hupdates, hnode⟩ := hearlier first List.mem_cons_self
      rw [hupdates.eq, hupdates.node hnode] at hdone
      cases hdone
      exact ih hcall hstored (fun argv h => hearlier argv (List.mem_cons_of_mem _ h)) htail
  | @exec store store₁ store' draws argv later nested hexec hnested hcalls ih ih' =>
    cases earlier with
    | nil =>
      obtain ⟨rfl, rfl⟩ := List.cons.inj hall
      obtain ⟨rowid, hupdates, hedge, rfl, hassigned⟩ := hcall
      have hid : nested.edgeId = rowid &&& ~~~edgeBit := by
        rw [hupdates.eq] at hexec
        obtain ⟨-, hsame⟩ | ⟨-, -, _, hfail⟩ | ⟨_, -, -, hid, -, heq⟩ := hupdates.edge hedge store
        · rw [hsame] at hexec
          cases hexec
        · rw [hfail] at hexec
          cases hexec
        · rw [heq] at hexec
          cases hexec
          exact hid
      obtain ⟨row, hrow⟩ := Option.ne_none_iff_exists'.mp hstored
      have hmem : (_, row) ∈ store.edges.rows.filter fun x => Int64.ofInt x.1 = nested.edgeId :=
        List.mem_filter.mpr ⟨RowTable.get_eq_some.mp hrow,
          decide_eq_true ((Int64.ofInt_toInt _).trans hid.symm)⟩
      obtain ⟨x, rows, hrows⟩ := List.exists_cons_of_ne_nil (List.ne_nil_of_mem hmem)
      have hx : x ∈ store.edges.rows.filter fun x => Int64.ofInt x.1 = nested.edgeId := by
        rw [hrows]
        exact List.mem_cons_self
      refine ih (nested.edgeCall ((of_decide_eq_true (List.mem_filter.mp hx).2).trans hid)
        (isEdge_and_not rowid)) hstored (fun argv hargv => ?_)
        ((nested.calls_eq store).trans (by rw [hrows, List.map_cons])).symm
      obtain ⟨y, hy, rfl⟩ := List.mem_map.mp hargv
      refine ⟨_, nested.updates _, ?_⟩
      have hy := of_decide_eq_true (List.mem_filter.mp hy).2
      rw [nodeSeen, hy, hid]
      exact isEdge_and_not rowid
    | cons first earlier =>
      obtain ⟨rfl, -⟩ := List.cons.inj hall
      obtain ⟨rowid, hupdates, hnode⟩ := hearlier first List.mem_cons_self
      rw [hupdates.eq, hupdates.node hnode] at hexec
      cases hexec

theorem Nested.calls_of_node (hids : Ids Fits store) (nested : Nested)
    (hedge : store.edges.get nested.edgeId.toInt = none) : nested.statement.calls conv store =
      ((store.nodes.get nested.edgeId.toInt).map fun row =>
        nested.arguments (nodeSeen (nested.edgeId.toInt, row))).toList := by
  have hedges : (store.edges.rows.filter fun x => Int64.ofInt x.1 = nested.edgeId) = [] :=
    List.filter_eq_nil_iff.mpr fun x hx => by
      have hid := ofInt_eq_of_fits (hids.2 _ (RowTable.get_ne_none hx)) nested.edgeId
      simpa [hid] using RowTable.get_eq_none.mp hedge x hx
  have hnodes : (store.nodes.rows.filter fun x => Int64.ofInt x.1 = nested.edgeId) =
      store.nodes.rows.filter fun x => x.1 = nested.edgeId.toInt :=
    List.filter_congr fun x hx => decide_eq_decide.mpr
      (ofInt_eq_of_fits (hids.1 _ (RowTable.get_ne_none hx)) _)
  rw [nested.calls_eq, hedges, hnodes, RowTable.filter_key]
  cases store.nodes.get nested.edgeId.toInt <;> rfl

theorem setProperties_nested (hids : Ids Fits store) {row : NodeRow}
    (hrow : store.nodes.get id.toInt = some row) (properties : Option Text)
    (hseen : seen ∈ allRows store) :
    seen.setProperties id ((((properties.map Value.text).getD (.ofText row.properties)).toText
      conv).map Value.cString) = seen.setProperties id (properties.map Value.cString) := by
  cases properties with
  | some t => simp [Value.toText]
  | none =>
    rw [Option.map_none, Option.getD_none, Option.map_none, setProperties_none, Seen.setProperties]
    split
    next hnode =>
      obtain ⟨row', hrow', rfl⟩ := mem_allRows_node hids hseen hnode.1 hnode.2
      obtain rfl := Option.some.inj (hrow.symm.trans hrow')
      cases hproperties : row.properties <;>
        simp [nodeSeen, hproperties, Value.ofText, Value.toText]
    next => rfl

theorem nested_ends (conv : Conversions) (hids : Ids Fits store) (nested : Nested)
    (hid : isEdge nested.edgeId = false) (hedge : store.edges.get nested.edgeId.toInt = none) :
    ∃ store₁, (∀ store', Ends conv store (nested.statement.calls conv store) store' ↔
        store' = store₁) ∧
      allRows store₁ = (allRows store).map (Seen.setProperties nested.edgeId
        (nested.properties.map Value.cString)) := by
  rw [nested.calls_of_node hids hedge]
  cases hnode : store.nodes.get nested.edgeId.toInt with
  | none =>
    have hmap : (allRows store).map (Seen.setProperties nested.edgeId
        (nested.properties.map Value.cString)) = (allRows store).map id :=
      List.map_congr_left fun seen hseen => by
        rw [Seen.setProperties, if_neg]
        · rfl
        · intro h
          obtain ⟨row, hrow, -⟩ := mem_allRows_node hids hseen h.1 h.2
          cases hnode.symm.trans hrow
    exact ⟨store, fun store' => ends_nil, by rw [hmap, List.map_id]⟩
  | some row =>
    have hupdates : Updates conv (nested.arguments (nodeSeen (nested.edgeId.toInt, row)))
        nested.edgeId := by
      have h : Updates conv _ _ := nested.updates (nodeSeen (nested.edgeId.toInt, row))
      rwa [show (nodeSeen (nested.edgeId.toInt, row)).rowid = nested.edgeId from
        Int64.ofInt_toInt _] at h
    refine ⟨_, fun store' => (ends_node hupdates hid).trans ends_nil, ?_⟩
    rw [allRows_setNodeProperties hids]
    exact List.map_congr_left fun seen hseen =>
      setProperties_nested hids hnode nested.properties hseen

theorem unanswered_never_ends (h : Updates conv argv rowid) (hrowid : isEdge rowid = true)
    (hunanswered : Unanswered conv store rowid argv) : ¬ Ends conv store [argv] store' := by
  obtain ⟨hassigned, ⟨negative, hweight⟩ | hedge⟩ := hunanswered
  · obtain ⟨hnone, -⟩ | ⟨-, -, _, hfail⟩ | ⟨_, -, hfinite, -⟩ := h.edge hrowid store
    · exact absurd hnone hassigned
    · exact not_ends_fail (by decide) fun draws => (h.eq store draws).trans hfail
    · exact absurd hweight (hfinite negative)
  · intro hends
    rw [← List.nil_append [argv]] at hends
    exact edgeCall_never_ends hends ⟨rowid, h, hrowid, rfl, hassigned⟩ hedge
      fun _ hmem => absurd hmem List.not_mem_nil

theorem update_ends (hids : Ids Fits store) (h : Updates conv argv rowid)
    (hanswered : isEdge rowid = true → ¬ Unanswered conv store rowid argv) :
    ∃ store₁, (∀ store', Ends conv store [argv] store' ↔ store' = store₁) ∧
      allRows store₁ = (allRows store).map (Seen.setProperties (rowid &&& ~~~edgeBit)
        (((argv.getD 9 .null).toText conv).map Value.cString)) := by
  cases hrowid : isEdge rowid with
  | false =>
    refine ⟨_, fun store' => (ends_node h hrowid).trans ends_nil, ?_⟩
    rw [allRows_setNodeProperties hids, and_not_eq hrowid]
  | true =>
    obtain ⟨hnone, hsame⟩ | ⟨hassigned, hinfinite, -⟩ |
      ⟨nested, hassigned, -, hid, hproperties, hexec⟩ := h.edge hrowid store
    · refine ⟨store, fun store' =>
        (ends_done_iff fun draws => (h.eq store draws).trans hsame).trans ends_nil, ?_⟩
      rw [toText_eq_none.mpr hnone.2.2.2, Option.map_none, funext (setProperties_none _),
        List.map_id']
    · exact absurd ⟨hassigned, .inl hinfinite⟩ (hanswered hrowid)
    · have hedge : store.edges.get nested.edgeId.toInt = none := by
        by_contra hstored
        exact hanswered hrowid ⟨hassigned, .inr (hid ▸ hstored)⟩
      obtain ⟨store₁, hends, hrows⟩ :=
        nested_ends conv hids nested (hid ▸ isEdge_and_not rowid) hedge
      refine ⟨store₁, fun store' =>
        (ends_exec_iff fun draws => (h.eq store draws).trans hexec).trans (hends store'), ?_⟩
      rw [hrows, hid, hproperties]

end Ends

section Exact

theorem number_ofText {t : Option Text} {v : Value} :
    (Value.ofText t).number = v.number ↔ v = .ofText t := by
  cases t <;> cases v <;> simp [Value.ofText, Value.number, eq_comm]

theorem updatesRow_iff_map (hids : Ids Fits store) (hrows : allRows store = before ++ seen :: after)
    (h : Updates conv argv seen.rowid)
    (hanswered : isEdge seen.rowid = true → ¬ Unanswered conv store seen.rowid argv)
    {f : Seen → Seen} (hf : f = Seen.setProperties (seen.rowid &&& ~~~edgeBit)
      (((argv.getD 9 .null).toText conv).map Value.cString)) :
    UpdatesRow conv store argv before seen after ↔
      (f seen).Is (seen.assign argv) ∧ before.map f = before ∧ after.map f = after := by
  obtain ⟨store₁, hends, hmap⟩ := update_ends hids h hanswered
  rw [hrows, ← hf, List.map_append, List.map_cons] at hmap
  constructor
  · intro hupdates
    obtain ⟨new, hnew, hscan⟩ := hupdates store₁ ((hends store₁).mpr rfl)
    rw [scan_full, hmap, Option.some.injEq] at hscan
    obtain ⟨hbefore, hrest⟩ := List.append_inj hscan (List.length_map f)
    obtain ⟨rfl, hafter⟩ := List.cons.inj hrest
    exact ⟨hnew, hbefore, hafter⟩
  · rintro ⟨hnew, hbefore, hafter⟩ store' hstore'
    obtain rfl := (hends store').mp hstore'
    refine ⟨f seen, hnew, ?_⟩
    rw [scan_full, hmap, hbefore, hafter]

theorem map_eq_self {f : Seen → Seen} {rows : List Seen} :
    rows.map f = rows ↔ ∀ seen ∈ rows, f seen = seen := by
  conv_lhs => rhs; rw [← List.map_id rows]
  exact List.map_inj_left

theorem setProperties_kept_iff (hids : Ids Fits store) (properties : Option Text) :
    (allRows store).map (Seen.setProperties id (properties.map Value.cString)) = allRows store ↔
      properties = none ∨ ∀ row, store.nodes.get id.toInt = some row →
        Value.ofText row.properties = .ofText properties := by
  cases properties with
  | none => simp [funext (setProperties_none _)]
  | some t =>
    rw [map_eq_self]
    constructor
    · refine fun hkept => .inr fun row hrow => ?_
      have hmem : nodeSeen (id.toInt, row) ∈ allRows store :=
        List.mem_append_left _ (List.mem_map_of_mem (RowTable.get_eq_some.mp hrow))
      have hsame := hkept _ hmem
      rw [Seen.setProperties, if_pos ⟨rfl, congrArg Value.integer (Int64.ofInt_toInt id)⟩] at hsame
      exact (congrArg (·.columns.properties) hsame).symm
    · rintro (hnone | hrows) seen hseen
      · cases hnone
      · rw [Seen.setProperties]
        split
        next hnode =>
          obtain ⟨row, hrow, rfl⟩ := mem_allRows_node hids hseen hnode.1 hnode.2
          have hsame := hrows row hrow
          simp only [Option.map_some, Option.getD_some, nodeSeen, hsame]
          rfl
        next => rfl

theorem mem_allRows_untagged (hseen : seen ∈ allRows store) (hrowid : isEdge seen.rowid = false) :
    ∃ x, seen = nodeSeen x := by
  obtain hseen | hseen := List.mem_append.mp hseen
  · obtain ⟨x, -, rfl⟩ := List.mem_map.mp hseen
    exact ⟨x, rfl⟩
  · obtain ⟨x, -, rfl⟩ := List.mem_map.mp hseen
    exact absurd (hrowid.symm.trans (isEdge_or _)) Bool.false_ne_true

theorem nodeSeen_is_assign (x : Int × NodeRow) (properties : Option Text) :
    Seen.Is { nodeSeen x with columns := { (nodeSeen x).columns with
        properties := (properties.map fun t => .text t).getD (nodeSeen x).columns.properties } }
      ((nodeSeen x).assign argv) ↔ argv.getD 6 .null = (nodeSeen x).columns.labels ∧
        ((properties.map fun t => Value.text t).getD (nodeSeen x).columns.properties).number =
          (argv.getD 9 .null).number := by
  have hlabels : (nodeSeen x).columns.labels.number = (argv.getD 6 .null).number ↔
      argv.getD 6 .null = (nodeSeen x).columns.labels := number_ofText
  rw [← hlabels]
  simp [Seen.Is, Seen.assign, Columns.values, nodeSeen]

theorem updatesRow_node (hids : Ids Fits store) (hrows : allRows store = before ++ seen :: after)
    (h : Updates conv argv seen.rowid) (hrowid : isEdge seen.rowid = false) :
    UpdatesRow conv store argv before seen after ↔ Assignable conv store seen argv := by
  have hmem : seen ∈ allRows store := by
    rw [hrows]
    exact List.mem_append_right _ List.mem_cons_self
  have hothers := allRows_pairwise hids
  rw [hrows, List.pairwise_append, List.pairwise_cons] at hothers
  obtain ⟨-, ⟨hafter, -⟩, hbefore⟩ := hothers
  obtain ⟨x, rfl⟩ := mem_allRows_untagged hmem hrowid
  have hkept : ∀ seen' : Seen, (seen'.isNode = true → seen'.columns.id ≠ (nodeSeen x).columns.id) →
      seen'.setProperties (nodeSeen x).rowid
        (((argv.getD 9 .null).toText conv).map Value.cString) = seen' := fun seen' hne => by
    rw [Seen.setProperties, if_neg fun hnode => hne hnode.1 hnode.2]
  have hbefore' : ∀ seen' ∈ before, seen'.setProperties (nodeSeen x).rowid
      (((argv.getD 9 .null).toText conv).map Value.cString) = seen' := fun seen' hseen' =>
    hkept seen' fun hnode => hbefore seen' hseen' _ List.mem_cons_self hnode
  have hafter' : ∀ seen' ∈ after, seen'.setProperties (nodeSeen x).rowid
      (((argv.getD 9 .null).toText conv).map Value.cString) = seen' := fun seen' hseen' =>
    hkept seen' fun hnode => (hafter seen' hseen' hnode.symm).symm
  rw [updatesRow_iff_map hids hrows h (fun htrue => absurd (hrowid.symm.trans htrue)
    Bool.false_ne_true) rfl, and_not_eq hrowid, map_eq_self, map_eq_self,
    and_iff_left ⟨hbefore', hafter'⟩, Assignable, if_neg (Bool.not_eq_true _ ▸ hrowid),
    Seen.setProperties, if_pos ⟨rfl, rfl⟩, nodeSeen_is_assign]
  refine and_congr_right' ?_
  cases hvalue : (argv.getD 9 .null).toText conv with
  | none =>
    rw [if_pos (toText_eq_none.mp hvalue), toText_eq_none.mp hvalue]
    exact number_ofText.trans eq_comm
  | some t =>
    rw [if_neg fun hnull => by cases hvalue.symm.trans (toText_eq_none.mpr hnull)]
    exact number_ofText (t := some t)

theorem updatesRow_edge (hids : Ids Fits store) (hrows : allRows store = before ++ seen :: after)
    (h : Updates conv argv seen.rowid) (hrowid : isEdge seen.rowid = true) :
    UpdatesRow conv store argv before seen after ↔ Assignable conv store seen argv := by
  by_cases hunanswered : Unanswered conv store seen.rowid argv
  · rw [Assignable, if_pos hrowid]
    exact iff_of_true (fun store' hends =>
      absurd hends (unanswered_never_ends h hrowid hunanswered)) (.inl hunanswered)
  have hseen : ∀ properties, seen.setProperties (seen.rowid &&& ~~~edgeBit) properties = seen := by
    intro properties
    rw [Seen.setProperties, if_neg]
    rintro ⟨hnode, hid⟩
    have hmem : seen ∈ allRows store := by
      rw [hrows]
      exact List.mem_append_right _ List.mem_cons_self
    obtain ⟨row, -, hrow⟩ := mem_allRows_node hids hmem hnode hid
    have hclear : seen.rowid = seen.rowid &&& ~~~edgeBit :=
      (congrArg Seen.rowid hrow).trans (Int64.ofInt_toInt _)
    rw [hclear, isEdge_and_not] at hrowid
    cases hrowid
  rw [updatesRow_iff_map hids hrows h (fun _ => hunanswered) rfl, Assignable, if_pos hrowid,
    or_iff_right hunanswered, hseen, ← @toText_eq_none conv, ← setProperties_kept_iff hids,
    hrows, List.map_append, List.map_cons, hseen]
  refine and_congr_right' ⟨fun hkept => by rw [hkept.1, hkept.2], fun hkept => ?_⟩
  obtain ⟨hbefore, hrest⟩ := List.append_inj hkept (List.length_map _)
  exact ⟨hbefore, (List.cons.inj hrest).2⟩

/-- What an UPDATE with an unchanged rowid makes of the scan, and that the UPDATE of an edge which
gives it a value never returns `SQLITE_OK`. -/
theorem updatesRow_iff (hids : Ids Fits store)
    (hscan : scan conv store 0 [] = some (before ++ seen :: after))
    (h : Updates conv argv seen.rowid) :
    (UpdatesRow conv store argv before seen after ↔ Assignable conv store seen argv) ∧
      (isEdge seen.rowid = true → Unanswered conv store seen.rowid argv →
        ∀ store', ¬ Ends conv store [argv] store') := by
  rw [scan_full, Option.some.injEq] at hscan
  refine ⟨?_, fun hrowid hunanswered store' => unanswered_never_ends h hrowid hunanswered⟩
  cases hrowid : isEdge seen.rowid with
  | false => exact updatesRow_node hids hscan h hrowid
  | true => exact updatesRow_edge hids hscan h hrowid

/-- The store after `INSERT INTO graph(type, id) VALUES ('node', 1)`. -/
def oneNode : Store where
  nodes := RowTable.empty.put 1 ⟨some "[]".toList, some []⟩
  edges := .empty

theorem oneNode_fits : Ids Fits oneNode :=
  ⟨fun k hk => get_put_ne ⟨by decide, by decide⟩ (fun _ h => absurd rfl h) hk, fun _ hk => absurd rfl hk⟩

def updateArguments (labels properties : Value) : List Value :=
  [.integer 1, .integer 1, .text "node".toList, .integer 1, .null, .null, labels, .null, .null,
    properties, .null]

theorem updateArguments_updates (labels properties : Value) :
    Updates plainConversions (updateArguments labels properties) 1 :=
  ⟨le_rfl, rfl, rfl⟩

theorem updatesRow_properties : UpdatesRow plainConversions oneNode
    (updateArguments (.text "[]".toList) (.text "x".toList)) []
    (nodeSeen (1, ⟨some "[]".toList, some []⟩)) [] := by
  refine ((updatesRow_iff oneNode_fits rfl (updateArguments_updates _ _)).1).mpr ?_
  rw [Assignable, if_neg (by decide)]
  decide +kernel

theorem labels_not_assigned : ¬ ∀ conv store argv before seen after, Ids Fits store →
    scan conv store 0 [] = some (before ++ seen :: after) → Updates conv argv seen.rowid →
      UpdatesRow conv store argv before seen after := by
  intro hall
  have hupdates : UpdatesRow _ _ _ [] (nodeSeen (1, ⟨some "[]".toList, some []⟩)) [] :=
    hall plainConversions oneNode (updateArguments (.text "[A]".toList) (.text [])) [] _ []
      oneNode_fits rfl (updateArguments_updates _ _)
  have hdone : graphUpdate plainConversions oneNode (fun _ => 0)
      (updateArguments (.text "[A]".toList) (.text [])) = .done .ok none none oneNode := by
    decide +kernel
  obtain ⟨new, hnew, hscan⟩ := hupdates oneNode (.done hdone .nil)
  have hsame : scan plainConversions oneNode 0 [] =
      some [nodeSeen (1, ⟨some "[]".toList, some []⟩)] := rfl
  obtain rfl := List.singleton_inj.mp (Option.some.inj (hsame.symm.trans hscan))
  exact absurd hnew.2 (by decide +kernel)

end Exact

end SqliteMultimodal.Graph.VTab
