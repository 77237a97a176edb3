import SqliteMultimodal.Graph.VTab.Assign

namespace SqliteMultimodal.Graph.VTab

variable (conv : Conversions)

section Defs

/-- The values that an INSERT gives; a column without one is NULL. -/
structure Given where
  id : Option Int64 := none
  fromId : Option Int64 := none
  toId : Option Int64 := none
  labels : Option Text := none
  relType : Option Text := none
  weight : Option ℚ := none
  properties : Option Text := none
  query : Option Text := none

def Given.columns (type : Text) (given : Given) : Columns where
  type := .text type
  id := (given.id.map .integer).getD .null
  fromId := (given.fromId.map .integer).getD .null
  toId := (given.toId.map .integer).getD .null
  labels := (given.labels.map .text).getD .null
  relType := (given.relType.map .text).getD .null
  weight := (given.weight.map fun q => .real (.finite q)).getD .null
  properties := (given.properties.map .text).getD .null
  query := (given.query.map .text).getD .null

def Given.argv (type : Text) (given : Given) : List Value :=
  .null :: .null :: (given.columns type).values

def Value.Kept (given shown : Value) : Prop := given = .null ∨ shown = given

/-- An INSERT that `graphUpdate` accepts is read back as it was written, and nothing else is
lost. -/
def ReadsBack (store : Store) (draws : Nat → Int64) (type : Text) (given : Given) : Prop :=
  ∀ zErrMsg pRowid store', graphUpdate conv store draws (given.argv type) =
      .done .ok zErrMsg pRowid store' →
    (∃ rowid seen, pRowid = some rowid ∧ scan conv store' 1 [.integer rowid] = some [seen] ∧
      List.Forall₂ Value.Kept (given.columns type).values seen.columns.values) ∧
    ∀ old ∈ allRows store, old ∈ allRows store'

/-- The texts are such that C reads them to their ends, and `%f` writes the weight in full. -/
structure Given.Exact (given : Given) : Prop where
  labels : ∀ t ∈ given.labels, Value.cString t = t
  relType : ∀ t ∈ given.relType, Value.cString t = t
  properties : ∀ t ∈ given.properties, Value.cString t = t
  weight : ∀ q ∈ given.weight, conv.decimal q = q

def Given.nodeId (given : Given) : Option Int64 := given.id.filter (0 < ·)

def Given.key (store : Store) (draws : Nat → Int64) (type : Text) (given : Given) : Option Int :=
  if type = "node".toList then
    match given.nodeId with
    | some id => some id.toInt
    | none => newRowid store.nodes draws
  else newRowid store.edges draws

def Given.stored (type : Text) (given : Given) : Columns :=
  if type = "node".toList then
    { type := .text type
      labels := (given.labels.map .text).getD .null
      properties := (given.properties.map .text).getD .null }
  else
    { given.columns type with id := .null, labels := .null, query := .null }

structure Readable (store store' : Store) (type : Text) (given : Given) (rowid : Int64)
    (seen : Seen) : Prop where
  addressed : scan conv store' 1 [.integer rowid] = some [seen]
  shown : List.Forall₂ Value.Kept (given.stored type).values seen.columns.values
  id : type = "node".toList → ∀ id ∈ given.nodeId, seen.columns.id = .integer id
  fresh : (type = "node".toList → given.nodeId = none) →
    ∀ old ∈ allRows store, old.isNode = seen.isNode → old.columns.id ≠ seen.columns.id
  others : ∀ old ∈ allRows store, old ∈ allRows store' ∨
    type = "node".toList ∧ old.isNode = true ∧ ∃ id ∈ given.nodeId, old.columns.id = .integer id

end Defs

variable {conv} {store store' : Store} {draws : Nat → Int64} {type : Text} {given : Given}
  {zErrMsg : Option Text} {pRowid : Option Int64} {key : Int}

section Columns

theorem kept_null (shown : Value) : Value.Kept .null shown := .inl rfl

theorem kept_self (v : Value) : Value.Kept v v := .inr rfl

theorem kept_text {t : Option Text} (default : Text) (h : ∀ s ∈ t, Value.cString s = s) :
    Value.Kept ((t.map Value.text).getD .null)
      (.ofText (some ((((t.map Value.text).getD .null).toText conv).getD default))) := by
  cases t with
  | none => exact kept_null _
  | some t =>
    have ht := h t rfl
    simp [Value.Kept, Value.toText, Value.ofText, ht]

theorem kept_integer (n : Option Int64) :
    Value.Kept ((n.map Value.integer).getD .null)
      (.integer (Int64.ofInt (((n.map Value.integer).getD .null).int64 conv).toInt)) := by
  cases n with
  | none => exact kept_null _
  | some n => exact .inr (congrArg Value.integer (Int64.ofInt_toInt n))

end Columns

section Insert

theorem stored_node (hexact : given.Exact conv) (key : Int) :
    List.Forall₂ Value.Kept (given.stored "node".toList).values (nodeSeen (key,
      ⟨some ((((given.labels.map Value.text).getD .null).toText conv).getD "[]".toList),
        some ((((given.properties.map Value.text).getD .null).toText conv).getD [])⟩)).columns.values :=
  .cons (kept_self _) <| .cons (kept_null _) <| .cons (kept_null _) <| .cons (kept_null _) <|
    .cons (kept_text _ hexact.labels) <| .cons (kept_null _) <| .cons (kept_null _) <|
    .cons (kept_text _ hexact.properties) <| .cons (kept_null _) .nil

theorem insertNode_key (hexact : given.Exact conv)
    (h : insertNode conv store draws (given.argv "node".toList) = .done .ok zErrMsg pRowid store') :
    ∃ key row, given.key store draws "node".toList = some key ∧ pRowid = some (Int64.ofInt key) ∧
      store' = { store with nodes := store.nodes.put key row } ∧
      List.Forall₂ Value.Kept (given.stored "node".toList).values
        (nodeSeen (key, row)).columns.values := by
  have hid : (((given.argv "node".toList).getD 3 .null).int64 conv) = given.id.getD 0 := by
    cases hid : given.id <;> simp [Given.argv, Given.columns, Columns.values, hid, Value.int64]
  rw [insertNode, hid] at h
  rw [Given.key, if_pos rfl, Given.nodeId]
  split at h
  next hpos =>
    obtain ⟨id, hgiven⟩ : ∃ id, given.id = some id := by
      cases hgiven : given.id with
      | none =>
        rw [hgiven] at hpos
        exact absurd hpos (by decide)
      | some id => exact ⟨id, rfl⟩
    rw [hgiven] at hpos h ⊢
    cases h
    have hfilter : (some id).filter (0 < ·) = some id :=
      Option.filter_some_pos (decide_eq_true hpos)
    rw [hfilter]
    exact ⟨_, _, rfl, congrArg some (Int64.ofInt_toInt id).symm, rfl, stored_node hexact _⟩
  next hpos =>
    have hnone : given.id.filter (0 < ·) = none := by
      rw [Option.filter_eq_none_iff]
      intro id hgiven hlt
      rw [hgiven] at hpos
      exact hpos (of_decide_eq_true hlt)
    rw [hnone]
    cases hkey : newRowid store.nodes draws with
    | none =>
      rw [hkey] at h
      cases h
    | some key =>
      rw [hkey] at h
      cases h
      exact ⟨key, _, rfl, rfl, rfl, stored_node hexact key⟩

theorem insertEdge_key (hexact : given.Exact conv)
    (h : insertEdge conv store draws (given.argv "edge".toList) = .done .ok zErrMsg pRowid store') :
    ∃ key row, given.key store draws "edge".toList = some key ∧
      pRowid = some (Int64.ofInt key ||| edgeBit) ∧
      store' = { store with edges := store.edges.put key row } ∧
      List.Forall₂ Value.Kept (given.stored "edge".toList).values
        (edgeSeen (key, row)).columns.values := by
  rw [insertEdge] at h
  simp only at h
  split at h
  next =>
    cases hweight : ((given.argv "edge".toList).getD 8 .null).double conv with
    | infinite _ =>
      rw [hweight] at h
      cases h
    | finite q =>
      rw [hweight] at h
      have hkept : Value.Kept ((given.weight.map fun q => .real (.finite q)).getD .null)
          (.real (.finite (conv.decimal q))) := by
        cases hgiven : given.weight with
        | none => exact kept_null _
        | some w =>
          have hq : Double.finite w = .finite q := by
            rw [← hweight]
            simp [Given.argv, Given.columns, Columns.values, hgiven, Value.double]
          obtain rfl := Double.finite.inj hq
          exact .inr (by rw [hexact.weight w hgiven]; rfl)
      cases hkey : newRowid store.edges draws with
      | none =>
        rw [hkey] at h
        cases h
      | some key =>
        rw [hkey] at h
        cases h
        refine ⟨key, _, by rw [Given.key, if_neg (by decide), hkey], rfl, rfl, ?_⟩
        exact .cons (kept_self _) <| .cons (kept_null _) <| .cons (kept_integer _) <|
          .cons (kept_integer _) <| .cons (kept_null _) <| .cons (kept_text _ hexact.relType) <|
          .cons hkept <| .cons (kept_text _ hexact.properties) <| .cons (kept_null _) .nil
  next => cases h

end Insert

section Rows

variable {ρ : Type} {t : RowTable ρ} {row : ρ} {nodeRow : NodeRow} {edgeRow : EdgeRow} {old : Seen}

theorem newRowid_fits (ht : ∀ k, t.get k ≠ none → Fits k) (h : newRowid t draws = some key) :
    Fits key := by
  unfold newRowid at h
  split at h
  next hle =>
    cases h
    refine ⟨?_, hle⟩
    obtain hnext | hpred := t.nextKey_pred
    · rw [hnext]
      decide
    · have hlow := (ht _ hpred).1
      omega
  next =>
    obtain ⟨i, -, rfl⟩ := List.mem_map.mp (List.mem_of_find?_eq_some h)
    obtain ⟨hpos, hle⟩ := draw_inRange (draws i)
    exact ⟨by omega, by omega⟩

theorem rowsOf_put (hkey : Fits key) : rowsOf (t.put key row) (Int64.ofInt key) = [(key, row)] := by
  rw [rowsOf, ← (ofInt_eq_of_fits hkey _).mp rfl, RowTable.filter_key, RowTable.get_put, if_pos rfl]
  rfl

theorem mem_put {x : Int × ρ} (hx : x ∈ t.rows) (hne : x.1 ≠ key) : x ∈ (t.put key row).rows := by
  rw [← RowTable.get_eq_some, RowTable.get_put, if_neg hne]
  exact RowTable.get_eq_some.mpr hx

theorem lookup_node (hkey : Fits key) (hbit : isEdge (Int64.ofInt key) = false) :
    scan conv { store with nodes := store.nodes.put key nodeRow } 1 [.integer (Int64.ofInt key)] =
      some [nodeSeen (key, nodeRow)] := by
  rw [scan_lookup, if_neg (Bool.not_eq_true _ ▸ hbit), rowsOf_put hkey]
  rfl

theorem lookup_edge (hkey : Fits key) (hbit : isEdge (Int64.ofInt key) = false) :
    scan conv { store with edges := store.edges.put key edgeRow } 1
      [.integer (Int64.ofInt key ||| edgeBit)] = some [edgeSeen (key, edgeRow)] := by
  rw [scan_lookup, if_pos (isEdge_or _), or_and_not hbit, rowsOf_put hkey]
  rfl

theorem mem_allRows_putNode (hold : old ∈ allRows store) :
    old ∈ allRows { store with nodes := store.nodes.put key nodeRow } ∨
      store.nodes.get key ≠ none ∧ old.isNode = true ∧ old.columns.id = .integer (Int64.ofInt key) := by
  obtain hold | hold := List.mem_append.mp hold
  · obtain ⟨x, hx, rfl⟩ := List.mem_map.mp hold
    by_cases hid : x.1 = key
    · exact .inr ⟨hid ▸ RowTable.get_ne_none hx, rfl, congrArg (Value.integer ∘ Int64.ofInt) hid⟩
    · exact .inl (List.mem_append_left _ (List.mem_map_of_mem (mem_put hx hid)))
  · exact .inl (List.mem_append_right _ hold)

theorem mem_allRows_putEdge (hfree : store.edges.get key = none) (hold : old ∈ allRows store) :
    old ∈ allRows { store with edges := store.edges.put key edgeRow } := by
  obtain hold | hold := List.mem_append.mp hold
  · exact List.mem_append_left _ hold
  · obtain ⟨x, hx, rfl⟩ := List.mem_map.mp hold
    exact List.mem_append_right _
      (List.mem_map_of_mem (mem_put hx fun hid => RowTable.get_ne_none hx (hid ▸ hfree)))

theorem fresh_node (hids : Ids Fits store) (hkey : Fits key) (hfree : store.nodes.get key = none)
    (hold : old ∈ allRows store) (hnode : old.isNode = true) :
    old.columns.id ≠ .integer (Int64.ofInt key) := by
  intro hid
  obtain ⟨row, hrow, -⟩ := mem_allRows_node hids hold hnode hid
  rw [← (ofInt_eq_of_fits hkey _).mp rfl, hfree] at hrow
  cases hrow

theorem fresh_edge (hids : Ids Fits store) (hkey : Fits key) (hfree : store.edges.get key = none)
    (hold : old ∈ allRows store) (hedge : old.isNode = false) :
    old.columns.id ≠ .integer (Int64.ofInt key) := by
  intro hid
  obtain hold | hold := List.mem_append.mp hold
  · obtain ⟨x, -, rfl⟩ := List.mem_map.mp hold
    cases hedge
  · obtain ⟨x, hx, rfl⟩ := List.mem_map.mp hold
    have hne := RowTable.get_ne_none hx
    have heq := (ofInt_eq_of_fits (hids.2 _ hne) _).mp (Value.integer.inj hid)
    rw [← (ofInt_eq_of_fits hkey _).mp rfl] at heq
    exact hne (heq ▸ hfree)

end Rows

section Readable

theorem node_readable (hids : Ids Fits store) (hexact : given.Exact conv)
    (hbit : ∀ k ∈ given.key store draws "node".toList, isEdge (Int64.ofInt k) = false)
    (h : insertNode conv store draws (given.argv "node".toList) = .done .ok zErrMsg pRowid store') :
    ∃ rowid seen, pRowid = some rowid ∧
      Readable conv store store' "node".toList given rowid seen := by
  obtain ⟨key, row, hkey, hrowid, rfl, hshown⟩ := insertNode_key hexact h
  have hid : ∀ id ∈ given.nodeId, key = id.toInt := fun id hid => by
    rw [Given.key, if_pos rfl, hid] at hkey
    exact (Option.some.inj hkey).symm
  have hfree : given.nodeId = none → newRowid store.nodes draws = some key := fun hnone => by
    rwa [Given.key, if_pos rfl, hnone] at hkey
  have hfits : Fits key := by
    cases hnode : given.nodeId with
    | none => exact newRowid_fits hids.1 (hfree hnode)
    | some id =>
      rw [hid id hnode]
      exact ⟨Int64.le_toInt id, Int64.toInt_le id⟩
  refine ⟨_, nodeSeen (key, row), hrowid, lookup_node hfits (hbit key hkey), hshown,
    fun _ id hnode => ?_, fun hnone old hold hnode => ?_, fun old hold => ?_⟩
  · rw [nodeSeen, hid id hnode, Int64.ofInt_toInt]
  · exact fresh_node hids hfits (newRowid_free (hfree (hnone rfl))) hold hnode
  · obtain hkept | ⟨hstored, hnode, hold⟩ := mem_allRows_putNode hold
    · exact .inl hkept
    · cases hgiven : given.nodeId with
      | none => exact absurd (newRowid_free (hfree hgiven)) hstored
      | some id =>
        rw [hid id hgiven, Int64.ofInt_toInt] at hold
        exact .inr ⟨rfl, hnode, id, rfl, hold⟩

theorem edge_readable (hids : Ids Fits store) (hexact : given.Exact conv)
    (hbit : ∀ k ∈ given.key store draws "edge".toList, isEdge (Int64.ofInt k) = false)
    (h : insertEdge conv store draws (given.argv "edge".toList) = .done .ok zErrMsg pRowid store') :
    ∃ rowid seen, pRowid = some rowid ∧
      Readable conv store store' "edge".toList given rowid seen := by
  obtain ⟨key, row, hkey, hrowid, rfl, hshown⟩ := insertEdge_key hexact h
  have hbit' := hbit key hkey
  rw [Given.key, if_neg (by decide)] at hkey
  have hfits : Fits key := newRowid_fits hids.2 hkey
  have hfree := newRowid_free hkey
  exact ⟨_, edgeSeen (key, row), hrowid, lookup_edge hfits hbit', hshown,
    fun hnode => absurd hnode (by decide),
    fun _ old hold hedge => fresh_edge hids hfits hfree hold hedge,
    fun old hold => .inl (mem_allRows_putEdge hfree hold)⟩

/-- An INSERT that is accepted stores a row that the rowid addresses; what it gives for the columns
of such a row is read back, and no other row is lost than the node whose id it names. -/
theorem insert_readable (hids : Ids Fits store)
    (htype : type = "node".toList ∨ type = "edge".toList) (hexact : given.Exact conv)
    (hbit : ∀ k ∈ given.key store draws type, isEdge (Int64.ofInt k) = false)
    (h : graphUpdate conv store draws (given.argv type) = .done .ok zErrMsg pRowid store') :
    ∃ rowid seen, pRowid = some rowid ∧ Readable conv store store' type given rowid seen := by
  obtain rfl | rfl := htype
  · exact node_readable hids hexact hbit h
  · exact edge_readable hids hexact hbit h

def halfEdge : Given := { fromId := some 1, toId := some 1, weight := some (1 / 2) }

theorem halfEdge_exact : halfEdge.Exact plainConversions where
  labels _ h := by cases h
  relType _ h := by cases h
  properties _ h := by cases h
  weight _ _ := rfl

theorem halfEdge_readable : ∃ rowid seen, some (1 ||| edgeBit) = some rowid ∧
    Readable plainConversions oneNode
      { oneNode with edges := RowTable.empty.put 1 ⟨1, 1, some [], 1 / 2, some []⟩ }
      "edge".toList halfEdge rowid seen := by
  have hinsert : graphUpdate plainConversions oneNode (fun _ => 0) (halfEdge.argv "edge".toList) =
      .done .ok none (some (1 ||| edgeBit))
        { oneNode with edges := RowTable.empty.put 1 ⟨1, 1, some [], 1 / 2, some []⟩ } := by
    decide +kernel
  exact insert_readable oneNode_fits (.inr rfl) halfEdge_exact (by decide +kernel) hinsert

def secondNode : Given := { id := some 1, properties := some "x".toList }

theorem replaced_node_lost : ¬ ∀ conv store draws type given, Ids Fits store →
    type = "node".toList ∨ type = "edge".toList → ReadsBack conv store draws type given := by
  intro hall
  have hreads := hall plainConversions oneNode (fun _ => 0) "node".toList secondNode oneNode_fits
    (.inl rfl)
  have hinsert : graphUpdate plainConversions oneNode (fun _ => 0)
      (secondNode.argv "node".toList) = .done .ok none (some 1)
        { oneNode with nodes := oneNode.nodes.put 1 ⟨some "[]".toList, some "x".toList⟩ } := by
    decide +kernel
  obtain ⟨-, hkept⟩ := hreads _ _ _ hinsert
  have hlost := hkept (nodeSeen (1, ⟨some "[]".toList, some []⟩)) (by decide +kernel)
  exact absurd hlost (by decide +kernel)

end Readable

end SqliteMultimodal.Graph.VTab
