import SqliteMultimodal.Lib.Text
import SqliteMultimodal.Lib.Transaction

namespace SqliteMultimodal.Graph.Bulk

section Model

variable {α β : Type}

structure GraphNode where
  iNodeId : Int
  zProperties : Option Text
  deriving DecidableEq

structure GraphEdge (α : Type) where
  iFromId : Int
  iToId : Int
  rWeight : α
  zProperties : Option Text
  deriving DecidableEq

structure Tables (α : Type) where
  nodes : List GraphNode
  edges : List (GraphEdge α)
  deriving DecidableEq

/-- An entry that has been freed is `none`. -/
structure BatchAccumulator (α : Type) where
  nodes : List (Option GraphNode)
  edges : List (Option (GraphEdge α))
  deriving DecidableEq

def BatchAccumulator.empty : BatchAccumulator α := ⟨[], []⟩

structure Answers where
  begin : Int
  prepareNodes : Int
  stepNode : Nat → Transaction.Answer
  prepareEdges : Int
  stepEdge : Nat → Transaction.Answer
  commit : Int
  /-- A commit that fails ends the transaction. -/
  commitEnds : Bool

def sqliteOk : Int := 0
def sqliteError : Int := 1

abbrev Db (α : Type) := Transaction.Db (Tables α)

def execBegin (answers : Answers) (db : Db α) : Int × Db α :=
  if db.saved.isSome then (sqliteError, db)
  else if answers.begin = sqliteOk then (sqliteOk, ⟨db.state, some db.state⟩)
  else (answers.begin, db)

def execCommit (answers : Answers) (db : Db α) : Int × Db α :=
  if db.saved.isNone then (sqliteError, db)
  else if answers.commit = sqliteOk then (sqliteOk, ⟨db.state, none⟩)
  else (answers.commit, if answers.commitEnds then db.rollback else db)

def insertNode (node : GraphNode) (tables : Tables α) : Option (Tables α) :=
  if node.iNodeId ∈ tables.nodes.map (·.iNodeId) then none
  else some { tables with nodes := tables.nodes ++ [node] }

def insertEdge (edge : GraphEdge α) (tables : Tables α) : Option (Tables α) :=
  some { tables with edges := tables.edges ++ [edge] }

/-- The loop over the entries from the `i`-th on; it may not meet one that has been freed. -/
def stepAll (insert : β → Tables α → Option (Tables α)) (answer : Nat → Transaction.Answer) :
    Nat → List (Option β) → Db α → Option (Db α)
  | _, [], db => some db
  | _, none :: _, _ => none
  | i, some entry :: rest, db =>
    stepAll insert answer (i + 1) rest ((Transaction.Statement.mk (answer i) (insert entry)).run db)

def batchFlush (answers : Answers) (batch : BatchAccumulator α) (db : Db α) :
    Option (Int × BatchAccumulator α × Db α) :=
  let (rc, db) := execBegin answers db
  if rc ≠ sqliteOk then some (rc, batch, db)
  else if answers.prepareNodes ≠ sqliteOk then some (answers.prepareNodes, batch, db)
  else do
    let db ← stepAll insertNode answers.stepNode 0 batch.nodes db
    let batch := { batch with nodes := batch.nodes.map fun _ => none }
    if answers.prepareEdges ≠ sqliteOk then some (answers.prepareEdges, batch, db)
    else do
      let db ← stepAll insertEdge answers.stepEdge 0 batch.edges db
      let (rc, db) := execCommit answers db
      some (rc, .empty, db)

def BatchAccumulator.of (nodes : List GraphNode) (edges : List (GraphEdge α)) :
    BatchAccumulator α := ⟨nodes.map some, edges.map some⟩

end Model

section Whole

variable {α : Type}

/-- What a call may come to that started with `db`. -/
def Whole (nodes : List GraphNode) (edges : List (GraphEdge α)) (db : Db α) (rc : Int)
    (batch : BatchAccumulator α) (db' : Db α) : Prop :=
  (rc = sqliteOk → db'.state = ⟨db.state.nodes ++ nodes, db.state.edges ++ edges⟩ ∧
    batch = .empty) ∧
  (rc ≠ sqliteOk → db'.state = db.state) ∧
  (db'.saved.isSome → db.saved.isSome)

def AllOrNothing (answers : Answers) (nodes : List GraphNode) (edges : List (GraphEdge α))
    (db : Db α) : Prop :=
  ∃ rc batch db', batchFlush answers (.of nodes edges) db = some (rc, batch, db') ∧
    Whole nodes edges db rc batch db'

def statements {β : Type} (insert : β → Tables α → Option (Tables α))
    (answer : Nat → Transaction.Answer) : Nat → List β → List (Transaction.Statement (Tables α))
  | _, [] => []
  | i, entry :: rest => ⟨answer i, insert entry⟩ :: statements insert answer (i + 1) rest

def ran (answers : Answers) (nodes : List GraphNode) (edges : List (GraphEdge α)) :
    List (Transaction.Statement (Tables α)) :=
  statements insertNode answers.stepNode 0 nodes ++
    if answers.prepareEdges = sqliteOk then statements insertEdge answers.stepEdge 0 edges else []

structure Inserted (answers : Answers) (nodes : List GraphNode) (edges : List (GraphEdge α))
    (tables : Tables α) : Prop where
  stepNode : ∀ i < nodes.length, answers.stepNode i = .done
  stepEdge : ∀ i < edges.length, answers.stepEdge i = .done
  nodup : (nodes.map (·.iNodeId)).Nodup
  fresh : ∀ node ∈ nodes, node.iNodeId ∉ tables.nodes.map (·.iNodeId)

def Committed (answers : Answers) (nodes : List GraphNode) (edges : List (GraphEdge α))
    (tables : Tables α) : Prop :=
  answers.prepareEdges = sqliteOk ∧ Transaction.StaysOpen (ran answers nodes edges) ∧
    if answers.commit = sqliteOk then Inserted answers nodes edges tables
    else answers.commitEnds = true

def FlushesWhole (answers : Answers) (nodes : List GraphNode) (edges : List (GraphEdge α))
    (db : Db α) : Prop :=
  db.saved.isSome ∨ answers.begin ≠ sqliteOk ∨ answers.prepareNodes = sqliteOk ∧
    (Transaction.RolledBack db.state (ran answers nodes edges) ∨
      Committed answers nodes edges db.state)

end Whole

section Statements

variable {α β : Type} {insert : β → Tables α → Option (Tables α)}
  {answer : Nat → Transaction.Answer} {tables tables' : Tables α}

theorem stepAll_map_some (entries : List β) (i : Nat) (db : Db α) :
    stepAll insert answer i (entries.map some) db =
      some (Transaction.run (statements insert answer i entries) db) := by
  induction entries generalizing i db with
  | nil => rfl
  | cons entry rest ih => exact ih (i + 1) _

theorem length_statements (i : Nat) (entries : List β) :
    (statements insert answer i entries).length = entries.length := by
  induction entries generalizing i with
  | nil => rfl
  | cons entry rest ih => exact congrArg (· + 1) (ih (i + 1))

def Tables.size (tables : Tables α) : Nat := tables.nodes.length + tables.edges.length

theorem grows_statements
    (h : ∀ entry s t, insert entry s = some t → Tables.size t = Tables.size s + 1)
    (i : Nat) (entries : List β) :
    Transaction.Grows Tables.size (statements insert answer i entries) := by
  induction entries generalizing i with
  | nil => exact fun _ h => absurd h List.not_mem_nil
  | cons entry rest ih => exact List.forall_mem_cons.mpr ⟨h entry, ih (i + 1)⟩

theorem size_insertNode (node : GraphNode) (s t : Tables α) (h : insertNode node s = some t) :
    t.size = s.size + 1 := by
  rw [insertNode] at h
  split at h
  · cases h
  · cases h
    simp only [Tables.size, List.length_append, List.length_singleton]
    omega

theorem size_insertEdge (edge : GraphEdge α) (s t : Tables α) (h : insertEdge edge s = some t) :
    t.size = s.size + 1 := by
  cases h
  simp only [Tables.size, List.length_append, List.length_singleton]
  omega

theorem grows_ran (answers : Answers) (nodes : List GraphNode) (edges : List (GraphEdge α)) :
    Transaction.Grows Tables.size (ran answers nodes edges) := by
  intro stmt hstmt
  rcases List.mem_append.mp hstmt with h | h
  · exact grows_statements size_insertNode 0 nodes stmt h
  · split at h
    · exact grows_statements size_insertEdge 0 edges stmt h
    · cases h

theorem answer_succ {n i : Nat} : (∀ j < n + 1, answer (i + j) = .done) ↔
    answer i = .done ∧ ∀ j < n, answer (i + 1 + j) = .done := by
  rw [Nat.forall_lt_succ_left]
  simp only [Nat.add_zero, Nat.add_assoc, Nat.add_comm 1]

theorem applyAll_nodes {nodes : List GraphNode} {i : Nat} :
    Transaction.applyAll (statements insertNode answer i nodes) tables = some tables' ↔
      (∀ j < nodes.length, answer (i + j) = .done) ∧ (nodes.map (·.iNodeId)).Nodup ∧
        (∀ node ∈ nodes, node.iNodeId ∉ tables.nodes.map (·.iNodeId)) ∧
        tables' = { tables with nodes := tables.nodes ++ nodes } := by
  induction nodes generalizing i tables with
  | nil => simp [statements, Transaction.applyAll, eq_comm]
  | cons node nodes ih =>
    rw [statements, Transaction.applyAll, List.length_cons, answer_succ, List.map_cons,
      List.nodup_cons, List.forall_mem_cons]
    by_cases hdone : answer i = .done
    · by_cases hid : node.iNodeId ∈ tables.nodes.map (·.iNodeId)
      · have hnone : insertNode node tables = none := if_pos hid
        rw [if_pos hdone]
        simp [hid, hnone]
      · have hsome : insertNode node tables = some _ := if_neg hid
        rw [if_pos hdone]
        simp only [hsome, Option.bind_eq_bind, Option.bind_some]
        rw [ih]
        simp only [hdone, hid, List.map_append, List.map_cons, List.map_nil, List.mem_append,
          List.mem_singleton, not_or, List.append_assoc, List.singleton_append, true_and,
          not_false_eq_true]
        have hne : (∀ x ∈ nodes, x.iNodeId ∉ tables.nodes.map (·.iNodeId) ∧
            x.iNodeId ≠ node.iNodeId) ↔ node.iNodeId ∉ nodes.map (·.iNodeId) ∧
              ∀ x ∈ nodes, x.iNodeId ∉ tables.nodes.map (·.iNodeId) := by
          rw [List.mem_map]
          constructor
          · refine fun h => ⟨fun hmem => ?_, fun x hx => (h x hx).1⟩
            obtain ⟨x, hx, heq⟩ := hmem
            exact (h x hx).2 heq
          · exact fun h x hx => ⟨h.2 x hx, fun heq => h.1 ⟨x, hx, heq⟩⟩
        rw [hne]
        tauto
    · rw [if_neg hdone]
      simp [hdone]

theorem applyAll_edges {edges : List (GraphEdge α)} {i : Nat} :
    Transaction.applyAll (statements insertEdge answer i edges) tables = some tables' ↔
      (∀ j < edges.length, answer (i + j) = .done) ∧
        tables' = { tables with edges := tables.edges ++ edges } := by
  induction edges generalizing i tables with
  | nil => simp [statements, Transaction.applyAll, eq_comm]
  | cons edge edges ih =>
    rw [statements, Transaction.applyAll, List.length_cons, answer_succ]
    by_cases hdone : answer i = .done
    · rw [if_pos hdone]
      simp only [insertEdge, Option.bind_eq_bind, Option.bind_some]
      rw [ih]
      simp [hdone]
    · rw [if_neg hdone]
      simp [hdone]

end Statements

section Whole

variable {α : Type} {answers : Answers} {nodes : List GraphNode} {edges : List (GraphEdge α)}
  {tables tables' : Tables α} {db : Db α}

theorem applyAll_ran (hprepare : answers.prepareEdges = sqliteOk) :
    Transaction.applyAll (ran answers nodes edges) tables = some tables' ↔
      Inserted answers nodes edges tables ∧
        tables' = ⟨tables.nodes ++ nodes, tables.edges ++ edges⟩ := by
  rw [ran, if_pos hprepare, Transaction.applyAll_append, Option.bind_eq_bind,
    Option.bind_eq_some_iff]
  simp only [applyAll_nodes, applyAll_edges, Nat.zero_add]
  constructor
  · rintro ⟨_, ⟨hnodes, hnodup, hfresh, rfl⟩, hedges, rfl⟩
    exact ⟨⟨hnodes, hedges, hnodup, hfresh⟩, rfl⟩
  · rintro ⟨h, rfl⟩
    exact ⟨_, ⟨h.stepNode, h.nodup, h.fresh, rfl⟩, h.stepEdge, rfl⟩

theorem run_ran_iff (hprepare : answers.prepareEdges = sqliteOk)
    (hopen : Transaction.StaysOpen (ran answers nodes edges)) :
    (Transaction.run (ran answers nodes edges) db).state =
        ⟨db.state.nodes ++ nodes, db.state.edges ++ edges⟩ ↔
      Inserted answers nodes edges db.state := by
  constructor
  · intro hstate
    refine ((applyAll_ran hprepare).mp ((Transaction.size_run (grows_ran _ _ _) hopen db).2 ?_)).1
    rw [hstate, ran, if_pos hprepare, List.length_append, length_statements, length_statements]
    simp only [Tables.size, List.length_append]
    omega
  · intro h
    rw [Transaction.run_of_applyAll ((applyAll_ran hprepare).mpr ⟨h, rfl⟩)]

theorem execBegin_of_none (hsaved : db.saved = none) : execBegin answers db =
    if answers.begin = sqliteOk then (sqliteOk, ⟨db.state, some db.state⟩)
    else (answers.begin, db) :=
  if_neg fun h => Bool.noConfusion (h.symm.trans (congrArg Option.isSome hsaved))

theorem execCommit_of_none (hsaved : db.saved = none) : execCommit answers db = (sqliteError, db) :=
  if_pos (congrArg Option.isNone hsaved)

theorem execCommit_of_some (hsaved : db.saved = some tables) : execCommit answers db =
    if answers.commit = sqliteOk then (sqliteOk, ⟨db.state, none⟩)
    else (answers.commit, if answers.commitEnds then ⟨tables, none⟩ else db) := by
  rw [← Transaction.Db.rollback_eq hsaved]
  exact if_neg fun h => Bool.noConfusion (h.symm.trans (congrArg Option.isNone hsaved))

def afterInserts (answers : Answers) (nodes : List GraphNode) (edges : List (GraphEdge α))
    (tables : Tables α) : Db α :=
  Transaction.run (ran answers nodes edges) ⟨tables, some tables⟩

theorem batchFlush_begun (hsaved : db.saved = none) (hbegin : answers.begin = sqliteOk)
    (hprepare : answers.prepareNodes = sqliteOk) :
    batchFlush answers (.of nodes edges) db = some
      (if answers.prepareEdges = sqliteOk then
        ((execCommit answers (afterInserts answers nodes edges db.state)).1, .empty,
          (execCommit answers (afterInserts answers nodes edges db.state)).2)
      else
        (answers.prepareEdges, ⟨(nodes.map some).map fun _ => none, edges.map some⟩,
          afterInserts answers nodes edges db.state)) := by
  rw [batchFlush, execBegin_of_none hsaved, if_pos hbegin]
  by_cases hedges : answers.prepareEdges = sqliteOk
  · simp only [ne_eq, not_true_eq_false, if_false, hprepare, BatchAccumulator.of, hedges,
      stepAll_map_some, Option.bind_eq_bind, Option.bind_some, if_true, afterInserts, ran,
      Transaction.run_append]
  · simp only [ne_eq, not_true_eq_false, not_false_eq_true, if_false, hprepare,
      BatchAccumulator.of, hedges, stepAll_map_some, Option.bind_eq_bind, Option.bind_some,
      if_true, afterInserts, ran, List.append_nil]

theorem whole_saved (hsaved : db.saved = none) {rc : Int} {batch : BatchAccumulator α}
    {db' : Db α} : Whole nodes edges db rc batch db' ↔
      (rc = sqliteOk → db'.state = ⟨db.state.nodes ++ nodes, db.state.edges ++ edges⟩ ∧
        batch = .empty) ∧ (rc ≠ sqliteOk → db'.state = db.state) ∧ db'.saved = none := by
  rw [Whole, hsaved]
  simp

theorem rolledBack_iff :
    (afterInserts answers nodes edges tables).state = tables ∧
        (afterInserts answers nodes edges tables).saved = none ↔
      Transaction.RolledBack tables (ran answers nodes edges) :=
  Transaction.run_rolledBack_iff (grows_ran answers nodes edges)

theorem whole_commit_iff (hsaved : db.saved = none) (hprepare : answers.prepareEdges = sqliteOk) :
    Whole nodes edges db (execCommit answers (afterInserts answers nodes edges db.state)).1 .empty
        (execCommit answers (afterInserts answers nodes edges db.state)).2 ↔
      Transaction.RolledBack db.state (ran answers nodes edges) ∨
        Committed answers nodes edges db.state := by
  rw [whole_saved hsaved, ← rolledBack_iff, Committed]
  rcases Transaction.run_saved_cases (ran answers nodes edges) db.state db.state with
    ⟨hopen, hsome⟩ | ⟨hclosed, hnone⟩
  · have hinserted := @run_ran_iff _ _ _ _ ⟨db.state, some db.state⟩ hprepare hopen
    change (afterInserts answers nodes edges db.state).saved = _ at hsome
    change (afterInserts answers nodes edges db.state).state = _ ↔ _ at hinserted
    rw [execCommit_of_some hsome]
    by_cases hcommit : answers.commit = sqliteOk
    · rw [if_pos hcommit, if_pos hcommit, ← hinserted]
      simp [hprepare, hsome, hopen]
    · rw [if_neg hcommit, if_neg hcommit]
      cases hends : answers.commitEnds with
      | true => simp [hprepare, hcommit, hopen]
      | false => simp [hsome, hcommit]
  · change (afterInserts answers nodes edges db.state).saved = _ at hnone
    rw [execCommit_of_none hnone]
    simp [hnone, hclosed, sqliteError, sqliteOk]

theorem allOrNothing_iff (answers : Answers) (nodes : List GraphNode)
    (edges : List (GraphEdge α)) (db : Db α) :
    AllOrNothing answers nodes edges db ↔ FlushesWhole answers nodes edges db := by
  have hwhole : ∀ {rc batch db'}, batchFlush answers (.of nodes edges) db = some (rc, batch, db') →
      (AllOrNothing answers nodes edges db ↔ Whole nodes edges db rc batch db') := by
    intro rc batch db' heq
    constructor
    · rintro ⟨_, _, _, heq', h⟩
      cases heq.symm.trans heq'
      exact h
    · exact fun h => ⟨_, _, _, heq, h⟩
  rw [FlushesWhole]
  cases hsaved : db.saved with
  | some saved =>
    have heq : batchFlush answers (.of nodes edges) db = some (sqliteError, .of nodes edges, db) := by
      rw [batchFlush, execBegin, hsaved]
      rfl
    rw [hwhole heq]
    exact iff_of_true ⟨fun h => absurd h (by decide), fun _ => rfl, fun h => h⟩ (.inl rfl)
  | none =>
    by_cases hbegin : answers.begin = sqliteOk
    · by_cases hprepare : answers.prepareNodes = sqliteOk
      · by_cases hedges : answers.prepareEdges = sqliteOk
        · rw [hwhole ((batchFlush_begun hsaved hbegin hprepare).trans
            (congrArg some (if_pos hedges))), whole_commit_iff hsaved hedges]
          simp [hbegin, hprepare]
        · rw [hwhole ((batchFlush_begun hsaved hbegin hprepare).trans
            (congrArg some (if_neg hedges))), whole_saved hsaved, ← rolledBack_iff, Committed]
          simp [hbegin, hprepare, hedges]
      · have heq : batchFlush answers (.of nodes edges) db =
            some (answers.prepareNodes, .of nodes edges, ⟨db.state, some db.state⟩) := by
          rw [batchFlush, execBegin_of_none hsaved, if_pos hbegin]
          simp [hprepare]
        rw [hwhole heq, whole_saved hsaved]
        simp [hbegin, hprepare]
    · have heq : batchFlush answers (.of nodes edges) db =
          some (answers.begin, .of nodes edges, db) := by
        rw [batchFlush, execBegin_of_none hsaved, if_neg hbegin]
        simp [hbegin]
      rw [hwhole heq, whole_saved hsaved]
      simp [hbegin, hsaved]

def missingColumns : Answers := ⟨0, 0, fun _ => .done, 1, fun _ => .done, 0, true⟩

def sampleNode (iNodeId : Int) : GraphNode := ⟨iNodeId, none⟩

theorem not_whole_missingColumns :
    ¬ AllOrNothing missingColumns [sampleNode 1] [] (⟨⟨[], []⟩, none⟩ : Db Int) := by
  have heq : batchFlush missingColumns (.of [sampleNode 1] []) (⟨⟨[], []⟩, none⟩ : Db Int) =
      some (1, ⟨[none], []⟩, ⟨⟨[sampleNode 1], []⟩, some ⟨[], []⟩⟩) := rfl
  rintro ⟨_, _, _, heq', _, _, hclosed⟩
  cases heq.symm.trans heq'
  exact absurd (hclosed rfl) Bool.false_ne_true

example : batchFlush { missingColumns with prepareEdges := 0 }
    (.of [sampleNode 1, ⟨1, some ['x']⟩] []) (⟨⟨[], []⟩, none⟩ : Db Int) =
      some (sqliteOk, .empty, ⟨⟨[sampleNode 1], []⟩, none⟩) := rfl

end Whole

end SqliteMultimodal.Graph.Bulk
