import SqliteMultimodal.Graph.Cypher.Return

namespace SqliteMultimodal.Graph.Cypher.Accepted

open Pull

section Bindings

variable (g : GraphTables) (nodeMeets : CypherAst → NodeRow → Prop)
  (edgeMeets : CypherAst → EdgeRow → Prop)

def Element.NodeHolds (x : Element) (i : Int) : Prop :=
  (∀ zLabel ∈ x.zLabel, Carries g zLabel i) ∧
    ∀ m ∈ x.pMap, ∃ node ∈ g.nodes, node.id = i ∧ nodeMeets m node

def Element.EdgeHolds (x : Element) (e : EdgeRow) : Prop :=
  e ∈ g.edges ∧ (∀ zType ∈ x.zLabel, e.edgeType = some zType) ∧ ∀ m ∈ x.pMap, edgeMeets m e

def Connects (iFlags : Int) (e : EdgeRow) (i j : Int) : Prop :=
  iFlags ≠ -1 ∧ e.source = i ∧ e.target = j ∨ iFlags ≠ 1 ∧ e.source = j ∧ e.target = i

def Hop.Holds (hop : Hop) (i : Int) (e : EdgeRow) (j : Int) : Prop :=
  hop.rel.EdgeHolds g edgeMeets e ∧ Connects hop.iFlags e i j ∧ hop.node.NodeHolds g nodeMeets j

/-- The edges from node `i`, each with the node on its other side. -/
inductive Binds : List Hop → Int → List (EdgeRow × Int) → Prop
  | nil {i : Int} : Binds [] i []
  | cons {hop : Hop} {hops : List Hop} {i j : Int} {e : EdgeRow} {steps : List (EdgeRow × Int)} :
    hop.Holds g nodeMeets edgeMeets i e j → Binds hops j steps →
    Binds (hop :: hops) i ((e, j) :: steps)

def stepColumns (hops : List Hop) (steps : List (EdgeRow × Int)) :
    List (Option Text × CypherValue) :=
  (hops.zip steps).flatMap fun s => [(s.1.node.zVariable, .node s.2.2),
    (s.1.rel.zVariable, .string (some (relationshipText s.2.1)))]

def Pattern.columns (pattern : Pattern) (t : Int × List (EdgeRow × Int)) :
    List (Option Text × CypherValue) :=
  (pattern.start.zVariable, .node t.1) :: stepColumns pattern.hops t.2

def Agree (columns : List (Option Text × CypherValue)) : Prop :=
  ∀ zVar x y, (some zVar, x) ∈ columns → (some zVar, y) ∈ columns → x = y

structure Pattern.Satisfies (pattern : Pattern) (t : Int × List (EdgeRow × Int)) : Prop where
  stored : ∃ node ∈ g.nodes, node.id = t.1
  start : pattern.start.NodeHolds g nodeMeets t.1
  steps : Binds g nodeMeets edgeMeets pattern.hops t.1 t.2
  agree : Agree (pattern.columns t)

def Pattern.Shows (pattern : Pattern) (t : Int × List (EdgeRow × Int)) (row : Row) : Prop :=
  List.Forall₂ (fun column cell => (∀ zVar ∈ column.1, cell.1 = zVar) ∧ cell.2 = column.2)
    (pattern.columns t) row

end Bindings

section Courses

variable (g : GraphTables)

structure Expansion where
  zSource : Text
  zLabel : Option Text
  hop : Hop

structure Course where
  ids : List Int
  zColumn : Text
  expansions : List Expansion

def Course.first (course : Course) (i : Int) : Row := [(course.zColumn, .node i)]

def Element.column (x : Element) : Text := x.zVariable.getD "node".toList

def expansions (zSource : Text) : List Hop → List Expansion
  | [] => []
  | hop :: hops => ⟨zSource, hop.node.zLabel, hop⟩ :: expansions hop.node.column hops

def Element.ids (x : Element) (bIndexed : Bool) : List Int :=
  scanned (if bIndexed then labelIndexQuery g (x.zLabel.getD []) else allNodesQuery g x.zLabel)

def Pattern.course (bUseIndexes : Bool) (pattern : Pattern) : Option Course :=
  if pattern.start.scan.isSome then
    some ⟨pattern.start.ids g (bUseIndexes && pattern.start.zLabel.isSome), pattern.start.column,
      expansions pattern.start.column pattern.hops⟩
  else match pattern.hops with
    | [] => none
    | hop :: hops =>
      -- the far node of the first relationship stands in for the start
      some ⟨hop.node.ids g (bUseIndexes && hop.node.zLabel.any (· ≠ [])), hop.node.column,
        ⟨hop.node.column, none, hop⟩ :: expansions hop.node.column hops⟩

def Hop.row (hop : Hop) (e : EdgeRow) : Row :=
  [(hop.node.zVariable.getD "target".toList, .node e.target),
    (hop.rel.zVariable.getD ['r'], .string (some (relationshipText e)))]

def stepsRow (xs : List Expansion) (steps : List (EdgeRow × Int)) : Row :=
  (xs.zip steps).flatMap fun s => s.1.hop.row s.2.1

def Course.row (course : Course) (t : Int × List (EdgeRow × Int)) : Row :=
  course.first t.1 ++ stepsRow course.expansions t.2

/-- An edge out of node `i` with the type. -/
def Expansion.Leaves (x : Expansion) (i : Int) (e : EdgeRow) : Prop :=
  e ∈ g.edges ∧ e.source = i ∧ typeMatches x.hop.rel.zLabel e.edgeType = true

def Expansion.tested (x : Expansion) (e : EdgeRow) : Statement EdgeRow :=
  (x.zLabel.filter (· ≠ [])).elim [some e] fun zLabel =>
    (g.node e.target).toList.filterMap fun n => (labelExists n.labels zLabel).elim (some none)
      fun bExists => if bExists then some (some e) else none

def Taken : Row → List Expansion → List (EdgeRow × Int) → Prop
  | _, [], steps => steps = []
  | _, _ :: _, [] => False
  | row, x :: xs, (e, j) :: steps => ∃ i, columnOf row x.zSource = some (.node i) ∧
    x.Leaves g i e ∧ some e ∈ x.tested g e ∧ j = e.target ∧ Taken (row ++ x.hop.row e) xs steps

structure Crossing where
  hop : Hop
  i : Int
  e : EdgeRow
  j : Int

def crossings : List Hop → Int → List (EdgeRow × Int) → List Crossing
  | hop :: hops, i, (e, j) :: steps => ⟨hop, i, e, j⟩ :: crossings hops j steps
  | _, _, _ => []

/-- The column that a relationship starts from holds the node before it. -/
def Named : Row → Int → List Expansion → List (EdgeRow × Int) → Prop
  | row, i, x :: xs, (e, j) :: steps => columnOf row x.zSource = some (.node i) ∧
    Named (row ++ x.hop.row e) j xs steps
  | _, _, _, _ => True

def Course.Takes (course : Course) (t : Int × List (EdgeRow × Int)) : Prop :=
  t.1 ∈ course.ids ∧ Taken g (course.first t.1) course.expansions t.2

def Halts : Row → List Expansion → Prop
  | _, [] => False
  | row, x :: xs => ∀ i, columnOf row x.zSource = some (.node i) →
    ∃ e, x.Leaves g i e ∧ (none ∈ x.tested g e ∨
      some e ∈ x.tested g e ∧ Halts (row ++ x.hop.row e) xs)

def Element.MapHolds (nodeMeets : CypherAst → NodeRow → Prop) (x : Element) (i : Int) : Prop :=
  ∀ m ∈ x.pMap, ∃ node ∈ g.nodes, node.id = i ∧ nodeMeets m node

variable (nodeMeets : CypherAst → NodeRow → Prop) (edgeMeets : CypherAst → EdgeRow → Prop)
  (pattern : Pattern)

/-- What a walk is not tested for, and holds of it all the same. -/
structure Pattern.Upheld (t : Int × List (EdgeRow × Int)) : Prop where
  startLabel : ∀ zLabel ∈ pattern.start.zLabel, Carries g zLabel t.1
  startMap : pattern.start.MapHolds g nodeMeets t.1
  joined : ∀ c ∈ crossings pattern.hops t.1 t.2, c.e.source = c.i
  loops : ∀ c ∈ crossings pattern.hops t.1 t.2, c.hop.iFlags = -1 → c.i = c.j
  types : ∀ c ∈ crossings pattern.hops t.1 t.2,
    ∀ zType ∈ c.hop.rel.zLabel, c.e.edgeType = some zType
  labels : ∀ c ∈ crossings pattern.hops t.1 t.2, ∀ zLabel ∈ c.hop.node.zLabel, Carries g zLabel c.j
  edgeMaps : ∀ c ∈ crossings pattern.hops t.1 t.2, ∀ m ∈ c.hop.rel.pMap, edgeMeets m c.e
  nodeMaps : ∀ c ∈ crossings pattern.hops t.1 t.2, c.hop.node.MapHolds g nodeMeets c.j
  repeated : Agree (pattern.columns t)

end Courses

section Outcomes

variable {realText : ℚ → Text} {g : GraphTables} {pPlan pSource : PhysicalPlanNode}
  {rows rows' : List Row} {ok ok' : Bool}

def PlanRuns (realText : ℚ → Text) (g : GraphTables) (pPlan : PhysicalPlanNode) (rows : List Row)
    (ok : Bool) : Prop :=
  ∃ it opened, cypherIteratorCreate pPlan = some it ∧ xOpen g it = some opened ∧
    Runs (xNext realText g) opened rows ok

end Outcomes

section Steps

variable {realText : ℚ → Text} {g : GraphTables} {pPlan pSource : PhysicalPlanNode}
  {rows rows' : List Row} {row : Row} {ok ok' : Bool} {x : Expansion} {i : Int} {e e' : EdgeRow}

def Expansion.query (g : GraphTables) (x : Expansion) (i : Int) : Statement EdgeRow :=
  (g.edges.filter fun e => e.source = i && typeMatches x.hop.rel.zLabel e.edgeType).flatMap
    (x.tested g)

def Expansion.Ready (g : GraphTables) (x : Expansion) (row : Row) : Prop :=
  ∃ i, columnOf row x.zSource = some (.node i) ∧ none ∉ x.query g i

def Expansion.extend (g : GraphTables) (x : Expansion) (row : Row) : List Row :=
  match columnOf row x.zSource with
  | some (.node i) => ((x.query g i).filterMap id).map fun e => row ++ x.hop.row e
  | _ => []

end Steps

section Rows

variable {realText : ℚ → Text} {g : GraphTables} {pPlan pSource : PhysicalPlanNode}
  {rows : List Row} {row row' : Row} {ok : Bool} {x : Expansion} {xs : List Expansion}
  {steps : List (EdgeRow × Int)}

def extended (g : GraphTables) : List Expansion → Row → List Row
  | [], row => [row]
  | x :: xs, row => (x.extend g row).flatMap (extended g xs)

def Walked (realText : ℚ → Text) (g : GraphTables) (pPlan : PhysicalPlanNode) (rows : List Row)
    (ok : Bool) (xs : List Expansion) : Prop :=
  ∃ rows' ok', PlanRuns realText g pPlan rows' ok' ∧
    (ok' = true ↔ ok = true ∧ ∀ row ∈ rows, ¬Halts g row xs) ∧
    (ok' = true → rows' = rows.flatMap (extended g xs))

variable {bUseIndexes : Bool} {pattern : Pattern} {course : Course}

end Rows

section Exact

variable {realText : ℚ → Text} {g : GraphTables} {nodeMeets : CypherAst → NodeRow → Prop}
  {edgeMeets : CypherAst → EdgeRow → Prop} {bUseIndexes : Bool} {pattern : Pattern}
  {course : Course} {hops : List Hop} {xs : List Expansion} {row : Row} {rows : List Row}
  {steps steps' : List (EdgeRow × Int)} {t t' : Int × List (EdgeRow × Int)} {i : Int}

theorem expansions_hops (zSource : Text) (hops : List Hop) :
    (expansions zSource hops).map (·.hop) = hops := by
  induction hops generalizing zSource with
  | nil => rfl
  | cons hop hops ih => rw [expansions, List.map_cons, ih]

theorem course_hops (h : pattern.course g bUseIndexes = some course) :
    course.expansions.map (·.hop) = pattern.hops := by
  unfold Pattern.course at h
  split at h
  next =>
    cases h
    exact expansions_hops _ _
  next =>
    split at h
    next => cases h
    next hop hops heq =>
      cases h
      rw [heq, List.map_cons, expansions_hops]

theorem Taken.stored (h : Taken g row xs steps) :
    steps.length = xs.length ∧ ∀ s ∈ steps, s.1 ∈ g.edges := by
  induction xs generalizing row steps with
  | nil =>
    cases h
    simp
  | cons x xs ih =>
    cases steps with
    | nil => exact h.elim
    | cons step steps =>
      obtain ⟨i, -, hleaves, -, -, hrest⟩ := h
      obtain ⟨hlength, hedges⟩ := ih hrest
      rw [List.forall_mem_cons]
      exact ⟨congrArg (· + 1) hlength, hleaves.1, hedges⟩

theorem Binds.stored (h : Binds g nodeMeets edgeMeets hops i steps) :
    steps.length = hops.length ∧ ∀ s ∈ steps, s.1 ∈ g.edges := by
  induction h with
  | nil => simp
  | cons hholds _ ih =>
    rw [List.forall_mem_cons]
    exact ⟨congrArg (· + 1) ih.1, hholds.1.1, ih.2⟩

theorem Pattern.Shows.values (h : pattern.Shows t row) :
    row.map (·.2) = (pattern.columns t).map (·.2) := by
  rw [Pattern.Shows] at h
  generalize pattern.columns t = columns at h ⊢
  induction h with
  | nil => rfl
  | cons hcell _ ih => rw [List.map_cons, List.map_cons, hcell.2, ih]

theorem Course.Takes.stored (hcourse : pattern.course g bUseIndexes = some course)
    (h : course.Takes g t) :
    t.2.length = pattern.hops.length ∧ ∀ s ∈ t.2, s.1 ∈ g.edges := by
  rw [← course_hops hcourse, List.length_map]
  exact h.2.stored

theorem mem_scanned {pStmt : Statement Int} (h : i ∈ scanned pStmt) : some i ∈ pStmt := by
  induction pStmt with
  | nil => simp [scanned] at h
  | cons a rest ih =>
    cases a with
    | none => simp [scanned] at h
    | some a =>
      rw [scanned, List.mem_cons] at h
      obtain rfl | h := h
      · exact List.mem_cons_self
      · exact List.mem_cons_of_mem _ (ih h)

theorem binds_iff : Binds g nodeMeets edgeMeets hops i steps ↔ steps.length = hops.length ∧
    ∀ c ∈ crossings hops i steps, c.hop.Holds g nodeMeets edgeMeets c.i c.e c.j := by
  constructor
  · intro h
    induction h with
    | nil => simp [crossings]
    | cons hholds _ ih =>
      rw [crossings, List.forall_mem_cons]
      exact ⟨congrArg (· + 1) ih.1, hholds, ih.2⟩
  · rintro ⟨hlength, hholds⟩
    induction hops generalizing i steps with
    | nil =>
      rw [List.eq_nil_of_length_eq_zero hlength]
      exact .nil
    | cons hop hops ih =>
      cases steps with
      | nil => cases hlength
      | cons step steps =>
        obtain ⟨e, j⟩ := step
        rw [crossings, List.forall_mem_cons] at hholds
        exact .cons hholds.1 (ih (Nat.succ.inj hlength) hholds.2)

theorem Taken.crossings (h : Taken g row xs steps) :
    ∀ c ∈ crossings (xs.map (·.hop)) i steps, c.e ∈ g.edges ∧ c.j = c.e.target := by
  induction xs generalizing row i steps with
  | nil => simp [Accepted.crossings]
  | cons x xs ih =>
    cases steps with
    | nil => exact h.elim
    | cons step steps =>
      obtain ⟨_, -, hleaves, -, hj, hrest⟩ := h
      rw [List.map_cons, Accepted.crossings, List.forall_mem_cons]
      exact ⟨⟨hleaves.1, hj⟩, ih hrest⟩

theorem connects_target {iFlags : Int} {e : EdgeRow} : Connects iFlags e i e.target ↔
    e.source = i ∧ (iFlags = -1 → i = e.target) := by
  unfold Connects
  constructor
  · rintro (⟨hflags, hsource, -⟩ | ⟨-, hsource, htarget⟩)
    · exact ⟨hsource, fun h => absurd h hflags⟩
    · exact ⟨hsource.trans htarget, fun _ => htarget.symm⟩
  · rintro ⟨rfl, hloop⟩
    by_cases hflags : iFlags = -1
    · have hloop := hloop hflags
      exact .inr ⟨by rw [hflags]; decide, hloop, hloop.symm⟩
    · exact .inl ⟨hflags, rfl, rfl⟩

theorem Taken.named (h : Taken g row xs steps)
    (hjoined : ∀ c ∈ Accepted.crossings (xs.map (·.hop)) i steps, c.e.source = c.i) :
    Named row i xs steps := by
  induction xs generalizing row i steps with
  | nil => trivial
  | cons x xs ih =>
    cases steps with
    | nil => trivial
    | cons step steps =>
      obtain ⟨k, hk, hleaves, -, -, hrest⟩ := h
      rw [List.map_cons, Accepted.crossings, List.forall_mem_cons] at hjoined
      have hsource : k = i := hleaves.2.1.symm.trans hjoined.1
      exact ⟨hsource ▸ hk, ih hrest hjoined.2⟩

theorem Pattern.Upheld.satisfies (h : pattern.Upheld g nodeMeets edgeMeets t)
    (hstored : ∃ node ∈ g.nodes, node.id = t.1) (hlength : t.2.length = pattern.hops.length)
    (htaken : ∀ c ∈ crossings pattern.hops t.1 t.2, c.e ∈ g.edges ∧ c.j = c.e.target) :
    pattern.Satisfies g nodeMeets edgeMeets t := by
  have hconnects : ∀ c ∈ crossings pattern.hops t.1 t.2, Connects c.hop.iFlags c.e c.i c.j := by
    intro c hc
    have hloop := h.loops c hc
    rw [(htaken c hc).2] at hloop ⊢
    exact connects_target.mpr ⟨h.joined c hc, hloop⟩
  have hedge : ∀ c ∈ crossings pattern.hops t.1 t.2, c.hop.rel.EdgeHolds g edgeMeets c.e :=
    fun c hc => ⟨(htaken c hc).1, h.types c hc, h.edgeMaps c hc⟩
  exact {
    stored := hstored
    start := ⟨h.startLabel, h.startMap⟩
    steps := binds_iff.mpr ⟨hlength, fun c hc =>
      ⟨hedge c hc, hconnects c hc, h.labels c hc, h.nodeMaps c hc⟩⟩
    agree := h.repeated }

theorem Course.Takes.crossings (hcourse : pattern.course g bUseIndexes = some course)
    (h : course.Takes g t) :
    ∀ c ∈ crossings pattern.hops t.1 t.2, c.e ∈ g.edges ∧ c.j = c.e.target := by
  rw [← course_hops hcourse]
  exact h.2.crossings

end Exact

end SqliteMultimodal.Graph.Cypher.Accepted
