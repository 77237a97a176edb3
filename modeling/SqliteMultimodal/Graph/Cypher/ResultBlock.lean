import SqliteMultimodal.Graph.Cypher.ResultRows
import SqliteMultimodal.Lib.TextBuffer

/-! Result rows in the blocks that they are put together in.  A byte outside of its block and a size
that is no `int` are undefined. -/

namespace SqliteMultimodal.Graph.Cypher.Framed

section Code

variable (host : Host)

def cypherResultToJson (row : Row) : Option (Block Char) := do
  let b ← (GrowingBlock.create 256).print ['\x7b']
  let b ← b.printAll 256 (TextBuffer.separated (row.map (columnText host)))
  b.close '\x7d'

def addResult (b : GrowingBlock) (nResults : Nat) (zRowJson : Text) : Option GrowingBlock := do
  let nNeeded := b.nUsed + ((if nResults > 0 then 1 else 0) + zRowJson.length)
  let b ← b.reserve 256 nNeeded
  let b ← if nResults > 0 then b.copy [','] else some b
  b.copy zRowJson

structure Execution where
  rc : ResultCode
  zResults : Option (Block Char)
  zErrorMsg : Option Text

def executeRows (stopped : ResultCode) :
    List Row → Nat → GrowingBlock → Option (ResultCode × Option Text × GrowingBlock)
  | [], _, b =>
    if stopped = .ok then some (.ok, none, b)
    else some (stopped, some ("Iterator error: ".toList ++ Text.ofInt (resultNumber stopped)), b)
  | row :: rows, nResults, b => do
    let zRowJson ← (← cypherResultToJson host row).cString
    let b ← addResult b nResults zRowJson
    if nResults + 1 > maxResults then
      some (.error, some "Result limit exceeded (10000 rows)".toList, b)
    else executeRows stopped rows (nResults + 1) b

def cypherExecutorExecute (pRootIterator : Option RootIterator) : Option Execution :=
  match pRootIterator with
  | none => some ⟨.error, none, none⟩
  | some pRoot => do
    let b ← (GrowingBlock.create 256).print ['[']
    if pRoot.opened ≠ .ok then
      some ⟨pRoot.opened, none, some "Failed to open root iterator".toList⟩
    else do
      match ← executeRows host pRoot.stopped pRoot.rows 0 b with
      | (.ok, message, b) => do
        let zResultArray ← b.close ']'
        some ⟨.ok, some zResultArray, message⟩
      | (rc, message, _) => some ⟨rc, none, message⟩

end Code

section Frame

variable (host : Host)

def rowText (row : Row) : Text :=
  '\x7b' :: (Text.join ',' (row.map (columnText host)) ++ ['\x7d'])

def answerText (rows : List Row) : Text :=
  '[' :: (Text.join ',' (rows.map (rowText host)) ++ [']'])

def WithoutNul (row : Row) : Prop :=
  ∀ c ∈ row, Block.nul ∉ c.1 ∧ Block.nul ∉ cypherValueToString host c.2

instance WithoutNul.decidable (row : Row) : Decidable (WithoutNul host row) :=
  inferInstanceAs (Decidable (∀ c ∈ row, _))

variable {host}

theorem not_mem_join {c sep : Char} (hc : c ≠ sep) {ts : List Text} (h : ∀ t ∈ ts, c ∉ t) :
    c ∉ Text.join sep ts := by
  cases ts with
  | nil => simp [Text.join]
  | cons t ts =>
    rw [Text.join_cons_flatMap, List.mem_append, List.mem_flatMap, not_or]
    refine ⟨h t List.mem_cons_self, ?_⟩
    rintro ⟨u, hu, hmem⟩
    obtain heq | hmem := List.mem_cons.mp hmem
    · exact hc heq
    · exact h u (List.mem_cons_of_mem _ hu) hmem

theorem nul_not_mem_rowText {row : Row} (h : WithoutNul host row) :
    Block.nul ∉ rowText host row := by
  have hcolumns : Block.nul ∉ Text.join ',' (row.map (columnText host)) := by
    apply not_mem_join (by decide)
    intro t ht
    obtain ⟨c, hc, rfl⟩ := List.mem_map.mp ht
    simp only [columnText, List.mem_cons, List.mem_append, not_or]
    exact ⟨by decide, (h c hc).1, by decide, by decide, (h c hc).2⟩
  simp only [rowText, List.mem_cons, List.mem_append, List.not_mem_nil, or_false, not_or]
  exact ⟨by decide, hcolumns, by decide⟩

theorem nul_not_mem_answerText {rows : List Row} (h : ∀ row ∈ rows, WithoutNul host row) :
    Block.nul ∉ answerText host rows := by
  have hrows : Block.nul ∉ Text.join ',' (rows.map (rowText host)) := by
    apply not_mem_join (by decide)
    intro t ht
    obtain ⟨row, hrow, rfl⟩ := List.mem_map.mp ht
    exact nul_not_mem_rowText (h row hrow)
  simp only [answerText, List.mem_cons, List.mem_append, List.not_mem_nil, or_false, not_or]
  exact ⟨by decide, hrows, by decide⟩

theorem length_le_answerText {rows : List Row} {row : Row} (h : row ∈ rows) :
    (rowText host row).length ≤ (answerText host rows).length := by
  have hjoin : rowText host row <:+: Text.join ',' (rows.map (rowText host)) := by
    obtain ⟨before, after, rfl⟩ := List.append_of_mem h
    cases before with
    | nil =>
      rw [List.nil_append, List.map_cons, Text.join_cons_flatMap]
      exact (List.prefix_append _ _).isInfix
    | cons r before =>
      rw [List.cons_append, List.map_cons, Text.join_cons_flatMap, List.map_append, List.map_cons,
        List.flatMap_append, List.flatMap_cons]
      refine ⟨rowText host r ++ (before.map (rowText host)).flatMap (',' :: ·) ++ [','],
        (after.map (rowText host)).flatMap (',' :: ·), ?_⟩
      simp only [List.append_assoc, List.cons_append, List.nil_append]
  have hle := hjoin.length_le
  rw [answerText, List.length_cons, List.length_append]
  omega

theorem create_print (opening : Char) : ∃ b, (GrowingBlock.create 256).print [opening] = some b ∧
    b.Holds [opening] 0 :=
  (GrowingBlock.holds_create (n := 1) (by decide)).print (u := [opening])

theorem cypherResultToJson_filled (host : Host) {row : Row} (h : (rowText host row).length < 536870912) :
    ∃ cells, cypherResultToJson host row = some cells ∧
      cells.Filled (rowText host row ++ [Block.nul]) := by
  obtain ⟨b, hprint, hb⟩ := create_print '\x7b'
  have hflatten := TextBuffer.flatten_separated (row.map (columnText host))
  obtain ⟨b', hall, hb'⟩ := hb.printAll
    (TextBuffer.separated (row.map (columnText host))) (show 2 ≤ 256 by decide) (by
      rw [rowText, List.length_cons, List.length_append] at h
      rw [hflatten, intLimit, List.length_singleton]
      omega)
  obtain ⟨cells, hclose, hcells⟩ := hb'.close '\x7d'
  refine ⟨cells, ?_, ?_⟩
  · simp only [cypherResultToJson, hprint, Option.bind_eq_bind, Option.bind_some, hall, hclose]
  · rwa [hflatten] at hcells

theorem addResult_holds {b : GrowingBlock} {t : Text} (h : b.Holds t 0) (nResults : Nat)
    (zRowJson : Text) (hlimit : t.length + zRowJson.length < 536870912) :
    ∃ b', addResult b nResults zRowJson = some b' ∧
      b'.Holds (t ++ separated (nResults = 0) zRowJson) 0 := by
  cases nResults with
  | zero =>
    obtain ⟨b₁, hreserve, hb₁⟩ := h.reserve zRowJson.length
      (show 2 ≤ 256 by decide) (by rw [intLimit]; omega)
    obtain ⟨b₂, hcopy, hb₂⟩ := @GrowingBlock.Holds.copy b₁ t zRowJson 0 hb₁
    refine ⟨b₂, ?_, hb₂⟩
    simp only [addResult, Nat.lt_irrefl, gt_iff_lt, if_false, Nat.zero_add, h.used, hreserve,
      Option.bind_eq_bind, Option.bind_some, hcopy]
  | succ nResults =>
    obtain ⟨b₁, hreserve, hb₁⟩ := h.reserve (1 + zRowJson.length)
      (show 2 ≤ 256 by decide) (by rw [intLimit]; omega)
    obtain ⟨b₂, hcomma, hb₂⟩ := hb₁.copy (u := [',']) (n := zRowJson.length)
    obtain ⟨b₃, hcopy, hb₃⟩ := hb₂.copy (u := zRowJson) (n := 0)
    refine ⟨b₃, ?_, ?_⟩
    · simp only [addResult, Nat.succ_pos, gt_iff_lt, if_true, h.used, hreserve,
        Option.bind_eq_bind, Option.bind_some, hcomma, hcopy]
    · rw [List.append_assoc] at hb₃
      exact hb₃

def rest (host : Host) (nResults : Nat) (rows : List Row) : Text :=
  if nResults = 0 then Text.join ',' (rows.map (rowText host))
  else (rows.map (rowText host)).flatMap (',' :: ·)

theorem rest_cons (nResults : Nat) (row : Row) (rows : List Row) : rest host nResults (row :: rows) =
    separated (nResults = 0) (rowText host row) ++ rest host (nResults + 1) rows := by
  rw [rest, rest, if_neg (Nat.succ_ne_zero nResults), List.map_cons]
  cases nResults with
  | zero => exact Text.join_cons_flatMap ',' _ _
  | succ nResults => exact List.flatMap_cons

theorem executeRows_holds {rows : List Row} {n : Nat} {b : GrowingBlock} {t : Text}
    (h : b.Holds t 0) (hrows : n + rows.length ≤ maxResults)
    (hnul : ∀ row ∈ rows, WithoutNul host row)
    (hlimit : t.length + (rest host n rows).length < 536870912) :
    ∃ b', executeRows host .ok rows n b = some (.ok, none, b') ∧
      b'.Holds (t ++ rest host n rows) 0 := by
  induction rows generalizing n b t with
  | nil =>
    have hrest : rest host n [] = [] := by
      rw [rest]
      split <;> rfl
    exact ⟨b, rfl, by rwa [hrest, List.append_nil]⟩
  | cons row rows ih =>
    rw [rest_cons, List.length_append] at hlimit
    rw [List.length_cons] at hrows
    have hle : (rowText host row).length ≤ (separated (n = 0) (rowText host row)).length := by
      rw [separated]
      split
      next => exact Nat.le_refl _
      next => exact Nat.le_succ _
    obtain ⟨cells, hjson, hcells⟩ := cypherResultToJson_filled host
      (show (rowText host row).length < 536870912 by omega)
    have hstring := Block.cString_of_filled hcells
      (nul_not_mem_rowText (hnul row List.mem_cons_self))
    obtain ⟨b₁, hadd, hb₁⟩ := addResult_holds h n (rowText host row) (by omega)
    obtain ⟨b₂, hrun, hb₂⟩ := ih hb₁ (n := n + 1) (by omega)
      (fun r hr => hnul r (List.mem_cons_of_mem _ hr)) (by rw [List.length_append]; omega)
    refine ⟨b₂, ?_, ?_⟩
    · simp only [executeRows, hjson, Option.bind_eq_bind, Option.bind_some, hstring, hadd]
      rw [if_neg (by omega), hrun]
    · rwa [rest_cons, ← List.append_assoc]

/-- Every byte of the answer and of its rows is written inside of its block, and what is written is
framed by the brackets and ends in a NUL. -/
theorem cypherExecutorExecute_framed {rows : List Row} (hrows : rows.length ≤ 10000)
    (hnul : ∀ row ∈ rows, WithoutNul host row)
    (hlimit : (answerText host rows).length < 536870912) :
    (∀ row ∈ rows, ∃ zResult, cypherResultToJson host row = some zResult ∧
      zResult.Filled (rowText host row ++ [Block.nul]) ∧
      zResult.cString = some (Cypher.cypherResultToJson host row)) ∧
    ∃ zResultArray, cypherExecutorExecute host (some ⟨.ok, rows, .ok⟩) =
        some ⟨.ok, some zResultArray, none⟩ ∧
      zResultArray.Filled (answerText host rows ++ [Block.nul]) ∧
      zResultArray.cString = (Cypher.cypherExecutorExecute host (some ⟨.ok, rows, .ok⟩)).zResults := by
  constructor
  · intro row hrow
    obtain ⟨cells, hjson, hcells⟩ := cypherResultToJson_filled host
      ((length_le_answerText hrow).trans_lt hlimit)
    refine ⟨cells, hjson, hcells, ?_⟩
    rw [Block.cString_of_filled hcells (nul_not_mem_rowText (hnul row hrow)),
      cypherResultToJson_eq]
    rfl
  · obtain ⟨b, hprint, hb⟩ := create_print '['
    have hrest : rest host 0 rows = Text.join ',' (rows.map (rowText host)) := if_pos rfl
    obtain ⟨b', hrun, hb'⟩ := executeRows_holds hb (n := 0) (by rwa [Nat.zero_add]) hnul (by
      rw [answerText, List.length_cons, List.length_append] at hlimit
      rw [hrest, List.length_singleton]
      omega)
    obtain ⟨cells, hclose, hcells⟩ := hb'.close ']'
    rw [hrest] at hcells
    refine ⟨cells, ?_, hcells, ?_⟩
    · simp only [cypherExecutorExecute, hprint, Option.bind_eq_bind, Option.bind_some, ne_eq,
        not_true_eq_false, if_false, hrun, hclose]
    · have htexts : rows.map (Cypher.cypherResultToJson host) = rows.map (rowText host) :=
        List.map_congr_left fun row _ => cypherResultToJson_eq host row
      rw [cypherExecutorExecute_eq host hrows, htexts]
      exact Block.cString_of_filled hcells (nul_not_mem_answerText hnul)

theorem cypherExecutorExecute_framed_two : ∃ zResultArray,
    cypherExecutorExecute plainHost (some ⟨.ok, personRows, .ok⟩) =
      some ⟨.ok, some zResultArray, none⟩ ∧
    zResultArray.Filled (answerText plainHost personRows ++ [Block.nul]) := by
  obtain ⟨cells, hrun, hcells, -⟩ := (@cypherExecutorExecute_framed plainHost
    personRows (by decide) (by decide +kernel) (by decide +kernel)).2
  exact ⟨cells, hrun, hcells⟩

end Frame

end SqliteMultimodal.Graph.Cypher.Framed
