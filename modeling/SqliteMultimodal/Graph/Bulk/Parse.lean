import SqliteMultimodal.Lib.Text

/-! The CSV parser of `graph-bulk.c`.  Allocations succeed. -/

namespace SqliteMultimodal.Graph.Bulk

section Parser

/-- The end of `buffer` is the NUL that terminates it; a name that has not been stored is `none`
in `headers`. -/
structure CSVParser where
  buffer : Text
  bufferSize : Nat
  position : Nat
  delimiter : Char
  quote : Char
  hasHeader : Bool
  headers : Option (List (Option Text))
  nColumns : Nat

def csvParserCreate (data : Text) : CSVParser where
  buffer := data
  bufferSize := data.length
  position := 0
  delimiter := ','
  quote := '"'
  hasHeader := true
  headers := none
  nColumns := 0

variable (parser : CSVParser)

def countColumns : Text → Bool → Nat → Nat
  | [], _, nCols => nCols
  | c :: rest, inQuote, nCols =>
    if c = '\x00' ∨ c = '\n' then nCols
    else if c = parser.quote then countColumns rest (!inQuote) nCols
    else if c = parser.delimiter ∧ inQuote = false then countColumns rest inQuote (nCols + 1)
    else countColumns rest inQuote nCols

/-- `start` is the text from the start of the field to `p`. -/
def storeHeaders (nCols : Nat) : Text → Nat → Bool → Text → List Text → List Text × Nat
  | [], p, _, _, headers => (headers, p)
  | c :: rest, p, inQuote, start, headers =>
    if c = '\x00' ∨ c = '\n' ∨ nCols ≤ headers.length then (headers, p)
    else if c = parser.quote then
      storeHeaders nCols rest (p + 1) (!inQuote) (start ++ [c]) headers
    else if (c = parser.delimiter ∨ c = '\n') ∧ inQuote = false then
      storeHeaders nCols rest (p + 1) inQuote [] (headers ++ [start])
    else storeHeaders nCols rest (p + 1) inQuote (start ++ [c]) headers

def csvParseHeader : CSVParser :=
  if parser.hasHeader then
    let nCols := countColumns parser parser.buffer false 1
    let (headers, p) := storeHeaders parser nCols parser.buffer 0 false [] []
    { parser with
      nColumns := nCols
      headers := some (headers.map some ++ List.replicate (nCols - headers.length) none)
      position := p + 1 }
  else parser

def removeQuotes (quote : Char) (field : Text) : Text :=
  if 2 ≤ field.length ∧ field.head? = some quote ∧ field.getLast? = some quote then
    field.tail.dropLast
  else field

def scanRow : Text → Nat → Bool → Text → List Text → List Text × Nat
  | [], p, _, _, values => (values, p)
  | c :: rest, p, inQuote, start, values =>
    if c = '\x00' ∨ parser.nColumns ≤ values.length then (values, p)
    else if c = parser.quote then scanRow rest (p + 1) (!inQuote) (start ++ [c]) values
    else if (c = parser.delimiter ∨ c = '\n' ∨ c = '\x00') ∧ inQuote = false then
      let values := values ++ [removeQuotes parser.quote start]
      if c = '\n' ∨ c = '\x00' then (values, p) else scanRow rest (p + 1) inQuote [] values
    else scanRow rest (p + 1) inQuote (start ++ [c]) values

/-- A value is `none` for NULL. -/
def csvParseRow : Option (List (Option Text)) × CSVParser :=
  if parser.bufferSize ≤ parser.position then (none, parser)
  else
    let (values, p) := scanRow parser (parser.buffer.drop parser.position) parser.position false
      [] []
    (some (values.map some ++ List.replicate (parser.nColumns - values.length) none),
      { parser with position := p + 1 })

/-- Repeated calls return these rows and then NULL. -/
def ReadsRows : CSVParser → List (List (Option Text)) → Prop
  | parser, [] => (csvParseRow parser).1 = none
  | parser, values :: rows =>
    (csvParseRow parser).1 = some values ∧ ReadsRows (csvParseRow parser).2 rows

end Parser

section Tables

inductive Field where
  | plain (text : Text) (free : ∀ c ∈ text, c ≠ ',' ∧ c ≠ '"' ∧ c ≠ '\n')
  | quoted (text : Text) (free : ∀ c ∈ text, c ≠ '"')

def Field.text : Field → Text
  | .plain text _ => text
  | .quoted text _ => text

def Field.print : Field → Text
  | .plain text _ => text
  | .quoted text _ => '"' :: (text ++ ['"'])

def printRow : List Field → Text
  | [] => []
  | [field] => field.print
  | field :: fields => field.print ++ ',' :: printRow fields

structure Table where
  header : List Field
  rows : List (List Field)
  columns : header ≠ []
  even : ∀ row ∈ rows, row.length = header.length

def printRows : List (List Field) → Bool → Text
  | [], final => if final then ['\n'] else []
  | row :: rows, final => '\n' :: (printRow row ++ printRows rows final)

def Table.print (table : Table) (final : Bool) : Text :=
  printRow table.header ++ printRows table.rows final

def values (row : List Field) : List (Option Text) := row.map fun field => some field.text

def ParsesTable (table : Table) (final : Bool) : Prop :=
  (csvParseHeader (csvParserCreate (table.print final))).headers = some (values table.header) ∧
    ReadsRows (csvParseHeader (csvParserCreate (table.print final))) (table.rows.map values)

end Tables

end SqliteMultimodal.Graph.Bulk

namespace SqliteMultimodal.Graph.Bulk

section Header

variable (parser : CSVParser)

theorem le_countColumns (rest : Text) (inQuote : Bool) (nCols : Nat) :
    nCols ≤ countColumns parser rest inQuote nCols := by
  fun_induction countColumns parser rest inQuote nCols with
  | case1 => exact le_refl _
  | case2 => exact le_refl _
  | case3 _ _ _ _ ih => exact ih
  | case4 _ _ _ _ _ _ _ ih => exact (Nat.le_succ _).trans ih
  | case5 _ _ _ _ _ _ _ ih => exact ih

theorem length_storeHeaders_lt (nCols : Nat) (rest : Text) (p : Nat) (inQuote : Bool)
    (start : Text) (headers : List Text) :
    (storeHeaders parser nCols rest p inQuote start headers).1.length <
      countColumns parser rest inQuote (headers.length + 1) := by
  fun_induction storeHeaders parser nCols rest p inQuote start headers with
  | case1 => exact Nat.lt_succ_self _
  | case2 => exact le_countColumns ..
  | case3 rest p inQuote start headers hstop ih =>
    rw [countColumns, if_neg fun h => hstop (h.imp_right .inl), if_pos rfl]
    exact ih
  | case4 c rest p inQuote start headers hstop hquote hdelimiter ih =>
    have hcomma : c = parser.delimiter ∧ inQuote = false :=
      ⟨hdelimiter.1.resolve_right fun h => hstop (.inr (.inl h)), hdelimiter.2⟩
    rw [countColumns, if_neg fun h => hstop (h.imp_right .inl), if_neg hquote, if_pos hcomma]
    rw [List.length_append] at ih
    exact ih
  | case5 c rest p inQuote start headers hstop hquote hdelimiter ih =>
    rw [countColumns, if_neg fun h => hstop (h.imp_right .inl), if_neg hquote,
      if_neg fun h => hdelimiter ⟨.inl h.1, h.2⟩]
    exact ih

theorem csvParseHeader_misses (data : Text) : ∃ headers,
    (csvParseHeader (csvParserCreate data)).headers = some headers ∧ none ∈ headers := by
  refine ⟨_, rfl, List.mem_append_right _ (List.mem_replicate.mpr ⟨?_, rfl⟩)⟩
  exact (Nat.sub_pos_of_lt (length_storeHeaders_lt (csvParserCreate data) _ data 0 false [] [])).ne'

end Header

section Rows

variable {parser : CSVParser} {row : List Field} {tail : Text}

structure Standard (parser : CSVParser) : Prop where
  delimiter : parser.delimiter = ','
  quote : parser.quote = '"'

theorem scanRow_inQuote (h : Standard parser) {text : Text} {values : List Text}
    (hcol : values.length < parser.nColumns) (hfree : ∀ c ∈ text, c ≠ '"' ∧ c ≠ '\x00') (p : Nat)
    (start : Text) : scanRow parser (text ++ tail) p true start values =
      scanRow parser tail (p + text.length) true (start ++ text) values := by
  induction text generalizing p start with
  | nil => rw [List.append_nil]; rfl
  | cons c text ih =>
    obtain ⟨⟨hquote, hnul⟩, hfree⟩ := List.forall_mem_cons.mp hfree
    rw [List.cons_append, scanRow, if_neg (not_or.mpr ⟨hnul, hcol.not_ge⟩),
      if_neg (h.quote ▸ hquote), if_neg fun hsep => Bool.noConfusion hsep.2, ih hfree,
      List.append_assoc, List.length_cons, Nat.add_right_comm, Nat.add_assoc]
    rfl

theorem scanRow_unquoted (h : Standard parser) {text : Text} {values : List Text}
    (hcol : values.length < parser.nColumns)
    (hfree : ∀ c ∈ text, (c ≠ ',' ∧ c ≠ '"' ∧ c ≠ '\n') ∧ c ≠ '\x00') (p : Nat)
    (start : Text) : scanRow parser (text ++ tail) p false start values =
      scanRow parser tail (p + text.length) false (start ++ text) values := by
  induction text generalizing p start with
  | nil => rw [List.append_nil]; rfl
  | cons c text ih =>
    obtain ⟨⟨⟨hcomma, hquote, hline⟩, hnul⟩, hfree⟩ := List.forall_mem_cons.mp hfree
    have hsep : ¬ ((c = parser.delimiter ∨ c = '\n' ∨ c = '\x00') ∧ false = false) := by
      rw [h.delimiter]
      exact fun hsep => hsep.1.elim hcomma (·.elim hline hnul)
    rw [List.cons_append, scanRow, if_neg (not_or.mpr ⟨hnul, hcol.not_ge⟩),
      if_neg (h.quote ▸ hquote), if_neg hsep, ih hfree, List.append_assoc, List.length_cons,
      Nat.add_right_comm, Nat.add_assoc]
    rfl

def Field.NoNul (field : Field) : Prop := ∀ c ∈ field.text, c ≠ '\x00'

theorem removeQuotes_print (field : Field) : removeQuotes '"' field.print = field.text := by
  cases field with
  | plain text free =>
    refine if_neg fun h => ?_
    obtain ⟨_, hhead, _⟩ := h
    exact (free '"' (List.mem_of_mem_head? hhead)).2.1 rfl
  | quoted text free =>
    have hlast : (Field.quoted text free).print.getLast? = some '"' := by
      rw [Field.print, ← List.cons_append, List.getLast?_concat]
    have hlength : 2 ≤ (Field.quoted text free).print.length := by simp [Field.print]
    rw [removeQuotes, if_pos ⟨hlength, rfl, hlast⟩, Field.print, List.tail_cons,
      List.dropLast_concat]
    rfl

theorem scanRow_field (h : Standard parser) {values : List Text}
    (hcol : values.length < parser.nColumns) {field : Field} (hnul : field.NoNul) (p : Nat) :
    scanRow parser (field.print ++ tail) p false [] values =
      scanRow parser tail (p + field.print.length) false field.print values := by
  cases field with
  | plain text free => exact scanRow_unquoted h hcol (fun c hc => ⟨free c hc, hnul c hc⟩) p []
  | quoted text free =>
    have hstop : ¬ ('"' = '\x00' ∨ parser.nColumns ≤ values.length) :=
      not_or.mpr ⟨by decide, hcol.not_ge⟩
    rw [Field.print, List.cons_append, List.append_assoc, scanRow, if_neg hstop,
      if_pos h.quote.symm, Bool.not_false,
      scanRow_inQuote h hcol (fun c hc => ⟨free c hc, hnul c hc⟩), List.singleton_append, scanRow,
      if_neg hstop, if_pos h.quote.symm, List.length_cons, List.length_append]
    simp only [List.nil_append, List.cons_append, Bool.not_true, List.length_singleton]
    congr 1
    omega

theorem scanRow_separator (h : Standard parser) {values : List Text}
    (hcol : values.length < parser.nColumns) (field : Field) (p : Nat) :
    scanRow parser (',' :: tail) p false field.print values =
        scanRow parser tail (p + 1) false [] (values ++ [field.text]) ∧
      scanRow parser ('\n' :: tail) p false field.print values =
        (values ++ [field.text], p) := by
  constructor
  · rw [scanRow, if_neg (not_or.mpr ⟨by decide, hcol.not_ge⟩), if_neg (h.quote ▸ by decide),
      if_pos ⟨.inl h.delimiter.symm, rfl⟩, h.quote, removeQuotes_print]
    exact if_neg (by decide)
  · rw [scanRow, if_neg (not_or.mpr ⟨by decide, hcol.not_ge⟩), if_neg (h.quote ▸ by decide),
      if_pos ⟨.inr (.inl rfl), rfl⟩, h.quote, removeQuotes_print]
    exact if_pos (.inl rfl)

theorem printRow_cons_cons (field next : Field) (row : List Field) :
    printRow (field :: next :: row) = field.print ++ ',' :: printRow (next :: row) := rfl

theorem scanRow_printRow (h : Standard parser) {values : List Text} (hrow : row ≠ [])
    (hcols : values.length + row.length = parser.nColumns) (hnul : ∀ field ∈ row, field.NoNul)
    (p : Nat) :
    scanRow parser (printRow row ++ '\n' :: tail) p false [] values =
        (values ++ row.map Field.text, p + (printRow row).length) ∧
      scanRow parser (printRow row) p false [] values =
        (values ++ row.dropLast.map Field.text, p + (printRow row).length) := by
  induction row generalizing values p with
  | nil => exact absurd rfl hrow
  | cons field row ih =>
    have hcol : values.length < parser.nColumns := by
      rw [← hcols, List.length_cons]
      omega
    obtain ⟨hfield, hnul⟩ := List.forall_mem_cons.mp hnul
    cases row with
    | nil =>
      constructor
      · rw [printRow, scanRow_field h hcol hfield, (scanRow_separator h hcol field _).2]
        rfl
      · have heq := @scanRow_field parser [] h _ hcol field hfield p
        rw [List.append_nil] at heq
        rw [printRow, heq]
        exact congrArg (·, _) (List.append_nil _).symm
    | cons next row =>
      have hcols' : (values ++ [field.text]).length + (next :: row).length = parser.nColumns := by
        rw [← hcols, List.length_append, List.length_singleton, List.length_cons (a := field)]
        omega
      obtain ⟨hline, hend⟩ := ih (List.cons_ne_nil _ _) hcols' hnul (p + field.print.length + 1)
      have hlength : p + (printRow (field :: next :: row)).length =
          p + field.print.length + 1 + (printRow (next :: row)).length := by
        rw [printRow_cons_cons, List.length_append, List.length_cons]
        omega
      rw [hlength, printRow_cons_cons]
      constructor
      · rw [List.append_assoc, List.cons_append, scanRow_field h hcol hfield,
          (scanRow_separator h hcol field _).1, hline, List.append_assoc]
        rfl
      · rw [scanRow_field h hcol hfield, (scanRow_separator h hcol field _).1, hend,
          List.append_assoc]
        rfl

/-- What is left of the buffer is `rest`. -/
structure Rest (parser : CSVParser) (rest : Text) : Prop where
  drop : parser.buffer.drop parser.position = rest
  size : parser.bufferSize = parser.buffer.length

theorem Rest.position_lt {rest : Text} (h : Rest parser rest) (hne : rest ≠ []) :
    parser.position < parser.bufferSize := by
  rw [h.size]
  refine not_le.mp fun hle => hne ?_
  rw [← h.drop, List.drop_eq_nil_of_le hle]

theorem Rest.csvParseRow_end (h : Rest parser []) : (csvParseRow parser).1 = none := by
  have hle : parser.bufferSize ≤ parser.position :=
    h.size ▸ List.drop_eq_nil_iff.mp h.drop
  rw [csvParseRow, if_pos hle]

theorem csvParseRow_line (h : Standard parser) (hrest : Rest parser (printRow row ++ '\n' :: tail))
    (hrow : row ≠ []) (hcols : row.length = parser.nColumns) (hnul : ∀ field ∈ row, field.NoNul) :
    csvParseRow parser = (some (values row),
      { parser with position := parser.position + (printRow row).length + 1 }) := by
  have hscan := (@scanRow_printRow parser row tail h [] hrow ((Nat.zero_add _).trans hcols) hnul
    parser.position).1
  have hlt := hrest.position_lt (List.append_ne_nil_of_right_ne_nil _ (List.cons_ne_nil _ _))
  rw [csvParseRow, if_neg hlt.not_ge, hrest.drop, hscan]
  simp [hcols, values]

theorem csvParseRow_lost (h : Standard parser) (hrest : Rest parser (printRow row))
    (hrow : row ≠ []) (hcols : row.length = parser.nColumns) (hnul : ∀ field ∈ row, field.NoNul) :
    (csvParseRow parser).1 ≠ some (values row) := by
  have hscan := (@scanRow_printRow parser row [] h [] hrow ((Nat.zero_add _).trans hcols) hnul
    parser.position).2
  intro heq
  rw [csvParseRow] at heq
  split at heq
  · cases heq
  · rw [hrest.drop, hscan] at heq
    have hmem : none ∈ values row := by
      rw [← Option.some.inj heq, ← hcols]
      refine List.mem_append_right _ (List.mem_replicate.mpr ⟨?_, rfl⟩)
      have hpos := List.length_pos_iff.mpr hrow
      rw [List.nil_append, List.length_map, List.length_dropLast]
      omega
    obtain ⟨_, _, hfield⟩ := List.mem_map.mp hmem
    cases hfield

theorem readsRows_iff (h : Standard parser) (rows : List (List Field)) (final : Bool)
    (hrest : Rest parser (printRows rows final).tail) (hcolumns : 0 < parser.nColumns)
    (hrows : ∀ row ∈ rows, row.length = parser.nColumns ∧ ∀ field ∈ row, field.NoNul) :
    ReadsRows parser (rows.map values) ↔ final = true ∨ rows = [] := by
  induction rows generalizing parser with
  | nil =>
    refine iff_of_true (Rest.csvParseRow_end ?_) (.inr rfl)
    cases final <;> exact hrest
  | cons row rows ih =>
    obtain ⟨⟨hcols, hnul⟩, hrows⟩ := List.forall_mem_cons.mp hrows
    have hrow : row ≠ [] := List.length_pos_iff.mp (hcols ▸ hcolumns)
    rw [printRows, List.tail_cons] at hrest
    rw [List.map_cons, ReadsRows]
    cases hprinted : printRows rows final with
    | nil =>
      rw [hprinted, List.append_nil] at hrest
      refine iff_of_false (fun hreads => csvParseRow_lost h hrest hrow hcols hnul hreads.1) ?_
      rintro (rfl | hnil)
      · cases rows <;> cases hprinted
      · cases hnil
    | cons c tail =>
      have hline : c = '\n' := by
        cases rows with
        | nil => cases final <;> cases hprinted; rfl
        | cons => cases hprinted; rfl
      subst hline
      rw [hprinted] at hrest
      rw [csvParseRow_line h hrest hrow hcols hnul]
      have hnext : Standard
          { parser with position := parser.position + (printRow row).length + 1 } :=
        ⟨h.delimiter, h.quote⟩
      have hdrop : Rest { parser with position := parser.position + (printRow row).length + 1 }
          (printRows rows final).tail := by
        refine ⟨?_, hrest.size⟩
        rw [hprinted, List.tail_cons, Nat.add_assoc, ← List.drop_drop, hrest.drop,
          ← List.drop_drop, List.drop_left]
        rfl
      rw [ih hnext hdrop hcolumns hrows]
      cases final with
      | true => simp
      | false =>
        cases rows with
        | nil => cases hprinted
        | cons => simp

end Rows

section OneLine

variable {parser : CSVParser} {tail : Text}

def Ends (tail : Text) : Prop := ∀ c ∈ tail.head?, c = '\n'

def OneLine (text : Text) : Prop := ∀ c ∈ text, ¬ (c = '\x00' ∨ c = '\n')

theorem countColumns_inQuote (h : Standard parser) {text : Text} (hline : OneLine text)
    (hfree : ∀ c ∈ text, c ≠ '"') (nCols : Nat) :
    countColumns parser (text ++ tail) true nCols = countColumns parser tail true nCols := by
  induction text with
  | nil => rfl
  | cons c text ih =>
    obtain ⟨hstop, hline⟩ := List.forall_mem_cons.mp hline
    obtain ⟨hquote, hfree⟩ := List.forall_mem_cons.mp hfree
    rw [List.cons_append, countColumns, if_neg hstop, if_neg (h.quote ▸ hquote),
      if_neg fun hsep => Bool.noConfusion hsep.2]
    exact ih hline hfree

theorem countColumns_unquoted (h : Standard parser) {text : Text} (hline : OneLine text)
    (hfree : ∀ c ∈ text, c ≠ ',' ∧ c ≠ '"' ∧ c ≠ '\n') (nCols : Nat) :
    countColumns parser (text ++ tail) false nCols = countColumns parser tail false nCols := by
  induction text with
  | nil => rfl
  | cons c text ih =>
    obtain ⟨hstop, hline⟩ := List.forall_mem_cons.mp hline
    obtain ⟨⟨hcomma, hquote, _⟩, hfree⟩ := List.forall_mem_cons.mp hfree
    rw [List.cons_append, countColumns, if_neg hstop, if_neg (h.quote ▸ hquote),
      if_neg fun hsep => hcomma (hsep.1.trans h.delimiter)]
    exact ih hline hfree

theorem countColumns_field (h : Standard parser) {field : Field} (hline : OneLine field.text)
    (nCols : Nat) :
    countColumns parser (field.print ++ tail) false nCols =
      countColumns parser tail false nCols := by
  cases field with
  | plain text free => exact countColumns_unquoted h hline free nCols
  | quoted text free =>
    change OneLine text at hline
    rw [Field.print, List.cons_append, List.append_assoc, countColumns, if_neg (by decide),
      if_pos h.quote.symm, Bool.not_false, countColumns_inQuote h hline free,
      List.singleton_append, countColumns, if_neg (by decide), if_pos h.quote.symm, Bool.not_true]

theorem countColumns_printRow (h : Standard parser) (htail : Ends tail) {row : List Field}
    (hrow : row ≠ []) (hline : ∀ field ∈ row, OneLine field.text) (nCols : Nat) :
    countColumns parser (printRow row ++ tail) false (nCols + 1) = nCols + row.length := by
  induction row generalizing nCols with
  | nil => exact absurd rfl hrow
  | cons field row ih =>
    obtain ⟨hfield, hline⟩ := List.forall_mem_cons.mp hline
    cases row with
    | nil =>
      rw [printRow, countColumns_field h hfield]
      cases tail with
      | nil => rfl
      | cons c tail => rw [countColumns, if_pos (.inr (htail c rfl))]; rfl
    | cons next row =>
      rw [printRow_cons_cons, List.append_assoc, List.cons_append, countColumns_field h hfield,
        countColumns, if_neg (by decide), if_neg (h.quote ▸ by decide),
        if_pos ⟨h.delimiter.symm, rfl⟩, ih (List.cons_ne_nil _ _) hline,
        List.length_cons (a := field), Nat.add_right_comm, Nat.add_assoc]

theorem position_storeHeaders {text : Text} (htail : Ends tail) (hline : OneLine text)
    (nCols p : Nat) (inQuote : Bool) (start : Text) (headers : List Text)
    (hcols : countColumns parser (text ++ tail) inQuote (headers.length + 1) ≤ nCols) :
    (storeHeaders parser nCols (text ++ tail) p inQuote start headers).2 = p + text.length := by
  induction text generalizing p inQuote start headers with
  | nil =>
    cases tail with
    | nil => rfl
    | cons c tail => rw [List.nil_append, storeHeaders, if_pos (.inr (.inl (htail c rfl)))]; rfl
  | cons c text ih =>
    obtain ⟨hstop, hline⟩ := List.forall_mem_cons.mp hline
    have hroom : ¬ (c = '\x00' ∨ c = '\n' ∨ nCols ≤ headers.length) := by
      rw [← or_assoc]
      exact not_or.mpr ⟨hstop, fun hle => absurd ((le_countColumns ..).trans (hcols.trans hle))
        (Nat.not_succ_le_self _)⟩
    rw [List.cons_append, countColumns, if_neg hstop] at hcols
    rw [List.cons_append, storeHeaders, if_neg hroom, List.length_cons, Nat.add_comm text.length,
      ← Nat.add_assoc]
    split
    next hquote =>
      rw [if_pos hquote] at hcols
      exact ih hline _ _ _ _ hcols
    next hquote =>
      rw [if_neg hquote] at hcols
      split
      next hsep =>
        rw [if_pos ⟨hsep.1.resolve_right fun h => hstop (.inr h), hsep.2⟩] at hcols
        refine ih hline _ _ _ _ ?_
        rwa [List.length_append]
      next hsep =>
        rw [if_neg fun h => hsep ⟨.inl h.1, h.2⟩] at hcols
        exact ih hline _ _ _ _ hcols

theorem oneLine_printRow {row : List Field} (hline : ∀ field ∈ row, OneLine field.text) :
    OneLine (printRow row) := by
  have hfield : ∀ field : Field, OneLine field.text → OneLine field.print := by
    intro field h
    cases field with
    | plain text free => exact h
    | quoted text free =>
      intro c hc
      rcases List.mem_cons.mp hc with rfl | hc
      · decide
      · rcases List.mem_append.mp hc with hc | hc
        · exact h c hc
        · rw [List.mem_singleton.mp hc]
          decide
  fun_induction printRow row with
  | case1 => exact fun c hc => absurd hc List.not_mem_nil
  | case2 field => exact hfield field (hline field List.mem_cons_self)
  | case3 field row hne ih =>
    intro c hc
    rcases List.mem_append.mp hc with hc | hc
    · exact hfield field (hline field List.mem_cons_self) c hc
    · rcases List.mem_cons.mp hc with rfl | hc
      · decide
      · exact ih (fun f hf => hline f (List.mem_cons_of_mem _ hf)) c hc

theorem ends_printRows (rows : List (List Field)) (final : Bool) : Ends (printRows rows final) := by
  intro c hc
  cases rows with
  | nil => cases final <;> cases hc; rfl
  | cons => cases hc; rfl

/-- The rows under a header of one line are read when a newline ends the last one. -/
theorem csvParseRows_iff (table : Table) (final : Bool)
    (hheader : ∀ field ∈ table.header, OneLine field.text)
    (hnul : ∀ row ∈ table.rows, ∀ field ∈ row, field.NoNul) :
    ReadsRows (csvParseHeader (csvParserCreate (table.print final))) (table.rows.map values) ↔
      final = true ∨ table.rows = [] := by
  have hcolumns : countColumns (csvParserCreate (table.print final)) (table.print final) false 1 =
      table.header.length :=
    (countColumns_printRow ⟨rfl, rfl⟩ (ends_printRows _ _) table.columns hheader 0).trans
      (Nat.zero_add _)
  have hposition : (csvParseHeader (csvParserCreate (table.print final))).position =
      (printRow table.header).length + 1 :=
    congrArg (· + 1) ((position_storeHeaders (ends_printRows _ _) (oneLine_printRow hheader) _ 0
      false [] [] (le_refl _)).trans (Nat.zero_add _))
  refine readsRows_iff ⟨rfl, rfl⟩ table.rows final ⟨?_, rfl⟩ ?_ fun row hrow => ⟨?_, hnul row hrow⟩
  · rw [hposition, ← List.drop_drop, ← List.drop_one]
    exact congrArg (List.drop 1) List.drop_left
  · exact (List.length_pos_iff.mpr table.columns).trans_eq hcolumns.symm
  · exact (table.even row hrow).trans hcolumns.symm

end OneLine

/-- The name of the last column is missing from every table. -/
theorem not_parsesTable (table : Table) (final : Bool) : ¬ ParsesTable table final := by
  rintro ⟨hheaders, _⟩
  obtain ⟨headers, heq, hnone⟩ := csvParseHeader_misses (table.print final)
  rw [Option.some.inj (heq.symm.trans hheaders), values, List.mem_map] at hnone
  obtain ⟨_, _, hfield⟩ := hnone
  cases hfield

theorem free_letter {letter : Char} (h : letter ≠ ',' ∧ letter ≠ '"' ∧ letter ≠ '\n') :
    ∀ c ∈ [letter], c ≠ ',' ∧ c ≠ '"' ∧ c ≠ '\n' := by
  intro c hc
  rwa [List.mem_singleton.mp hc]

def sampleHeader : List Field :=
  [.plain ['a'] (free_letter (by decide)), .plain ['b'] (free_letter (by decide))]

def sampleRow : List Field :=
  [.plain ['1'] (free_letter (by decide)), .plain ['2'] (free_letter (by decide))]

theorem length_sampleRow : ∀ row ∈ [sampleRow], row.length = sampleHeader.length := by
  intro row hrow
  rw [List.mem_singleton.mp hrow]
  rfl

def sampleTable : Table := ⟨sampleHeader, [sampleRow], List.cons_ne_nil _ _, length_sampleRow⟩

example : (csvParseHeader (csvParserCreate (sampleTable.print true))).headers =
    some [some ['a'], none] := by decide

theorem reads_sampleTable :
    ReadsRows (csvParseHeader (csvParserCreate (sampleTable.print true)))
      (sampleTable.rows.map values) := by
  refine (csvParseRows_iff sampleTable true ?_ ?_).mpr (.inl rfl)
  · simp [sampleTable, sampleHeader, OneLine, Field.text]
  · simp [sampleTable, sampleRow, Field.NoNul, Field.text]

theorem not_parses_sampleTable : ¬ ParsesTable sampleTable true :=
  fun h => absurd h.1 (by decide)

end SqliteMultimodal.Graph.Bulk
