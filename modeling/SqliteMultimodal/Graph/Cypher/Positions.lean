import Mathlib.Data.List.GetD
import SqliteMultimodal.Graph.Cypher.Lexer
import SqliteMultimodal.Lib.Block

/-! The lexer at its positions in the input.  A character that is read after the terminator, a slice
outside of the text and a loop that does not end are undefined. -/

namespace SqliteMultimodal.Graph.Cypher.Positions

section Code

structure CypherLexer where
  zInput : Text
  iPos : Nat
  iLine : Int
  iColumn : Int

structure CypherToken where
  type : CypherTokenType
  text : Text
  len : Nat
  line : Int
  column : Int

def cypherLexerCreate (zInput : Text) : CypherLexer := ⟨zInput, 0, 1, 1⟩

/-- The length of the input, cast to `int`; a negative one is as good as none. -/
def intLength (zInput : Text) : Nat := (Int32.ofNat zInput.length).toInt.toNat

def lexerPeek (pLexer : CypherLexer) (offset : Nat) : Char :=
  if pLexer.iPos + offset ≥ intLength pLexer.zInput then Block.nul
  else pLexer.zInput.getD (pLexer.iPos + offset) Block.nul

def lexerNext (pLexer : CypherLexer) : Option (Char × CypherLexer) :=
  if pLexer.iPos ≤ pLexer.zInput.length then
    let c := pLexer.zInput.getD pLexer.iPos Block.nul
    if c = '\n' then
      some (c, { pLexer with iLine := pLexer.iLine + 1, iColumn := 1, iPos := pLexer.iPos + 1 })
    else some (c, { pLexer with iColumn := pLexer.iColumn + 1, iPos := pLexer.iPos + 1 })
  else none

def skipWhile (p : Char → Bool) : Nat → CypherLexer → Option CypherLexer
  | 0, _ => none
  | fuel + 1, pLexer =>
    if p (lexerPeek pLexer 0) then do
      let (_, pLexer) ← lexerNext pLexer
      skipWhile p fuel pLexer
    else some pLexer

def turns (pLexer : CypherLexer) : Nat := pLexer.zInput.length + 1

def lexerSkipWhitespace (pLexer : CypherLexer) : Option CypherLexer :=
  skipWhile Text.isSpace (turns pLexer) pLexer

def skipBlock : Nat → CypherLexer → Option CypherLexer
  | 0, _ => none
  | fuel + 1, pLexer =>
    if lexerPeek pLexer 0 ≠ '*' ∨ lexerPeek pLexer 1 ≠ '/' then
      if lexerPeek pLexer 0 = Block.nul then some pLexer
      else do
        let (_, pLexer) ← lexerNext pLexer
        skipBlock fuel pLexer
    else do
      let (_, pLexer) ← lexerNext pLexer
      let (_, pLexer) ← lexerNext pLexer
      some pLexer

def lexerSkipComment (pLexer : CypherLexer) : Option CypherLexer :=
  if lexerPeek pLexer 0 = '/' ∧ lexerPeek pLexer 1 = '/' then
    skipWhile (fun c => c ≠ '\n' && c ≠ Block.nul) (turns pLexer) pLexer
  else if lexerPeek pLexer 0 = '/' ∧ lexerPeek pLexer 1 = '*' then do
    let (_, pLexer) ← lexerNext pLexer
    let (_, pLexer) ← lexerNext pLexer
    skipBlock (turns pLexer) pLexer
  else some pLexer

def lexerAddToken (pLexer : CypherLexer) (type : CypherTokenType) (startPos endPos : Nat) :
    Option (CypherToken × CypherLexer) :=
  if startPos ≤ endPos ∧ endPos ≤ pLexer.zInput.length then
    some (⟨type, (pLexer.zInput.drop startPos).take (endPos - startPos), endPos - startPos,
      pLexer.iLine, pLexer.iColumn - (endPos - startPos : Nat)⟩, pLexer)
  else none

def lexerTokenizeIdentifier (pLexer : CypherLexer) : Option (CypherToken × CypherLexer) := do
  let startPos := pLexer.iPos
  let pLexer ← skipWhile isWordChar (turns pLexer) pLexer
  let zKeyword := (pLexer.zInput.drop startPos).take (pLexer.iPos - startPos)
  lexerAddToken pLexer (cypherGetKeywordToken zKeyword) startPos pLexer.iPos

def lexerTokenizeNumber (pLexer : CypherLexer) : Option (CypherToken × CypherLexer) := do
  let startPos := pLexer.iPos
  let pLexer ← skipWhile Char.isDigit (turns pLexer) pLexer
  if lexerPeek pLexer 0 = '.' then do
    let (_, pLexer) ← lexerNext pLexer
    let pLexer ← skipWhile Char.isDigit (turns pLexer) pLexer
    lexerAddToken pLexer .float startPos pLexer.iPos
  else lexerAddToken pLexer .integer startPos pLexer.iPos

def stringLoop (quote : Char) : Nat → CypherLexer → Option (Bool × CypherLexer)
  | 0, _ => none
  | fuel + 1, pLexer =>
    if lexerPeek pLexer 0 ≠ quote then do
      let pLexer ←
        if lexerPeek pLexer 0 = '\\' then (lexerNext pLexer).map Prod.snd else some pLexer
      if lexerPeek pLexer 0 = Block.nul then some (false, pLexer)
      else do
        let (_, pLexer) ← lexerNext pLexer
        stringLoop quote fuel pLexer
    else some (true, pLexer)

def lexerTokenizeString (pLexer : CypherLexer) : Option (CypherToken × CypherLexer) := do
  let startPos := pLexer.iPos + 1
  let (quote, pLexer) ← lexerNext pLexer
  let (closed, pLexer) ← stringLoop quote (turns pLexer) pLexer
  if closed then do
    let endPos := pLexer.iPos
    let (_, pLexer) ← lexerNext pLexer
    lexerAddToken pLexer .string startPos endPos
  else lexerAddToken pLexer .error (startPos - 1) pLexer.iPos

def follow (pLexer : CypherLexer) (c : Char)
    (found other : CypherLexer → Option (CypherTokenType × CypherLexer)) :
    Option (CypherTokenType × CypherLexer) :=
  if lexerPeek pLexer 0 = c then (lexerNext pLexer).bind fun r => found r.2 else other pLexer

def token (type : CypherTokenType) (pLexer : CypherLexer) :
    Option (CypherTokenType × CypherLexer) :=
  some (type, pLexer)

def symbols : List (Char × CypherTokenType) :=
  [('+', .plus), ('*', .mult), ('/', .div), ('%', .mod), ('^', .pow), ('.', .dot), (':', .colon),
    (',', .comma), (';', .semicolon), ('(', .lparen), (')', .rparen), ('[', .lbracket),
    (']', .rbracket), ('\x7b', .lbrace), ('\x7d', .rbrace), ('|', .pipe), ('$', .dollar)]

def symbolType (c : Char) (pLexer : CypherLexer) : Option (CypherTokenType × CypherLexer) :=
  if c = '=' then follow pLexer '~' (token .regex) (token .eq)
  else if c = '<' then
    follow pLexer '>' (token .ne) fun pLexer =>
      follow pLexer '-' (fun pLexer => follow pLexer '>' (token .arrowBoth) (token .arrowLeft))
        fun pLexer => follow pLexer '=' (token .le) (token .lt)
  else if c = '>' then follow pLexer '=' (token .ge) (token .gt)
  else if c = '-' then follow pLexer '>' (token .arrowRight) (token .minus)
  else
    match symbols.find? (·.1 = c) with
    | some symbol => token symbol.2 pLexer
    | none => token .error pLexer

def cypherLexerNextToken (pLexer : CypherLexer) : Option (CypherToken × CypherLexer) := do
  let pLexer ← lexerSkipWhitespace pLexer
  let pLexer ← lexerSkipComment pLexer
  let startPos := pLexer.iPos
  let c := lexerPeek pLexer 0
  if c = Block.nul then lexerAddToken pLexer .eof startPos pLexer.iPos
  else if c.isAlpha || c = '_' then lexerTokenizeIdentifier pLexer
  else if c.isDigit then lexerTokenizeNumber pLexer
  else if c = '\x27' || c = '"' then lexerTokenizeString pLexer
  else do
    let (_, pLexer) ← lexerNext pLexer
    let (type, pLexer) ← symbolType c pLexer
    lexerAddToken pLexer type startPos pLexer.iPos

def parserPeekToken (pLexer : CypherLexer) : Option (CypherToken × CypherLexer) := do
  let (token, pAfter) ← cypherLexerNextToken pLexer
  some (token, { pAfter with
    iPos := pLexer.iPos, iLine := pLexer.iLine, iColumn := pLexer.iColumn })

end Code

section Lengths

theorem length_dropWhile_le (p : Char → Bool) (t : Text) : (t.dropWhile p).length ≤ t.length :=
  (List.dropWhile_suffix p).length_le

theorem length_afterBlock_le (t : Text) : (afterBlock t).length ≤ t.length := by
  fun_induction afterBlock t with
  | case1 => exact Nat.le_refl _
  | case2 c => exact Nat.zero_le _
  | case3 c d t h =>
    simp only [List.length_cons]
    omega
  | case4 c d t h ih =>
    rw [List.length_cons]
    omega

theorem length_skip_le (t : Text) :
    (Cypher.lexerSkipComment (Cypher.lexerSkipWhitespace t)).length ≤ t.length := by
  have hcomment : ∀ u : Text, (Cypher.lexerSkipComment u).length ≤ u.length := by
    intro u
    unfold Cypher.lexerSkipComment
    split
    next v =>
      have hle := length_dropWhile_le (· ≠ '\n') v
      simp only [List.length_cons]
      omega
    next v =>
      have hle := length_afterBlock_le v
      simp only [List.length_cons]
      omega
    next => exact Nat.le_refl _
  exact (hcomment _).trans (length_dropWhile_le _ t)

theorem length_number_le {c : Char} (hc : c.isDigit = true) (t : Text) :
    (Cypher.lexerTokenizeNumber (c :: t)).2.length ≤ t.length := by
  have hle := length_dropWhile_le Char.isDigit t
  unfold Cypher.lexerTokenizeNumber
  rw [List.dropWhile_cons_of_pos hc]
  split
  next u hu =>
    have hle' := length_dropWhile_le Char.isDigit u
    rw [hu, List.length_cons] at hle
    dsimp only
    omega
  next => exact hle

theorem length_stringBody_le {quote : Char} {t : Text} {r : Text × Text}
    (h : stringBody quote t = some r) : r.2.length ≤ t.length := by
  fun_induction stringBody quote t generalizing r with
  | case1 => cases h
  | case2 t =>
    obtain rfl := Option.some.inj h
    exact Nat.le_succ _
  | case3 hq => cases h
  | case4 d t hq ih =>
    obtain ⟨r₁, hr₁, rfl⟩ := Option.map_eq_some_iff.mp h
    exact (ih hr₁).trans ((Nat.le_succ _).trans (Nat.le_succ _))
  | case5 c t hq hback ih =>
    obtain ⟨r₁, hr₁, rfl⟩ := Option.map_eq_some_iff.mp h
    exact (ih hr₁).trans (Nat.le_succ _)

theorem length_string_le (quote : Char) (t : Text) :
    (Cypher.lexerTokenizeString quote t).2.length ≤ t.length := by
  unfold Cypher.lexerTokenizeString
  split
  next h => exact length_stringBody_le h
  next => exact Nat.zero_le _

theorem length_operator_le (c : Char) (t : Text) :
    (lexerTokenizeOperator (c :: t)).2.length ≤ t.length := by
  unfold lexerTokenizeOperator
  split
  next op hop =>
    have hall : operators.all (fun op => !op.1.isEmpty) = true := rfl
    have hne := List.all_eq_true.mp hall op (List.mem_of_find?_eq_some hop)
    dsimp only
    rw [List.length_drop, List.length_cons]
    cases hop' : op.1 with
    | nil =>
      rw [hop'] at hne
      cases hne
    | cons d v =>
      rw [List.length_cons]
      omega
  next => exact Nat.le_refl _

theorem length_nextToken (t : Text) : (Cypher.cypherLexerNextToken t).2.length ≤ t.length ∧
    ((Cypher.cypherLexerNextToken t).1.type ≠ .eof →
      (Cypher.cypherLexerNextToken t).2.length < t.length) := by
  have hskip := length_skip_le t
  rw [Cypher.cypherLexerNextToken]
  cases hrest : Cypher.lexerSkipComment (Cypher.lexerSkipWhitespace t) with
  | nil => exact ⟨Nat.zero_le _, fun h => absurd rfl h⟩
  | cons c u =>
    rw [hrest, List.length_cons] at hskip
    have hless : ∀ r : Cypher.CypherToken × Text, r.2.length ≤ u.length →
        r.2.length ≤ t.length ∧ (r.1.type ≠ .eof → r.2.length < t.length) :=
      fun r hr => ⟨by omega, fun _ => by omega⟩
    dsimp only
    split_ifs with hword hdigit hquote
    · refine hless _ ?_
      have hc : isWordChar c = true := by
        rw [Bool.or_eq_true, decide_eq_true_eq] at hword
        rw [isWordChar, Char.isAlphanum, Bool.or_eq_true, Bool.or_eq_true, decide_eq_true_eq]
        exact hword.imp_left .inl
      rw [Cypher.lexerTokenizeIdentifier, List.dropWhile_cons_of_pos hc]
      exact length_dropWhile_le _ u
    · exact hless _ (length_number_le hdigit u)
    · exact hless _ (length_string_le c u)
    · exact hless _ (length_operator_le c u)

end Lengths

section View

def visible (zInput : Text) : Text := zInput.take (intLength zInput)

theorem intLength_le (zInput : Text) : intLength zInput ≤ zInput.length := by
  have hsize : Int32.size = 4294967296 := rfl
  rw [intLength, Int32.toInt_ofNat', Int.bmod, hsize]
  split <;> omega

theorem length_visible (zInput : Text) : (visible zInput).length = intLength zInput := by
  rw [visible, List.length_take, Nat.min_eq_left (intLength_le zInput)]

structure View (zInput : Text) (pLexer : CypherLexer) (rest : Text) : Prop where
  input : pLexer.zInput = zInput
  rest_eq : (visible zInput).drop pLexer.iPos = rest
  pos : pLexer.iPos + rest.length = intLength zInput

variable {zInput rest t u w : Text} {pLexer : CypherLexer} {c : Char}

theorem view_create (zInput : Text) : View zInput (cypherLexerCreate zInput) (visible zInput) where
  input := rfl
  rest_eq := rfl
  pos := (Nat.zero_add _).trans (length_visible zInput)

theorem View.le (h : View zInput pLexer rest) : pLexer.iPos ≤ zInput.length := by
  have hpos := h.pos
  have hle := intLength_le zInput
  omega

theorem View.peek (h : View zInput pLexer rest) (k : Nat) :
    lexerPeek pLexer k = rest.getD k Block.nul := by
  have hpos := h.pos
  rw [lexerPeek, h.input]
  split
  next hge => rw [List.getD_eq_default _ _ (by omega)]
  next hlt =>
    have hk : k < rest.length := by omega
    have hle := intLength_le zInput
    rw [List.getD_eq_getElem _ _ hk, List.getD_eq_getElem _ _ (by omega)]
    simp only [← h.rest_eq, visible, List.getElem_drop, List.getElem_take]

theorem View.peek_nil (h : View zInput pLexer []) (k : Nat) : lexerPeek pLexer k = Block.nul :=
  h.peek k

theorem View.peek_cons (h : View zInput pLexer (c :: t)) : lexerPeek pLexer 0 = c := h.peek 0

theorem View.drop (h : View zInput pLexer (w ++ u)) {pLexer' : CypherLexer}
    (hinput : pLexer'.zInput = zInput) (hpos : pLexer'.iPos = pLexer.iPos + w.length) :
    View zInput pLexer' u where
  input := hinput
  rest_eq := by rw [hpos, ← List.drop_drop, h.rest_eq, List.drop_left]
  pos := by
    have hlength := h.pos
    rw [List.length_append] at hlength
    omega

theorem View.next (h : View zInput pLexer (c :: t)) :
    ∃ pLexer', lexerNext pLexer = some (c, pLexer') ∧ View zInput pLexer' t := by
  have hle := h.le
  have hpos := h.pos
  have hchar : pLexer.zInput.getD pLexer.iPos Block.nul = c := by
    have hpeek := h.peek_cons
    rwa [lexerPeek, h.input, if_neg (by rw [List.length_cons] at hpos; omega), ← h.input] at hpeek
  have hview : ∀ line column, View zInput ⟨pLexer.zInput, pLexer.iPos + 1, line, column⟩ t :=
    fun line column => View.drop (w := [c]) h h.input rfl
  rw [lexerNext, if_pos (h.input ▸ hle), hchar]
  dsimp only
  split
  next => exact ⟨_, rfl, hview _ _⟩
  next => exact ⟨_, rfl, hview _ _⟩

theorem View.not_mem (h : View zInput pLexer rest) (hnul : Block.nul ∉ zInput) :
    Block.nul ∉ rest := by
  intro hmem
  rw [← h.rest_eq] at hmem
  exact hnul (List.mem_of_mem_take (List.mem_of_mem_drop hmem))

theorem View.turns (h : View zInput pLexer rest) : rest.length < turns pLexer := by
  have hpos := h.pos
  have hle := intLength_le zInput
  rw [Positions.turns, h.input]
  omega

theorem skipWhile_view {p : Char → Bool} (hp : p Block.nul = false) {fuel : Nat}
    (h : View zInput pLexer rest) (hfuel : rest.length < fuel) :
    ∃ pLexer', skipWhile p fuel pLexer = some pLexer' ∧ View zInput pLexer' (rest.dropWhile p) := by
  induction rest generalizing pLexer fuel with
  | nil =>
    cases fuel with
    | zero => exact absurd hfuel (Nat.not_lt_zero _)
    | succ fuel =>
      refine ⟨pLexer, ?_, h⟩
      rw [skipWhile, h.peek_nil, hp, if_neg Bool.false_ne_true]
  | cons c t ih =>
    cases fuel with
    | zero => exact absurd hfuel (Nat.not_lt_zero _)
    | succ fuel =>
      rw [skipWhile, h.peek_cons]
      cases hc : p c with
      | true =>
        obtain ⟨pLexer₁, hnext, h₁⟩ := h.next
        rw [if_pos rfl, hnext, List.dropWhile_cons_of_pos hc]
        exact ih h₁ (Nat.lt_of_succ_lt_succ hfuel)
      | false =>
        rw [if_neg Bool.false_ne_true, List.dropWhile_cons_of_neg (by simp [hc])]
        exact ⟨pLexer, rfl, h⟩

theorem skipBlock_view {fuel : Nat} (h : View zInput pLexer rest) (hnul : Block.nul ∉ rest)
    (hfuel : rest.length < fuel) : ∃ pLexer', skipBlock fuel pLexer = some pLexer' ∧
      View zInput pLexer' (afterBlock rest) := by
  induction rest generalizing pLexer fuel with
  | nil =>
    cases fuel with
    | zero => exact absurd hfuel (Nat.not_lt_zero _)
    | succ fuel =>
      refine ⟨pLexer, ?_, h⟩
      rw [skipBlock, h.peek_nil, if_pos (.inl (by decide)), if_pos rfl]
  | cons c t ih =>
    cases fuel with
    | zero => exact absurd hfuel (Nat.not_lt_zero _)
    | succ fuel =>
      obtain ⟨pLexer₁, hnext, h₁⟩ := h.next
      rw [List.mem_cons, not_or] at hnul
      have hpeek : lexerPeek pLexer 1 = t.getD 0 Block.nul := h.peek 1
      rw [skipBlock, h.peek_cons, hpeek]
      cases t with
      | nil =>
        rw [if_pos (.inr (by decide)), if_neg (Ne.symm hnul.1), hnext]
        exact ih h₁ hnul.2 (Nat.lt_of_succ_lt_succ hfuel)
      | cons d t =>
        rw [List.getD_cons_zero, afterBlock]
        by_cases hend : c = '*' ∧ d = '/'
        · obtain ⟨pLexer₂, hnext₂, h₂⟩ := h₁.next
          rw [if_neg (by rw [hend.1, hend.2]; decide), if_pos hend, hnext]
          simp only [Option.bind_eq_bind, Option.bind_some, hnext₂]
          exact ⟨pLexer₂, rfl, h₂⟩
        · rw [if_pos (by rwa [← not_and_or]), if_neg (Ne.symm hnul.1), if_neg hend, hnext]
          exact ih h₁ hnul.2 (Nat.lt_of_succ_lt_succ hfuel)

theorem skipComment_view (h : View zInput pLexer rest) (hnul : Block.nul ∉ rest) :
    ∃ pLexer', lexerSkipComment pLexer = some pLexer' ∧
      View zInput pLexer' (Cypher.lexerSkipComment rest) := by
  have hother : ¬(lexerPeek pLexer 0 = '/' ∧ lexerPeek pLexer 1 = '/') →
      ¬(lexerPeek pLexer 0 = '/' ∧ lexerPeek pLexer 1 = '*') →
      Cypher.lexerSkipComment rest = rest → ∃ pLexer', lexerSkipComment pLexer = some pLexer' ∧
        View zInput pLexer' (Cypher.lexerSkipComment rest) := by
    intro hline hblock heq
    rw [lexerSkipComment, if_neg hline, if_neg hblock, heq]
    exact ⟨pLexer, rfl, h⟩
  have hpeek := h.peek
  have hturns := h.turns
  unfold Cypher.lexerSkipComment at hother ⊢
  split at hother
  next t =>
    rw [lexerSkipComment, hpeek, hpeek, if_pos ⟨rfl, rfl⟩]
    obtain ⟨pLexer', hskip, h'⟩ := skipWhile_view
      (p := fun c => c ≠ '\n' && c ≠ Block.nul) (by decide) h hturns
    refine ⟨pLexer', hskip, ?_⟩
    have hall : ∀ u : Text, Block.nul ∉ u →
        u.dropWhile (fun c => c ≠ '\n' && c ≠ Block.nul) = u.dropWhile (· ≠ '\n') := by
      intro u hu
      induction u with
      | nil => rfl
      | cons c u ih =>
        rw [List.mem_cons, not_or] at hu
        rw [List.dropWhile_cons, List.dropWhile_cons, ih hu.2]
        simp only [Ne.symm hu.1, ne_eq, not_false_eq_true, decide_true, Bool.and_true]
    rw [hall _ hnul] at h'
    exact h'
  next t =>
    obtain ⟨pLexer₁, hnext₁, h₁⟩ := h.next
    obtain ⟨pLexer₂, hnext₂, h₂⟩ := h₁.next
    rw [lexerSkipComment, hpeek, hpeek,
      if_neg fun hline => absurd hline.2 (show '*' ≠ '/' by decide),
      if_pos ⟨rfl, rfl⟩, hnext₁]
    simp only [Option.bind_eq_bind, Option.bind_some, hnext₂]
    exact skipBlock_view h₂
      (fun hmem => hnul (List.mem_cons_of_mem _ (List.mem_cons_of_mem _ hmem))) h₂.turns
  next hline hblock =>
    have hhead : ∀ d, d ≠ Block.nul → lexerPeek pLexer 0 = '/' → lexerPeek pLexer 1 = d →
        ∃ t, rest = '/' :: d :: t := by
      intro d hd h0 h1
      rw [hpeek] at h0 h1
      cases rest with
      | nil => exact absurd h1.symm hd
      | cons c t =>
        cases t with
        | nil => exact absurd h1.symm hd
        | cons d' t => exact ⟨t, by rw [show c = '/' from h0, show d' = d from h1]⟩
    refine hother (fun hl => ?_) (fun hb => ?_) rfl
    · obtain ⟨t, ht⟩ := hhead '/' (by decide) hl.1 hl.2
      exact hline t ht
    · obtain ⟨t, ht⟩ := hhead '*' (by decide) hb.1 hb.2
      exact hblock t ht

theorem stringLoop_view {quote : Char} (hquote : quote ≠ '\\') (hend : quote ≠ Block.nul)
    {fuel : Nat} (h : View zInput pLexer rest) (hnul : Block.nul ∉ rest)
    (hfuel : rest.length < fuel) :
    ∃ pLexer' after, stringLoop quote fuel pLexer =
        some ((stringBody quote rest).isSome, pLexer') ∧ View zInput pLexer' after ∧
      (stringBody quote rest = none → after = []) ∧
      ∀ r, stringBody quote rest = some r → rest = r.1 ++ after ∧ after = quote :: r.2 := by
  obtain ⟨fuel, rfl⟩ := Nat.exists_eq_succ_of_ne_zero (Nat.ne_zero_of_lt hfuel)
  fun_induction stringBody quote rest generalizing pLexer fuel with
  | case1 =>
    refine ⟨pLexer, [], ?_, h, fun _ => rfl, fun r hr => by cases hr⟩
    simp only [stringLoop, h.peek_nil, if_pos (Ne.symm hend),
      if_neg (show Block.nul ≠ '\\' by decide),
      Option.bind_eq_bind, Option.bind_some, if_pos, Option.isSome_none]
  | case2 t =>
    refine ⟨pLexer, quote :: t, ?_, h, fun hr => absurd hr (Option.some_ne_none _),
      fun r hr => ?_⟩
    · rw [stringLoop, h.peek_cons, if_neg (not_not.mpr rfl)]
      rfl
    · obtain rfl := Option.some.inj hr
      exact ⟨rfl, rfl⟩
  | case3 hq =>
    obtain ⟨pLexer₁, hnext, h₁⟩ := h.next
    refine ⟨pLexer₁, [], ?_, h₁, fun _ => rfl, fun r hr => by cases hr⟩
    simp only [stringLoop, h.peek_cons, if_pos (Ne.symm hquote), if_pos, hnext, Option.map_some,
      Option.bind_eq_bind, Option.bind_some, h₁.peek_nil, Option.isSome_none]
  | case4 d t hq ih =>
    obtain ⟨pLexer₁, hnext₁, h₁⟩ := h.next
    obtain ⟨pLexer₂, hnext₂, h₂⟩ := h₁.next
    simp only [List.mem_cons, not_or] at hnul
    simp only [List.length_cons] at hfuel
    obtain ⟨fuel, rfl⟩ := Nat.exists_eq_succ_of_ne_zero (show fuel ≠ 0 by omega)
    obtain ⟨pLexer', after, hloop, h', hopen, hread⟩ := ih h₂ hnul.2.2 fuel (by omega)
    refine ⟨pLexer', after, ?_, h', fun hr => hopen (Option.map_eq_none_iff.mp hr), fun r hr => ?_⟩
    · rw [stringLoop]
      simp only [h.peek_cons, if_pos (Ne.symm hquote), if_pos, hnext₁, Option.map_some,
        Option.bind_eq_bind, Option.bind_some, h₁.peek_cons, if_neg (Ne.symm hnul.2.1), hnext₂,
        hloop,
        Option.isSome_map]
    · obtain ⟨r₁, hr₁, rfl⟩ := Option.map_eq_some_iff.mp hr
      obtain ⟨ht, hafter⟩ := hread r₁ hr₁
      exact ⟨congrArg (fun u => '\\' :: d :: u) ht, hafter⟩
  | case5 c t hq hback ih =>
    obtain ⟨pLexer₁, hnext₁, h₁⟩ := h.next
    rw [List.mem_cons, not_or] at hnul
    rw [List.length_cons] at hfuel
    obtain ⟨fuel, rfl⟩ := Nat.exists_eq_succ_of_ne_zero (show fuel ≠ 0 by omega)
    obtain ⟨pLexer', after, hloop, h', hopen, hread⟩ := ih h₁ hnul.2 fuel (by omega)
    refine ⟨pLexer', after, ?_, h', fun hr => hopen (Option.map_eq_none_iff.mp hr), fun r hr => ?_⟩
    · rw [stringLoop]
      simp only [h.peek_cons, if_pos hq, if_neg hback, Option.bind_eq_bind, Option.bind_some,
        if_neg (Ne.symm hnul.1), hnext₁, hloop, Option.isSome_map]
    · obtain ⟨r₁, hr₁, rfl⟩ := Option.map_eq_some_iff.mp hr
      obtain ⟨ht, hafter⟩ := hread r₁ hr₁
      exact ⟨congrArg (c :: ·) ht, hafter⟩

theorem addToken_view {pStart pEnd : CypherLexer} (hstart : View zInput pStart (w ++ u))
    (hend : View zInput pEnd u) (hinput : pLexer.zInput = zInput) (type : CypherTokenType) :
    ∃ token, lexerAddToken pLexer type pStart.iPos pEnd.iPos = some (token, pLexer) ∧
      token.type = type ∧ token.text = w ∧ token.len = w.length ∧
      w = (zInput.drop pStart.iPos).take w.length := by
  have hpos := hstart.pos
  have hpos' := hend.pos
  have hle := intLength_le zInput
  rw [List.length_append] at hpos
  have hlength : pEnd.iPos - pStart.iPos = w.length := by omega
  have hw : (zInput.drop pStart.iPos).take w.length = w := by
    have hrest := congrArg (List.take w.length) hstart.rest_eq
    rw [List.take_left, visible, List.drop_take, List.take_take,
      Nat.min_eq_left (by omega)] at hrest
    exact hrest
  rw [lexerAddToken, if_pos ⟨by omega, by rw [hinput]; omega⟩, hlength, hinput, hw]
  exact ⟨_, rfl, rfl, rfl, rfl, rfl⟩

end View

section Tokens

def Took (zInput : Text) (iPos : Nat) (called : Option (CypherToken × CypherLexer))
    (expected : Cypher.CypherToken × Text) : Prop :=
  ∃ token pLexer', called = some (token, pLexer') ∧ View zInput pLexer' expected.2 ∧
    token.type = expected.1.type ∧ token.text = expected.1.text ∧
    ∃ start, iPos ≤ start ∧ start + token.len ≤ pLexer'.iPos ∧
      token.text = (zInput.drop start).take token.len

variable {zInput rest t u w : Text} {pLexer : CypherLexer} {c : Char}

theorem Took.mono {iPos iPos' : Nat} {called : Option (CypherToken × CypherLexer)}
    {expected : Cypher.CypherToken × Text} (h : Took zInput iPos called expected)
    (hle : iPos' ≤ iPos) : Took zInput iPos' called expected := by
  obtain ⟨token, pLexer', hcalled, hview, htype, htext, start, hstart, hend, hslice⟩ := h
  exact ⟨token, pLexer', hcalled, hview, htype, htext, start, hle.trans hstart, hend, hslice⟩

theorem took_token {pStart pEnd : CypherLexer} {iPos : Nat}
    {called : Option (CypherToken × CypherLexer)} {type : CypherTokenType}
    (hstart : View zInput pStart (w ++ u)) (hend : View zInput pEnd u)
    (hafter : View zInput pLexer t) (hpos : iPos ≤ pStart.iPos) (hle : pEnd.iPos ≤ pLexer.iPos)
    (hcalled : called = lexerAddToken pLexer type pStart.iPos pEnd.iPos) :
    Took zInput iPos called (⟨type, w⟩, t) := by
  obtain ⟨token, htoken, htype, htext, hlen, hslice⟩ :=
    addToken_view hstart hend hafter.input type
  have hpos₁ := hstart.pos
  have hpos₂ := hend.pos
  rw [List.length_append] at hpos₁
  refine ⟨token, pLexer, hcalled.trans htoken, hafter, htype, htext, pStart.iPos, hpos, by omega,
    ?_⟩
  rw [htext, hlen]
  exact hslice

theorem identifier_took (h : View zInput pLexer rest) : Took zInput pLexer.iPos
    (lexerTokenizeIdentifier pLexer) (Cypher.lexerTokenizeIdentifier rest) := by
  obtain ⟨pLexer', hskip, h'⟩ := skipWhile_view (p := isWordChar) (by decide) h h.turns
  have hsplit : View zInput pLexer (rest.takeWhile isWordChar ++ rest.dropWhile isWordChar) := by
    rwa [List.takeWhile_append_dropWhile]
  obtain ⟨-, -, -, -, hlen, hslice⟩ := addToken_view hsplit h' h'.input .identifier
  have hpos := hsplit.pos
  have hpos' := h'.pos
  rw [List.length_append] at hpos
  refine took_token hsplit h' h' (Nat.le_refl _) (Nat.le_refl _) ?_
  rw [lexerTokenizeIdentifier, hskip, Option.bind_eq_bind, Option.bind_some, h'.input,
    show pLexer'.iPos - pLexer.iPos = (rest.takeWhile isWordChar).length by omega, ← hslice]

theorem number_took (h : View zInput pLexer rest) : Took zInput pLexer.iPos
    (lexerTokenizeNumber pLexer) (Cypher.lexerTokenizeNumber rest) := by
  obtain ⟨pLexer₁, hskip, h₁⟩ := skipWhile_view (p := Char.isDigit) (by decide) h h.turns
  have hsplit : View zInput pLexer
      (rest.takeWhile Char.isDigit ++ rest.dropWhile Char.isDigit) := by
    rwa [List.takeWhile_append_dropWhile]
  rw [Cypher.lexerTokenizeNumber]
  split
  next u hu =>
    rw [hu] at h₁ hsplit
    obtain ⟨pLexer₂, hnext, h₂⟩ := h₁.next
    obtain ⟨pLexer₃, hskip₂, h₃⟩ := skipWhile_view (p := Char.isDigit) (by decide) h₂ h₂.turns
    have hsplit₂ : View zInput pLexer ((rest.takeWhile Char.isDigit ++ '.' ::
        u.takeWhile Char.isDigit) ++ u.dropWhile Char.isDigit) := by
      rwa [List.append_assoc, List.cons_append, List.takeWhile_append_dropWhile]
    refine took_token hsplit₂ h₃ h₃ (Nat.le_refl _) (Nat.le_refl _) ?_
    simp only [lexerTokenizeNumber, hskip, Option.bind_eq_bind, Option.bind_some, h₁.peek_cons,
      if_pos, hnext, hskip₂]
  next u hu =>
    have hdot : lexerPeek pLexer₁ 0 ≠ '.' := by
      rw [h₁.peek]
      cases hrest : rest.dropWhile Char.isDigit with
      | nil => decide
      | cons d v => exact fun hd => hu v (by rw [hrest, show d = '.' from hd])
    refine took_token hsplit h₁ h₁ (Nat.le_refl _) (Nat.le_refl _) ?_
    simp only [lexerTokenizeNumber, hskip, Option.bind_eq_bind, Option.bind_some, if_neg hdot]

theorem string_took {quote : Char} (hquote : quote ≠ '\\') (hend : quote ≠ Block.nul)
    (h : View zInput pLexer (quote :: t)) (hnul : Block.nul ∉ t) : Took zInput pLexer.iPos
      (lexerTokenizeString pLexer) (Cypher.lexerTokenizeString quote t) := by
  obtain ⟨pLexer₁, hnext, h₁⟩ := h.next
  obtain ⟨pLexer₂, after, hloop, h₂, hopen, hread⟩ := stringLoop_view hquote hend h₁ hnul h₁.turns
  have hpos := h.pos
  have hpos₁ := h₁.pos
  have hpos₂ := h₂.pos
  rw [List.length_cons] at hpos
  rw [Cypher.lexerTokenizeString]
  cases hbody : stringBody quote t with
  | some r =>
    obtain ⟨content, rest⟩ := r
    obtain ⟨rfl, rfl⟩ := hread _ hbody
    obtain ⟨pLexer₃, hnext₃, h₃⟩ := h₂.next
    have hpos₃ := h₃.pos
    rw [List.length_cons] at hpos₂
    refine took_token h₁ h₂ h₃ (by omega) (by omega) ?_
    have hstart : pLexer.iPos + 1 = pLexer₁.iPos := by omega
    simp only [lexerTokenizeString, hnext, Option.bind_eq_bind, Option.bind_some, hloop, hbody,
      Option.isSome_some, if_true, hnext₃, hstart]
  | none =>
    obtain rfl := hopen hbody
    rw [List.length_nil] at hpos₂
    have hsplit : View zInput pLexer ((quote :: t) ++ []) := by rwa [List.append_nil]
    refine took_token hsplit h₂ h₂ (Nat.le_refl _) (Nat.le_refl _) ?_
    simp only [lexerTokenizeString, hnext, Option.bind_eq_bind, Option.bind_some, hloop, hbody,
      Option.isSome_none, Bool.false_eq_true, if_false, Nat.add_sub_cancel]

def Symbol (zInput : Text) (c : Char) (t : Text)
    (called : Option (CypherTokenType × CypherLexer)) : Prop :=
  ∃ type pLexer w u, called = some (type, pLexer) ∧ View zInput pLexer u ∧ c :: t = w ++ u ∧
    lexerTokenizeOperator (c :: t) = (⟨type, w⟩, u)

theorem follow_symbol {d : Char}
    {found other : CypherLexer → Option (CypherTokenType × CypherLexer)}
    (h : View zInput pLexer u) (hd : d ≠ Block.nul)
    (hfound : ∀ v pLexer', u = d :: v → View zInput pLexer' v → Symbol zInput c t (found pLexer'))
    (hother : u.head? ≠ some d → Symbol zInput c t (other pLexer)) :
    Symbol zInput c t (follow pLexer d found other) := by
  rw [follow]
  cases u with
  | nil =>
    rw [h.peek_nil, if_neg (Ne.symm hd)]
    exact hother (by simp)
  | cons e v =>
    rw [h.peek_cons]
    by_cases he : e = d
    · obtain ⟨pLexer', hnext, h'⟩ := h.next
      rw [if_pos he, hnext]
      exact hfound v pLexer' (by rw [he]) h'
    · rw [if_neg he]
      exact hother (by simpa using he)

theorem symbol_token {type : CypherTokenType} (h : View zInput pLexer u) (hsplit : c :: t = w ++ u)
    (hoperator : lexerTokenizeOperator (c :: t) = (⟨type, w⟩, u)) :
    Symbol zInput c t (token type pLexer) := ⟨type, pLexer, w, u, rfl, h, hsplit, hoperator⟩

theorem operator_eq (h : t.head? ≠ some '~') :
    lexerTokenizeOperator ('=' :: t) = (⟨.eq, ['=']⟩, t) := by
  cases t with
  | nil => rfl
  | cons d t =>
    have hd : ('~' == d) = false := beq_false_of_ne fun hd => h (congrArg some hd.symm)
    simp [lexerTokenizeOperator, operators, List.find?, List.isPrefixOf, hd]

theorem operator_lt (hgt : t.head? ≠ some '>') (hminus : t.head? ≠ some '-')
    (heq : t.head? ≠ some '=') : lexerTokenizeOperator ('<' :: t) = (⟨.lt, ['<']⟩, t) := by
  cases t with
  | nil => rfl
  | cons d t =>
    have h₁ : ('>' == d) = false := beq_false_of_ne fun hd => hgt (congrArg some hd.symm)
    have h₂ : ('-' == d) = false := beq_false_of_ne fun hd => hminus (congrArg some hd.symm)
    have h₃ : ('=' == d) = false := beq_false_of_ne fun hd => heq (congrArg some hd.symm)
    simp [lexerTokenizeOperator, operators, List.find?, List.isPrefixOf, h₁, h₂, h₃]

theorem operator_arrowLeft (hgt : t.head? ≠ some '>') :
    lexerTokenizeOperator ('<' :: '-' :: t) = (⟨.arrowLeft, ['<', '-']⟩, t) := by
  cases t with
  | nil => rfl
  | cons d t =>
    have hd : ('>' == d) = false := beq_false_of_ne fun hd => hgt (congrArg some hd.symm)
    simp [lexerTokenizeOperator, operators, List.find?, List.isPrefixOf, hd]

theorem operator_gt (h : t.head? ≠ some '=') :
    lexerTokenizeOperator ('>' :: t) = (⟨.gt, ['>']⟩, t) := by
  cases t with
  | nil => rfl
  | cons d t =>
    have hd : ('=' == d) = false := beq_false_of_ne fun hd => h (congrArg some hd.symm)
    simp [lexerTokenizeOperator, operators, List.find?, List.isPrefixOf, hd]

theorem operator_minus (h : t.head? ≠ some '>') :
    lexerTokenizeOperator ('-' :: t) = (⟨.minus, ['-']⟩, t) := by
  cases t with
  | nil => rfl
  | cons d t =>
    have hd : ('>' == d) = false := beq_false_of_ne fun hd => h (congrArg some hd.symm)
    simp [lexerTokenizeOperator, operators, List.find?, List.isPrefixOf, hd]

theorem operator_other (h₁ : c ≠ '=') (h₂ : c ≠ '<') (h₃ : c ≠ '>') (h₄ : c ≠ '-') (t : Text) :
    lexerTokenizeOperator (c :: t) =
      (⟨((symbols.find? (·.1 = c)).map (·.2)).getD .error, [c]⟩, t) := by
  cases hsymbol : symbols.find? (·.1 = c) with
  | some symbol =>
    have hc := List.find?_some hsymbol
    have hmem := List.mem_of_find?_eq_some hsymbol
    rw [decide_eq_true_eq] at hc
    subst hc
    simp only [symbols, List.mem_cons, List.not_mem_nil, or_false] at hmem
    obtain rfl | rfl | rfl | rfl | rfl | rfl | rfl | rfl | rfl | rfl | rfl | rfl | rfl | rfl | rfl |
      rfl | rfl := hmem <;> rfl
  | none =>
    have hnone : operators.find? (·.1.isPrefixOf (c :: t)) = none := by
      rw [List.find?_eq_none]
      intro op hop hprefix
      have hall : operators.all (fun op => op.1.head?.any fun d =>
        ('=' :: '<' :: '>' :: '-' :: symbols.map (·.1)).contains d) = true := rfl
      have hfirst := List.all_eq_true.mp hall op hop
      cases hop' : op.1 with
      | nil =>
        rw [hop'] at hfirst
        cases hfirst
      | cons d v =>
        rw [hop', List.isPrefixOf_cons_cons, Bool.and_eq_true, beq_iff_eq] at hprefix
        rw [hop', hprefix.1, List.head?_cons, Option.any_some, List.contains_iff_mem] at hfirst
        simp only [List.mem_cons, h₁, h₂, h₃, h₄, false_or, List.mem_map] at hfirst
        obtain ⟨symbol, hmem, hc⟩ := hfirst
        exact List.find?_eq_none.mp hsymbol symbol hmem (decide_eq_true hc)
    rw [lexerTokenizeOperator, hnone]
    rfl

theorem symbolType_symbol (h : View zInput pLexer t) (c : Char) :
    Symbol zInput c t (symbolType c pLexer) := by
  rw [symbolType]
  split_ifs with h₁ h₂ h₃ h₄
  · subst h₁
    refine follow_symbol h (by decide) (fun v pLexer' hv h' => ?_) fun hother =>
      symbol_token h rfl (operator_eq hother)
    subst hv
    exact symbol_token h' rfl rfl
  · subst h₂
    refine follow_symbol h (by decide) (fun v pLexer' hv h' => ?_) fun hgt => ?_
    · subst hv
      exact symbol_token h' rfl rfl
    refine follow_symbol h (by decide) (fun v pLexer₁ hv h' => ?_) fun hminus => ?_
    · subst hv
      refine follow_symbol h' (by decide) (fun w pLexer₂ hw h'' => ?_) fun hother =>
        symbol_token h' rfl (operator_arrowLeft hother)
      subst hw
      exact symbol_token h'' rfl rfl
    refine follow_symbol h (by decide) (fun v pLexer₁ hv h' => ?_) fun heq =>
      symbol_token h rfl (operator_lt hgt hminus heq)
    subst hv
    exact symbol_token h' rfl rfl
  · subst h₃
    refine follow_symbol h (by decide) (fun v pLexer' hv h' => ?_) fun hother =>
      symbol_token h rfl (operator_gt hother)
    subst hv
    exact symbol_token h' rfl rfl
  · subst h₄
    refine follow_symbol h (by decide) (fun v pLexer' hv h' => ?_) fun hother =>
      symbol_token h rfl (operator_minus hother)
    subst hv
    exact symbol_token h' rfl rfl
  · have hoperator := operator_other h₁ h₂ h₃ h₄ t
    cases hsymbol : symbols.find? (·.1 = c) with
    | some symbol =>
      rw [hsymbol] at hoperator
      exact symbol_token h rfl hoperator
    | none =>
      rw [hsymbol] at hoperator
      exact symbol_token h rfl hoperator

theorem nextToken_took (h : View zInput pLexer rest) (hnul : Block.nul ∉ zInput) :
    Took zInput pLexer.iPos (cypherLexerNextToken pLexer) (Cypher.cypherLexerNextToken rest) := by
  obtain ⟨pLexer₁, hspace, h₁⟩ := skipWhile_view (p := Text.isSpace) (by decide) h h.turns
  obtain ⟨pLexer₂, hcomment, h₂⟩ := skipComment_view h₁ (h₁.not_mem hnul)
  have hskip := length_skip_le rest
  have hpos := h.pos
  have hpos₂ := h₂.pos
  have hle : pLexer.iPos ≤ pLexer₂.iPos := by
    have heq : (Cypher.lexerSkipComment (List.dropWhile Text.isSpace rest)) =
        Cypher.lexerSkipComment (Cypher.lexerSkipWhitespace rest) := rfl
    rw [heq] at hpos₂
    omega
  have hnul₂ := h₂.not_mem hnul
  rw [cypherLexerNextToken, lexerSkipWhitespace, hspace, Option.bind_eq_bind, Option.bind_some,
    hcomment, Option.bind_some, Cypher.cypherLexerNextToken, Cypher.lexerSkipWhitespace]
  dsimp only
  cases hrest : Cypher.lexerSkipComment (List.dropWhile Text.isSpace rest) with
  | nil =>
    rw [hrest] at h₂
    have hempty : View zInput pLexer₂ ([] ++ []) := h₂
    rw [if_pos (h₂.peek_nil 0)]
    exact took_token hempty h₂ h₂ hle (Nat.le_refl _) rfl
  | cons c t =>
    rw [hrest] at h₂ hnul₂
    rw [List.mem_cons, not_or] at hnul₂
    rw [h₂.peek_cons, if_neg (Ne.symm hnul₂.1)]
    dsimp only
    split_ifs with hword hdigit hquote
    · exact (identifier_took h₂).mono hle
    · exact (number_took h₂).mono hle
    · have hc : c ≠ '\\' := by
        rintro rfl
        exact absurd hquote (by decide)
      exact (string_took hc (Ne.symm hnul₂.1) h₂ hnul₂.2).mono hle
    · obtain ⟨pLexer₃, hnext, h₃⟩ := h₂.next
      obtain ⟨type, pLexer₄, w, u, hsymbol, h₄, hsplit, hoperator⟩ := symbolType_symbol h₃ c
      rw [hoperator]
      rw [hsplit] at h₂
      refine took_token h₂ h₄ h₄ hle (Nat.le_refl _) ?_
      simp only [hnext, Option.bind_eq_bind, Option.bind_some, hsymbol]

end Tokens

section Progress

inductive Reachable (zInput : Text) : CypherLexer → Prop
  | create : Reachable zInput (cypherLexerCreate zInput)
  | next {pLexer pLexer' : CypherLexer} {token : CypherToken} (h : Reachable zInput pLexer)
      (hcall : cypherLexerNextToken pLexer = some (token, pLexer')) : Reachable zInput pLexer'
  | peek {pLexer pLexer' : CypherLexer} {token : CypherToken} (h : Reachable zInput pLexer)
      (hcall : parserPeekToken pLexer = some (token, pLexer')) : Reachable zInput pLexer'

def drainTokens : Nat → CypherLexer → Option (CypherToken × CypherLexer)
  | 0, _ => none
  | fuel + 1, pLexer => do
    let (token, pLexer) ← cypherLexerNextToken pLexer
    if token.type ≠ .eof ∧ token.type ≠ .error then drainTokens fuel pLexer
    else some (token, pLexer)

def Progresses (zInput : Text) (pLexer : CypherLexer) : Prop :=
  ∃ token pLexer', cypherLexerNextToken pLexer = some (token, pLexer') ∧
    pLexer'.iPos ≤ zInput.length ∧
    (∃ start, pLexer.iPos ≤ start ∧ start + token.len ≤ zInput.length ∧
      token.text = (zInput.drop start).take token.len) ∧
    (token.type ≠ .eof → pLexer.iPos < pLexer'.iPos)

variable {zInput rest : Text} {pLexer : CypherLexer}

theorem Reachable.view (hnul : Block.nul ∉ zInput) (h : Reachable zInput pLexer) :
    ∃ rest, View zInput pLexer rest := by
  induction h with
  | create => exact ⟨_, view_create zInput⟩
  | next _ hcall ih =>
    obtain ⟨rest, hview⟩ := ih
    obtain ⟨token', pLexer₁, hcalled, hview', -⟩ := nextToken_took hview hnul
    obtain ⟨-, rfl⟩ := Prod.mk.inj (Option.some.inj (hcalled.symm.trans hcall))
    exact ⟨_, hview'⟩
  | peek _ hcall ih =>
    obtain ⟨rest, hview⟩ := ih
    obtain ⟨token', pLexer₁, hcalled, hview', -⟩ := nextToken_took hview hnul
    rw [parserPeekToken, hcalled] at hcall
    obtain ⟨-, rfl⟩ := Prod.mk.inj (Option.some.inj hcall)
    exact ⟨rest, hview'.input, hview.rest_eq, hview.pos⟩

theorem View.progresses (h : View zInput pLexer rest) (hnul : Block.nul ∉ zInput) :
    Progresses zInput pLexer := by
  obtain ⟨token, pLexer', hcalled, hview, htype, -, start, hstart, hend, hslice⟩ :=
    nextToken_took h hnul
  have hle := hview.le
  refine ⟨token, pLexer', hcalled, hle, ⟨start, hstart, hend.trans hle, hslice⟩, fun hne => ?_⟩
  have hless := (length_nextToken rest).2 (htype ▸ hne)
  have hpos := h.pos
  have hpos' := hview.pos
  omega

theorem View.drains (h : View zInput pLexer rest) (hnul : Block.nul ∉ zInput) {fuel : Nat}
    (hfuel : rest.length < fuel) : ∃ r, drainTokens fuel pLexer = some r := by
  induction fuel generalizing pLexer rest with
  | zero => exact absurd hfuel (Nat.not_lt_zero _)
  | succ fuel ih =>
    obtain ⟨token, pLexer', hcalled, hview, htype, -⟩ := nextToken_took h hnul
    rw [drainTokens, hcalled, Option.bind_eq_bind, Option.bind_some]
    dsimp only
    split
    next hgoes =>
      have hless := (length_nextToken rest).2 (htype ▸ hgoes.1)
      exact ih hview (by omega)
    next => exact ⟨_, rfl⟩

end Progress

end SqliteMultimodal.Graph.Cypher.Positions
