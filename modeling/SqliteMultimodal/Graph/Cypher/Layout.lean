import SqliteMultimodal.Graph.Cypher.Spelling

namespace SqliteMultimodal.Graph.Cypher.Layout

section Defs

inductive Piece
  | space (c : Char) (h : Text.isSpace c = true)
  | line (body : Text) (h : '\n' ∉ body)
  | block (body : Text) (h : ¬['*', '/'] <:+: body)

def Piece.text : Piece → Text
  | space c _ => [c]
  | line body _ => '/' :: '/' :: (body ++ ['\n'])
  | block body _ => '/' :: '*' :: (body ++ ['*', '/'])

def Piece.isSpace : Piece → Bool
  | space _ _ => true
  | _ => false

def Piece.isBlock : Piece → Bool
  | block _ _ => true
  | _ => false

structure Gap where
  pieces : List Piece
  ne : pieces ≠ []

def piecesText (pieces : List Piece) : Text := pieces.flatMap Piece.text

/-- What may stand between two quotes; a backslash takes the character after it along. -/
inductive Quoted (quote : Char) : Text → Prop
  | nil : Quoted quote []
  | plain {c : Char} {t : Text} (hquote : c ≠ quote) (hback : c ≠ '\\') (h : Quoted quote t) :
    Quoted quote (c :: t)
  | escaped (c : Char) {t : Text} (h : Quoted quote t) : Quoted quote ('\\' :: c :: t)

inductive Lexeme
  | word (t : Text) (h : isWord t = true)
  | integer (t : Text) (ne : t ≠ []) (digits : ∀ c ∈ t, c.isDigit = true)
  | float (whole frac : Text) (ne : whole ≠ []) (digits : ∀ c ∈ whole ++ frac, c.isDigit = true)
  | string (quote : Char) (content : Text) (hquote : quote = '\x27' ∨ quote = '"')
    (quoted : Quoted quote content)
  | operator (op : Text × CypherTokenType) (h : op ∈ operators)

def Lexeme.text : Lexeme → Text
  | word t _ => t
  | integer t _ _ => t
  | float whole frac _ _ => whole ++ '.' :: frac
  | string quote content _ _ => quote :: (content ++ [quote])
  | operator op _ => op.1

def Lexeme.token : Lexeme → CypherToken
  | word t _ => ⟨cypherGetKeywordToken t, t⟩
  | integer t _ _ => ⟨.integer, t⟩
  | float whole frac _ _ => ⟨.float, whole ++ '.' :: frac⟩
  | string _ content _ _ => ⟨.string, content⟩
  | operator op _ => ⟨op.2, op.1⟩

/-- White space, with a block comment at its end or without. -/
def Skipped (t : Text) : Prop :=
  ∃ spaces comment : Text, t = spaces ++ comment ∧ (∀ c ∈ spaces, Text.isSpace c = true) ∧
    (comment = [] ∨ ∃ body h, comment = (Piece.block body h).text)

def written (first : Gap) : List (Lexeme × Gap) → Text
  | [] => piecesText first.pieces
  | (lexeme, gap) :: rest => piecesText first.pieces ++ (lexeme.text ++ written gap rest)

def spacedLexemes (lexemes : List Lexeme) : Text := Text.join ' ' (lexemes.map Lexeme.text)

def calls : Nat → Text → List CypherToken
  | 0, _ => []
  | n + 1, t => (cypherLexerNextToken t).1 :: calls n (cypherLexerNextToken t).2

def SameTokens (first : Gap) (rest : List (Lexeme × Gap)) : Prop :=
  ∀ n, calls n (written first rest) = calls n (spacedLexemes (rest.map (·.1)))

end Defs

section Conditions

def Gap.plain (gap : Gap) : Bool :=
  match gap.pieces.dropWhile Piece.isSpace with
  | [] => true
  | [piece] => piece.isBlock
  | _ => false

def Gap.allSpace (gap : Gap) : Bool := gap.pieces.all Piece.isSpace

def Gap.beginsComment (gap : Gap) : Bool := gap.pieces.head?.any fun piece => !piece.isSpace

def apartFrom (first : Gap) (lexeme : Lexeme) (gap : Gap) : Bool :=
  !(lexeme.text = ['/'] && first.allSpace && gap.beginsComment)

def Clear (first : Gap) : List (Lexeme × Gap) → Prop
  | [] => first.plain = true
  | (lexeme, gap) :: rest =>
    first.plain = true ∧ apartFrom first lexeme gap = true ∧ Clear gap rest

def Gap.doubled (gap : Gap) : Bool :=
  match gap.pieces.dropWhile Piece.isSpace with
  | piece :: piece' :: _ => piece.isBlock && !piece'.isSpace
  | _ => false

def Mixed (first : Gap) : List (Lexeme × Gap) → Prop
  | [] => False
  | (lexeme, gap) :: rest => first.doubled = true ∧ lexeme.text = ['/'] ∨ Mixed gap rest

def Harmless (first : Gap) : List Gap → Prop
  | [] => first.plain = true
  | gap :: rest =>
    first.plain = true ∧ (first.allSpace && gap.beginsComment) = false ∧ Harmless gap rest

end Conditions

section Skipping

variable {k : Text}

def skip (t : Text) : Text := lexerSkipComment (lexerSkipWhitespace t)

theorem skip_space {c : Char} (h : Text.isSpace c = true) (t : Text) : skip (c :: t) = skip t :=
  congrArg lexerSkipComment (List.dropWhile_cons_of_pos h)

theorem afterBlock_append {body : Text} (h : ¬['*', '/'] <:+: body) :
    afterBlock (body ++ '*' :: '/' :: k) = k := by
  induction body with
  | nil => rw [List.nil_append, afterBlock, if_pos ⟨rfl, rfl⟩]
  | cons c body ih =>
    have hbody : ¬['*', '/'] <:+: body := fun hinside =>
      h (hinside.trans (List.suffix_cons c body).isInfix)
    cases body with
    | nil =>
      rw [List.cons_append, List.nil_append, afterBlock, if_neg (by simp)]
      exact ih hbody
    | cons d body =>
      have hne : ¬(c = '*' ∧ d = '/') := by
        rintro ⟨rfl, rfl⟩
        exact h (List.prefix_append ['*', '/'] body).isInfix
      rw [List.cons_append, List.cons_append, afterBlock, if_neg hne]
      exact ih hbody

theorem skip_line {body : Text} (h : '\n' ∉ body) (k : Text) :
    skip ((Piece.line body h).text ++ k) = '\n' :: k := by
  have hdrop : skip ((Piece.line body h).text ++ k) =
      (body ++ ['\n'] ++ k).dropWhile (· ≠ '\n') := rfl
  rw [hdrop, List.append_assoc, List.dropWhile_append_of_pos]
  · rfl
  · intro c hc
    exact decide_eq_true fun heq => h (heq ▸ hc)

theorem skip_block {body : Text} (h : ¬['*', '/'] <:+: body) (k : Text) :
    skip ((Piece.block body h).text ++ k) = k := by
  have hafter : skip ((Piece.block body h).text ++ k) = afterBlock (body ++ ['*', '/'] ++ k) := rfl
  rw [hafter, List.append_assoc]
  exact afterBlock_append h

theorem skip_pieces (pieces : List Piece) (k : Text) :
    skip (piecesText pieces ++ k) = skip (piecesText (pieces.dropWhile Piece.isSpace) ++ k) := by
  induction pieces with
  | nil => rfl
  | cons piece pieces ih =>
    cases piece with
    | space c h => exact (skip_space h _).trans ih
    | line body h => rfl
    | block body h => rfl

theorem skip_comment (piece : Piece) (pieces : List Piece) (h : piece.isSpace = false) (k : Text) :
    skip (piecesText (piece :: pieces) ++ k) =
      if piece.isBlock then piecesText pieces ++ k else '\n' :: (piecesText pieces ++ k) := by
  rw [piecesText, List.flatMap_cons, List.append_assoc]
  cases piece with
  | space c hc => cases h
  | line body hbody => exact skip_line hbody _
  | block body hbody => exact skip_block hbody _

end Skipping

section Lexemes

variable {k : Text}

theorem stringBody_escaped {quote : Char} (hquote : quote ≠ '\\') (c : Char) (t : Text) :
    stringBody quote ('\\' :: c :: t) =
      (stringBody quote t).map fun r => ('\\' :: c :: r.1, r.2) := by
  rw [stringBody.eq_def]
  simp only [if_neg hquote.symm, if_true]

theorem Quoted.stringBody {quote : Char} {content : Text} (h : Quoted quote content)
    (hquote : quote ≠ '\\') (k : Text) :
    stringBody quote (content ++ quote :: k) = some (content, k) := by
  induction h with
  | nil => exact stringBody_quote quote k
  | plain hne hback _ ih => rw [List.cons_append, stringBody_cons hne hback, ih, Option.map_some]
  | escaped c _ ih =>
    rw [List.cons_append, List.cons_append, stringBody_escaped hquote, ih, Option.map_some]

theorem ne_backslash {quote : Char} (h : quote = '\x27' ∨ quote = '"') : quote ≠ '\\' := by
  obtain rfl | rfl := h
  · decide
  · decide

theorem Lexeme.read (lexeme : Lexeme) (hk : Ends k) :
    readToken (lexeme.text ++ k) = (lexeme.token, k) := by
  cases lexeme with
  | word t h => exact readToken_word h hk
  | integer t ne digits => exact readToken_integer ne digits hk
  | float whole frac ne digits => exact readToken_float ne digits hk
  | string quote content hquote quoted =>
    have hclosed := quoted.stringBody (ne_backslash hquote) k
    rw [← List.singleton_append, ← List.append_assoc] at hclosed
    exact readToken_string hquote hclosed
  | operator op h => exact readToken_operator h hk

theorem Lexeme.head (lexeme : Lexeme) : ∃ c t, lexeme.text = c :: t ∧ Text.isSpace c = false ∧
    (c = '/' → lexeme.text = ['/'] ∧ lexeme.token = ⟨.div, ['/']⟩) := by
  have hslash : ∀ c, c.isDigit = true → c ≠ '/' := fun c hc => Text.ne_of_isDigit hc rfl
  cases lexeme with
  | word t h =>
    cases t with
    | nil => cases h
    | cons c t =>
      obtain ⟨hspace, hne⟩ := isSpace_of_start (Bool.and_eq_true_iff.mp h).1
      exact ⟨c, t, rfl, hspace, fun heq => absurd heq hne⟩
  | integer t ne digits =>
    obtain ⟨c, t, rfl⟩ := List.exists_cons_of_ne_nil ne
    have hc := digits c List.mem_cons_self
    exact ⟨c, t, rfl, Text.isSpace_of_isDigit hc, fun heq => absurd heq (hslash c hc)⟩
  | float whole frac ne digits =>
    obtain ⟨c, whole, rfl⟩ := List.exists_cons_of_ne_nil ne
    have hc := digits c List.mem_cons_self
    exact ⟨c, _, rfl, Text.isSpace_of_isDigit hc, fun heq => absurd heq (hslash c hc)⟩
  | string quote content hquote quoted =>
    refine ⟨quote, _, rfl, ?_, fun heq => ?_⟩
    · obtain rfl | rfl := hquote
      · rfl
      · rfl
    · subst heq
      exact absurd hquote (by decide)
  | operator op h =>
    obtain ⟨c, t, hct, hspace, -, -, -, hdiv⟩ := operator_head h
    refine ⟨c, t, hct, hspace, fun heq => ⟨(hdiv heq).1, ?_⟩⟩
    rw [Lexeme.token, (hdiv heq).1, (hdiv heq).2]

theorem Lexeme.skip_text (lexeme : Lexeme)
    (h : lexeme.text = ['/'] → ∀ c ∈ k.head?, c ≠ '/' ∧ c ≠ '*') :
    skip (lexeme.text ++ k) = lexeme.text ++ k := by
  obtain ⟨c, t, ht, hspace, hdiv⟩ := lexeme.head
  by_cases hc : c = '/'
  · have htext := (hdiv hc).1
    have hk := h htext
    rw [htext]
    cases k with
    | nil => rfl
    | cons d k =>
      obtain ⟨hslash, hstar⟩ := hk d rfl
      change lexerSkipComment ('/' :: d :: k) = '/' :: d :: k
      unfold lexerSkipComment
      split
      next heq => exact absurd (List.cons.inj (List.cons.inj heq).2).1 hslash
      next heq => exact absurd (List.cons.inj (List.cons.inj heq).2).1 hstar
      next => rfl
  · rw [ht, List.cons_append]
    exact skip_of_start hspace hc

theorem keyword_type (t : Text) : cypherGetKeywordToken t ≠ .error ∧
    cypherGetKeywordToken t ≠ .eof ∧ cypherGetKeywordToken t ≠ .div := by
  unfold cypherGetKeywordToken
  cases hfind : keywords.find? (·.1 = t.map Char.toUpper) with
  | none => decide
  | some keyword =>
    have hall : ∀ keyword ∈ keywords, keyword.2 ≠ .error ∧ keyword.2 ≠ .eof ∧ keyword.2 ≠ .div := by
      decide
    exact hall keyword (List.mem_of_find?_eq_some hfind)

theorem Lexeme.type_ne (lexeme : Lexeme) : lexeme.token.type ≠ .error ∧
    lexeme.token.type ≠ .eof ∧ (lexeme.token.type = .div → lexeme.text = ['/']) := by
  have hliteral : ∀ type ∈ [CypherTokenType.integer, .float, .string],
      type ≠ .error ∧ type ≠ .eof ∧ type ≠ .div := by decide
  cases lexeme with
  | word t h =>
    obtain ⟨herror, heof, hdiv⟩ := keyword_type t
    exact ⟨herror, heof, fun heq => absurd heq hdiv⟩
  | integer t ne digits =>
    obtain ⟨herror, heof, hdiv⟩ := hliteral .integer (by decide)
    exact ⟨herror, heof, fun heq => absurd heq hdiv⟩
  | float whole frac ne digits =>
    obtain ⟨herror, heof, hdiv⟩ := hliteral .float (by decide)
    exact ⟨herror, heof, fun heq => absurd heq hdiv⟩
  | string quote content hquote quoted =>
    obtain ⟨herror, heof, hdiv⟩ := hliteral .string (by decide)
    exact ⟨herror, heof, fun heq => absurd heq hdiv⟩
  | operator op h =>
    have hall : ∀ op ∈ operators, op.2 ≠ .error ∧ op.2 ≠ .eof ∧ (op.2 = .div → op.1 = ['/']) := by
      decide
    exact hall op h

theorem quoted_of_stringBody {quote : Char} {t content rest : Text}
    (h : stringBody quote t = some (content, rest)) :
    t = content ++ quote :: rest ∧ Quoted quote content := by
  fun_induction stringBody quote t generalizing content rest with
  | case1 => cases h
  | case2 t =>
    obtain ⟨rfl, rfl⟩ := Prod.mk.inj (Option.some.inj h)
    exact ⟨rfl, .nil⟩
  | case3 => cases h
  | case4 d t hne ih =>
    obtain ⟨⟨content', rest'⟩, hbody, heq⟩ := Option.map_eq_some_iff.mp h
    obtain ⟨rfl, rfl⟩ := Prod.mk.inj heq
    obtain ⟨rfl, hquoted⟩ := ih hbody
    exact ⟨rfl, .escaped d hquoted⟩
  | case5 c t hquote hback ih =>
    obtain ⟨⟨content', rest'⟩, hbody, heq⟩ := Option.map_eq_some_iff.mp h
    obtain ⟨rfl, rfl⟩ := Prod.mk.inj heq
    obtain ⟨rfl, hquoted⟩ := ih hbody
    exact ⟨rfl, .plain hquote hback hquoted⟩

theorem number_lexeme {c : Char} (h : c.isDigit = true) (t : Text) :
    ∃ (lexeme : Lexeme) (k : Text), c :: t = lexeme.text ++ k ∧
      lexerTokenizeNumber (c :: t) = (lexeme.token, k) := by
  have hsplit : (c :: t).takeWhile Char.isDigit ++ (c :: t).dropWhile Char.isDigit = c :: t :=
    List.takeWhile_append_dropWhile
  have hne : (c :: t).takeWhile Char.isDigit ≠ [] := by
    rw [List.takeWhile_cons_of_pos h]
    exact List.cons_ne_nil _ _
  have hdigits : ∀ d ∈ (c :: t).takeWhile Char.isDigit, d.isDigit = true :=
    fun d hd => List.mem_takeWhile_imp hd
  rw [lexerTokenizeNumber]
  split
  next rest hdrop =>
    have hfrac : ∀ d ∈ (c :: t).takeWhile Char.isDigit ++ rest.takeWhile Char.isDigit,
        d.isDigit = true := List.forall_mem_append.mpr
      ⟨hdigits, fun d hd => List.mem_takeWhile_imp hd⟩
    refine ⟨.float _ _ hne hfrac, rest.dropWhile Char.isDigit, ?_, rfl⟩
    rw [Lexeme.text, List.append_assoc, List.cons_append, List.takeWhile_append_dropWhile, ← hdrop,
      hsplit]
  next => exact ⟨.integer _ hne hdigits, _, hsplit.symm, rfl⟩

theorem readToken_lexeme {t : Text} (herror : (readToken t).1.type ≠ .error)
    (heof : (readToken t).1.type ≠ .eof) :
    ∃ (lexeme : Lexeme) (k : Text), t = lexeme.text ++ k ∧ readToken t = (lexeme.token, k) := by
  cases t with
  | nil => exact absurd rfl heof
  | cons c t =>
    by_cases hstart : (c.isAlpha || c = '_') = true
    · have hword : isWord ((c :: t).takeWhile isWordChar) = true := by
        rw [List.takeWhile_cons_of_pos (isWordChar_of_start hstart), isWord, hstart, Bool.true_and]
        exact List.all_takeWhile
      exact ⟨.word _ hword, _, List.takeWhile_append_dropWhile.symm, if_pos hstart⟩
    by_cases hdigit : c.isDigit = true
    · rw [readToken, if_neg hstart, if_pos hdigit]
      exact number_lexeme hdigit t
    by_cases hquote : (c = '\x27' || c = '"') = true
    · rw [readToken, if_neg hstart, if_neg hdigit, if_pos hquote] at herror ⊢
      rw [lexerTokenizeString] at herror ⊢
      cases hbody : stringBody c t with
      | none =>
        rw [hbody] at herror
        exact absurd rfl herror
      | some r =>
        obtain ⟨content, rest⟩ := r
        obtain ⟨rfl, hquoted⟩ := quoted_of_stringBody hbody
        have hc : c = '\x27' ∨ c = '"' := by simpa using hquote
        refine ⟨.string c content hc hquoted, rest, ?_, rfl⟩
        rw [Lexeme.text, List.cons_append, List.append_assoc]
        rfl
    · rw [readToken, if_neg hstart, if_neg hdigit, if_neg hquote] at herror ⊢
      rw [lexerTokenizeOperator] at herror ⊢
      cases hfind : operators.find? (·.1.isPrefixOf (c :: t)) with
      | none =>
        rw [hfind] at herror
        exact absurd rfl herror
      | some op =>
        have hbegins := List.find?_some hfind
        rw [List.isPrefixOf_iff_prefix] at hbegins
        obtain ⟨k, hk⟩ := hbegins
        have hdrop : (c :: t).drop op.1.length = k := by rw [← hk, List.drop_left]
        refine ⟨.operator op (List.mem_of_find?_eq_some hfind), k, hk.symm, ?_⟩
        exact congrArg (CypherToken.mk op.2 op.1, ·) hdrop

end Lexemes

section Calls

variable {first gap : Gap} {rest : List (Lexeme × Gap)} {lexeme : Lexeme} {k : Text}

theorem Piece.head (piece : Piece) : ∃ c t, piece.text = c :: t ∧
    (piece.isSpace = true ∧ Text.isSpace c = true ∨ piece.isSpace = false ∧ c = '/') := by
  cases piece with
  | space c h => exact ⟨c, [], rfl, .inl ⟨rfl, h⟩⟩
  | line body h => exact ⟨'/', _, rfl, .inr ⟨rfl, rfl⟩⟩
  | block body h => exact ⟨'/', _, rfl, .inr ⟨rfl, rfl⟩⟩

theorem written_head (gap : Gap) (rest : List (Lexeme × Gap)) : ∃ c t, written gap rest = c :: t ∧
    (gap.beginsComment = false ∧ Text.isSpace c = true ∨
      gap.beginsComment = true ∧ c = '/') := by
  obtain ⟨piece, pieces, hpieces⟩ := List.exists_cons_of_ne_nil gap.ne
  obtain ⟨c, t, htext, hc⟩ := piece.head
  have hwritten : ∃ u, written gap rest = piece.text ++ u := by
    cases rest with
    | nil => exact ⟨piecesText pieces, by rw [written, hpieces, piecesText, List.flatMap_cons]; rfl⟩
    | cons x rest =>
      exact ⟨_, by rw [written, hpieces, piecesText, List.flatMap_cons, List.append_assoc]⟩
  obtain ⟨u, hu⟩ := hwritten
  refine ⟨c, t ++ u, by rw [hu, htext, List.cons_append], ?_⟩
  rw [Gap.beginsComment, hpieces, List.head?_cons, Option.any_some]
  obtain ⟨hpiece, hc⟩ | ⟨hpiece, hc⟩ := hc
  · exact .inl ⟨by rw [hpiece]; rfl, hc⟩
  · exact .inr ⟨by rw [hpiece]; rfl, hc⟩

theorem written_ends (gap : Gap) (rest : List (Lexeme × Gap)) : Ends (written gap rest) := by
  obtain ⟨c, t, hwritten, hc⟩ := written_head gap rest
  rw [hwritten]
  intro d hd
  obtain rfl := Option.some.inj hd
  exact hc.imp And.right And.right

theorem allSpace_iff : gap.allSpace = true ↔ gap.pieces.dropWhile Piece.isSpace = [] := by
  rw [Gap.allSpace, List.all_eq_true, List.dropWhile_eq_nil_iff]

theorem not_isSpace_of_dropWhile {piece : Piece} {pieces : List Piece}
    (h : gap.pieces.dropWhile Piece.isSpace = piece :: pieces) : piece.isSpace = false := by
  have hhead := List.head?_dropWhile_not Piece.isSpace gap.pieces
  rw [h] at hhead
  simpa using hhead

theorem skip_plain (h : gap.plain = true) (k : Text) :
    skip (piecesText gap.pieces ++ k) = if gap.allSpace then skip k else k := by
  rw [skip_pieces]
  rw [Gap.plain] at h
  cases hdrop : gap.pieces.dropWhile Piece.isSpace with
  | nil => rw [if_pos (allSpace_iff.mpr hdrop), piecesText, List.flatMap_nil, List.nil_append]
  | cons piece pieces =>
    have hspace : ¬gap.allSpace = true := by
      rw [allSpace_iff, hdrop]
      exact List.cons_ne_nil _ _
    rw [hdrop] at h
    cases pieces with
    | nil =>
      rw [skip_comment piece [] (not_isSpace_of_dropWhile hdrop), if_pos h, if_neg hspace]
      rfl
    | cons piece' pieces => cases h

theorem nextToken_plain (hplain : first.plain = true) (hapart : apartFrom first lexeme gap = true) :
    cypherLexerNextToken (written first ((lexeme, gap) :: rest)) =
      (lexeme.token, written gap rest) := by
  rw [nextToken_eq, written]
  have hskip : skip (piecesText first.pieces ++ (lexeme.text ++ written gap rest)) =
      lexeme.text ++ written gap rest := by
    rw [skip_plain hplain]
    split
    next hspace =>
      refine lexeme.skip_text fun htext c hc => ?_
      obtain ⟨d, t, hwritten, hd⟩ := written_head gap rest
      rw [hwritten] at hc
      obtain rfl := Option.some.inj hc
      obtain ⟨_, hd⟩ | ⟨hcomment, _⟩ := hd
      · constructor
        · rintro rfl
          cases hd
        · rintro rfl
          cases hd
      · rw [apartFrom, hspace, hcomment, decide_eq_true htext] at hapart
        cases hapart
    next => rfl
  exact (congrArg readToken hskip).trans (lexeme.read (written_ends gap rest))

theorem nextToken_last (hplain : first.plain = true) :
    cypherLexerNextToken (written first []) = (⟨.eof, []⟩, []) := by
  have hskip : skip (piecesText first.pieces ++ []) = [] := by
    rw [skip_plain hplain]
    split
    next => rfl
    next => rfl
  rw [List.append_nil] at hskip
  exact congrArg readToken hskip

def expected : Nat → List Lexeme → List CypherToken
  | 0, _ => []
  | n + 1, [] => ⟨.eof, []⟩ :: expected n []
  | n + 1, lexeme :: lexemes => lexeme.token :: expected n lexemes

theorem calls_nil (n : Nat) : calls n [] = expected n [] := by
  induction n with
  | zero => rfl
  | succ n ih => exact congrArg (_ :: ·) ih

theorem calls_clear (h : Clear first rest) (n : Nat) :
    calls n (written first rest) = expected n (rest.map Prod.fst) := by
  induction n generalizing first rest with
  | zero => rfl
  | succ n ih =>
    cases rest with
    | nil =>
      rw [calls, nextToken_last h]
      exact congrArg (_ :: ·) (calls_nil n)
    | cons x rest =>
      obtain ⟨lexeme, gap⟩ := x
      obtain ⟨hplain, hapart, hrest⟩ := h
      rw [calls, nextToken_plain hplain hapart]
      exact congrArg (_ :: ·) (ih hrest)

theorem calls_space (n : Nat) (t : Text) : calls n (' ' :: t) = calls n t := by
  cases n with
  | zero => rfl
  | succ n => rfl

theorem calls_spaced (lexemes : List Lexeme) (n : Nat) :
    calls n (spacedLexemes lexemes) = expected n lexemes := by
  induction n generalizing lexemes with
  | zero => rfl
  | succ n ih =>
    cases lexemes with
    | nil => exact congrArg (_ :: ·) (calls_nil n)
    | cons lexeme lexemes =>
      have hnext : ∀ k, Apart k → cypherLexerNextToken (lexeme.text ++ k) = (lexeme.token, k) := by
        intro k hk
        have hskip : skip (lexeme.text ++ k) = lexeme.text ++ k := by
          refine lexeme.skip_text fun _ c hc => ?_
          rw [hk c hc]
          decide
        exact (congrArg readToken hskip).trans (lexeme.read hk.ends)
      cases lexemes with
      | nil =>
        have htext : spacedLexemes [lexeme] = lexeme.text ++ [] := by
          simp [spacedLexemes, Text.join]
        rw [calls, htext, hnext [] apart_nil]
        exact congrArg (_ :: ·) (calls_nil n)
      | cons lexeme' lexemes =>
        have htext : spacedLexemes (lexeme :: lexeme' :: lexemes) =
            lexeme.text ++ ' ' :: spacedLexemes (lexeme' :: lexemes) :=
          Text.join_cons ' ' _ (List.cons_ne_nil _ _)
        rw [calls, htext, hnext _ (apart_space _)]
        exact congrArg (_ :: ·) ((calls_space n _).trans (ih _))

theorem same_of_clear (h : Clear first rest) : SameTokens first rest := by
  intro n
  rw [calls_clear h, calls_spaced]

end Calls

section Converse

variable {first gap : Gap} {rest : List (Lexeme × Gap)} {lexeme : Lexeme} {k : Text}

theorem readToken_space {c : Char} (h : Text.isSpace c = true) (t : Text) :
    (readToken (c :: t)).1.type = .error := by
  have hstart : (c.isAlpha || c = '_') = false := by
    by_contra hstart
    rw [(isSpace_of_start (eq_true_of_ne_false hstart)).1] at h
    cases h
  have hquote : (c = '\x27' || c = '"') = false := by
    by_contra hquote
    obtain hc | hc := Bool.or_eq_true_iff.mp (eq_true_of_ne_false hquote)
    · rw [of_decide_eq_true hc] at h
      cases h
    · rw [of_decide_eq_true hc] at h
      cases h
  have hnone : operators.find? (·.1.isPrefixOf (c :: t)) = none := by
    rw [List.find?_eq_none]
    intro op hop hbegins
    obtain ⟨d, u, hu, hd, -⟩ := operator_head hop
    rw [hu, List.isPrefixOf_iff_prefix, List.cons_prefix_cons] at hbegins
    rw [hbegins.1, h] at hd
    cases hd
  rw [readToken, if_neg (ne_true_of_eq_false hstart),
    if_neg (ne_true_of_eq_false (isDigit_of_isSpace h)), if_neg (ne_true_of_eq_false hquote),
    lexerTokenizeOperator, hnone]

theorem readToken_slash (t : Text) : readToken ('/' :: t) = (⟨.div, ['/']⟩, t) := rfl

theorem eq_of_afterBlock {t : Text} (h : afterBlock t ≠ []) :
    ∃ body : Text, ¬['*', '/'] <:+: body ∧ t = body ++ '*' :: '/' :: afterBlock t := by
  fun_induction afterBlock t with
  | case1 => exact absurd rfl h
  | case2 => exact absurd rfl h
  | case3 c d t heq =>
    obtain ⟨rfl, rfl⟩ := heq
    exact ⟨[], by simp, rfl⟩
  | case4 c d t hne ih =>
    obtain ⟨body, hbody, heq⟩ := ih h
    refine ⟨c :: body, fun hinside => ?_, by rw [List.cons_append, ← heq]⟩
    rcases List.infix_cons_iff.mp hinside with hbegins | hinside
    · obtain ⟨rfl, hrest⟩ := List.cons_prefix_cons.mp hbegins
      cases body with
      | nil => exact absurd (List.prefix_nil.mp hrest) (List.cons_ne_nil _ _)
      | cons e body =>
        obtain ⟨rfl, -⟩ := List.cons_prefix_cons.mp hrest
        exact hne ⟨rfl, (List.cons.inj heq).1⟩
    · exact hbody hinside

theorem skipped_comment {t : Text} (herror : (readToken (lexerSkipComment t)).1.type ≠ .error)
    (heof : (readToken (lexerSkipComment t)).1.type ≠ .eof) :
    ∃ comment : Text, (comment = [] ∨ ∃ body h, comment = (Piece.block body h).text) ∧
      t = comment ++ lexerSkipComment t := by
  unfold lexerSkipComment at herror heof ⊢
  split at herror
  next t =>
    have hhead := List.head?_dropWhile_not (· ≠ '\n') t
    cases hdrop : t.dropWhile (· ≠ '\n') with
    | nil =>
      simp only [hdrop] at heof
      exact absurd rfl heof
    | cons c u =>
      rw [hdrop] at hhead
      obtain rfl : c = '\n' := by simpa using hhead
      rw [hdrop] at herror
      exact absurd (readToken_space rfl u) herror
  next t =>
    have hafter : afterBlock t ≠ [] := by
      intro hnil
      simp only [hnil] at heof
      exact heof rfl
    obtain ⟨body, hbody, ht⟩ := eq_of_afterBlock hafter
    refine ⟨(Piece.block body hbody).text, .inr ⟨body, hbody, rfl⟩, ?_⟩
    simp only [Piece.text, List.cons_append, List.append_assoc, List.nil_append, ← ht]
  next => exact ⟨[], .inl rfl, rfl⟩

/-- A token that is neither an error nor the end is one of these, spelled out behind what the lexer
skips. -/
theorem exists_lexeme {t : Text} (herror : (cypherLexerNextToken t).1.type ≠ .error)
    (heof : (cypherLexerNextToken t).1.type ≠ .eof) :
    ∃ (before : Text) (lexeme : Lexeme) (k : Text), Skipped before ∧
      t = before ++ (lexeme.text ++ k) ∧ cypherLexerNextToken t = (lexeme.token, k) := by
  rw [nextToken_eq] at herror heof ⊢
  obtain ⟨comment, hcomment, hskipped⟩ := skipped_comment herror heof
  obtain ⟨lexeme, k, hlexeme, hread⟩ := readToken_lexeme herror heof
  refine ⟨t.takeWhile Text.isSpace ++ comment, lexeme, k,
    ⟨_, comment, rfl, fun c hc => List.mem_takeWhile_imp hc, hcomment⟩, ?_, hread⟩
  rw [List.append_assoc, ← hlexeme, ← hskipped]
  exact List.takeWhile_append_dropWhile.symm

theorem lexeme_match : ∃ (before : Text) (lexeme : Lexeme) (k : Text), Skipped before ∧
    " \t/* all */MATCH (n)".toList = before ++ (lexeme.text ++ k) ∧
      cypherLexerNextToken " \t/* all */MATCH (n)".toList = (lexeme.token, k) :=
  exists_lexeme (by decide) (by decide)

theorem nextToken_of_not_plain (h : first.plain = false) (k : Text) :
    (cypherLexerNextToken (piecesText first.pieces ++ k)).1.type = .error ∨
      first.doubled = true ∧
        (cypherLexerNextToken (piecesText first.pieces ++ k)).1.type = .div := by
  have hnext : cypherLexerNextToken (piecesText first.pieces ++ k) =
      readToken (skip (piecesText first.pieces ++ k)) := rfl
  rw [hnext, skip_pieces, Gap.doubled]
  rw [Gap.plain] at h
  cases hdrop : first.pieces.dropWhile Piece.isSpace with
  | nil =>
    rw [hdrop] at h
    cases h
  | cons piece pieces =>
    rw [hdrop] at h
    rw [skip_comment piece pieces (not_isSpace_of_dropWhile hdrop)]
    by_cases hblock : piece.isBlock = true
    · rw [if_pos hblock]
      cases pieces with
      | nil => exact absurd hblock (ne_true_of_eq_false h)
      | cons piece' pieces =>
        obtain ⟨c, t, htext, hc⟩ := piece'.head
        rw [piecesText, List.flatMap_cons, htext, List.cons_append, List.cons_append]
        obtain ⟨_, hc⟩ | ⟨hpiece, rfl⟩ := hc
        · exact .inl (readToken_space hc _)
        · refine .inr ⟨?_, congrArg (·.1.type) (readToken_slash _)⟩
          change (piece.isBlock && !piece'.isSpace) = true
          rw [hblock, hpiece]
          rfl
    · rw [if_neg hblock]
      exact .inl (readToken_space rfl _)

theorem nextToken_of_comment (rest : List (Lexeme × Gap)) (hplain : first.plain = true)
    (hapart : apartFrom first lexeme gap = false) :
    (cypherLexerNextToken (written first ((lexeme, gap) :: rest))).1.type = .error ∨
      (cypherLexerNextToken (written first ((lexeme, gap) :: rest))).1.type = .eof := by
  rw [apartFrom, Bool.not_eq_false', Bool.and_eq_true, Bool.and_eq_true,
    decide_eq_true_eq] at hapart
  obtain ⟨⟨htext, hspace⟩, hcomment⟩ := hapart
  obtain ⟨c, t, hwritten, ⟨hnot, _⟩ | ⟨_, rfl⟩⟩ := written_head gap rest
  · rw [hcomment] at hnot
    cases hnot
  · have hnext : cypherLexerNextToken (written first ((lexeme, gap) :: rest)) =
        readToken (t.dropWhile (· ≠ '\n')) := by
      rw [nextToken_eq, written]
      refine congrArg readToken ((skip_plain hplain _).trans ?_)
      rw [if_pos hspace, htext, hwritten]
      rfl
    rw [hnext]
    have hhead := List.head?_dropWhile_not (· ≠ '\n') t
    cases hdrop : t.dropWhile (· ≠ '\n') with
    | nil => exact .inr rfl
    | cons d u =>
      rw [hdrop] at hhead
      have hd : d = '\n' := by simpa using hhead
      rw [hd]
      exact .inl (readToken_space rfl u)

theorem clear_of_same (h : ∀ n, calls n (written first rest) = expected n (rest.map Prod.fst)) :
    Clear first rest ∨ Mixed first rest := by
  induction rest generalizing first with
  | nil =>
    have hone : (cypherLexerNextToken (written first [])).1.type = .eof :=
      congrArg CypherToken.type (List.cons.inj (h 1)).1
    cases hplain : first.plain with
    | true => exact .inl hplain
    | false =>
      have hbad := nextToken_of_not_plain hplain []
      rw [List.append_nil] at hbad
      obtain hbad | ⟨_, hbad⟩ := hbad
      · cases hone.symm.trans hbad
      · cases hone.symm.trans hbad
  | cons x rest ih =>
    obtain ⟨lexeme, gap⟩ := x
    have hone : (cypherLexerNextToken (written first ((lexeme, gap) :: rest))).1.type =
        lexeme.token.type := congrArg CypherToken.type (List.cons.inj (h 1)).1
    obtain ⟨herror, heof, hdiv⟩ := lexeme.type_ne
    cases hplain : first.plain with
    | false =>
      obtain hbad | ⟨hdoubled, hbad⟩ :=
        nextToken_of_not_plain hplain (lexeme.text ++ written gap rest)
      · exact absurd (hone.symm.trans hbad) herror
      · exact .inr (.inl ⟨hdoubled, hdiv (hone.symm.trans hbad)⟩)
    | true =>
      cases hapart : apartFrom first lexeme gap with
      | false =>
        obtain hbad | hbad := nextToken_of_comment rest hplain hapart
        · exact absurd (hone.symm.trans hbad) herror
        · exact absurd (hone.symm.trans hbad) heof
      | true =>
        have hrest : ∀ n, calls n (written gap rest) = expected n (rest.map Prod.fst) := by
          intro n
          have hn := (List.cons.inj (h (n + 1))).2
          rwa [nextToken_plain hplain hapart] at hn
        obtain hclear | hmixed := ih hrest
        · exact .inl ⟨hplain, hapart, hclear⟩
        · exact .inr (.inr hmixed)

theorem clear_or_mixed (h : SameTokens first rest) : Clear first rest ∨ Mixed first rest := by
  apply clear_of_same
  intro n
  rw [h n, calls_spaced]

end Converse

section Layouts

variable {first gap : Gap} {others : List Gap} {rest : List (Lexeme × Gap)}

def wordA : Lexeme := .word ['a'] rfl

theorem slash_mem : (['/'], CypherTokenType.div) ∈ operators := by decide

def slash : Lexeme := .operator (['/'], .div) slash_mem

theorem clear_of_harmless (h : Harmless first others) (lexemes : List Lexeme)
    (hlen : lexemes.length = others.length) : Clear first (lexemes.zip others) := by
  induction others generalizing first lexemes with
  | nil =>
    rw [List.zip_nil_right]
    exact h
  | cons gap others ih =>
    obtain ⟨hplain, hapart, hrest⟩ := h
    obtain ⟨lexeme, lexemes, rfl⟩ := List.exists_cons_of_length_eq_add_one hlen
    refine ⟨hplain, ?_, ih hrest lexemes (Nat.succ.inj hlen)⟩
    rw [apartFrom, Bool.and_assoc, hapart, Bool.and_false]
    rfl

theorem not_mixed_words : ¬Mixed first ((List.replicate others.length wordA).zip others) := by
  induction others generalizing first with
  | nil => exact fun h => h
  | cons gap others ih =>
    rintro (⟨_, htext⟩ | hrest)
    · cases htext
    · exact ih hrest

theorem plain_of_doubled (h : gap.doubled = true) : gap.plain = false := by
  rw [Gap.doubled] at h
  rw [Gap.plain]
  cases hdrop : gap.pieces.dropWhile Piece.isSpace with
  | nil =>
    rw [hdrop] at h
    cases h
  | cons piece pieces =>
    rw [hdrop] at h
    cases pieces with
    | nil => cases h
    | cons => rfl

theorem not_mixed_slashes (h : Clear first ((List.replicate others.length wordA).zip others)) :
    ¬Mixed first ((List.replicate others.length slash).zip others) := by
  induction others generalizing first with
  | nil => exact fun h => h
  | cons gap others ih =>
    obtain ⟨hplain, _, hrest⟩ := h
    rintro (⟨hdoubled, _⟩ | hmixed)
    · rw [plain_of_doubled hdoubled] at hplain
      cases hplain
    · exact ih hrest hmixed

theorem harmless_of_clear (h : Clear first ((List.replicate others.length slash).zip others)) :
    Harmless first others := by
  induction others generalizing first with
  | nil => exact h
  | cons gap others ih =>
    obtain ⟨hplain, hapart, hrest⟩ := h
    exact ⟨hplain, Bool.not_eq_true' _ |>.mp hapart, ih hrest⟩

/-- A line comment, and the word `a` after it. -/
def commentGap : Gap := ⟨[.line ['c'] (by decide)], List.cons_ne_nil _ _⟩

def spaceGap : Gap := ⟨[.space ' ' rfl], List.cons_ne_nil _ _⟩

theorem not_sameTokens_comment : ¬SameTokens commentGap [(wordA, spaceGap)] := by
  intro h
  exact absurd (h 1) (by decide)

/-- The tokens are the same, whatever they are, if and only if each gap is white space with at most
one block comment at its end, and begins with the comment only where the gap before has one.  For
given tokens the second condition is about those that are slashes; and then only what is left of a
second comment before a slash may happen to be read as the same tokens. -/
theorem sameTokens_iff (first : Gap) (others : List Gap) :
    ((∀ lexemes : List Lexeme, lexemes.length = others.length →
        SameTokens first (lexemes.zip others)) ↔ Harmless first others) ∧
    ∀ rest, (Clear first rest → SameTokens first rest) ∧
      (SameTokens first rest → Clear first rest ∨ Mixed first rest) := by
  refine ⟨⟨fun h => ?_, fun h lexemes hlen => same_of_clear (clear_of_harmless h lexemes hlen)⟩,
    fun rest => ⟨same_of_clear, clear_or_mixed⟩⟩
  have hwords := (clear_or_mixed (h _ List.length_replicate)).resolve_right not_mixed_words
  exact harmless_of_clear
    ((clear_or_mixed (h _ List.length_replicate)).resolve_right (not_mixed_slashes hwords))

end Layouts

end SqliteMultimodal.Graph.Cypher.Layout
