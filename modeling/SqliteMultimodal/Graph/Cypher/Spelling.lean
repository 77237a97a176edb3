import SqliteMultimodal.Graph.Cypher.Lexer

namespace SqliteMultimodal.Graph.Cypher

section Lexes

inductive Lexes : Text → List CypherToken → Text → Prop
  | nil {t : Text} : Lexes t [] t
  | cons {t t' k : Text} {token : CypherToken} {tokens : List CypherToken} :
    cypherLexerNextToken t = (token, t') → Lexes t' tokens k → Lexes t (token :: tokens) k

namespace Lexes

variable {t t' k : Text} {token : CypherToken} {ts us : List CypherToken}

theorem append (h : Lexes t ts t') (h' : Lexes t' us k) : Lexes t (ts ++ us) k := by
  induction h with
  | nil => exact h'
  | cons hnext _ ih => exact .cons hnext (ih h')

theorem of_append (h : Lexes t (ts ++ us) k) : ∃ t', Lexes t ts t' ∧ Lexes t' us k := by
  induction ts generalizing t with
  | nil => exact ⟨t, .nil, h⟩
  | cons token ts ih =>
    cases h with
    | cons hnext hrest =>
      obtain ⟨t', hts, hus⟩ := ih hrest
      exact ⟨t', .cons hnext hts, hus⟩

theorem of_cons (h : Lexes t (token :: ts) k) :
    ∃ t', cypherLexerNextToken t = (token, t') ∧ Lexes t' ts k := by
  cases h with
  | cons hnext hrest => exact ⟨_, hnext, hrest⟩

theorem of_nil (h : Lexes t [] k) : t = k := by
  cases h
  rfl

end Lexes

end Lexes

section Spelling

def CypherToken.spelling (token : CypherToken) : Text :=
  if token.type = .string then '"' :: token.text ++ ['"'] else token.text

def Apart (k : Text) : Prop := ∀ c ∈ k.head?, c = ' '

def CypherToken.Legible (token : CypherToken) : Prop :=
  ∀ k, Apart k → cypherLexerNextToken (token.spelling ++ k) = (token, k)

def spaced (tokens : List CypherToken) : Text := Text.join ' ' (tokens.map CypherToken.spelling)

theorem apart_nil : Apart [] := by
  intro c hc
  cases hc

theorem apart_space (k : Text) : Apart (' ' :: k) := by
  intro c hc
  exact (Option.some.inj hc).symm

theorem nextToken_space (t : Text) : cypherLexerNextToken (' ' :: t) = cypherLexerNextToken t := rfl

theorem lexes_spaced {tokens : List CypherToken} (h : ∀ token ∈ tokens, token.Legible) {k : Text}
    (hk : Apart k) : Lexes (spaced tokens ++ k) tokens k := by
  induction tokens with
  | nil => exact .nil
  | cons token tokens ih =>
    have htoken := h token List.mem_cons_self
    have ih := ih fun token htoken => h token (List.mem_cons_of_mem _ htoken)
    cases tokens with
    | nil =>
      have hspaced : spaced [token] = token.spelling := by simp [spaced, Text.join]
      rw [hspaced]
      exact .cons (htoken k hk) .nil
    | cons next tokens =>
      have hspaced : spaced (token :: next :: tokens) ++ k =
          token.spelling ++ ' ' :: (spaced (next :: tokens) ++ k) := by
        rw [spaced, List.map_cons, Text.join_cons ' ' _ (by simp), List.append_assoc,
          List.cons_append]
        rfl
      rw [hspaced]
      refine .cons (htoken _ (apart_space _)) ?_
      cases ih with
      | cons hnext hrest => exact .cons ((nextToken_space _).trans hnext) hrest

end Spelling

section Reading

variable {t k : Text} {c : Char}

def readToken : Text → CypherToken × Text
  | [] => (⟨.eof, []⟩, [])
  | c :: t =>
    if c.isAlpha || c = '_' then lexerTokenizeIdentifier (c :: t)
    else if c.isDigit then lexerTokenizeNumber (c :: t)
    else if c = '\x27' || c = '"' then lexerTokenizeString c t
    else lexerTokenizeOperator (c :: t)

theorem nextToken_eq (t : Text) :
    cypherLexerNextToken t = readToken (lexerSkipComment (lexerSkipWhitespace t)) := rfl

def Ends (k : Text) : Prop := ∀ c ∈ k.head?, Text.isSpace c = true ∨ c = '/'

theorem Apart.ends (h : Apart k) : Ends k := by
  intro c hc
  rw [h c hc]
  exact .inl rfl

theorem Ends.head (h : Ends k) {p : Char → Bool} (hslash : p '/' = false)
    (hspace : ∀ c, Text.isSpace c = true → p c = false) : ∀ c ∈ k.head?, p c = false := by
  intro c hc
  obtain hc | rfl := h c hc
  · exact hspace c hc
  · exact hslash

theorem skip_of_start (hspace : Text.isSpace c = false) (hslash : c ≠ '/') :
    lexerSkipComment (lexerSkipWhitespace (c :: t)) = c :: t := by
  rw [lexerSkipWhitespace, List.dropWhile_cons_of_neg (by simp [hspace])]
  unfold lexerSkipComment
  split
  next heq => exact absurd (List.cons.inj heq).1 hslash
  next heq => exact absurd (List.cons.inj heq).1 hslash
  next => rfl

theorem takeWhile_ends {p : Char → Bool} (hp : ∀ c ∈ k.head?, p c = false)
    (ht : ∀ c ∈ t, p c = true) : (t ++ k).takeWhile p = t ∧ (t ++ k).dropWhile p = k := by
  rw [List.takeWhile_append_of_pos ht, List.dropWhile_append_of_pos ht]
  cases k with
  | nil => exact ⟨List.append_nil t, rfl⟩
  | cons c k =>
    have hc := hp c rfl
    rw [List.takeWhile_cons_of_neg (by simp [hc]), List.dropWhile_cons_of_neg (by simp [hc])]
    exact ⟨List.append_nil t, rfl⟩

theorem isDigit_of_isSpace (h : Text.isSpace c = true) : c.isDigit = false := by
  by_contra hdigit
  rw [Text.isSpace_of_isDigit (eq_true_of_ne_false hdigit)] at h
  cases h

theorem isWordChar_of_isSpace (h : Text.isSpace c = true) : isWordChar c = false := by
  have halpha : c.isAlpha = false := by
    by_contra halpha
    rw [Text.isSpace_of_isAlpha (eq_true_of_ne_false halpha)] at h
    cases h
  have hunder : c ≠ '_' := by
    rintro rfl
    cases h
  rw [isWordChar, Char.isAlphanum, halpha, isDigit_of_isSpace h, decide_eq_false hunder]
  rfl

def isWord : Text → Bool
  | [] => false
  | c :: t => (c.isAlpha || c = '_') && t.all isWordChar

theorem keyword_ne_string (t : Text) : cypherGetKeywordToken t ≠ .string := by
  unfold cypherGetKeywordToken
  cases hfind : keywords.find? (·.1 = t.map Char.toUpper) with
  | none => simp
  | some keyword =>
    have hall : ∀ keyword ∈ keywords, keyword.2 ≠ .string := by decide
    exact hall keyword (List.mem_of_find?_eq_some hfind)

theorem isSpace_of_start (h : (c.isAlpha || c = '_') = true) :
    Text.isSpace c = false ∧ c ≠ '/' := by
  rcases Bool.or_eq_true_iff.mp h with halpha | hunder
  · exact ⟨Text.isSpace_of_isAlpha halpha, Text.ne_of_isAlpha halpha rfl⟩
  · rw [of_decide_eq_true hunder]
    decide

theorem isWordChar_of_start (h : (c.isAlpha || c = '_') = true) : isWordChar c = true := by
  rw [isWordChar, Char.isAlphanum]
  rcases Bool.or_eq_true_iff.mp h with halpha | hunder
  · rw [halpha]
    rfl
  · rw [hunder, Bool.or_true]

theorem readToken_word (h : isWord t = true) (hk : Ends k) :
    readToken (t ++ k) = (⟨cypherGetKeywordToken t, t⟩, k) := by
  cases t with
  | nil => cases h
  | cons c t =>
    obtain ⟨hstart, hword⟩ := Bool.and_eq_true_iff.mp h
    have hchars : ∀ d ∈ c :: t, isWordChar d = true :=
      List.forall_mem_cons.mpr ⟨isWordChar_of_start hstart, List.all_eq_true.mp hword⟩
    obtain ⟨htake, hdrop⟩ := takeWhile_ends
      (hk.head (p := isWordChar) rfl fun _ => isWordChar_of_isSpace) hchars
    rw [List.cons_append, readToken, if_pos hstart, lexerTokenizeIdentifier, ← List.cons_append,
      htake, hdrop]

theorem not_start_of_isDigit (h : c.isDigit = true) : (c.isAlpha || c = '_') = false := by
  cases halpha : c.isAlpha with
  | true =>
    rw [Text.isDigit_of_isAlpha halpha] at h
    cases h
  | false =>
    rw [Bool.false_or]
    exact decide_eq_false (Text.ne_of_isDigit h rfl)

theorem readToken_number (h : c.isDigit = true) :
    readToken (c :: t) = lexerTokenizeNumber (c :: t) := by
  rw [readToken, if_neg (ne_true_of_eq_false (not_start_of_isDigit h)), if_pos h]

theorem readToken_integer (hne : t ≠ []) (h : ∀ c ∈ t, c.isDigit = true) (hk : Ends k) :
    readToken (t ++ k) = (⟨.integer, t⟩, k) := by
  obtain ⟨htake, hdrop⟩ := takeWhile_ends
    (hk.head (p := Char.isDigit) rfl fun _ => isDigit_of_isSpace) h
  obtain ⟨c, rest, rfl⟩ := List.exists_cons_of_ne_nil hne
  rw [List.cons_append, readToken_number (h c List.mem_cons_self), lexerTokenizeNumber,
    ← List.cons_append, hdrop, htake]
  split
  next k =>
    obtain hdot | hdot := hk '.' rfl
    · cases hdot
    · cases hdot
  next => rfl

theorem readToken_float {whole frac : Text} (hne : whole ≠ [])
    (h : ∀ c ∈ whole ++ frac, c.isDigit = true) (hk : Ends k) :
    readToken ((whole ++ '.' :: frac) ++ k) = (⟨.float, whole ++ '.' :: frac⟩, k) := by
  have hwhole := fun c hc => h c (List.mem_append_left frac hc)
  obtain ⟨htake, hdrop⟩ := takeWhile_ends
    (hk.head (p := Char.isDigit) rfl fun _ => isDigit_of_isSpace)
    (fun c hc => h c (List.mem_append_right whole hc))
  obtain ⟨c, rest, rfl⟩ := List.exists_cons_of_ne_nil hne
  rw [List.append_assoc, List.cons_append, List.cons_append,
    readToken_number (hwhole c List.mem_cons_self), lexerTokenizeNumber, ← List.cons_append,
    List.dropWhile_append_of_pos hwhole, List.takeWhile_append_of_pos hwhole,
    List.dropWhile_cons_of_neg (by decide), List.takeWhile_cons_of_neg (by decide)]
  simp only [htake, hdrop, List.append_nil]

theorem readToken_string {quote : Char} (hquote : quote = '\x27' ∨ quote = '"') {content : Text}
    (h : stringBody quote (t ++ k) = some (content, k)) :
    readToken (quote :: (t ++ k)) = (⟨.string, content⟩, k) := by
  have htokenize : readToken (quote :: (t ++ k)) = lexerTokenizeString quote (t ++ k) := by
    obtain rfl | rfl := hquote
    · rfl
    · rfl
  rw [htokenize, lexerTokenizeString, h]

theorem find?_congr {α : Type} {p q : α → Bool} {xs : List α} (h : ∀ x ∈ xs, p x = q x) :
    xs.find? p = xs.find? q := by
  induction xs with
  | nil => rfl
  | cons x xs ih =>
    rw [List.find?_cons, List.find?_cons, h x List.mem_cons_self,
      ih fun x hx => h x (List.mem_cons_of_mem _ hx)]

theorem prefix_of_prefix_append {op op' : Text} (hop : op ≠ []) (hc : c ∉ op'.tail)
    (h : op' <+: op ++ c :: t) : op' <+: op := by
  refine List.prefix_of_prefix_length_le h (List.prefix_append op _) (not_lt.mp fun hlt => ?_)
  have hlonger : op ++ [c] <+: op' := by
    refine List.prefix_of_prefix_length_le ⟨t, List.append_assoc ..⟩ h ?_
    rw [List.length_append]
    exact hlt
  obtain ⟨u, rfl⟩ := hlonger
  obtain ⟨d, op, rfl⟩ := List.exists_cons_of_ne_nil hop
  exact hc (by simp)

theorem operator_head {op : Text × CypherTokenType} (h : op ∈ operators) : ∃ c t, op.1 = c :: t ∧
    Text.isSpace c = false ∧ (c.isAlpha || c = '_') = false ∧ c.isDigit = false ∧
      (c = '\x27' || c = '"') = false ∧ (c = '/' → op.1 = ['/'] ∧ op.2 = .div) := by
  have hall : operators.all (fun op => op.1.head?.any fun c => !Text.isSpace c &&
      !(c.isAlpha || c = '_') && !c.isDigit && !(c = '\x27' || c = '"') &&
        (!decide (c = '/') || decide (op.1 = ['/']) && decide (op.2 = .div))) = true := rfl
  obtain ⟨c, hc, hhead⟩ := (Option.any_eq_true _ _).mp (List.all_eq_true.mp hall op h)
  obtain ⟨t, ht⟩ := List.head?_eq_some_iff.mp hc
  simp only [Bool.and_eq_true, Bool.or_eq_true, Bool.not_eq_true', decide_eq_true_eq,
    decide_eq_false_iff_not] at hhead
  obtain ⟨⟨⟨⟨hspace, halpha⟩, hdigit⟩, hquote⟩, hslash⟩ := hhead
  exact ⟨c, t, ht, hspace, halpha, hdigit, hquote, fun hc => hslash.resolve_left (not_not.mpr hc)⟩

theorem operator_tail {op : Text × CypherTokenType} {c : Char} (h : op ∈ operators)
    (hc : c ∈ op.1.tail) : Text.isSpace c = false ∧ c ≠ '/' := by
  have hall : operators.all (fun op => op.1.tail.all fun c => !Text.isSpace c &&
      !decide (c = '/')) = true := rfl
  have hboth := List.all_eq_true.mp (List.all_eq_true.mp hall op h) c hc
  rwa [Bool.and_eq_true, Bool.not_eq_true', Bool.not_eq_true', decide_eq_false_iff_not] at hboth

theorem operator_bare {op : Text × CypherTokenType} (h : op ∈ operators) :
    operators.find? (·.1.isPrefixOf op.1) = some op := by
  have hall : operators.all (fun op => operators.find? (·.1.isPrefixOf op.1) = some op) = true := rfl
  exact of_decide_eq_true (List.all_eq_true.mp hall op h)

theorem readToken_operator {op : Text × CypherTokenType} (hop : op ∈ operators) (hk : Ends k) :
    readToken (op.1 ++ k) = (⟨op.2, op.1⟩, k) := by
  obtain ⟨c, t, hop', -, halpha, hdigit, hquote, -⟩ := operator_head hop
  have hfind : operators.find? (·.1.isPrefixOf (op.1 ++ k)) = some op := by
    rw [← operator_bare hop]
    apply find?_congr
    intro op' hop'
    rw [Bool.eq_iff_iff, List.isPrefixOf_iff_prefix, List.isPrefixOf_iff_prefix]
    refine ⟨fun h => ?_, fun h => h.trans (List.prefix_append op.1 k)⟩
    cases k with
    | nil => rwa [List.append_nil] at h
    | cons d k =>
      have hne : op.1 ≠ [] := by
        rw [‹op.1 = c :: t›]
        exact List.cons_ne_nil c t
      refine prefix_of_prefix_append hne (fun hd => ?_) h
      obtain ⟨hspace, hslash⟩ := operator_tail hop' hd
      obtain h | h := hk d rfl
      · exact Bool.false_ne_true (hspace.symm.trans h)
      · exact hslash h
  rw [hop', List.cons_append, readToken, if_neg (ne_true_of_eq_false halpha),
    if_neg (ne_true_of_eq_false hdigit), if_neg (ne_true_of_eq_false hquote),
    lexerTokenizeOperator, ← List.cons_append, ← hop', hfind]
  simp only [List.drop_left]

end Reading

section Legible

variable {t k : Text} {c : Char}

theorem legible_of_readToken {token : CypherToken} (hspelling : token.spelling = c :: t)
    (hstart : Text.isSpace c = false ∧ c ≠ '/')
    (h : ∀ k, Ends k → readToken (token.spelling ++ k) = (token, k)) : token.Legible := by
  intro k hk
  rw [nextToken_eq, hspelling, List.cons_append, skip_of_start hstart.1 hstart.2,
    ← List.cons_append, ← hspelling]
  exact h k hk.ends

theorem legible_word (h : isWord t = true) :
    (CypherToken.mk (cypherGetKeywordToken t) t).Legible := by
  have hspelling : (CypherToken.mk (cypherGetKeywordToken t) t).spelling = t :=
    if_neg (keyword_ne_string t)
  cases t with
  | nil => cases h
  | cons c t =>
    refine legible_of_readToken (c := c) (t := t) hspelling ?_ fun k hk => ?_
    · exact isSpace_of_start (Bool.and_eq_true_iff.mp h).1
    · rw [hspelling]
      exact readToken_word h hk

theorem legible_integer (hne : t ≠ []) (h : ∀ c ∈ t, c.isDigit = true) :
    (CypherToken.mk .integer t).Legible := by
  obtain ⟨c, rest, rfl⟩ := List.exists_cons_of_ne_nil hne
  have hc := h c List.mem_cons_self
  exact legible_of_readToken (c := c) (t := rest) rfl
    ⟨Text.isSpace_of_isDigit hc, Text.ne_of_isDigit hc rfl⟩ fun k hk => readToken_integer hne h hk

theorem legible_float {whole frac : Text} (hne : whole ≠ [])
    (h : ∀ c ∈ whole ++ frac, c.isDigit = true) :
    (CypherToken.mk .float (whole ++ '.' :: frac)).Legible := by
  obtain ⟨c, rest, rfl⟩ := List.exists_cons_of_ne_nil hne
  have hc := h c List.mem_cons_self
  exact legible_of_readToken (c := c) (t := rest ++ '.' :: frac) rfl
    ⟨Text.isSpace_of_isDigit hc, Text.ne_of_isDigit hc rfl⟩ fun k hk => readToken_float hne h hk

theorem stringBody_quote (quote : Char) (k : Text) :
    stringBody quote (quote :: k) = some ([], k) := by
  rw [stringBody.eq_def]
  exact if_pos rfl

theorem stringBody_cons {quote : Char} (hquote : c ≠ quote) (hback : c ≠ '\\') (k : Text) :
    stringBody quote (c :: k) = (stringBody quote k).map fun r => (c :: r.1, r.2) := by
  rw [stringBody.eq_def]
  simp only [if_neg hquote, if_neg hback]

theorem stringBody_append {quote : Char} (h : ∀ c ∈ t, c ≠ quote ∧ c ≠ '\\') (k : Text) :
    stringBody quote (t ++ quote :: k) = some (t, k) := by
  induction t with
  | nil => exact stringBody_quote quote k
  | cons c t ih =>
    obtain ⟨hquote, hback⟩ := h c List.mem_cons_self
    rw [List.cons_append, stringBody_cons hquote hback,
      ih fun c hc => h c (List.mem_cons_of_mem _ hc), Option.map_some]

theorem legible_string (h : ∀ c ∈ t, c ≠ '"' ∧ c ≠ '\\') : (CypherToken.mk .string t).Legible := by
  refine legible_of_readToken (c := '"') (t := t ++ ['"']) rfl ⟨rfl, by decide⟩ fun k _ => ?_
  have hread := stringBody_append h k
  rw [← List.singleton_append, ← List.append_assoc] at hread
  exact readToken_string (.inr rfl) hread

def plainOperators : List CypherToken :=
  [⟨.eq, "=".toList⟩, ⟨.ne, "<>".toList⟩, ⟨.lt, "<".toList⟩, ⟨.le, "<=".toList⟩, ⟨.gt, ">".toList⟩,
    ⟨.ge, ">=".toList⟩, ⟨.dot, ".".toList⟩, ⟨.comma, ",".toList⟩, ⟨.lparen, "(".toList⟩,
    ⟨.rparen, ")".toList⟩, ⟨.lbracket, "[".toList⟩, ⟨.rbracket, "]".toList⟩]

theorem legible_operator {token : CypherToken} (h : token ∈ plainOperators) : token.Legible := by
  have hall : ∀ token ∈ plainOperators, (token.text, token.type) ∈ operators ∧
      token.spelling = token.text ∧ token.type ≠ .div := by decide
  obtain ⟨hop, hspelling, hdiv⟩ := hall token h
  obtain ⟨c, t, ht, hspace, -, -, -, hslash⟩ := operator_head hop
  have hstart : Text.isSpace c = false ∧ c ≠ '/' := ⟨hspace, fun hc => hdiv (hslash hc).2⟩
  refine legible_of_readToken (hspelling.trans ht) hstart fun k hk => ?_
  rw [hspelling]
  exact readToken_operator hop hk

end Legible

end SqliteMultimodal.Graph.Cypher
