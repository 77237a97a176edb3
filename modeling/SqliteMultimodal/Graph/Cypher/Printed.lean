import SqliteMultimodal.Graph.Cypher.Parser
import SqliteMultimodal.Graph.Cypher.Spelling
import SqliteMultimodal.Lib.Fuel

namespace SqliteMultimodal.Graph.Cypher

section Trees

structure Name where
  text : Text
  word : isWord text = true
  notKeyword : cypherGetKeywordToken text = .identifier

theorem Name.isWordChar (name : Name) {c : Char} (h : c ∈ name.text) : isWordChar c = true := by
  have hword := name.word
  cases ht : name.text with
  | nil =>
    rw [ht] at h
    cases h
  | cons d t =>
    rw [ht] at h hword
    obtain ⟨hstart, hrest⟩ := Bool.and_eq_true_iff.mp hword
    obtain rfl | h := List.mem_cons.mp h
    · exact isWordChar_of_start hstart
    · exact List.all_eq_true.mp hrest c h

theorem Name.not_mem (name : Name) {c : Char} (hc : Cypher.isWordChar c = false) :
    c ∉ name.text :=
  fun h => Bool.false_ne_true (hc.symm.trans (name.isWordChar h))

inductive BasicLiteral
  | integer (t : Text) (ne : t ≠ []) (digits : ∀ c ∈ t, c.isDigit = true)
  | float (whole frac : Text) (ne : whole ≠ []) (digits : ∀ c ∈ whole ++ frac, c.isDigit = true)
  | string (t : Text) (plain : ∀ c ∈ t, c ≠ '"' ∧ c ≠ '\\')
  | boolean (t : Text) (word : isWord t = true) (keyword : cypherGetKeywordToken t = .boolean)
  | null (t : Text) (word : isWord t = true) (keyword : cypherGetKeywordToken t = .null)

inductive ComparisonOp
  | eq | ne | lt | le | gt | ge | contains | in

inductive Expr
  | identifier (name : Name)
  | literal (lit : BasicLiteral)
  | list (elements : List Expr)
  | call (name : Name) (args : List Expr)
  | property (e : Expr) (name : Name)
  | comparison (op : ComparisonOp) (l r : Expr)
  | not (e : Expr)
  | and (l r : Expr)

def Name.token (name : Name) : CypherToken := ⟨.identifier, name.text⟩

def BasicLiteral.token : BasicLiteral → CypherToken
  | integer t _ _ => ⟨.integer, t⟩
  | float whole frac _ _ => ⟨.float, whole ++ '.' :: frac⟩
  | string t _ => ⟨.string, t⟩
  | boolean t _ _ => ⟨.boolean, t⟩
  | null t _ _ => ⟨.null, t⟩

def ComparisonOp.token : ComparisonOp → CypherToken
  | eq => ⟨.eq, "=".toList⟩
  | ne => ⟨.ne, "<>".toList⟩
  | lt => ⟨.lt, "<".toList⟩
  | le => ⟨.le, "<=".toList⟩
  | gt => ⟨.gt, ">".toList⟩
  | ge => ⟨.ge, ">=".toList⟩
  | contains => ⟨.contains, "CONTAINS".toList⟩
  | .in => ⟨.in, "IN".toList⟩

mutual

def Expr.toAst : Expr → CypherAst
  | .identifier name => .createIdentifier name.text
  | .literal lit => .createLiteral lit.token.text
  | .list elements => .create .array (toAsts elements)
  | .call name args => .create .functionCall (.createIdentifier name.text :: toAsts args)
  | .property e name => .create .property [e.toAst, .createIdentifier name.text]
  | .comparison op l r => .withValue .comparison op.token.text [l.toAst, r.toAst]
  | .not e => .create .not [e.toAst]
  | .and l r => .create .and [l.toAst, r.toAst]

def toAsts : List Expr → List CypherAst
  | [] => []
  | e :: es => e.toAst :: toAsts es

end

end Trees

section Printing

def Expr.level : Expr → Nat
  | .and _ _ => 1
  | .not _ => 2
  | .comparison _ _ _ => 3
  | _ => 4

def inParens (parens : Bool) (tokens : List CypherToken) : List CypherToken :=
  if parens then ⟨.lparen, ['(']⟩ :: tokens ++ [⟨.rparen, [')']⟩] else tokens

mutual

def Expr.tokens : Expr → List CypherToken
  | .identifier name => [name.token]
  | .literal lit => [lit.token]
  | .list elements => ⟨.lbracket, ['[']⟩ :: separatedTokens elements ++ [⟨.rbracket, [']']⟩]
  | .call name args =>
    name.token :: ⟨.lparen, ['(']⟩ :: separatedTokens args ++ [⟨.rparen, [')']⟩]
  | .property e name => inParens (e.level < 4) e.tokens ++ [⟨.dot, ['.']⟩, name.token]
  | .comparison op l r =>
    inParens (l.level < 3) l.tokens ++ op.token :: inParens (r.level < 4) r.tokens
  | .not e => ⟨.not, "NOT".toList⟩ :: inParens (e.level < 2) e.tokens
  | .and l r => l.tokens ++ ⟨.and, "AND".toList⟩ :: inParens (r.level < 2) r.tokens

def separatedTokens : List Expr → List CypherToken
  | [] => []
  | [e] => e.tokens
  | e :: es => e.tokens ++ ⟨.comma, [',']⟩ :: separatedTokens es

end

def Expr.tokensAt (level : Nat) (e : Expr) : List CypherToken :=
  inParens (e.level < level) e.tokens

def Expr.print (e : Expr) : Text := spaced e.tokens

end Printing

section Reading

open ParserState Fuel

variable {msg : Option Text} {t k k' : Text}

/-- With enough fuel the function returns `a`, and `k` is what is left of the text. -/
def Reads {α : Type} (p : Nat → ParserState → Parsed α) (msg : Option Text) (t : Text) (a : α)
    (k : Text) : Prop :=
  Settles (fun n => p n ⟨t, msg⟩) (found a ⟨k, msg⟩)

def nextType (t : Text) : CypherTokenType := (cypherLexerNextToken t).1.type

theorem Reads.andThen {α β : Type} {p : Nat → ParserState → Parsed α} {a : α} {b : β}
    (hp : Reads p msg t a k) (onNull : ParserState → ParserState)
    (f : Nat → α → ParserState → Parsed β) (hf : Reads (fun n => f n a) msg k b k') :
    Settles (fun n => (p n ⟨t, msg⟩).andThen onNull (f n)) (found b ⟨k', msg⟩) :=
  Settles.bind (q := fun x n => Parsed.andThen x onNull (f n)) hp hf

theorem expect_of_next {β : Type} {token : CypherToken} (h : cypherLexerNextToken t = (token, k))
    (onNull : ParserState → ParserState) (f : CypherToken → ParserState → Parsed β) :
    expect token.type onNull ⟨t, msg⟩ f = f token ⟨k, msg⟩ := by
  simp only [expect, parserConsumeToken, parserPeekToken, next, h, if_true]

theorem next_eq {token : CypherToken} (h : cypherLexerNextToken t = (token, k)) :
    (ParserState.mk t msg).next = ⟨k, msg⟩ := by
  simp only [next, h]

theorem nextType_eq {token : CypherToken} (h : cypherLexerNextToken t = (token, k)) :
    nextType t = token.type := by
  simp only [nextType, h]

theorem peek_type : (ParserState.mk t msg).parserPeekToken.type = nextType t := rfl

section Levels

variable {a l r : CypherAst}

theorem reads_property_done (h : nextType k ≠ .dot) :
    Reads (fun n => parsePropertyExpression n a) msg k a k :=
  .of_step (fun _ => if_neg h) (.of_eq fun _ => rfl)

theorem reads_property_step {name : CypherToken} {k₁ k₂ : Text}
    (hdot : cypherLexerNextToken k = (⟨.dot, ['.']⟩, k₁))
    (hname : cypherLexerNextToken k₁ = (name, k₂)) (htype : name.type = .identifier)
    (hrest : Reads (fun n => parsePropertyExpression n
      (.create .property [l, .createIdentifier name.text])) msg k₂ a k') :
    Reads (fun n => parsePropertyExpression n l) msg k a k' := by
  refine .of_step (fun n => ?_) hrest
  change parsePropertyExpression (n + 1) l ⟨k, msg⟩ = _
  rw [parsePropertyExpression, peek_type, if_pos (nextType_eq hdot), next_eq hdot, ← htype,
    expect_of_next hname]

theorem reads_or (h : Reads parseAndExpression msg t a k) (hk : nextType k ≠ .or) :
    Reads parseExpression msg t a k := by
  have hrest : Reads (fun n => parseOrRest n a) msg k a k :=
    .of_step (fun _ => if_neg hk) (.of_eq fun _ => rfl)
  exact .of_step (fun _ => rfl) (.of_step (fun _ => rfl) (h.andThen id _ hrest))

theorem reads_and (h : Reads parseNotExpression msg t l k)
    (hrest : Reads (fun n => parseAndRest n l) msg k a k') :
    Reads parseAndExpression msg t a k' :=
  .of_step (fun _ => rfl) (h.andThen id _ hrest)

theorem reads_and_done (h : nextType k ≠ .and) : Reads (fun n => parseAndRest n a) msg k a k :=
  .of_step (fun _ => if_neg h) (.of_eq fun _ => rfl)

theorem reads_and_step {token : CypherToken} {k₁ k₂ : Text}
    (hand : cypherLexerNextToken k = (token, k₁)) (htype : token.type = .and)
    (hr : Reads parseNotExpression msg k₁ r k₂)
    (hrest : Reads (fun n => parseAndRest n (.create .and [l, r])) msg k₂ a k') :
    Reads (fun n => parseAndRest n l) msg k a k' := by
  refine .of_step (fun n => ?_) (hr.andThen (parserSetError "Expected expression after AND")
    (fun n pRight s => parseAndRest n (.create .and [l, pRight]) s) hrest)
  change parseAndRest (n + 1) l ⟨k, msg⟩ = _
  rw [parseAndRest, peek_type, nextType_eq hand, if_pos htype, next_eq hand]

theorem reads_not_step {token : CypherToken} {k₁ : Text}
    (hnot : cypherLexerNextToken t = (token, k₁)) (htype : token.type = .not)
    (h : Reads parseNotExpression msg k₁ a k) :
    Reads parseNotExpression msg t (.create .not [a]) k := by
  refine .of_step (fun n => ?_) (h.andThen (parserSetError "Expected expression after NOT")
    (fun _ pExpr s => found (.create .not [pExpr]) s) (.of_eq fun _ => rfl))
  rw [parseNotExpression, peek_type, nextType_eq hnot, if_pos htype, next_eq hnot]

theorem reads_not_done (ht : nextType t ≠ .not) (h : Reads parseComparisonExpression msg t a k) :
    Reads parseNotExpression msg t a k :=
  .of_step (fun _ => if_neg ht) h

theorem reads_comparison (h : Reads parseAdditiveExpression msg t l k)
    (hrest : Reads (fun n => parseComparisonRest n l) msg k a k') :
    Reads parseComparisonExpression msg t a k' :=
  .of_step (fun _ => rfl) (h.andThen id _ hrest)

theorem reads_comparison_done (h : isComparison (nextType k) = false) :
    Reads (fun n => parseComparisonRest n a) msg k a k :=
  .of_step (fun _ => if_neg (ne_true_of_eq_false h)) (.of_eq fun _ => rfl)

theorem reads_comparison_step {token : CypherToken} {k₁ k₂ : Text}
    (hop : cypherLexerNextToken k = (token, k₁)) (htype : isComparison token.type = true)
    (hr : Reads parseAdditiveExpression msg k₁ r k₂)
    (hrest : Reads (fun n => parseComparisonRest n (.withValue .comparison token.text [l, r])) msg
      k₂ a k') :
    Reads (fun n => parseComparisonRest n l) msg k a k' := by
  refine .of_step (fun n => ?_)
    (hr.andThen (parserSetError "Expected expression after comparison operator")
      (fun n pRight s => parseComparisonRest n (.withValue .comparison token.text [l, pRight]) s)
      hrest)
  simp only [parseComparisonRest, parserPeekToken, hop, htype, if_true, next_eq hop]

theorem reads_additive (ht : isAdditive (nextType t) = false)
    (h : Reads parsePrimaryExpression msg t a k) (hmult : isMultiplicative (nextType k) = false)
    (hadd : isAdditive (nextType k) = false) : Reads parseAdditiveExpression msg t a k := by
  have hunary : Reads parseUnaryExpression msg t a k :=
    .of_step (fun _ => if_neg (ne_true_of_eq_false ht)) h
  have hmultRest : Reads (fun n => parseMultiplicativeRest n a) msg k a k :=
    .of_step (fun _ => if_neg (ne_true_of_eq_false hmult)) (.of_eq fun _ => rfl)
  have hmul : Reads parseMultiplicativeExpression msg t a k :=
    .of_step (fun _ => rfl) (hunary.andThen id _ hmultRest)
  have haddRest : Reads (fun n => parseAdditiveRest n a) msg k a k :=
    .of_step (fun _ => if_neg (ne_true_of_eq_false hadd)) (.of_eq fun _ => rfl)
  exact .of_step (fun _ => rfl) (hmul.andThen id _ haddRest)

theorem reads_primary (h : Reads parseLiteral msg t l k)
    (hcall : l.type ≠ .identifier ∨ nextType k ≠ .lparen)
    (hrest : Reads (fun n => parsePropertyExpression n l) msg k a k') :
    Reads parsePrimaryExpression msg t a k' := by
  have hcond : ¬(l.isType .identifier && (nextType k = .lparen : Bool)) = true := by
    rw [Bool.and_eq_true, CypherAst.isType, decide_eq_true_eq, decide_eq_true_eq]
    tauto
  exact .of_step (fun _ => rfl) (h.andThen id _ (.congr (fun _ => if_neg hcond) hrest))

theorem reads_primary_call (h : Reads parseLiteral msg t l k) (hname : l.type = .identifier)
    (hparen : nextType k = .lparen) {k₁ : Text}
    (hcall : Reads (fun n => parseFunctionCall n l) msg k r k₁)
    (hrest : Reads (fun n => parsePropertyExpression n r) msg k₁ a k') :
    Reads parsePrimaryExpression msg t a k' := by
  have hcond : (l.isType .identifier && (nextType k = .lparen : Bool)) = true := by
    rw [Bool.and_eq_true, CypherAst.isType, decide_eq_true_eq, decide_eq_true_eq]
    exact ⟨hname, hparen⟩
  have hproperty : Settles (fun n => Parsed.orFreed (parseFunctionCall n l ⟨k, msg⟩)
      (parsePropertyExpression n)) (found a ⟨k', msg⟩) :=
    Settles.bind (q := fun x n => Parsed.orFreed x (parsePropertyExpression n)) hcall hrest
  exact .of_step (fun _ => rfl) (h.andThen id _ (.congr (fun _ => if_pos hcond) hproperty))

theorem reads_identifier {token : CypherToken} (hnext : cypherLexerNextToken t = (token, k))
    (htype : token.type = .identifier) :
    Reads parseLiteral msg t (.createIdentifier token.text) k := by
  refine .of_step (fun n => ?_) (.of_eq fun _ => rfl)
  simp only [parseLiteral, parserPeekToken, hnext, htype, reduceCtorEq, if_false, if_true,
    next_eq hnext]

theorem reads_basicLiteral {token : CypherToken} (hnext : cypherLexerNextToken t = (token, k))
    (htype : isBasicLiteral token.type = true) :
    Reads parseLiteral msg t (.createLiteral token.text) k := by
  refine .of_step (fun n => ?_) (.of_eq fun _ => rfl)
  have hne : token.type ≠ .lbracket ∧ token.type ≠ .lbrace ∧ token.type ≠ .lparen ∧
      token.type ≠ .identifier := by
    revert htype
    cases token.type <;> decide
  simp only [parseLiteral, parserPeekToken, hnext, htype, hne.1, hne.2.1, hne.2.2.1, hne.2.2.2,
    if_false, if_true, next_eq hnext]

theorem reads_parens {token token' : CypherToken} {k₁ k₂ : Text}
    (hopen : cypherLexerNextToken t = (token, k₁)) (hparen : token.type = .lparen)
    (h : Reads parseExpression msg k₁ a k₂) (hclose : cypherLexerNextToken k₂ = (token', k))
    (hparen' : token'.type = .rparen) : Reads parseLiteral msg t a k := by
  refine .of_step (fun n => ?_) (h.andThen id
    (fun _ pExpr s => expect .rparen (parserSetError "Expected closing parenthesis") s
      fun _ s => found pExpr s) (.of_eq fun _ => ?_))
  · simp only [parseLiteral, parserPeekToken, hopen, hparen, reduceCtorEq, if_false, if_true,
      next_eq hopen]
  · rw [← hparen']
    exact expect_of_next hclose _ _

def Parses (msg : Option Text) (e : Expr) : Prop :=
  ∀ t k, Lexes t e.tokens k → nextType k ∈ [.rparen, .rbracket, .comma, .eof] →
    Reads parseExpression msg t e.toAst k

def addChildren (pParent : CypherAst) (asts : List CypherAst) : CypherAst :=
  { pParent with apChildren := pParent.apChildren ++ asts }

theorem addChildren_cons (pParent pChild : CypherAst) (asts : List CypherAst) :
    addChildren (pParent.addChild pChild) asts = addChildren pParent (pChild :: asts) := by
  simp only [addChildren, CypherAst.addChild, List.append_assoc, List.singleton_append]

theorem reads_elements {es : List Expr} (hne : es ≠ []) (hes : ∀ e ∈ es, Parses msg e)
    (error : String) (pParent : CypherAst) (ht : Lexes t (separatedTokens es) k)
    (hk : nextType k ∈ [.rparen, .rbracket]) :
    Reads (fun n => parseElements n error pParent) msg t (addChildren pParent (toAsts es)) k := by
  induction es generalizing t pParent with
  | nil => exact absurd rfl hne
  | cons e es ih =>
    have he := hes e List.mem_cons_self
    cases es with
    | nil =>
      have hread := he t k ht (by revert hk; cases nextType k <;> decide)
      have hcomma : nextType k ≠ .comma := by
        intro h
        rw [h] at hk
        revert hk
        decide
      exact .of_step (fun _ => rfl)
        (hread.andThen (parserSetError error) _ (.of_eq fun _ => if_neg hcomma))
    | cons e' es =>
      rw [separatedTokens] at ht
      · obtain ⟨k₁, ht, hrest⟩ := ht.of_append
        obtain ⟨k₂, hcomma, hrest⟩ := hrest.of_cons
        have hread := he t k₁ ht (by rw [nextType_eq hcomma]; decide)
        have ih := ih (by simp) (fun e he => hes e (List.mem_cons_of_mem _ he))
          (pParent.addChild e.toAst) hrest
        rw [addChildren_cons] at ih
        refine .of_step (fun _ => rfl) (hread.andThen (parserSetError error) _ (.congr ?_ ih))
        intro n
        refine (if_pos (nextType_eq hcomma)).trans ?_
        rw [next_eq hcomma]
      · simp

theorem lexes_brackets {opening closing : CypherToken} {tokens : List CypherToken}
    (ht : Lexes t (opening :: tokens ++ [closing]) k) :
    ∃ k₁ k₂, cypherLexerNextToken t = (opening, k₁) ∧ Lexes k₁ tokens k₂ ∧
      cypherLexerNextToken k₂ = (closing, k) := by
  obtain ⟨k₁, hopen, hrest⟩ := Lexes.of_cons ht
  obtain ⟨k₂, htokens, hrest⟩ := hrest.of_append
  obtain ⟨k₃, hclose, hnil⟩ := hrest.of_cons
  obtain rfl := hnil.of_nil
  exact ⟨k₁, k₂, hopen, htokens, hclose⟩

theorem reads_between {es : List Expr} (hes : ∀ e ∈ es, Parses msg e)
    (closing : CypherToken) (hclosing : closing.type ∈ [.rparen, .rbracket])
    (hheads : ∀ e ∈ es, ∀ t k, Lexes t e.tokens k → nextType t ≠ closing.type)
    (error error' : String) (pParent : CypherAst) (ht : Lexes t (separatedTokens es) k)
    (hclose : cypherLexerNextToken k = (closing, k')) :
    Reads (fun n s => if s.parserPeekToken.type = closing.type then found pParent s.next
      else (parseElements n error pParent s).andThen id fun pParent s =>
        expect closing.type (parserSetError error') s fun _ s => found pParent s)
      msg t (addChildren pParent (toAsts es)) k' := by
  cases es with
  | nil =>
    obtain rfl := ht.of_nil
    refine .of_eq fun n => (if_pos (nextType_eq hclose)).trans ?_
    rw [next_eq hclose, toAsts, addChildren, List.append_nil]
    cases pParent
    rfl
  | cons e es =>
    have hne : nextType t ≠ closing.type := by
      cases es with
      | nil => exact hheads e List.mem_cons_self t k ht
      | cons e' es =>
        rw [separatedTokens] at ht
        · obtain ⟨k₁, ht, -⟩ := ht.of_append
          exact hheads e List.mem_cons_self t k₁ ht
        · simp
    have hread := reads_elements (List.cons_ne_nil e es) hes error pParent ht
      ((nextType_eq hclose).symm ▸ hclosing)
    exact .congr (fun n => if_neg hne) (hread.andThen id (fun _ pParent s =>
      expect closing.type (parserSetError error') s fun _ s => found pParent s)
      (.of_eq fun _ => expect_of_next hclose _ _))

theorem reads_list {es : List Expr} (hes : ∀ e ∈ es, Parses msg e)
    (hheads : ∀ e ∈ es, ∀ t k, Lexes t e.tokens k → nextType t ≠ .rbracket)
    (ht : Lexes t (Expr.list es).tokens k) : Reads parseLiteral msg t (Expr.list es).toAst k := by
  rw [Expr.tokens] at ht
  obtain ⟨k₁, k₂, hopen, htokens, hclose⟩ := lexes_brackets ht
  have hlist : ∀ n, parseLiteral (n + 1) ⟨t, msg⟩ = parseListLiteral n ⟨t, msg⟩ := by
    intro n
    simp only [parseLiteral, parserPeekToken, hopen, if_true]
  have hbetween := reads_between hes ⟨.rbracket, [']']⟩ (by decide) hheads
    "Expected expression in list" "Expected closing bracket" (.create .array []) htokens hclose
  refine .of_step hlist (.of_step (fun n => ?_) hbetween)
  rw [parseListLiteral]
  exact expect_of_next hopen _ _

theorem reads_call {name : Name} {args : List Expr} (hargs : ∀ e ∈ args, Parses msg e)
    (hheads : ∀ e ∈ args, ∀ t k, Lexes t e.tokens k → nextType t ≠ .rparen)
    (ht : Lexes t (Expr.call name args).tokens k)
    (hrest : Reads (fun n => parsePropertyExpression n (Expr.call name args).toAst) msg k a k') :
    Reads parsePrimaryExpression msg t a k' := by
  rw [Expr.tokens, List.cons_append] at ht
  obtain ⟨k₀, hname, ht⟩ := ht.of_cons
  obtain ⟨k₁, k₂, hopen, htokens, hclose⟩ := lexes_brackets ht
  have hbetween := reads_between hargs ⟨.rparen, [')']⟩ (by decide) hheads
    "Expected expression in function call" "Expected closing parenthesis"
    (.create .functionCall [.createIdentifier name.text]) htokens hclose
  have hcall : Reads (fun n => parseFunctionCall n (.createIdentifier name.text)) msg k₀
      (Expr.call name args).toAst k := by
    refine .of_step (fun n => ?_) hbetween
    change parseFunctionCall (n + 1) _ _ = _
    rw [parseFunctionCall]
    exact expect_of_next hopen _ _
  exact reads_primary_call (reads_identifier hname rfl) rfl (nextType_eq hopen) hcall hrest

end Levels

section Heads

def opensOperand (type : CypherTokenType) : Bool :=
  type ∈ [.identifier, .integer, .float, .string, .boolean, .null, .lbracket, .lparen]

theorem opensOperand_inParens {level : Nat} {tokens : List CypherToken}
    (h : ∃ token rest, tokens = token :: rest ∧
      (opensOperand token.type = true ∨ token.type = .not ∧ level ≤ 2)) (wanted : Nat)
    (hwanted : 3 ≤ wanted) : ∃ token rest, inParens (level < wanted) tokens = token :: rest ∧
      opensOperand token.type = true := by
  obtain ⟨token, rest, rfl, hopens⟩ := h
  by_cases hlevel : level < wanted
  · exact ⟨_, _, if_pos (decide_eq_true hlevel), rfl⟩
  · refine ⟨token, rest, if_neg (by simpa using hlevel), hopens.resolve_right fun h => ?_⟩
    exact hlevel (Nat.lt_of_le_of_lt h.2 hwanted)

theorem Expr.head : ∀ e : Expr, ∃ token rest, e.tokens = token :: rest ∧
    (opensOperand token.type = true ∨ token.type = .not ∧ e.level ≤ 2)
  | .identifier name => ⟨_, _, rfl, .inl rfl⟩
  | .literal lit => by
    refine ⟨_, _, rfl, .inl ?_⟩
    cases lit <;> rfl
  | .list es => ⟨_, _, rfl, .inl rfl⟩
  | .call name args => ⟨_, _, rfl, .inl rfl⟩
  | .property e name => by
    obtain ⟨token, rest, htokens, hopens⟩ := opensOperand_inParens e.head 4 (by decide)
    exact ⟨token, _, by rw [Expr.tokens, htokens, List.cons_append], .inl hopens⟩
  | .comparison op l r => by
    obtain ⟨token, rest, htokens, hopens⟩ := opensOperand_inParens l.head 3 (by decide)
    exact ⟨token, _, by rw [Expr.tokens, htokens, List.cons_append], .inl hopens⟩
  | .not e => ⟨_, _, by rw [Expr.tokens], .inr ⟨rfl, Nat.le_refl 2⟩⟩
  | .and l r => by
    obtain ⟨token, rest, htokens, hopens⟩ := l.head
    refine ⟨token, _, by rw [Expr.tokens, htokens, List.cons_append], ?_⟩
    exact hopens.imp_right fun h => ⟨h.1, Nat.le_succ 1⟩

theorem nextType_tokensAt {e : Expr} {wanted : Nat} (hwanted : 3 ≤ wanted)
    (ht : Lexes t (e.tokensAt wanted) k) : opensOperand (nextType t) = true := by
  obtain ⟨token, rest, htokens, hopens⟩ := opensOperand_inParens e.head wanted hwanted
  rw [Expr.tokensAt, htokens] at ht
  obtain ⟨k₁, hnext, -⟩ := ht.of_cons
  rwa [nextType_eq hnext]

theorem nextType_tokens {e : Expr} (ht : Lexes t e.tokens k) :
    opensOperand (nextType t) = true ∨ nextType t = .not := by
  obtain ⟨token, rest, htokens, hopens⟩ := e.head
  rw [htokens] at ht
  obtain ⟨k₁, hnext, -⟩ := ht.of_cons
  rw [nextType_eq hnext]
  exact hopens.imp_right And.left

end Heads

section Precedence

def tightness : CypherTokenType → Nat
  | .or => 1
  | .and => 2
  | .eq | .ne | .lt | .le | .gt | .ge | .startsWith | .endsWith | .contains | .in => 3
  | .plus | .minus | .mult | .div | .mod => 4
  | .dot | .lparen => 5
  | _ => 0

theorem tightness_additive {type : CypherTokenType} (h : tightness type < 4) :
    isMultiplicative type = false ∧ isAdditive type = false ∧ type ≠ .dot ∧ type ≠ .lparen := by
  cases type <;> first | exact absurd h (by decide) | decide

theorem tightness_comparison {type : CypherTokenType} (h : tightness type < 3) :
    isComparison type = false := by
  cases type <;> first | exact absurd h (by decide) | decide

theorem tightness_ends {type : CypherTokenType}
    (h : type ∈ [.rparen, .rbracket, .comma, .eof]) : tightness type = 0 := by
  cases type <;> first | rfl | exact absurd h (by decide)

def ReadsPrimary (msg : Option Text) (e : Expr) : Prop :=
  ∀ t k a k', Lexes t (e.tokensAt 4) k → nextType k ≠ .lparen →
    Reads (fun n => parsePropertyExpression n e.toAst) msg k a k' →
    Reads parsePrimaryExpression msg t a k'

def ReadsOperand (msg : Option Text) (e : Expr) : Prop :=
  ∀ t k, Lexes t (e.tokensAt 4) k → tightness (nextType k) < 4 →
    Reads parseAdditiveExpression msg t e.toAst k

def ReadsComparison (msg : Option Text) (e : Expr) : Prop :=
  ∀ t k a k', Lexes t (e.tokensAt 3) k → tightness (nextType k) < 4 →
    Reads (fun n => parseComparisonRest n e.toAst) msg k a k' →
    Reads parseComparisonExpression msg t a k'

def ReadsNot (msg : Option Text) (e : Expr) : Prop :=
  ∀ t k, Lexes t (e.tokensAt 2) k → tightness (nextType k) < 3 →
    Reads parseNotExpression msg t e.toAst k

def ReadsAnd (msg : Option Text) (e : Expr) : Prop :=
  ∀ t k a k', Lexes t e.tokens k → tightness (nextType k) < 3 →
    Reads (fun n => parseAndRest n e.toAst) msg k a k' → Reads parseAndExpression msg t a k'

structure ReadsEverywhere (msg : Option Text) (e : Expr) : Prop where
  primary : ReadsPrimary msg e
  comparison : ReadsComparison msg e
  not : ReadsNot msg e
  and : ReadsAnd msg e

theorem Expr.tokensAt_of_le {e : Expr} {wanted : Nat} (h : wanted ≤ e.level) :
    e.tokensAt wanted = e.tokens := by
  rw [tokensAt, inParens, if_neg (by simpa using h)]

theorem Expr.tokensAt_of_lt {e : Expr} {wanted : Nat} (h : e.level < wanted) :
    e.tokensAt wanted = ⟨.lparen, ['(']⟩ :: e.tokens ++ [⟨.rparen, [')']⟩] := by
  rw [tokensAt, inParens, if_pos (by simpa using h)]

theorem Expr.tokensAt_succ {e : Expr} {wanted : Nat} (h : e.level ≠ wanted) :
    e.tokensAt wanted = e.tokensAt (wanted + 1) := by
  rcases Nat.lt_or_gt_of_ne h with hlt | hgt
  · rw [tokensAt_of_lt hlt, tokensAt_of_lt (Nat.lt_succ_of_lt hlt)]
  · rw [tokensAt_of_le hgt.le, tokensAt_of_le hgt]

theorem Expr.one_le_level (e : Expr) : 1 ≤ e.level := by
  cases e <;> simp [level]

variable {e : Expr}

theorem ReadsPrimary.operand (h : ReadsPrimary msg e) : ReadsOperand msg e := by
  intro t k ht hk
  obtain ⟨hmult, hadd, hdot, hparen⟩ := tightness_additive hk
  have hopens := nextType_tokensAt (by decide) ht
  have hstart : isAdditive (nextType t) = false := by
    revert hopens
    cases nextType t <;> decide
  exact reads_additive hstart (h t k _ k ht hparen (reads_property_done hdot)) hmult hadd

theorem ReadsOperand.comparison (h : ReadsOperand msg e) (hlevel : e.level ≠ 3) :
    ReadsComparison msg e := by
  intro t k a k' ht hk hrest
  rw [Expr.tokensAt_succ hlevel] at ht
  exact reads_comparison (h t k ht hk) hrest

theorem ReadsComparison.not (h : ReadsComparison msg e) (hlevel : e.level ≠ 2) :
    ReadsNot msg e := by
  intro t k ht hk
  rw [Expr.tokensAt_succ hlevel] at ht
  have hopens := nextType_tokensAt (by decide) ht
  have hstart : nextType t ≠ .not := by
    intro hnot
    rw [hnot] at hopens
    cases hopens
  exact reads_not_done hstart (h t k _ k ht (Nat.lt_succ_of_lt hk)
    (reads_comparison_done (tightness_comparison hk)))

theorem ReadsNot.and (h : ReadsNot msg e) (hlevel : e.level ≠ 1) : ReadsAnd msg e := by
  intro t k a k' ht hk hrest
  have htwo : 2 ≤ e.level := Nat.lt_of_le_of_ne e.one_le_level (Ne.symm hlevel)
  rw [← Expr.tokensAt_of_le htwo] at ht
  exact reads_and (h t k ht hk) hrest

theorem ReadsAnd.reads (h : ReadsAnd msg e) (ht : Lexes t e.tokens k)
    (hzero : tightness (nextType k) = 0) : Reads parseExpression msg t e.toAst k := by
  have hand : nextType k ≠ .and := fun heq => by rw [heq] at hzero; cases hzero
  have hor : nextType k ≠ .or := fun heq => by rw [heq] at hzero; cases hzero
  exact reads_or (h t k _ k ht (by rw [hzero]; decide) (reads_and_done hand)) hor

theorem ReadsAnd.parses (h : ReadsAnd msg e) : Parses msg e :=
  fun _ _ ht hk => h.reads ht (tightness_ends hk)

theorem Parses.primary (h : Parses msg e) (hlevel : e.level < 4) : ReadsPrimary msg e := by
  intro t k a k' ht hk hrest
  rw [Expr.tokensAt_of_lt hlevel] at ht
  obtain ⟨k₁, k₂, hopen, htokens, hclose⟩ := lexes_brackets ht
  have hread := h k₁ k₂ htokens (by rw [nextType_eq hclose]; decide)
  exact reads_primary (reads_parens hopen rfl hread hclose rfl) (.inr hk) hrest

end Precedence

section Everywhere

variable {e : Expr}

theorem ReadsEverywhere.parses (h : ReadsEverywhere msg e) : Parses msg e := h.and.parses

theorem everywhere_of_primary (hlevel : e.level = 4) (h : ReadsPrimary msg e) :
    ReadsEverywhere msg e := by
  have hcomparison := h.operand.comparison (by rw [hlevel]; decide)
  have hnot := hcomparison.not (by rw [hlevel]; decide)
  exact ⟨h, hcomparison, hnot, hnot.and (by rw [hlevel]; decide)⟩

theorem everywhere_identifier (name : Name) : ReadsEverywhere msg (.identifier name) := by
  refine everywhere_of_primary rfl fun t k a k' ht hk hrest => ?_
  obtain ⟨k₁, hnext, hnil⟩ := Lexes.of_cons ht
  obtain rfl := hnil.of_nil
  exact reads_primary (reads_identifier hnext rfl) (.inr hk) hrest

theorem everywhere_literal (lit : BasicLiteral) : ReadsEverywhere msg (.literal lit) := by
  refine everywhere_of_primary rfl fun t k a k' ht hk hrest => ?_
  obtain ⟨k₁, hnext, hnil⟩ := Lexes.of_cons ht
  obtain rfl := hnil.of_nil
  exact reads_primary (reads_basicLiteral hnext (by cases lit <;> rfl)) (.inr hk) hrest

theorem nextType_ne_of_closing {es : List Expr} {closing : CypherTokenType}
    (hclosing : closing ∈ [.rparen, .rbracket]) :
    ∀ e ∈ es, ∀ t k, Lexes t e.tokens k → nextType t ≠ closing := by
  intro e _ t k ht heq
  have hopens := nextType_tokens ht
  rw [heq] at hopens
  revert hopens hclosing
  cases closing <;> decide

theorem everywhere_list {es : List Expr} (hes : ∀ e ∈ es, ReadsEverywhere msg e) :
    ReadsEverywhere msg (.list es) := by
  refine everywhere_of_primary rfl fun t k a k' ht hk hrest => ?_
  exact reads_primary (reads_list (fun e he => (hes e he).parses)
    (nextType_ne_of_closing (by decide)) ht) (.inr hk) hrest

theorem everywhere_call (name : Name) {args : List Expr}
    (hargs : ∀ e ∈ args, ReadsEverywhere msg e) : ReadsEverywhere msg (.call name args) := by
  refine everywhere_of_primary rfl fun t k a k' ht hk hrest => ?_
  exact reads_call (fun e he => (hargs e he).parses) (nextType_ne_of_closing (by decide)) ht hrest

theorem everywhere_property (name : Name) (h : ReadsEverywhere msg e) :
    ReadsEverywhere msg (.property e name) := by
  refine everywhere_of_primary rfl fun t k a k' ht hk hrest => ?_
  rw [Expr.tokensAt_of_le (by simp [Expr.level]), Expr.tokens] at ht
  obtain ⟨k₁, hoperand, hproperty⟩ := ht.of_append
  obtain ⟨k₂, hdot, hrest'⟩ := hproperty.of_cons
  obtain ⟨k₃, hname, hnil⟩ := hrest'.of_cons
  obtain rfl := hnil.of_nil
  exact h.primary t k₁ a k' hoperand (by rw [nextType_eq hdot]; decide)
    (reads_property_step hdot hname rfl hrest)

theorem everywhere_comparison (op : ComparisonOp) {l r : Expr} (hl : ReadsEverywhere msg l)
    (hr : ReadsEverywhere msg r) : ReadsEverywhere msg (.comparison op l r) := by
  have hcomparison : ReadsComparison msg (.comparison op l r) := by
    intro t k a k' ht hk hrest
    rw [Expr.tokensAt_of_le (by simp [Expr.level]), Expr.tokens] at ht
    obtain ⟨k₁, ht, hright⟩ := ht.of_append
    obtain ⟨k₂, hop, hright⟩ := hright.of_cons
    refine hl.comparison t k₁ a k' ht (by rw [nextType_eq hop]; cases op <;> decide) ?_
    exact reads_comparison_step hop (by cases op <;> rfl) (hr.primary.operand k₂ k hright hk) hrest
  have hnot := hcomparison.not (by simp [Expr.level])
  have hand := hnot.and (by simp [Expr.level])
  exact ⟨hand.parses.primary (by simp [Expr.level]), hcomparison, hnot, hand⟩

theorem everywhere_not (h : ReadsEverywhere msg e) : ReadsEverywhere msg (.not e) := by
  have hnot : ReadsNot msg (.not e) := by
    intro t k ht hk
    rw [Expr.tokensAt_of_le (by simp [Expr.level]), Expr.tokens] at ht
    obtain ⟨k₁, hnext, ht⟩ := ht.of_cons
    exact reads_not_step hnext rfl (h.not k₁ k ht hk)
  have hand := hnot.and (by simp [Expr.level])
  have hprimary := hand.parses.primary (by simp [Expr.level])
  exact ⟨hprimary, hprimary.operand.comparison (by simp [Expr.level]), hnot, hand⟩

theorem everywhere_and {l r : Expr} (hl : ReadsEverywhere msg l) (hr : ReadsEverywhere msg r) :
    ReadsEverywhere msg (.and l r) := by
  have hand : ReadsAnd msg (.and l r) := by
    intro t k a k' ht hk hrest
    rw [Expr.tokens] at ht
    obtain ⟨k₁, ht, hright⟩ := ht.of_append
    obtain ⟨k₂, hnext, hright⟩ := hright.of_cons
    refine hl.and t k₁ a k' ht (by rw [nextType_eq hnext]; decide) ?_
    exact reads_and_step hnext rfl (hr.not k₂ k hright hk) hrest
  have hprimary := hand.parses.primary (by simp [Expr.level])
  have hcomparison := hprimary.operand.comparison (by simp [Expr.level])
  exact ⟨hprimary, hcomparison, hcomparison.not (by simp [Expr.level]), hand⟩

mutual

theorem Expr.readsEverywhere (msg : Option Text) : ∀ e : Expr, ReadsEverywhere msg e
  | .identifier name => everywhere_identifier name
  | .literal lit => everywhere_literal lit
  | .list es => everywhere_list (readsEverywhere_all msg es)
  | .call name args => everywhere_call name (readsEverywhere_all msg args)
  | .property e name => everywhere_property name (e.readsEverywhere msg)
  | .comparison op l r =>
    everywhere_comparison op (l.readsEverywhere msg) (r.readsEverywhere msg)
  | .not e => everywhere_not (e.readsEverywhere msg)
  | .and l r => everywhere_and (l.readsEverywhere msg) (r.readsEverywhere msg)

theorem readsEverywhere_all (msg : Option Text) : ∀ es : List Expr, ∀ e ∈ es, ReadsEverywhere msg e
  | [] => fun _ he => absurd he List.not_mem_nil
  | e :: es => List.forall_mem_cons.mpr ⟨e.readsEverywhere msg, readsEverywhere_all msg es⟩

end

end Everywhere

section Print

theorem Name.legible (name : Name) : name.token.Legible := by
  have h := legible_word name.word
  rwa [name.notKeyword] at h

theorem BasicLiteral.legible (lit : BasicLiteral) : lit.token.Legible := by
  cases lit with
  | integer t ne digits => exact legible_integer ne digits
  | float whole frac ne digits => exact legible_float ne digits
  | string t plain => exact legible_string plain
  | boolean t word keyword =>
    have h := legible_word word
    rwa [keyword] at h
  | null t word keyword =>
    have h := legible_word word
    rwa [keyword] at h

theorem legible_keyword {token : CypherToken} (hword : isWord token.text = true)
    (hkeyword : cypherGetKeywordToken token.text = token.type) : token.Legible := by
  have h := legible_word hword
  rwa [hkeyword] at h

theorem ComparisonOp.legible (op : ComparisonOp) : op.token.Legible := by
  cases op with
  | contains => exact legible_keyword (by decide) (by decide)
  | «in» => exact legible_keyword (by decide) (by decide)
  | eq => exact legible_operator (by decide)
  | ne => exact legible_operator (by decide)
  | lt => exact legible_operator (by decide)
  | le => exact legible_operator (by decide)
  | gt => exact legible_operator (by decide)
  | ge => exact legible_operator (by decide)

theorem legible_inParens {parens : Bool} {tokens : List CypherToken}
    (h : ∀ token ∈ tokens, token.Legible) : ∀ token ∈ inParens parens tokens, token.Legible := by
  cases parens with
  | false => exact h
  | true =>
    exact List.forall_mem_append.mpr
      ⟨List.forall_mem_cons.mpr ⟨legible_operator (by decide), h⟩,
        List.forall_mem_singleton.mpr (legible_operator (by decide))⟩

mutual

theorem Expr.legible : ∀ e : Expr, ∀ token ∈ e.tokens, token.Legible
  | .identifier name => List.forall_mem_singleton.mpr name.legible
  | .literal lit => List.forall_mem_singleton.mpr lit.legible
  | .list es =>
    List.forall_mem_append.mpr
      ⟨List.forall_mem_cons.mpr ⟨legible_operator (by decide), legible_all es⟩,
        List.forall_mem_singleton.mpr (legible_operator (by decide))⟩
  | .call name args =>
    List.forall_mem_append.mpr
      ⟨List.forall_mem_cons.mpr ⟨name.legible,
        List.forall_mem_cons.mpr ⟨legible_operator (by decide), legible_all args⟩⟩,
        List.forall_mem_singleton.mpr (legible_operator (by decide))⟩
  | .property e name =>
    List.forall_mem_append.mpr ⟨legible_inParens e.legible,
      List.forall_mem_cons.mpr ⟨legible_operator (by decide),
        List.forall_mem_singleton.mpr name.legible⟩⟩
  | .comparison op l r =>
    List.forall_mem_append.mpr ⟨legible_inParens l.legible,
      List.forall_mem_cons.mpr ⟨op.legible, legible_inParens r.legible⟩⟩
  | .not e =>
    List.forall_mem_cons.mpr ⟨legible_keyword (by decide) (by decide), legible_inParens e.legible⟩
  | .and l r =>
    List.forall_mem_append.mpr ⟨l.legible,
      List.forall_mem_cons.mpr ⟨legible_keyword (by decide) (by decide),
        legible_inParens r.legible⟩⟩

theorem legible_all : ∀ es : List Expr, ∀ token ∈ separatedTokens es, token.Legible
  | [] => fun _ h => absurd h List.not_mem_nil
  | [e] => e.legible
  | e :: e' :: es =>
    List.forall_mem_append.mpr ⟨e.legible,
      List.forall_mem_cons.mpr ⟨legible_operator (by decide), legible_all (e' :: es)⟩⟩

end

/-- With enough fuel the parser reads the whole of a printed expression as its tree. -/
theorem parseExpression_print (e : Expr) :
    ∃ n, ∀ m, n ≤ m → parseExpression m ⟨e.print, none⟩ = found e.toAst ⟨[], none⟩ := by
  have hlexes : Lexes (e.print ++ []) e.tokens [] := lexes_spaced e.legible apart_nil
  rw [List.append_nil] at hlexes
  exact (e.readsEverywhere none).parses e.print [] hlexes (by decide)

end Print

end Reading

end SqliteMultimodal.Graph.Cypher
