import SqliteMultimodal.Graph.Cypher.Parser
import SqliteMultimodal.Graph.Cypher.Positions

namespace SqliteMultimodal.Graph.Cypher

open ParserState

section Calls

/-- A run that is not out of fuel, and leaves no more of the input than so many characters. -/
structure EndsWithin {α : Type} (m : Nat) (x : Except Stop (α × ParserState)) : Prop where
  fuel : x ≠ .error .fuel
  rest : ∀ a s, x = .ok (a, s) → s.rest.length ≤ m

variable {α β : Type} {m : Nat} {x : Parsed α} {s : ParserState} {a : α}
  {onNull : ParserState → ParserState}

theorem EndsWithin.mono {m' : Nat} {x : Except Stop (α × ParserState)} (h : EndsWithin m x)
    (hle : m ≤ m') : EndsWithin m' x :=
  ⟨h.fuel, fun a s hx => (h.rest a s hx).trans hle⟩

theorem ends_ok (h : s.rest.length ≤ m) : EndsWithin m (.ok (a, s)) where
  fuel h := by cases h
  rest a s' hx := by
    obtain ⟨-, rfl⟩ := Prod.mk.inj (Except.ok.inj hx)
    exact h

theorem EndsWithin.error {x : Except Stop (α × ParserState)} {e : Stop} (hx : EndsWithin m x)
    (he : x = .error e) (m' : Nat) : EndsWithin m' (.error e : Except Stop (β × ParserState)) where
  fuel h := hx.fuel (he.trans (by cases h; rfl))
  rest _ _ h := by cases h

theorem ends_found (h : s.rest.length ≤ m) : EndsWithin m (found a s) := ends_ok h

theorem ends_null (h : s.rest.length ≤ m) : EndsWithin m (null s : Parsed α) := ends_ok h

def KeepsRest (onNull : ParserState → ParserState) : Prop := ∀ s, (onNull s).rest = s.rest

theorem keepsRest_id : KeepsRest id := fun _ => rfl

theorem keepsRest_setError (msg : String) : KeepsRest (parserSetError msg) := fun _ => rfl

theorem EndsWithin.andThen {f : α → ParserState → Parsed β} (hx : EndsWithin m x)
    (hnull : KeepsRest onNull) (hf : ∀ a s, s.rest.length ≤ m → EndsWithin m (f a s)) :
    EndsWithin m (x.andThen onNull f) := by
  cases x with
  | error e => exact hx.error rfl _
  | ok r =>
    obtain ⟨r, s⟩ := r
    have hle := hx.rest r s rfl
    cases r with
    | none => exact ends_null ((hnull s).symm ▸ hle)
    | some a => exact hf a s hle

theorem EndsWithin.orFreed {f : α → ParserState → Parsed β} (hx : EndsWithin m x)
    (hf : ∀ a s, s.rest.length ≤ m → EndsWithin m (f a s)) : EndsWithin m (x.orFreed f) := by
  cases x with
  | error e => exact hx.error rfl _
  | ok r =>
    obtain ⟨r, s⟩ := r
    cases r with
    | none =>
      constructor
      · intro h
        cases h
      · intro a s h
        cases h
    | some a => exact hf a s (hx.rest _ s rfl)

theorem next_le (s : ParserState) : s.next.rest.length ≤ s.rest.length :=
  (Positions.length_nextToken s.rest).1

theorem next_lt (h : s.parserPeekToken.type ≠ .eof) : s.next.rest.length < s.rest.length :=
  (Positions.length_nextToken s.rest).2 h

theorem ends_expect {type : CypherTokenType} {f : CypherToken → ParserState → Parsed α}
    (htype : type ≠ .eof) (hnull : KeepsRest onNull) (hs : s.rest.length ≤ m)
    (hf : ∀ token s', s'.rest.length < s.rest.length → EndsWithin m (f token s')) :
    EndsWithin m (expect type onNull s f) := by
  rw [expect, parserConsumeToken]
  by_cases h : s.parserPeekToken.type = type
  · rw [if_pos h]
    exact hf _ _ (next_lt (h ▸ htype))
  · rw [if_neg h]
    exact ends_null ((hnull s.next).symm ▸ (next_le s).trans hs)

end Calls

section Expressions

theorem propertyExpression_ends (n : Nat) (p : CypherAst) (s : ParserState)
    (hn : s.rest.length < n) : EndsWithin s.rest.length (parsePropertyExpression n p s) := by
  induction n generalizing p s with
  | zero => exact absurd hn (Nat.not_lt_zero _)
  | succ n ih =>
    rw [parsePropertyExpression]
    split
    next hdot =>
      have hlt := next_lt (s := s) (by rw [hdot]; decide)
      refine ends_expect (by decide) (keepsRest_setError _) hlt.le fun property s' hs' => ?_
      exact (ih _ s' (by omega)).mono (by omega)
    next => exact ends_found (Nat.le_refl _)

/-- Each function needs fuel for its calls that take nothing, and twelve times as much for each
character. -/
structure ExpressionsEnd (n : Nat) : Prop where
  expression : ∀ s, 12 * s.rest.length + 11 ≤ n → EndsWithin s.rest.length (parseExpression n s)
  orExpression : ∀ s, 12 * s.rest.length + 10 ≤ n →
    EndsWithin s.rest.length (parseOrExpression n s)
  orRest : ∀ a s, 12 * s.rest.length + 1 ≤ n → EndsWithin s.rest.length (parseOrRest n a s)
  andExpression : ∀ s, 12 * s.rest.length + 9 ≤ n →
    EndsWithin s.rest.length (parseAndExpression n s)
  andRest : ∀ a s, 12 * s.rest.length + 1 ≤ n → EndsWithin s.rest.length (parseAndRest n a s)
  notExpression : ∀ s, 12 * s.rest.length + 8 ≤ n →
    EndsWithin s.rest.length (parseNotExpression n s)
  comparisonExpression : ∀ s, 12 * s.rest.length + 7 ≤ n →
    EndsWithin s.rest.length (parseComparisonExpression n s)
  comparisonRest : ∀ a s, 12 * s.rest.length + 1 ≤ n →
    EndsWithin s.rest.length (parseComparisonRest n a s)
  additiveExpression : ∀ s, 12 * s.rest.length + 6 ≤ n →
    EndsWithin s.rest.length (parseAdditiveExpression n s)
  additiveRest : ∀ a s, 12 * s.rest.length + 1 ≤ n →
    EndsWithin s.rest.length (parseAdditiveRest n a s)
  multiplicativeExpression : ∀ s, 12 * s.rest.length + 5 ≤ n →
    EndsWithin s.rest.length (parseMultiplicativeExpression n s)
  multiplicativeRest : ∀ a s, 12 * s.rest.length + 1 ≤ n →
    EndsWithin s.rest.length (parseMultiplicativeRest n a s)
  unaryExpression : ∀ s, 12 * s.rest.length + 4 ≤ n →
    EndsWithin s.rest.length (parseUnaryExpression n s)
  primaryExpression : ∀ s, 12 * s.rest.length + 3 ≤ n →
    EndsWithin s.rest.length (parsePrimaryExpression n s)
  literal : ∀ s, 12 * s.rest.length + 2 ≤ n → EndsWithin s.rest.length (parseLiteral n s)
  listLiteral : ∀ s, 12 * s.rest.length + 1 ≤ n → EndsWithin s.rest.length (parseListLiteral n s)
  elements : ∀ msg p s, 12 * s.rest.length + 12 ≤ n →
    EndsWithin s.rest.length (parseElements n msg p s)
  mapLiteral : ∀ s, 12 * s.rest.length + 1 ≤ n → EndsWithin s.rest.length (parseMapLiteral n s)
  mapPairs : ∀ p s, 12 * s.rest.length + 1 ≤ n → EndsWithin s.rest.length (parseMapPairs n p s)
  functionCall : ∀ f s, 12 * s.rest.length + 1 ≤ n →
    EndsWithin s.rest.length (parseFunctionCall n f s)

theorem ends_rest {c : Prop} [Decidable c] {msg : String} {s : ParserState} {a : CypherAst}
    {n : Nat} {operand : ParserState → Parsed CypherAst}
    {continued : CypherAst → ParserState → Parsed CypherAst}
    (htype : c → s.parserPeekToken.type ≠ .eof) (hn : 12 * s.rest.length ≤ n)
    (hoperand : ∀ s', 12 * s'.rest.length + 9 ≤ n → EndsWithin s'.rest.length (operand s'))
    (hcontinued : ∀ b s', 12 * s'.rest.length + 1 ≤ n →
      EndsWithin s'.rest.length (continued b s')) :
    EndsWithin s.rest.length (if c then (operand s.next).andThen (parserSetError msg) continued
      else found a s) := by
  split
  next hc =>
    have hlt := next_lt (htype hc)
    refine ((hoperand s.next (by omega)).andThen (keepsRest_setError msg) fun b s' hs' => ?_).mono
      hlt.le
    exact (hcontinued b s' (by omega)).mono hs'
  next => exact ends_found (Nat.le_refl _)

theorem ends_chain (k : Nat) {s : ParserState} {n : Nat} {operand : Parsed CypherAst}
    {continued : CypherAst → ParserState → Parsed CypherAst} (hk : 1 ≤ k)
    (hn : 12 * s.rest.length + k ≤ n) (hoperand : EndsWithin s.rest.length operand)
    (hcontinued : ∀ b s', 12 * s'.rest.length + 1 ≤ n →
      EndsWithin s'.rest.length (continued b s')) :
    EndsWithin s.rest.length (operand.andThen id continued) :=
  hoperand.andThen keepsRest_id fun b s' hs' => (hcontinued b s' (by omega)).mono hs'

theorem ends_closed {x : Parsed CypherAst} {m : Nat} {type : CypherTokenType} {msg : String}
    (htype : type ≠ .eof) (hx : EndsWithin m x) :
    EndsWithin m (x.andThen id fun p s =>
      expect type (parserSetError msg) s fun _ s => found p s) :=
  hx.andThen keepsRest_id fun p s hs =>
    ends_expect htype (keepsRest_setError msg) hs fun token s' hs' => ends_found (by omega)

theorem ends_prefixed {c : Prop} [Decidable c] {msg : String} {s : ParserState} {n k : Nat}
    {operand : ParserState → Parsed CypherAst} {other : Parsed CypherAst}
    {node : CypherAst → ParserState → CypherAst}
    (htype : c → s.parserPeekToken.type ≠ .eof) (hn : 12 * s.rest.length + k ≤ n + 1)
    (hoperand : ∀ s', 12 * s'.rest.length + k ≤ n → EndsWithin s'.rest.length (operand s'))
    (hother : EndsWithin s.rest.length other) :
    EndsWithin s.rest.length (if c then (operand s.next).andThen (parserSetError msg)
      fun a s => found (node a s) s else other) := by
  split
  next hc =>
    have hlt := next_lt (htype hc)
    exact ((hoperand s.next (by omega)).andThen (keepsRest_setError msg)
      fun a s' hs' => ends_found hs').mono hlt.le
  next => exact hother

theorem ne_eof_of_eq {type : CypherTokenType} {s : ParserState} (htype : type ≠ .eof)
    (h : s.parserPeekToken.type = type) : s.parserPeekToken.type ≠ .eof :=
  h ▸ htype

theorem ne_eof_of_operator {isOperator : CypherTokenType → Bool} {s : ParserState}
    (heof : isOperator .eof = false) (h : isOperator s.parserPeekToken.type = true) :
    s.parserPeekToken.type ≠ .eof := by
  intro hs
  rw [hs, heof] at h
  cases h

variable {n : Nat} (h : ExpressionsEnd n)

include h

theorem literal_ends (s : ParserState) (hn : 12 * s.rest.length + 2 ≤ n + 1) :
    EndsWithin s.rest.length (parseLiteral (n + 1) s) := by
  rw [parseLiteral]
  split_ifs with hlist hmap hparen hidentifier hliteral
  · exact h.listLiteral s (by omega)
  · exact h.mapLiteral s (by omega)
  · have hlt := next_lt (s := s) (by rw [hparen]; decide)
    exact (ends_closed (by decide) (h.expression s.next (by omega))).mono hlt.le
  · exact ends_found (next_le s)
  · exact ends_found (next_le s)
  · exact ends_null (Nat.le_refl _)

theorem primaryExpression_ends (s : ParserState) (hn : 12 * s.rest.length + 3 ≤ n + 1) :
    EndsWithin s.rest.length (parsePrimaryExpression (n + 1) s) := by
  rw [parsePrimaryExpression]
  refine (h.literal s (by omega)).andThen keepsRest_id fun p s' hs' => ?_
  split
  next =>
    refine ((h.functionCall p s' (by omega)).orFreed fun q s'' hs'' => ?_).mono hs'
    exact (propertyExpression_ends n q s'' (by omega)).mono hs''
  next => exact (propertyExpression_ends n p s' (by omega)).mono hs'

theorem listLiteral_ends (s : ParserState) (hn : 12 * s.rest.length + 1 ≤ n + 1) :
    EndsWithin s.rest.length (parseListLiteral (n + 1) s) := by
  rw [parseListLiteral]
  refine ends_expect (by decide) keepsRest_id (Nat.le_refl _) fun token s' hs' => ?_
  dsimp only
  split
  next => exact ends_found ((next_le s').trans hs'.le)
  next => exact (ends_closed (by decide) (h.elements _ _ s' (by omega))).mono hs'.le

theorem elements_ends (msg : String) (p : CypherAst) (s : ParserState)
    (hn : 12 * s.rest.length + 12 ≤ n + 1) :
    EndsWithin s.rest.length (parseElements (n + 1) msg p s) := by
  rw [parseElements]
  refine (h.expression s (by omega)).andThen (keepsRest_setError msg) fun q s' hs' => ?_
  split
  next hcomma =>
    have hlt := next_lt (s := s') (by rw [hcomma]; decide)
    exact (h.elements msg _ s'.next (by omega)).mono (by omega)
  next => exact ends_found hs'

theorem mapLiteral_ends (s : ParserState) (hn : 12 * s.rest.length + 1 ≤ n + 1) :
    EndsWithin s.rest.length (parseMapLiteral (n + 1) s) := by
  rw [parseMapLiteral]
  refine ends_expect (by decide) keepsRest_id (Nat.le_refl _) fun token s' hs' => ?_
  dsimp only
  split
  next => exact ends_found ((next_le s').trans hs'.le)
  next => exact (ends_closed (by decide) (h.mapPairs _ s' (by omega))).mono hs'.le

theorem mapPairs_ends (p : CypherAst) (s : ParserState) (hn : 12 * s.rest.length + 1 ≤ n + 1) :
    EndsWithin s.rest.length (parseMapPairs (n + 1) p s) := by
  rw [parseMapPairs]
  dsimp only
  split
  next hname =>
    have hlt := next_lt (s := s) (fun heof => by rw [heof] at hname; cases hname)
    refine ends_expect (by decide) (keepsRest_setError _) hlt.le fun token s' hs' => ?_
    refine ((h.expression s' (by omega)).andThen (keepsRest_setError _) fun q s'' hs'' => ?_).mono
      (by omega)
    split
    next hcomma =>
      have hlt' := next_lt (s := s'') (by rw [hcomma]; decide)
      exact (h.mapPairs _ s''.next (by omega)).mono (by omega)
    next => exact ends_found hs''
  next => exact ends_null (Nat.le_refl _)

theorem functionCall_ends (f : CypherAst) (s : ParserState)
    (hn : 12 * s.rest.length + 1 ≤ n + 1) :
    EndsWithin s.rest.length (parseFunctionCall (n + 1) f s) := by
  rw [parseFunctionCall]
  refine ends_expect (by decide) keepsRest_id (Nat.le_refl _) fun token s' hs' => ?_
  dsimp only
  split
  next => exact ends_found ((next_le s').trans hs'.le)
  next => exact (ends_closed (by decide) (h.elements _ _ s' (by omega))).mono hs'.le

omit h in
theorem expressions_end (n : Nat) : ExpressionsEnd n := by
  induction n with
  | zero => constructor <;> intros <;> omega
  | succ n h =>
    constructor
    case expression => exact fun s hn => h.orExpression s (by omega)
    case orExpression =>
      exact fun s hn => ends_chain 9 (by decide) (by omega) (h.andExpression s (by omega))
        h.orRest
    case orRest =>
      intro a s hn
      rw [parseOrRest]
      exact ends_rest (ne_eof_of_eq (by decide)) (by omega) h.andExpression fun b s' hs' =>
        h.orRest _ s' hs'
    case andExpression =>
      exact fun s hn => ends_chain 8 (by decide) (by omega) (h.notExpression s (by omega))
        h.andRest
    case andRest =>
      intro a s hn
      rw [parseAndRest]
      exact ends_rest (ne_eof_of_eq (by decide)) (by omega)
        (fun s' hs' => h.notExpression s' (by omega)) fun b s' hs' => h.andRest _ s' hs'
    case notExpression =>
      intro s hn
      rw [parseNotExpression]
      exact ends_prefixed (ne_eof_of_eq (by decide)) hn h.notExpression
        (h.comparisonExpression s (by omega))
    case comparisonExpression =>
      exact fun s hn => ends_chain 6 (by decide) (by omega)
        (h.additiveExpression s (by omega)) h.comparisonRest
    case comparisonRest =>
      intro a s hn
      rw [parseComparisonRest]
      exact ends_rest (ne_eof_of_operator rfl) (by omega)
        (fun s' hs' => h.additiveExpression s' (by omega)) fun b s' hs' =>
          h.comparisonRest _ s' hs'
    case additiveExpression =>
      exact fun s hn => ends_chain 5 (by decide) (by omega)
        (h.multiplicativeExpression s (by omega)) h.additiveRest
    case additiveRest =>
      intro a s hn
      rw [parseAdditiveRest]
      exact ends_rest (ne_eof_of_operator rfl) (by omega)
        (fun s' hs' => h.multiplicativeExpression s' (by omega)) fun b s' hs' =>
          h.additiveRest _ s' hs'
    case multiplicativeExpression =>
      exact fun s hn => ends_chain 4 (by decide) (by omega)
        (h.unaryExpression s (by omega)) h.multiplicativeRest
    case multiplicativeRest =>
      intro a s hn
      rw [parseMultiplicativeRest]
      exact ends_rest (ne_eof_of_operator rfl) (by omega)
        (fun s' hs' => h.unaryExpression s' (by omega)) fun b s' hs' =>
          h.multiplicativeRest _ s' hs'
    case unaryExpression =>
      intro s hn
      rw [parseUnaryExpression]
      exact ends_prefixed (ne_eof_of_operator rfl) hn h.unaryExpression
        (h.primaryExpression s (by omega))
    case primaryExpression => exact primaryExpression_ends h
    case literal => exact literal_ends h
    case listLiteral => exact listLiteral_ends h
    case elements => exact elements_ends h
    case mapLiteral => exact mapLiteral_ends h
    case mapPairs => exact mapPairs_ends h
    case functionCall => exact functionCall_ends h

end Expressions

section Clauses

variable {n : Nat}

theorem expression_ends (s : ParserState) (hn : 12 * s.rest.length + 11 ≤ n) :
    EndsWithin s.rest.length (parseExpression n s) := (expressions_end n).expression s hn

theorem propertyPairs_ends (p : CypherAst) (s : ParserState) (hn : 12 * s.rest.length + 1 ≤ n) :
    EndsWithin s.rest.length (parsePropertyPairs n p s) := by
  induction n generalizing p s with
  | zero => exact absurd hn (Nat.not_succ_le_zero _)
  | succ n ih =>
    rw [parsePropertyPairs]
    refine ends_expect (by decide) (keepsRest_setError _) (Nat.le_refl _) fun key s₁ hs₁ => ?_
    refine ends_expect (by decide) (keepsRest_setError _) hs₁.le fun colon s₂ hs₂ => ?_
    refine ((expression_ends s₂ (by omega)).andThen (keepsRest_setError _)
      fun value s₃ hs₃ => ?_).mono (by omega)
    split
    next hcomma =>
      have hlt := next_lt (ne_eof_of_eq (by decide) hcomma)
      exact (ih _ s₃.next (by omega)).mono (by omega)
    next => exact ends_found hs₃

theorem propertyMap_ends (s : ParserState) (hn : 12 * s.rest.length + 1 ≤ n) :
    EndsWithin s.rest.length (parsePropertyMap n s) := by
  rw [parsePropertyMap]
  refine ends_expect (by decide) keepsRest_id (Nat.le_refl _) fun brace s' hs' => ?_
  dsimp only
  split
  next => exact ends_found ((next_le s').trans hs'.le)
  next => exact (ends_closed (by decide) (propertyPairs_ends _ s' (by omega))).mono hs'.le

theorem length_variable_le (p : CypherAst) (s : ParserState) :
    (parseVariable p s).2.rest.length ≤ s.rest.length := by
  rw [parseVariable]
  split
  next => exact next_le s
  next => exact Nat.le_refl _

theorem nodeLabels_end (s : ParserState) : EndsWithin s.rest.length (parseNodeLabels s) := by
  rw [parseNodeLabels]
  split
  next => exact ends_expect (by decide) (keepsRest_setError _) (next_le s) fun label s' hs' =>
      ends_found (hs'.le.trans (next_le s))
  next => exact ends_null (Nat.le_refl _)

theorem nodeProperties_end (p : CypherAst) (s : ParserState) (hn : 12 * s.rest.length + 1 ≤ n) :
    EndsWithin s.rest.length (parseNodeProperties n p s) := by
  have hmap := propertyMap_ends s hn
  rw [parseNodeProperties]
  split
  next =>
    split
    next e he => exact hmap.error he _
    next properties s' hs' => exact ends_ok (hmap.rest _ s' hs')
    next s' hs' => exact ends_ok (hmap.rest _ s' hs')
  next => exact ends_ok (Nat.le_refl _)

theorem nodePattern_ends (s : ParserState) (hn : 12 * s.rest.length + 1 ≤ n) :
    EndsWithin s.rest.length (parseNodePattern n s) := by
  rw [parseNodePattern]
  refine ends_expect (by decide) (keepsRest_setError _) (Nat.le_refl _) fun paren s₁ hs₁ => ?_
  have hvariable := length_variable_le (.create .nodePattern []) s₁
  generalize parseVariable (.create .nodePattern []) s₁ = named at hvariable
  obtain ⟨pNodePattern, s₂⟩ := named
  have hlabels := nodeLabels_end s₂
  dsimp only at hvariable ⊢
  split
  next e he => exact hlabels.error he _
  next pLabels s₃ hs₃ =>
    have hle := hlabels.rest _ s₃ hs₃
    split
    next => exact ends_null (by omega)
    next =>
      have hproperties := nodeProperties_end (n := n)
        (pLabels.elim pNodePattern pNodePattern.addChild) s₃ (by omega)
      split
      next e he => exact hproperties.error he _
      next p s₄ hs₄ =>
        have hle' := hproperties.rest _ s₄ hs₄
        exact ends_expect (by decide) (keepsRest_setError _) (by omega) fun close s₅ hs₅ =>
          ends_found (by omega)

theorem relType_ends (p : CypherAst) (s : ParserState) :
    EndsWithin s.rest.length (parseRelType p s) := by
  rw [parseRelType]
  split
  next => exact ends_expect (by decide) (keepsRest_setError _) (next_le s) fun type s' hs' =>
      ends_found (hs'.le.trans (next_le s))
  next => exact ends_found (Nat.le_refl _)

theorem relProperties_end (p : CypherAst) (s : ParserState) (hn : 12 * s.rest.length + 1 ≤ n) :
    EndsWithin s.rest.length (parseRelProperties n p s) := by
  have hmap := propertyMap_ends s hn
  rw [parseRelProperties]
  split
  next =>
    split
    next e he => exact hmap.error he _
    next properties s' hs' => exact ends_found (hmap.rest _ s' hs')
    next s' hs' =>
      split
      next => exact ends_null (hmap.rest _ s' hs')
      next => exact ends_found (hmap.rest _ s' hs')
  next => exact ends_found (Nat.le_refl _)

theorem length_direction_le (left : Bool) (s : ParserState) :
    (parseDirection left s).2.rest.length ≤ s.rest.length := by
  rw [parseDirection]
  split_ifs
  · exact next_le s
  · exact next_le s
  · exact Nat.le_refl _
  · exact next_le s

theorem relPattern_ends (left : Bool) (s : ParserState) (hn : 12 * s.rest.length + 1 ≤ n) :
    EndsWithin s.rest.length (parseRelPattern n left s) := by
  rw [parseRelPattern]
  refine ends_expect (by decide) (keepsRest_setError _) (Nat.le_refl _) fun bracket s₁ hs₁ => ?_
  have hvariable := length_variable_le (.create .relPattern []) s₁
  generalize parseVariable (.create .relPattern []) s₁ = named at hvariable
  obtain ⟨pRelPattern, s₂⟩ := named
  dsimp only at hvariable ⊢
  refine ((relType_ends pRelPattern s₂).andThen keepsRest_id fun p₁ s₃ hs₃ => ?_).mono (by omega)
  refine ((relProperties_end p₁ s₃ (by omega)).andThen keepsRest_id fun p₂ s₄ hs₄ => ?_).mono hs₃
  refine ends_expect (by decide) (keepsRest_setError _) hs₄ fun close s₅ hs₅ => ?_
  have hdirection := length_direction_le left s₅
  exact ends_found (by omega)

theorem relationships_end (p : CypherAst) (s : ParserState) (hn : 12 * s.rest.length + 2 ≤ n) :
    EndsWithin s.rest.length (parseRelationships n p s) := by
  induction n generalizing p s with
  | zero => exact absurd hn (Nat.not_succ_le_zero _)
  | succ n ih =>
    rw [parseRelationships]
    split
    next hnext =>
      have hlt : s.next.rest.length < s.rest.length :=
        next_lt fun heof => by
          rw [heof] at hnext
          exact absurd hnext (by decide)
      refine ((relPattern_ends _ s.next (by omega)).andThen keepsRest_id fun rel s₁ hs₁ => ?_).mono
        hlt.le
      refine ((nodePattern_ends s₁ (by omega)).andThen (keepsRest_setError _)
        fun node s₂ hs₂ => ?_).mono hs₁
      exact (ih _ s₂ (by omega)).mono hs₂
    next => exact ends_found (Nat.le_refl _)

theorem pattern_ends (s : ParserState) (hn : 12 * s.rest.length + 2 ≤ n) :
    EndsWithin s.rest.length (parsePattern n s) :=
  (nodePattern_ends s (by omega)).andThen keepsRest_id fun p s' hs' =>
    (relationships_end _ s' (by omega)).mono hs'

theorem patternClause_ends {token : CypherTokenType} (htoken : token ≠ .eof)
    (type : CypherAstNodeType) (msg : String) (s : ParserState)
    (hn : 12 * s.rest.length + 2 ≤ n) :
    EndsWithin s.rest.length (parsePatternClause n token type msg s) := by
  rw [parsePatternClause]
  refine ends_expect htoken (keepsRest_setError _) (Nat.le_refl _) fun _ s' hs' => ?_
  exact ((pattern_ends s' (by omega)).andThen keepsRest_id fun p s'' hs'' =>
    ends_found hs'').mono hs'.le

theorem expressionClause_ends {token : CypherTokenType} (htoken : token ≠ .eof)
    (type : CypherAstNodeType) {onNull : ParserState → ParserState} (hnull : KeepsRest onNull)
    (s : ParserState) (hn : 12 * s.rest.length + 11 ≤ n) :
    EndsWithin s.rest.length (parseExpressionClause n token type onNull s) := by
  rw [parseExpressionClause]
  refine ends_expect htoken hnull (Nat.le_refl _) fun _ s' hs' => ?_
  exact ((expression_ends s' (by omega)).andThen keepsRest_id fun p s'' hs'' =>
    ends_found hs'').mono hs'.le

theorem firstClause_ends (s : ParserState) (hn : 12 * s.rest.length + 11 ≤ n) :
    EndsWithin s.rest.length (parseFirstClause n s) := by
  rw [parseFirstClause]
  split
  next => exact patternClause_ends (by decide) _ _ s (by omega)
  next => exact patternClause_ends (by decide) _ _ s (by omega)
  next => exact patternClause_ends (by decide) _ _ s (by omega)
  next => exact expressionClause_ends (by decide) _ (keepsRest_setError _) s hn
  next => exact expressionClause_ends (by decide) _ (keepsRest_setError _) s hn
  next => exact ends_null (Nat.le_refl _)

theorem optionalWhere_ends (p : CypherAst) (s : ParserState) (hn : 12 * s.rest.length + 11 ≤ n) :
    EndsWithin s.rest.length (parseOptionalWhere n p s) := by
  have hwhere : EndsWithin s.rest.length (parseWhereClause n s) :=
    expressionClause_ends (by decide) _ keepsRest_id s hn
  rw [parseOptionalWhere]
  split
  next =>
    split
    next e he => exact hwhere.error he _
    next clause s' hs' => exact ends_ok (hwhere.rest _ s' hs')
    next s' hs' => exact ends_ok (hwhere.rest _ s' hs')
  next => exact ends_ok (Nat.le_refl _)

theorem projectionList_ends (s : ParserState) (hn : 12 * s.rest.length + 11 ≤ n) :
    EndsWithin s.rest.length (parseProjectionList n s) :=
  ((expression_ends s hn).andThen keepsRest_id fun _ _ hs' => ends_found hs').andThen keepsRest_id
    fun _ _ hs' => ends_found hs'

theorem optionalReturn_ends (p : CypherAst) (s : ParserState)
    (hn : 12 * s.rest.length + 11 ≤ n) :
    EndsWithin s.rest.length (parseOptionalReturn n p s) := by
  rw [parseOptionalReturn]
  split
  next =>
    refine EndsWithin.andThen ?_ keepsRest_id fun clause s' hs' => ends_found hs'
    refine ends_expect (by decide) (keepsRest_setError _) (Nat.le_refl _) fun _ s' hs' => ?_
    exact ((projectionList_ends s' (by omega)).andThen keepsRest_id fun _ s'' hs'' =>
      ends_found hs'').mono hs'.le
  next => exact ends_found (Nat.le_refl _)

theorem drain_ends (s : ParserState) (hn : s.rest.length < n) :
    EndsWithin s.rest.length (drainTokens n s) := by
  induction n generalizing s with
  | zero => exact absurd hn (Nat.not_lt_zero _)
  | succ n ih =>
    rw [drainTokens]
    split
    next => exact ends_ok (next_le s)
    next hgoes =>
      rw [not_or] at hgoes
      have hlt := next_lt hgoes.1
      exact (ih s.next (by omega)).mono hlt.le

theorem singleQuery_ends (s : ParserState) (hn : 12 * s.rest.length + 11 ≤ n) :
    EndsWithin s.rest.length (parseSingleQuery n s) := by
  refine (firstClause_ends s hn).andThen keepsRest_id fun clause s₁ hs₁ => ?_
  have hwhere := optionalWhere_ends (n := n) (.create .singleQuery [clause]) s₁ (by omega)
  split
  next e he => exact hwhere.error he _
  next p s₂ hs₂ =>
    have hle := hwhere.rest _ s₂ hs₂
    refine ((optionalReturn_ends p s₂ (by omega)).andThen keepsRest_id fun q s₃ hs₃ => ?_).mono
      (by omega)
    have hdrain := drain_ends (n := n) s₃ (by omega)
    split
    next e he => exact hdrain.error he _
    next token s₄ hs₄ =>
      have hle' := hdrain.rest _ s₄ hs₄
      split
      next => exact ends_null (show s₄.rest.length ≤ _ by omega)
      next => exact ends_found (by omega)

theorem cypherParse_ends (zQuery : Text) (hn : 12 * zQuery.length + 11 ≤ n) :
    EndsWithin zQuery.length (cypherParse n zQuery) :=
  (singleQuery_ends ⟨zQuery, none⟩ hn).andThen keepsRest_id fun _ _ hs' => ends_found hs'

end Clauses

section Progress

open Positions

/-- Every call of the lexer moves on inside of the input, so that the loop over the tokens and the
parser end. -/
theorem lexer_progresses (zInput : Text) (hnul : Block.nul ∉ zInput) :
    (∀ pLexer, Reachable zInput pLexer → pLexer.iPos ≤ zInput.length ∧
      Progresses zInput pLexer ∧ ∃ r, Positions.drainTokens (zInput.length + 1) pLexer = some r) ∧
    ∀ n, 12 * zInput.length + 11 ≤ n → cypherParse n (visible zInput) ≠ .error .fuel := by
  have hvisible : (visible zInput).length ≤ zInput.length :=
    (length_visible zInput).trans_le (intLength_le zInput)
  refine ⟨fun pLexer hreach => ?_, fun n hn => (cypherParse_ends _ (by omega)).fuel⟩
  obtain ⟨rest, hview⟩ := hreach.view hnul
  have hpos := hview.pos
  have hle := length_visible zInput
  exact ⟨hview.le, hview.progresses hnul, hview.drains hnul (by omega)⟩

set_option maxRecDepth 4000 in
theorem lexer_progresses_open :
    Reachable "MATCH \"a\\".toList (cypherLexerCreate "MATCH \"a\\".toList) ∧
      Progresses "MATCH \"a\\".toList (cypherLexerCreate "MATCH \"a\\".toList) :=
  have h := lexer_progresses "MATCH \"a\\".toList (by decide)
  ⟨.create, (h.1 _ .create).2.1⟩

end Progress

end SqliteMultimodal.Graph.Cypher
