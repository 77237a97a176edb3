import SqliteMultimodal.Graph.Cypher.Grammar

namespace SqliteMultimodal.Graph.Cypher

theorem Lexes.parserPeekToken {s : ParserState} {t : CypherToken} {ts : List CypherToken} {k : Text}
    (h : Lexes s.rest (t :: ts) k) : s.parserPeekToken = t := by
  obtain ⟨k', hnext, -⟩ := h.of_cons
  exact congrArg Prod.fst hnext

theorem Lexes.next (s : ParserState) : Lexes s.rest [s.parserPeekToken] s.next.rest :=
  .cons rfl .nil

namespace Grammar

open ParserState

section Reads

/-- From `s` on, a result comes from tokens that `R` allows, also with the token behind them;
without one there are tokens all the same. -/
structure ReadsTo (R : CypherTokenType → CypherAst → List CypherToken → Prop) (s : ParserState)
    (x : Parsed CypherAst) : Prop where
  found : ∀ a s', x = .ok (some a, s') →
    ∃ ts : List CypherToken, Lexes s.rest ts s'.rest ∧ R s'.parserPeekToken.type a ts
  null : ∀ s', x = .ok (none, s') → ∃ ts : List CypherToken, Lexes s.rest ts s'.rest

abbrev Reads (R : CypherAst → List CypherToken → Prop) : ParserState → Parsed CypherAst → Prop :=
  ReadsTo fun _ => R

variable {R S : CypherTokenType → CypherAst → List CypherToken → Prop} {s : ParserState}
  {x : Parsed CypherAst} {onNull : ParserState → ParserState}

theorem ReadsTo.mono (h : ReadsTo R s x) (hRS : ∀ next a ts, R next a ts → S next a ts) :
    ReadsTo S s x where
  found a s' hx := by
    obtain ⟨ts, hlex, ha⟩ := h.found a s' hx
    exact ⟨ts, hlex, hRS _ a ts ha⟩
  null := h.null

theorem Reads.mono {R S : CypherAst → List CypherToken → Prop} (h : Reads R s x)
    (hRS : ∀ a ts, R a ts → S a ts) : Reads S s x :=
  ReadsTo.mono h fun _ => hRS

theorem peek_eq_firstType {s s' : ParserState} {ts : List CypherToken}
    (h : Lexes s.rest ts s'.rest) : s.parserPeekToken.type = firstType s'.parserPeekToken.type ts := by
  cases ts with
  | nil =>
    unfold ParserState.parserPeekToken
    rw [h.of_nil]
    rfl
  | cons t ts => exact congrArg CypherToken.type h.parserPeekToken

theorem ReadsTo.lexed (h : ReadsTo R s x) :
    ReadsTo (fun next a ts => R next a ts ∧ s.parserPeekToken.type = firstType next ts) s x where
  found a s' hx := by
    obtain ⟨ts, hlex, ha⟩ := h.found a s' hx
    exact ⟨ts, hlex, ha, peek_eq_firstType hlex⟩
  null := h.null

theorem reads_error (e : Stop) : ReadsTo R s (.error e) where
  found _ _ h := by cases h
  null _ h := by cases h

theorem reads_found {a : CypherAst} (h : R s.parserPeekToken.type a []) :
    ReadsTo R s (found a s) where
  found _ _ hx := by
    cases hx
    exact ⟨[], .nil, h⟩
  null _ hx := by cases hx

theorem reads_null {s' : ParserState} (h : s'.rest = s.rest) : ReadsTo R s (null s') where
  found _ _ hx := by cases hx
  null _ hx := by
    cases hx
    rw [h]
    exact ⟨[], .nil⟩

theorem ReadsTo.next (h : ReadsTo (fun next a ts => R next a (s.parserPeekToken :: ts)) s.next x) :
    ReadsTo R s x where
  found a s' hx := by
    obtain ⟨ts, hlex, ha⟩ := h.found a s' hx
    exact ⟨_, (Lexes.next s).append hlex, ha⟩
  null s' hx := by
    obtain ⟨ts, hlex⟩ := h.null s' hx
    exact ⟨_, (Lexes.next s).append hlex⟩

theorem ReadsTo.after {ts : List CypherToken} {s₁ : ParserState} (hlex : Lexes s.rest ts s₁.rest)
    (h : ReadsTo (fun next a us => R next a (ts ++ us)) s₁ x) : ReadsTo R s x where
  found a s' hx := by
    obtain ⟨us, hlex', ha⟩ := h.found a s' hx
    exact ⟨_, hlex.append hlex', ha⟩
  null s' hx := by
    obtain ⟨us, hlex'⟩ := h.null s' hx
    exact ⟨_, hlex.append hlex'⟩

theorem ReadsTo.andThen {f : CypherAst → ParserState → Parsed CypherAst} (hx : ReadsTo R s x)
    (honNull : ∀ s : ParserState, (onNull s).rest = s.rest)
    (hf : ∀ a ts s', R s'.parserPeekToken.type a ts →
      ReadsTo (fun next b us => S next b (ts ++ us)) s' (f a s')) :
    ReadsTo S s (x.andThen onNull f) := by
  match x, hx with
  | .error e, _ => exact reads_error e
  | .ok (none, s₁), hx =>
    obtain ⟨ts, hlex⟩ := hx.null s₁ rfl
    exact .after hlex (reads_null (honNull s₁))
  | .ok (some a, s₁), hx =>
    obtain ⟨ts, hlex, ha⟩ := hx.found a s₁ rfl
    exact .after hlex (hf a ts s₁ ha)

theorem ReadsTo.orFreed {f : CypherAst → ParserState → Parsed CypherAst} (hx : ReadsTo R s x)
    (hf : ∀ a ts s', R s'.parserPeekToken.type a ts →
      ReadsTo (fun next b us => S next b (ts ++ us)) s' (f a s')) :
    ReadsTo S s (x.orFreed f) := by
  match x, hx with
  | .error e, _ => exact reads_error e
  | .ok (none, s₁), _ => exact reads_error .undefined
  | .ok (some a, s₁), hx =>
    obtain ⟨ts, hlex, ha⟩ := hx.found a s₁ rfl
    exact .after hlex (hf a ts s₁ ha)

theorem reads_expect_peek {type : CypherTokenType}
    {f : CypherToken → ParserState → Parsed CypherAst}
    (honNull : ∀ s : ParserState, (onNull s).rest = s.rest)
    (hf : s.parserPeekToken.type = type → ReadsTo
      (fun next a ts => R next a (s.parserPeekToken :: ts)) s.next (f s.parserPeekToken s.next)) :
    ReadsTo R s (expect type onNull s f) := by
  unfold expect parserConsumeToken
  by_cases htype : s.parserPeekToken.type = type
  · rw [if_pos htype]
    exact .next (hf htype)
  · rw [if_neg htype]
    exact .next (reads_null (honNull s.next))

theorem reads_expect {type : CypherTokenType} {f : CypherToken → ParserState → Parsed CypherAst}
    (honNull : ∀ s : ParserState, (onNull s).rest = s.rest)
    (hf : ∀ t s', t.type = type → ReadsTo (fun next a ts => R next a (t :: ts)) s' (f t s')) :
    ReadsTo R s (expect type onNull s f) :=
  reads_expect_peek honNull (hf _ _)

theorem rest_id (s : ParserState) : (id s).rest = s.rest := rfl

theorem rest_setError (msg : String) (s : ParserState) : (parserSetError msg s).rest = s.rest := rfl

end Reads

section Expressions

/-- What an expression or a part of one is read from, with so much fuel. -/
structure ExpressionsRead (n : Nat) : Prop where
  expression : ∀ s, Reads Expression s (parseExpression n s)
  orExpression : ∀ s, Reads Expression s (parseOrExpression n s)
  orRest : ∀ a ts s, Expression a ts →
    Reads (fun b us => Expression b (ts ++ us)) s (parseOrRest n a s)
  andExpression : ∀ s, Reads Expression s (parseAndExpression n s)
  andRest : ∀ a ts s, Expression a ts →
    Reads (fun b us => Expression b (ts ++ us)) s (parseAndRest n a s)
  notExpression : ∀ s, Reads Expression s (parseNotExpression n s)
  comparisonExpression : ∀ s, Reads Expression s (parseComparisonExpression n s)
  comparisonRest : ∀ a ts s, Expression a ts →
    Reads (fun b us => Expression b (ts ++ us)) s (parseComparisonRest n a s)
  additiveExpression : ∀ s, Reads Expression s (parseAdditiveExpression n s)
  additiveRest : ∀ a ts s, Expression a ts →
    Reads (fun b us => Expression b (ts ++ us)) s (parseAdditiveRest n a s)
  multiplicativeExpression : ∀ s, Reads Expression s (parseMultiplicativeExpression n s)
  multiplicativeRest : ∀ a ts s, Expression a ts →
    Reads (fun b us => Expression b (ts ++ us)) s (parseMultiplicativeRest n a s)
  unaryExpression : ∀ s, Reads Expression s (parseUnaryExpression n s)
  primaryExpression : ∀ s, Reads Expression s (parsePrimaryExpression n s)
  literal : ∀ s, Reads Expression s (parseLiteral n s)
  listLiteral : ∀ s, Reads Expression s (parseListLiteral n s)
  elements : ∀ msg p s, Reads (Elements p) s (parseElements n msg p s)
  mapLiteral : ∀ s, Reads Expression s (parseMapLiteral n s)
  mapPairs : ∀ p s, Reads (MapPairs p) s (parseMapPairs n p s)
  functionCall : ∀ f ts s, Expression f ts →
    Reads (fun a us => Expression a (ts ++ us)) s (parseFunctionCall n f s)

theorem propertyExpression_reads (n : Nat) {a : CypherAst} {ts : List CypherToken}
    (s : ParserState) (ha : Expression a ts) :
    Reads (fun b us => Expression b (ts ++ us)) s (parsePropertyExpression n a s) := by
  induction n generalizing a ts s with
  | zero => exact reads_error .fuel
  | succ n ih =>
    rw [parsePropertyExpression]
    split
    next hd =>
      refine .next (reads_expect (rest_setError _) fun i s' hi => ?_)
      refine (ih s' (.property ha hd hi)).mono fun b us hb => ?_
      rwa [List.append_assoc] at hb
    next => exact reads_found (by rwa [List.append_nil])

theorem reads_rest {c : Prop} [Decidable c] {msg : String} {s : ParserState} {a : CypherAst}
    {ts : List CypherToken} {x : Parsed CypherAst} {f : CypherAst → ParserState → Parsed CypherAst}
    (ha : Expression a ts) (hx : Reads Expression s.next x)
    (hf : c → ∀ b us s', Expression b us →
      Reads (fun d vs => Expression d ((ts ++ s.parserPeekToken :: us) ++ vs)) s' (f b s')) :
    Reads (fun b us => Expression b (ts ++ us)) s
      (if c then x.andThen (parserSetError msg) f else found a s) := by
  split
  next hc =>
    refine .next (hx.andThen (rest_setError _) fun b us s' hb => ?_)
    refine (hf hc b us s' hb).mono fun d vs hd => ?_
    simpa using hd
  next => exact reads_found (by rwa [List.append_nil])

theorem reads_closed {R S : CypherAst → List CypherToken → Prop} {type : CypherTokenType}
    {msg : String} {s : ParserState} {x : Parsed CypherAst} (hx : Reads R s x)
    (hS : ∀ a ts r, R a ts → r.type = type → S a (ts ++ [r])) :
    Reads S s (x.andThen id fun a s =>
      expect type (parserSetError msg) s fun _ s => found a s) := by
  refine hx.andThen rest_id fun a ts s' ha => ?_
  exact reads_expect (rest_setError _) fun r s' hr => reads_found (hS a ts r ha hr)

variable {n : Nat} (h : ExpressionsRead n)

include h

theorem primaryExpression_reads (s : ParserState) :
    Reads Expression s (parsePrimaryExpression (n + 1) s) := by
  rw [parsePrimaryExpression]
  refine (h.literal s).andThen rest_id fun a ts s' ha => ?_
  split
  next =>
    refine (h.functionCall a ts s' ha).orFreed fun b us s' hb => ?_
    refine (propertyExpression_reads n s' hb).mono fun c vs hc => ?_
    rwa [List.append_assoc] at hc
  next => exact propertyExpression_reads n s' ha

theorem literal_reads (s : ParserState) : Reads Expression s (parseLiteral (n + 1) s) := by
  rw [parseLiteral]
  split
  next => exact h.listLiteral s
  next =>
    split
    next => exact h.mapLiteral s
    next =>
      split
      next hl =>
        exact .next (reads_closed (h.expression _) fun a ts r ha hr => .paren hl ha hr)
      next =>
        split
        next hi => exact .next (reads_found (.identifier hi))
        next =>
          split
          next ht => exact .next (reads_found (.literal ht))
          next => exact reads_null rfl

theorem listLiteral_reads (s : ParserState) : Reads Expression s (parseListLiteral (n + 1) s) := by
  rw [parseListLiteral]
  refine reads_expect rest_id fun l s' hl => ?_
  split
  next hr => exact .next (reads_found (.noElements hl hr))
  next => exact reads_closed (h.elements _ _ s') fun a ts r ha hr => .list hl ha hr

theorem elements_reads (msg : String) (p : CypherAst) (s : ParserState) :
    Reads (Elements p) s (parseElements (n + 1) msg p s) := by
  rw [parseElements]
  refine (h.expression s).andThen (rest_setError _) fun a ts s' ha => ?_
  split
  next hc => exact .next ((h.elements _ _ _).mono fun b us hb => .cons ha hc hb)
  next => exact reads_found (by rw [List.append_nil]; exact .last ha)

theorem mapLiteral_reads (s : ParserState) : Reads Expression s (parseMapLiteral (n + 1) s) := by
  rw [parseMapLiteral]
  refine reads_expect rest_id fun l s' hl => ?_
  split
  next hr => exact .next (reads_found (.noPairs hl hr))
  next => exact reads_closed (h.mapPairs _ s') fun a ts r ha hr => .map hl ha hr

theorem mapPairs_reads (p : CypherAst) (s : ParserState) :
    Reads (MapPairs p) s (parseMapPairs (n + 1) p s) := by
  rw [parseMapPairs]
  split
  next hk =>
    have hk : s.parserPeekToken.type = .identifier ∨ s.parserPeekToken.type = .string := by
      simpa using hk
    refine .next (reads_expect (rest_setError _) fun c s₁ hc => ?_)
    refine (h.expression s₁).andThen (rest_setError _) fun a ts s₂ ha => ?_
    split
    next hd => exact .next ((h.mapPairs _ _).mono fun b us hb => .cons hk hc ha hd hb)
    next => exact reads_found (by rw [List.append_nil]; exact .last hk hc ha)
  next => exact reads_null rfl

theorem functionCall_reads {f : CypherAst} {ts : List CypherToken} (s : ParserState)
    (hf : Expression f ts) :
    Reads (fun a us => Expression a (ts ++ us)) s (parseFunctionCall (n + 1) f s) := by
  rw [parseFunctionCall]
  refine reads_expect rest_id fun l s' hl => ?_
  split
  next hr => exact .next (reads_found (.noArguments hf hl hr))
  next => exact reads_closed (h.elements _ _ s') fun a us r ha hr => .functionCall hf hl ha hr

omit h in
theorem expressions_read (n : Nat) : ExpressionsRead n := by
  induction n with
  | zero =>
    constructor <;> intros <;> exact reads_error .fuel
  | succ n h =>
    constructor
    case expression => exact fun s => h.orExpression s
    case orExpression =>
      exact fun s => (h.andExpression s).andThen rest_id fun a ts s' ha => h.orRest a ts s' ha
    case orRest =>
      exact fun a ts s ha => reads_rest ha (h.andExpression _) fun ho b us s' hb =>
        h.orRest _ _ s' (.or ha ho hb)
    case andExpression =>
      exact fun s => (h.notExpression s).andThen rest_id fun a ts s' ha => h.andRest a ts s' ha
    case andRest =>
      exact fun a ts s ha => reads_rest ha (h.notExpression _) fun ho b us s' hb =>
        h.andRest _ _ s' (.and ha ho hb)
    case notExpression =>
      intro s
      rw [parseNotExpression]
      split
      next ho =>
        refine .next ((h.notExpression _).andThen (rest_setError _) fun a ts s' ha => ?_)
        exact reads_found (by rw [List.append_nil]; exact .not ho ha)
      next => exact h.comparisonExpression s
    case comparisonExpression =>
      exact fun s => (h.additiveExpression s).andThen rest_id fun a ts s' ha =>
        h.comparisonRest a ts s' ha
    case comparisonRest =>
      exact fun a ts s ha => reads_rest ha (h.additiveExpression _) fun ho b us s' hb =>
        h.comparisonRest _ _ s' (.comparison ha ho hb)
    case additiveExpression =>
      exact fun s => (h.multiplicativeExpression s).andThen rest_id fun a ts s' ha =>
        h.additiveRest a ts s' ha
    case additiveRest =>
      exact fun a ts s ha => reads_rest ha (h.multiplicativeExpression _) fun ho b us s' hb =>
        h.additiveRest _ _ s' (.additive _ ha ho hb)
    case multiplicativeExpression =>
      exact fun s => (h.unaryExpression s).andThen rest_id fun a ts s' ha =>
        h.multiplicativeRest a ts s' ha
    case multiplicativeRest =>
      exact fun a ts s ha => reads_rest ha (h.unaryExpression _) fun ho b us s' hb =>
        h.multiplicativeRest _ _ s' (.multiplicative _ ha ho hb)
    case unaryExpression =>
      intro s
      rw [parseUnaryExpression]
      split
      next ho =>
        refine .next ((h.unaryExpression _).andThen (rest_setError _) fun a ts s' ha => ?_)
        exact reads_found (by rw [List.append_nil]; exact .unary _ ho ha)
      next => exact h.primaryExpression s
    case primaryExpression => exact primaryExpression_reads h
    case literal => exact literal_reads h
    case listLiteral => exact listLiteral_reads h
    case elements => exact elements_reads h
    case mapLiteral => exact mapLiteral_reads h
    case mapPairs => exact mapPairs_reads h
    case functionCall => exact fun f ts s hf => functionCall_reads h s hf

end Expressions

section Ends

/-- A result has a token behind it that `E` allows. -/
def Ends (E : CypherAst → CypherTokenType → Prop) (x : Parsed CypherAst) : Prop :=
  ∀ a s', x = .ok (some a, s') → E a s'.parserPeekToken.type

variable {E F : CypherAst → CypherTokenType → Prop} {s : ParserState} {x : Parsed CypherAst}
  {onNull : ParserState → ParserState} {f : CypherAst → ParserState → Parsed CypherAst}

theorem ends_error (e : Stop) : Ends E (.error e) := fun _ _ h => by cases h

theorem ends_null : Ends E (null s) := fun _ _ h => by cases h

theorem ends_found {a : CypherAst} (h : E a s.parserPeekToken.type) : Ends E (found a s) :=
  fun _ _ hx => by
    cases hx
    exact h

theorem Ends.andThen (hx : Ends E x)
    (hf : ∀ a s', E a s'.parserPeekToken.type → Ends F (f a s')) : Ends F (x.andThen onNull f) := by
  match x, hx with
  | .error e, _ => exact ends_error e
  | .ok (none, s₁), _ => exact ends_null
  | .ok (some a, s₁), hx => exact hf a s₁ (hx a s₁ rfl)

theorem Ends.orFreed (hx : Ends E x)
    (hf : ∀ a s', E a s'.parserPeekToken.type → Ends F (f a s')) : Ends F (x.orFreed f) := by
  match x, hx with
  | .error e, _ => exact ends_error e
  | .ok (none, s₁), _ => exact ends_error .undefined
  | .ok (some a, s₁), hx => exact hf a s₁ (hx a s₁ rfl)

theorem ends_andThen (hf : ∀ a s', Ends F (f a s')) : Ends F (x.andThen onNull f) :=
  Ends.andThen (E := fun _ _ => True) (fun _ _ _ => trivial) fun a s' _ => hf a s'

theorem ends_expect {type : CypherTokenType} {g : CypherToken → ParserState → Parsed CypherAst}
    (hg : ∀ t s', Ends E (g t s')) : Ends E (expect type onNull s g) := by
  unfold expect
  split
  next => exact ends_null
  next => exact hg _ _

theorem Reads.ends {R : CypherAst → List CypherToken → Prop} (h : Reads R s x) (he : Ends E x) :
    ReadsTo (fun next a ts => R a ts ∧ E a next) s x where
  found a s' hx := by
    obtain ⟨ts, hlex, ha⟩ := h.found a s' hx
    exact ⟨ts, hlex, ha, he a s' hx⟩
  null := h.null

end Ends

section Complete

variable {a b : CypherAst} {next : CypherTokenType} {types : List CypherTokenType}

/-- No token of the list goes on, and no arguments follow a name. -/
def Stops (types : List CypherTokenType) (a : CypherAst) (next : CypherTokenType) : Prop :=
  next ∉ types ∧ ¬(a.type = .identifier ∧ next = .lparen)

theorem Stops.of_type (h : Stops types b next) (ha : a.type ≠ .identifier) : Stops types a next :=
  ⟨h.1, fun hcall => ha hcall.1⟩

def afterPrimary : List CypherTokenType := [.dot]

def afterMultiplicative : List CypherTokenType := [.mult, .div, .mod] ++ afterPrimary

def afterAdditive : List CypherTokenType := [.plus, .minus] ++ afterMultiplicative

def afterComparison : List CypherTokenType :=
  [.eq, .ne, .lt, .le, .gt, .ge, .startsWith, .endsWith, .contains, .in] ++ afterAdditive

def afterAnd : List CypherTokenType := [.and] ++ afterComparison

def afterOr : List CypherTokenType := [.or] ++ afterAnd

theorem ends_rest {c : Prop} [Decidable c] {types new : List CypherTokenType} {msg : String}
    {s : ParserState} {x : Parsed CypherAst} {f : CypherAst → ParserState → Parsed CypherAst}
    (ha : Stops types a s.parserPeekToken.type) (hnew : s.parserPeekToken.type ∈ new → c)
    (hx : Ends (Stops types) x)
    (hf : ∀ b s', Stops types b s'.parserPeekToken.type → Ends (Stops (new ++ types)) (f b s')) :
    Ends (Stops (new ++ types)) (if c then x.andThen (parserSetError msg) f else found a s) := by
  split
  next => exact hx.andThen hf
  next hc =>
    refine ends_found ⟨fun hmem => ?_, ha.2⟩
    obtain hmem | hmem := List.mem_append.mp hmem
    · exact hc (hnew hmem)
    · exact ha.1 hmem

/-- Behind an expression, and behind its parts, stands no token that goes on with it. -/
structure ExpressionsEnd (n : Nat) : Prop where
  expression : ∀ s, Ends (Stops afterOr) (parseExpression n s)
  orExpression : ∀ s, Ends (Stops afterOr) (parseOrExpression n s)
  orRest : ∀ a s, Stops afterAnd a s.parserPeekToken.type →
    Ends (Stops afterOr) (parseOrRest n a s)
  andExpression : ∀ s, Ends (Stops afterAnd) (parseAndExpression n s)
  andRest : ∀ a s, Stops afterComparison a s.parserPeekToken.type →
    Ends (Stops afterAnd) (parseAndRest n a s)
  notExpression : ∀ s, Ends (Stops afterComparison) (parseNotExpression n s)
  comparisonExpression : ∀ s, Ends (Stops afterComparison) (parseComparisonExpression n s)
  comparisonRest : ∀ a s, Stops afterAdditive a s.parserPeekToken.type →
    Ends (Stops afterComparison) (parseComparisonRest n a s)
  additiveExpression : ∀ s, Ends (Stops afterAdditive) (parseAdditiveExpression n s)
  additiveRest : ∀ a s, Stops afterMultiplicative a s.parserPeekToken.type →
    Ends (Stops afterAdditive) (parseAdditiveRest n a s)
  multiplicativeExpression : ∀ s,
    Ends (Stops afterMultiplicative) (parseMultiplicativeExpression n s)
  multiplicativeRest : ∀ a s, Stops afterPrimary a s.parserPeekToken.type →
    Ends (Stops afterMultiplicative) (parseMultiplicativeRest n a s)
  unaryExpression : ∀ s, Ends (Stops afterPrimary) (parseUnaryExpression n s)
  primaryExpression : ∀ s, Ends (Stops afterPrimary) (parsePrimaryExpression n s)

theorem propertyExpression_ends (n : Nat) (a : CypherAst) (s : ParserState)
    (h : ¬(a.type = .identifier ∧ s.parserPeekToken.type = .lparen)) :
    Ends (Stops afterPrimary) (parsePropertyExpression n a s) := by
  induction n generalizing a s with
  | zero => exact ends_error .fuel
  | succ n ih =>
    rw [parsePropertyExpression]
    split
    next => exact ends_expect fun i s' => ih _ s' fun hcall => nomatch hcall.1
    next hd => exact ends_found ⟨fun hmem => hd (List.mem_singleton.mp hmem), h⟩

theorem elements_type (n : Nat) (msg : String) (p : CypherAst) (s : ParserState) :
    Ends (fun a _ => a.type = p.type) (parseElements n msg p s) := by
  induction n generalizing p s with
  | zero => exact ends_error .fuel
  | succ n ih =>
    rw [parseElements]
    refine ends_andThen fun a s' => ?_
    split
    next => exact ih (p.addChild a) s'.next
    next => exact ends_found rfl

theorem functionCall_type (n : Nat) (f : CypherAst) (s : ParserState) :
    Ends (fun a _ => a.type = .functionCall) (parseFunctionCall n f s) := by
  cases n with
  | zero => exact ends_error .fuel
  | succ n =>
    rw [parseFunctionCall]
    refine ends_expect fun l s' => ?_
    split
    next => exact ends_found rfl
    next => exact (elements_type n _ _ s').andThen fun a s₁ ha => ends_expect fun r s₂ =>
        ends_found ha

theorem primaryExpression_ends (n : Nat) (s : ParserState) :
    Ends (Stops afterPrimary) (parsePrimaryExpression (n + 1) s) := by
  rw [parsePrimaryExpression]
  refine ends_andThen fun a s' => ?_
  split
  next =>
    refine (functionCall_type n a s').orFreed fun b s₁ hb => propertyExpression_ends n b s₁ ?_
    exact fun hcall => nomatch hb.symm.trans hcall.1
  next hcall =>
    refine propertyExpression_ends n a s' fun h => hcall ?_
    rw [CypherAst.isType, h.1, h.2]
    rfl

theorem expressions_end (n : Nat) : ExpressionsEnd n := by
  induction n with
  | zero =>
    constructor <;> intros <;> exact ends_error .fuel
  | succ n h =>
    constructor
    case expression => exact fun s => h.orExpression s
    case orExpression => exact fun s => (h.andExpression s).andThen fun a s' ha => h.orRest a s' ha
    case orRest =>
      exact fun a s ha => ends_rest ha (by simp) (h.andExpression _) fun b s' hb =>
        h.orRest _ s' (hb.of_type nofun)
    case andExpression => exact fun s => (h.notExpression s).andThen fun a s' ha => h.andRest a s' ha
    case andRest =>
      exact fun a s ha => ends_rest ha (by simp) (h.notExpression _) fun b s' hb =>
        h.andRest _ s' (hb.of_type nofun)
    case notExpression =>
      intro s
      rw [parseNotExpression]
      split
      next => exact (h.notExpression _).andThen fun a s' ha => ends_found (ha.of_type nofun)
      next => exact h.comparisonExpression s
    case comparisonExpression =>
      exact fun s => (h.additiveExpression s).andThen fun a s' ha => h.comparisonRest a s' ha
    case comparisonRest =>
      exact fun a s ha => ends_rest ha (by simp [isComparison]) (h.additiveExpression _)
        fun b s' hb => h.comparisonRest _ s' (hb.of_type nofun)
    case additiveExpression =>
      exact fun s => (h.multiplicativeExpression s).andThen fun a s' ha => h.additiveRest a s' ha
    case additiveRest =>
      exact fun a s ha => ends_rest ha (by simp [isAdditive]) (h.multiplicativeExpression _)
        fun b s' hb => h.additiveRest _ s' (hb.of_type nofun)
    case multiplicativeExpression =>
      exact fun s => (h.unaryExpression s).andThen fun a s' ha => h.multiplicativeRest a s' ha
    case multiplicativeRest =>
      exact fun a s ha => ends_rest ha (by simp [isMultiplicative]) (h.unaryExpression _)
        fun b s' hb => h.multiplicativeRest _ s' (hb.of_type nofun)
    case unaryExpression =>
      intro s
      rw [parseUnaryExpression]
      split
      next => exact (h.unaryExpression _).andThen fun a s' ha => ends_found (ha.of_type nofun)
      next => exact h.primaryExpression s
    case primaryExpression => exact primaryExpression_ends n

theorem expression_complete (n : Nat) (s : ParserState) : Ends Complete (parseExpression n s) :=
  (expressions_end n).expression s

theorem expression_reads (n : Nat) (s : ParserState) :
    ReadsTo (fun next a ts => Expression a ts ∧ Complete a next) s (parseExpression n s) :=
  ((expressions_read n).expression s).ends (expression_complete n s)

end Complete

section Patterns

theorem propertyPairs_reads (n : Nat) (p : CypherAst) (s : ParserState) :
    Reads (Properties p) s (parsePropertyPairs n p s) := by
  induction n generalizing p s with
  | zero => exact reads_error .fuel
  | succ n ih =>
    rw [parsePropertyPairs]
    refine reads_expect (rest_setError _) fun k s₁ hk => ?_
    refine reads_expect (rest_setError _) fun c s₂ hc => ?_
    refine ((expressions_read n).expression s₂).andThen (rest_setError _) fun a ts s₃ ha => ?_
    split
    next hd => exact .next ((ih _ _).mono fun b us hb => .cons hk hc ha hd hb)
    next => exact reads_found (by rw [List.append_nil]; exact .last hk hc ha)

theorem propertyMap_reads (n : Nat) (s : ParserState) :
    Reads PropertyMap s (parsePropertyMap n s) := by
  rw [parsePropertyMap]
  refine reads_expect rest_id fun l s' hl => ?_
  split
  next hr => exact .next (reads_found (.empty hl hr))
  next => exact reads_closed (propertyPairs_reads n _ s') fun a ts r ha hr => .pairs hl ha hr

theorem variable_reads (p : CypherAst) (s : ParserState) :
    ∃ ts : List CypherToken, Lexes s.rest ts (parseVariable p s).2.rest ∧
      Variable p (parseVariable p s).1 ts := by
  unfold parseVariable
  split
  next hi => exact ⟨_, Lexes.next s, .some hi⟩
  next => exact ⟨[], .nil, .none⟩

theorem relType_reads (p : CypherAst) (s : ParserState) :
    Reads (Label p) s (parseRelType p s) := by
  unfold parseRelType
  split
  next hc =>
    exact .next (reads_expect (rest_setError _) fun i s' hi => reads_found (.some hc hi))
  next => exact reads_found .none

theorem nodeLabels_read (s : ParserState) :
    Reads (fun a ts => ∀ p, Label p (p.addChild a) ts) s (parseNodeLabels s) := by
  unfold parseNodeLabels
  split
  next hc =>
    exact .next (reads_expect (rest_setError _) fun i s' hi => reads_found fun p => .some hc hi)
  next => exact reads_null rfl

theorem nodeLabels_reads {p : CypherAst} {s s' : ParserState} {pLabels : Option CypherAst}
    (h : parseNodeLabels s = .ok (pLabels, s')) (hmsg : ¬(pLabels.isNone && s'.zErrorMsg.isSome)) :
    ∃ ts : List CypherToken, Lexes s.rest ts s'.rest ∧
      Label p (pLabels.elim p p.addChild) ts := by
  cases pLabels with
  | some a =>
    obtain ⟨ts, hlex, ha⟩ := (nodeLabels_read s).found a s' h
    exact ⟨ts, hlex, ha p⟩
  | none =>
    unfold parseNodeLabels expect parserConsumeToken at h
    split at h
    next =>
      split at h
      next =>
        cases h
        exact absurd rfl hmsg
      next => cases h
    next =>
      cases h
      exact ⟨[], .nil, .none⟩

end Patterns

section Reports

def Reports (x : Parsed CypherAst) : Prop := ∀ s', x = .ok (none, s') → s'.zErrorMsg.isSome = true

variable {s : ParserState} {x : Parsed CypherAst} {msg : String}

theorem reports_found {a : CypherAst} : Reports (found a s) := fun _ h => by cases h

theorem reports_expect {type : CypherTokenType}
    {f : CypherToken → ParserState → Parsed CypherAst} (hf : ∀ t s', Reports (f t s')) :
    Reports (expect type (parserSetError msg) s f) := by
  intro s' h
  unfold expect at h
  split at h
  next =>
    cases h
    rfl
  next => exact hf _ _ s' h

theorem reports_andThen {f : CypherAst → ParserState → Parsed CypherAst}
    (hf : ∀ a s', Reports (f a s')) : Reports (x.andThen (parserSetError msg) f) := by
  intro s' h
  unfold Parsed.andThen at h
  split at h
  next => cases h
  next =>
    cases h
    rfl
  next => exact hf _ _ s' h

theorem Reports.andThen {f : CypherAst → ParserState → Parsed CypherAst} (hx : Reports x)
    (hf : ∀ a s', Reports (f a s')) : Reports (x.andThen id f) := by
  intro s' h
  unfold Parsed.andThen at h
  split at h
  next => cases h
  next s₁ =>
    cases h
    exact hx s₁ rfl
  next => exact hf _ _ s' h

theorem propertyPairs_reports (n : Nat) (p : CypherAst) (s : ParserState) :
    Reports (parsePropertyPairs n p s) := by
  induction n generalizing p s with
  | zero => exact fun _ h => by cases h
  | succ n ih =>
    rw [parsePropertyPairs]
    refine reports_expect fun k s₁ => reports_expect fun c s₂ => reports_andThen fun a s₃ => ?_
    split
    next => exact ih _ _
    next => exact reports_found

theorem propertyMap_reports (n : Nat) (hs : s.parserPeekToken.type = .lbrace) :
    Reports (parsePropertyMap n s) := by
  unfold parsePropertyMap expect parserConsumeToken
  rw [if_pos hs]
  intro s' h
  simp only at h
  split at h
  next => cases h
  next => exact (propertyPairs_reports n _ _).andThen (fun _ _ => reports_expect fun _ _ =>
      reports_found) s' h

end Reports

section Relationships

variable {unread : List CypherToken → Prop}

theorem relProperties_reads (n : Nat) (p : CypherAst) (s : ParserState) :
    Reads (OptionalMap p) s (parseRelProperties n p s) := by
  unfold parseRelProperties
  split
  next hl =>
    have hreads := propertyMap_reads n s
    have hreports := propertyMap_reports n hl
    match parsePropertyMap n s, hreads, hreports with
    | .error e, _, _ => exact reads_error e
    | .ok (some a, s₁), hreads, _ =>
      obtain ⟨ts, hlex, ha⟩ := hreads.found a s₁ rfl
      exact .after hlex (reads_found (by rw [List.append_nil]; exact .some ha))
    | .ok (none, s₁), hreads, hreports =>
      obtain ⟨ts, hlex⟩ := hreads.null s₁ rfl
      simp only [hreports s₁ rfl, if_true]
      exact .after hlex (reads_null rfl)
  next => exact reads_found .none

theorem propertyMap_unread {n : Nat} {s s' : ParserState} (hl : s.parserPeekToken.type = .lbrace)
    (h : parsePropertyMap n s = .ok (none, s')) :
    ∃ ts : List CypherToken, Lexes s.rest (s.parserPeekToken :: ts) s'.rest := by
  unfold parsePropertyMap expect parserConsumeToken at h
  rw [if_pos hl] at h
  simp only at h
  split at h
  next => cases h
  next =>
    have hreads : Reads (fun _ _ => True) s.next
        ((parsePropertyPairs n (.create .map []) s.next).andThen id fun pMap s =>
          expect .rbrace (parserSetError "Expected '\x7d' to close property map") s
            fun _ s => found pMap s) :=
      reads_closed (propertyPairs_reads n _ s.next) fun _ _ _ _ _ => trivial
    obtain ⟨ts, hlex⟩ := hreads.null s' h
    exact ⟨ts, (Lexes.next s).append hlex⟩

theorem nodeProperties_reads {n : Nat} {p q : CypherAst} {s s' : ParserState}
    (h : parseNodeProperties n p s = .ok (q, s')) :
    ∃ ts : List CypherToken, Lexes s.rest ts s'.rest ∧
      (OptionalMap p q ts ∨ q = p ∧ ∃ d us, ts = d :: us ∧ d.type = .lbrace ∧
        Refused parsePropertyMap ts s'.parserPeekToken.type) := by
  unfold parseNodeProperties at h
  split at h
  next hl =>
    split at h
    next => cases h
    next a s₁ hmap =>
      cases h
      obtain ⟨ts, hlex, ha⟩ := (propertyMap_reads n s).found a s' hmap
      exact ⟨ts, hlex, .inl (.some ha)⟩
    next s₁ hmap =>
      cases h
      obtain ⟨ts, hlex⟩ := propertyMap_unread hl hmap
      exact ⟨_, hlex, .inr ⟨rfl, _, ts, rfl, hl, n, s, s', hlex, rfl, hmap⟩⟩
  next =>
    cases h
    exact ⟨[], .nil, .inl .none⟩

theorem nodePattern_reads (n : Nat) (s : ParserState) : Reads Node s (parseNodePattern n s) := by
  unfold parseNodePattern
  refine reads_expect (rest_setError _) fun l s₁ hl => ?_
  obtain ⟨ts, hlex, hp⟩ := variable_reads (.create .nodePattern []) s₁
  generalize parseVariable (.create .nodePattern []) s₁ = vs at hlex hp
  obtain ⟨p, s₂⟩ := vs
  refine .after hlex ?_
  simp only
  split
  next e _ => exact reads_error e
  next pLabels s₃ hlabels =>
    split
    next hmsg =>
      obtain rfl : pLabels = none := by simpa using (Bool.and_eq_true_iff.mp hmsg).1
      obtain ⟨us, hlex'⟩ := (nodeLabels_read s₂).null s₃ hlabels
      exact .after hlex' (reads_null rfl)
    next hmsg =>
      obtain ⟨us, hlex', hq⟩ := nodeLabels_reads (p := p) hlabels hmsg
      refine .after hlex' ?_
      split
      next e _ => exact reads_error e
      next a s₄ hmap =>
        obtain ⟨vs, hlex'', ha⟩ := nodeProperties_reads hmap
        refine .after hlex'' (reads_expect_peek (rest_setError _) fun hr => reads_found ?_)
        obtain ha | ⟨rfl, d, vs, rfl, hd, hrefused⟩ := ha
        · exact .read hl hp hq ha hr
        · exact .unreadMap hl hp hq hd (hr ▸ hrefused) hr

theorem direction_reads (left : Bool) (s : ParserState) :
    ∃ ts : List CypherToken, Lexes s.rest ts (parseDirection left s).2.rest ∧
      Direction left (parseDirection left s).1 ts := by
  unfold parseDirection
  split
  next hr =>
    refine ⟨_, Lexes.next s, ?_⟩
    cases left with
    | false => exact .right hr
    | true => exact .both hr
  next hr =>
    cases left with
    | false =>
      refine ⟨_, Lexes.next s, ?_⟩
      by_cases hd : s.parserPeekToken.type = .dash ∨ s.parserPeekToken.type = .minus
      · exact .none hd
      · exact .unread (by simpa using ⟨hr, not_or.mp hd⟩)
    | true => exact ⟨[], .nil, .left⟩

theorem relPattern_reads (n : Nat) (left : Bool) (s : ParserState) :
    Reads (Relationship left) s (parseRelPattern n left s) := by
  unfold parseRelPattern
  refine reads_expect (rest_setError _) fun l s₁ hl => ?_
  obtain ⟨ts, hlex, hp⟩ := variable_reads (.create .relPattern []) s₁
  generalize parseVariable (.create .relPattern []) s₁ = vs at hlex hp
  obtain ⟨p, s₂⟩ := vs
  refine .after hlex ?_
  refine (relType_reads p s₂).andThen rest_id fun q us s₃ hq => ?_
  refine (relProperties_reads n q s₃).andThen rest_id fun a vs s₄ ha => ?_
  refine reads_expect (rest_setError _) fun r s₅ hr => ?_
  obtain ⟨ws, hlex', hws⟩ := direction_reads left s₅
  generalize parseDirection left s₅ = direction at hlex' hws
  obtain ⟨iDirection, s₆⟩ := direction
  refine .after hlex' (reads_found ?_)
  rw [List.append_nil]
  exact .read hl hp hq ha hr hws

theorem relationships_reads (n : Nat) (p : CypherAst) (s : ParserState) :
    Reads (Relationships p) s (parseRelationships n p s) := by
  induction n generalizing p s with
  | zero => exact reads_error .fuel
  | succ n ih =>
    rw [parseRelationships]
    split
    next hd =>
      refine .next ((relPattern_reads n _ _).andThen rest_id fun a ts s₁ ha => ?_)
      refine (nodePattern_reads n s₁).andThen (rest_setError _) fun b us s₂ hb => ?_
      exact (ih _ s₂).mono fun q vs hq => .cons hd ha hb hq
    next => exact reads_found .nil

theorem relationships_end (n : Nat) (p : CypherAst) (s : ParserState) :
    Ends (fun _ next => next ∉ relationshipStarts) (parseRelationships n p s) := by
  induction n generalizing p s with
  | zero => exact ends_error .fuel
  | succ n ih =>
    rw [parseRelationships]
    split
    next => exact ends_andThen fun a s₁ => ends_andThen fun b s₂ => ih _ s₂
    next hd => exact ends_found hd

theorem pattern_reads (n : Nat) (s : ParserState) :
    ReadsTo (fun next a ts => Pattern a ts ∧ next ∉ relationshipStarts) s (parsePattern n s) :=
  (nodePattern_reads n s).andThen rest_id fun _ _ s' ha =>
    ((relationships_reads n _ s').ends (relationships_end n _ s')).mono fun _ _ _ hb =>
      ⟨.read ha hb.1, hb.2⟩

end Relationships

section Clauses

theorem patternClause_reads (n : Nat) {token : CypherTokenType} {type : CypherAstNodeType}
    (msg : String) (s : ParserState) (hk : (token, type) ∈ patternClauses) :
    ReadsTo FirstClause s (parsePatternClause n token type msg s) := by
  unfold parsePatternClause
  refine reads_expect (rest_setError _) fun k s₁ hk' => ?_
  refine (pattern_reads n s₁).andThen rest_id fun a ts s₂ ha => reads_found ?_
  rw [List.append_nil]
  exact .pattern (by rwa [hk']) ha.1 ha.2

theorem expressionClause_reads (n : Nat) {token : CypherTokenType} {type : CypherAstNodeType}
    {onNull : ParserState → ParserState} (honNull : ∀ s : ParserState, (onNull s).rest = s.rest)
    (s : ParserState) (hk : (token, type) ∈ expressionClauses) :
    ReadsTo FirstClause s (parseExpressionClause n token type onNull s) := by
  unfold parseExpressionClause
  refine reads_expect honNull fun k s₁ hk' => ?_
  refine (expression_reads n s₁).andThen rest_id fun a ts s₂ ha => reads_found ?_
  rw [List.append_nil]
  exact .expression (by rwa [hk']) ha.1 ha.2

theorem firstClause_reads (n : Nat) (s : ParserState) :
    ReadsTo FirstClause s (parseFirstClause n s) := by
  unfold parseFirstClause
  split
  next => exact patternClause_reads n _ s (by decide)
  next => exact patternClause_reads n _ s (by decide)
  next => exact patternClause_reads n _ s (by decide)
  next => exact expressionClause_reads n (rest_setError _) s (by decide)
  next => exact expressionClause_reads n (rest_setError _) s (by decide)
  next => exact reads_null rfl

theorem optionalWhere_reads {n : Nat} {p q : CypherAst} {s s' : ParserState}
    (h : parseOptionalWhere n p s = .ok (q, s')) :
    ∃ ts : List CypherToken, Lexes s.rest ts s'.rest ∧
      OptionalWhere s'.parserPeekToken.type p q ts := by
  unfold parseOptionalWhere at h
  split at h
  next hw =>
    have hreads := expression_reads n s.next
    have hwhere : parseWhereClause n s =
        (parseExpression n s.next).andThen id fun pExpr s => found (.create .where [pExpr]) s := by
      unfold parseWhereClause parseExpressionClause expect parserConsumeToken
      rw [if_pos hw]
    rw [hwhere] at h
    match hx : parseExpression n s.next, h with
    | .error e, h => cases h
    | .ok (some a, s₁), h =>
      cases h
      obtain ⟨ts, hlex, ha, hnext⟩ := hreads.found a s' hx
      exact ⟨_, (Lexes.next s).append hlex, .some hw ha hnext⟩
    | .ok (none, s₁), h =>
      cases h
      obtain ⟨ts, hlex⟩ := hreads.null s₁ hx
      exact ⟨_, (Lexes.next s).append hlex, .unread hw ⟨n, s.next, s₁, hlex, rfl, hx⟩⟩
  next hw =>
    cases h
    exact ⟨[], .nil, .none hw⟩

theorem projectionItem_reads (n : Nat) (s : ParserState) :
    ReadsTo (fun next a ts => ∃ b, a = .create .projectionItem [b] ∧ Expression b ts ∧
      Complete b next) s (parseProjectionItem n s) :=
  (expression_reads n s).andThen rest_id fun a ts s₁ ha =>
    reads_found ⟨a, rfl, by rw [List.append_nil]; exact ha⟩

theorem returnClause_reads (n : Nat) (p : CypherAst) (s : ParserState) :
    ReadsTo (fun next a ts => OptionalReturn next p (p.addChild a) ts) s
      (parseReturnClause n s) := by
  unfold parseReturnClause parseProjectionList
  refine reads_expect (rest_setError _) fun r s₁ hr => ?_
  refine ReadsTo.andThen (R := fun next a ts => ∃ b, a = .create .projectionList
    [.create .projectionItem [b]] ∧ Expression b ts ∧ Complete b next) ?_ rest_id ?_
  · refine (projectionItem_reads n s₁).andThen rest_id fun a ts s₂ ha => reads_found ?_
    obtain ⟨b, rfl, hb⟩ := ha
    exact ⟨b, rfl, by rw [List.append_nil]; exact hb⟩
  · rintro a ts s₂ ⟨b, rfl, hb, hnext⟩
    exact reads_found (by rw [List.append_nil]; exact .some hr hb hnext)

theorem optionalReturn_reads (n : Nat) (p : CypherAst) (s : ParserState) :
    ReadsTo (fun next => OptionalReturn next p) s (parseOptionalReturn n p s) := by
  unfold parseOptionalReturn
  split
  next =>
    refine (returnClause_reads n p s).andThen rest_id fun a ts s₁ ha => reads_found ?_
    rwa [List.append_nil]
  next hr => exact reads_found (.none hr)

theorem drainTokens_lexes {n : Nat} {s s' : ParserState} {type : CypherTokenType}
    (h : drainTokens n s = .ok (type, s')) :
    ∃ (ts : List CypherToken) (t : CypherToken), Lexes s.rest (ts ++ [t]) s'.rest ∧
      t.type = type ∧ (type = .eof ∨ type = .error) ∧
      ∀ x ∈ ts, x.type ≠ .eof ∧ x.type ≠ .error := by
  induction n generalizing s with
  | zero => cases h
  | succ n ih =>
    simp only [drainTokens] at h
    split at h
    next hend =>
      cases h
      exact ⟨[], s.parserPeekToken, Lexes.next s, rfl, hend, fun x hx => by cases hx⟩
    next hend =>
      obtain ⟨ts, t, hlex, ht, htype, hts⟩ := ih h
      refine ⟨s.parserPeekToken :: ts, t, (Lexes.next s).append hlex, ht, htype, ?_⟩
      exact List.forall_mem_cons.mpr ⟨not_or.mp hend, hts⟩

theorem firstType_append (next : CypherTokenType) (ts us : List CypherToken) :
    firstType next (ts ++ us) = firstType (firstType next us) ts := by
  cases ts <;> rfl

theorem firstType_of_lexes {s : ParserState} {ts : List CypherToken} {t : CypherToken} {k : Text}
    (h : Lexes s.rest (ts ++ [t]) k) : s.parserPeekToken.type = firstType t.type ts := by
  cases ts with
  | nil => exact congrArg CypherToken.type h.parserPeekToken
  | cons u ts => exact congrArg CypherToken.type h.parserPeekToken

theorem singleQuery_reads (n : Nat) (s : ParserState) :
    Reads (fun q tokens => QueryText (.create .query [q]) tokens) s (parseSingleQuery n s) := by
  unfold parseSingleQuery
  refine (firstClause_reads n s).andThen rest_id fun a ts s₁ ha => ?_
  split
  next e _ => exact reads_error e
  next p s₂ hwhere =>
    obtain ⟨us, hlex, hp⟩ := optionalWhere_reads hwhere
    rw [peek_eq_firstType hlex] at ha
    refine .after hlex ((optionalReturn_reads n p s₂).lexed.andThen rest_id fun q vs s₃ hq => ?_)
    obtain ⟨hq, hnext⟩ := hq
    rw [hnext] at ha hp
    split
    next e _ => exact reads_error e
    next type s₄ hdrain =>
      obtain ⟨ws, t, hlex', ht, htype, hws⟩ := drainTokens_lexes hdrain
      rw [firstType_of_lexes hlex', ← firstType_append] at ha
      rw [firstType_of_lexes hlex'] at hp hq
      split
      next => exact .after hlex' (reads_null rfl)
      next herror =>
        refine .after hlex' (reads_found ?_)
        have h := QueryText.read (.read ha hp hq) hws (ht.trans (htype.resolve_right herror))
        simpa only [List.append_assoc, List.append_nil] using h

theorem query_reads (n : Nat) (s : ParserState) : Reads QueryText s (parseQuery n s) :=
  (singleQuery_reads n s).andThen rest_id fun _ _ _ hq =>
    reads_found (by rwa [List.append_nil])

end Clauses

end Grammar

section Tail

def limitedMatch : Text := "MATCH (a) RETURN a LIMIT 5".toList

def limitedMatchTokens : List CypherToken :=
  [⟨.match, "MATCH".toList⟩, ⟨.lparen, ['(']⟩, ⟨.identifier, ['a']⟩, ⟨.rparen, [')']⟩,
    ⟨.return, "RETURN".toList⟩, ⟨.identifier, ['a']⟩, ⟨.limit, "LIMIT".toList⟩,
    ⟨.integer, ['5']⟩, ⟨.eof, []⟩]

/-- The tree of `MATCH (a) RETURN a`. -/
def matchTree : CypherAst :=
  .create .query [.create .singleQuery [
    .create .match [.create .pattern [.create .nodePattern [.createIdentifier ['a']]]],
    .create .return [.create .projectionList [.create .projectionItem [.createIdentifier ['a']]]]]]

theorem cypherParse_limitedMatch :
    cypherParse 12 limitedMatch = .ok (some matchTree, ⟨[], none⟩) := rfl

theorem limitedMatch_lexes : Lexes limitedMatch limitedMatchTokens [] := by
  repeat' apply Lexes.cons rfl
  exact .nil

theorem not_represents {t : CypherToken} {a : CypherAst} (hvalue : a.zValue ≠ some t.text)
    (htype : (t.type, a.type) ∉ standsFor) (hchild : ∀ b ∈ a.apChildren, ¬Represents t b) :
    ¬Represents t a := by
  intro h
  cases h with
  | value h => exact hvalue h
  | type h => exact htype h
  | child hb h => exact hchild _ hb h

theorem five_not_represents : ¬Represents ⟨.integer, ['5']⟩ matchTree := by
  have hidentifier : ¬Represents ⟨.integer, ['5']⟩ (.createIdentifier ['a']) :=
    not_represents (by decide) (by decide) fun b hb => by cases hb
  have hcreate (type : CypherAstNodeType) (as : List CypherAst)
      (h : ∀ b ∈ as, ¬Represents ⟨.integer, ['5']⟩ b) :
      ¬Represents ⟨.integer, ['5']⟩ (.create type as) :=
    not_represents nofun (by simp [standsFor, CypherAst.create]) h
  have hone (type : CypherAstNodeType) {a : CypherAst} (h : ¬Represents ⟨.integer, ['5']⟩ a) :
      ¬Represents ⟨.integer, ['5']⟩ (.create type [a]) :=
    hcreate type [a] (List.forall_mem_singleton.mpr h)
  have hmatch : ¬Represents ⟨.integer, ['5']⟩ (.create .match [.create .pattern
      [.create .nodePattern [.createIdentifier ['a']]]]) :=
    hone _ (hone _ (hone _ hidentifier))
  refine hone _ (hcreate _ _ (List.forall_mem_cons.mpr ⟨hmatch, List.forall_mem_singleton.mpr ?_⟩))
  exact hone _ (hone _ (hone _ hidentifier))

end Tail

open Grammar in
/-- A query that is accepted is derived from the grammar, with its tree, from the tokens up to a
place where no rule goes on.  The tokens behind that place are passed over, and the last of them is
the end. -/
theorem cypherParse_derived {n : Nat} {zQuery : Text} {a : CypherAst} {s : ParserState}
    (h : cypherParse n zQuery = .ok (some a, s)) :
    ∃ tokens : List CypherToken, Lexes zQuery tokens s.rest ∧ QueryText a tokens :=
  (query_reads n ⟨zQuery, none⟩).found a s h

open Grammar in
theorem cypherParse_derived_limitedMatch : ∃ tokens : List CypherToken,
    Lexes limitedMatch tokens [] ∧ QueryText matchTree tokens :=
  cypherParse_derived cypherParse_limitedMatch

theorem limit_unrepresented : ¬∀ (n : Nat) (zQuery : Text) (a : CypherAst) (s : ParserState),
    cypherParse n zQuery = .ok (some a, s) →
    ∀ tokens : List CypherToken, Lexes zQuery tokens s.rest →
    ∀ t ∈ tokens, t.type ∈ punctuation ∨ t.type = .eof ∨ Represents t a := by
  intro h
  have hfive := h 12 limitedMatch matchTree ⟨[], none⟩ cypherParse_limitedMatch
    limitedMatchTokens limitedMatch_lexes ⟨.integer, ['5']⟩ (by decide)
  obtain hpunctuation | heof | hrep := hfive
  · exact absurd hpunctuation (by decide)
  · cases heof
  · exact five_not_represents hrep

end SqliteMultimodal.Graph.Cypher
