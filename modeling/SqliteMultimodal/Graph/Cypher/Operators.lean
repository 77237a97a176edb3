import SqliteMultimodal.Graph.Cypher.Parser
import SqliteMultimodal.Lib.Fuel

namespace SqliteMultimodal.Graph.Cypher.Operators

open ParserState Fuel

section Levels

/-- With enough fuel the function returns the tree, and it stops at `s'`. -/
def Gives (p : Nat → ParserState → Parsed CypherAst) (s : ParserState) (a : CypherAst)
    (s' : ParserState) : Prop :=
  Settles (fun n => p n s) (found a s')

inductive Level
  | or
  | additive
  | multiplicative
  deriving DecidableEq

namespace Level

def operand : Level → Nat → ParserState → Parsed CypherAst
  | .or => parseAndExpression
  | .additive => parseMultiplicativeExpression
  | .multiplicative => parseUnaryExpression

def expression : Level → Nat → ParserState → Parsed CypherAst
  | .or => parseOrExpression
  | .additive => parseAdditiveExpression
  | .multiplicative => parseMultiplicativeExpression

def rest : Level → Nat → CypherAst → ParserState → Parsed CypherAst
  | .or => parseOrRest
  | .additive => parseAdditiveRest
  | .multiplicative => parseMultiplicativeRest

def isOperator : Level → CypherTokenType → Bool
  | .or, type => type = .or
  | .additive, type => isAdditive type
  | .multiplicative, type => isMultiplicative type

def nodeType : Level → CypherAstNodeType
  | .or => .binaryOp
  | .additive => .additive
  | .multiplicative => .multiplicative

def message : Level → String
  | .or => "Expected expression after OR"
  | .additive => "Expected expression after additive operator"
  | .multiplicative => "Expected expression after multiplicative operator"

/-- The node that is made before a token with the text `zNext`. -/
def node : Level → Text → CypherAst → CypherAst → CypherAst
  | .or, _, pLeft, pRight => orExpr pLeft pRight
  | .additive, zNext, pLeft, pRight => .withValue .additive zNext [pLeft, pRight]
  | .multiplicative, zNext, pLeft, pRight => .withValue .multiplicative zNext [pLeft, pRight]

variable (level : Level)

theorem expression_succ (n : Nat) (s : ParserState) :
    level.expression (n + 1) s = (level.operand n s).andThen id (level.rest n) := by
  cases level with
  | or => rfl
  | additive => rfl
  | multiplicative => rfl

theorem rest_of_operator {s : ParserState} (h : level.isOperator s.parserPeekToken.type = true)
    (n : Nat) (a : CypherAst) : level.rest (n + 1) a s =
      (level.operand n s.next).andThen (parserSetError level.message)
        fun b s => level.rest n (level.node s.parserPeekToken.text a b) s := by
  cases level with
  | or => exact if_pos (of_decide_eq_true h)
  | additive => exact if_pos h
  | multiplicative => exact if_pos h

theorem rest_done {s : ParserState} (h : level.isOperator s.parserPeekToken.type = false)
    (n : Nat) (a : CypherAst) : level.rest (n + 1) a s = found a s := by
  cases level with
  | or => exact if_neg (of_decide_eq_false h)
  | additive => exact if_neg (ne_true_of_eq_false h)
  | multiplicative => exact if_neg (ne_true_of_eq_false h)

end Level

end Levels

section Chains

/-- From `s` on there are operators with their right operands, and at `s'` there is none. -/
inductive Operands (level : Level) :
    ParserState → List (CypherToken × CypherAst) → ParserState → Prop
  | stop {s} (h : level.isOperator s.parserPeekToken.type = false) : Operands level s [] s
  | operator {s s₁ s₂ b rest} (ho : level.isOperator s.parserPeekToken.type = true)
    (hb : Gives level.operand s.next b s₁) (hrest : Operands level s₁ rest s₂) :
    Operands level s ((s.parserPeekToken, b) :: rest) s₂

structure Chain where
  level : Level
  start : ParserState
  first : CypherAst
  middle : ParserState
  rest : List (CypherToken × CypherAst)
  stop : ParserState
  firstRead : Gives level.operand start first middle
  restRead : Operands level middle rest stop
  nonempty : rest ≠ []

structure Sign where
  start : ParserState
  operand : CypherAst
  stop : ParserState
  isSign : isAdditive start.parserPeekToken.type = true
  operandRead : Gives parseUnaryExpression start.next operand stop

def nextText (zAfter : Text) : List (CypherToken × CypherAst) → Text
  | [] => zAfter
  | (o, _) :: _ => o.text

def Level.made (level : Level) (zAfter : Text) :
    CypherAst → List (CypherToken × CypherAst) → CypherAst
  | a, [] => a
  | a, (_, b) :: rest => level.made zAfter (level.node (nextText zAfter rest) a b) rest

def Level.intended (level : Level) : CypherAst → List (CypherToken × CypherAst) → CypherAst
  | a, [] => a
  | a, (o, b) :: rest => level.intended (.withValue level.nodeType o.text [a, b]) rest

def Followed (zAfter : Text) : List (CypherToken × CypherAst) → Prop
  | [] => True
  | (o, _) :: rest => nextText zAfter rest = o.text ∧ Followed zAfter rest

theorem Operands.gives {level : Level} {s s' : ParserState}
    {rest : List (CypherToken × CypherAst)} (h : Operands level s rest s') (a : CypherAst) :
    Gives (fun n => level.rest n a) s (level.made s'.parserPeekToken.text a rest) s' := by
  induction h generalizing a with
  | stop h => exact .of_step (fun n => level.rest_done h n a) (.of_eq fun _ => rfl)
  | @operator s s₁ s₂ b rest ho hb hrest ih =>
    have hnext : s₁.parserPeekToken.text = nextText s₂.parserPeekToken.text rest := by
      cases hrest with
      | stop => rfl
      | operator => rfl
    refine .of_step (fun n => level.rest_of_operator ho n a) ?_
    refine Settles.bind (q := fun x n => Parsed.andThen x (parserSetError level.message)
      fun b s => level.rest n (level.node s.parserPeekToken.text a b) s) hb ?_
    rw [Level.made, ← hnext]
    exact ih _

theorem Chain.gives (c : Chain) :
    Gives c.level.expression c.start (c.level.made c.stop.parserPeekToken.text c.first c.rest)
      c.stop :=
  .of_step (c.level.expression_succ · c.start)
    (Settles.bind (q := fun x n => Parsed.andThen x id (c.level.rest n)) c.firstRead
      (c.restRead.gives c.first))

theorem Sign.gives (s : Sign) :
    Gives parseUnaryExpression s.start (unaryExpr s.stop.parserPeekToken.text s.operand)
      s.stop := by
  refine .of_step (fun n => ?_) (Settles.bind (q := fun x _ => Parsed.andThen x
    (parserSetError "Expected expression after unary operator")
    fun pExpr s => found (unaryExpr s.parserPeekToken.text pExpr) s) s.operandRead
    (.of_eq fun _ => rfl))
  exact if_pos s.isSign

theorem made_eq_intended_iff {level : Level} {zAfter : Text}
    {rest : List (CypherToken × CypherAst)} {a b : CypherAst} :
    level.made zAfter a rest = level.intended b rest ↔
      a = b ∧ (rest = [] ∨ level ≠ .or) ∧ Followed zAfter rest := by
  induction rest generalizing a b with
  | nil => simp [Level.made, Level.intended, Followed]
  | cons entry rest ih =>
    obtain ⟨o, r⟩ := entry
    rw [Level.made, Level.intended, ih, Followed]
    cases level with
    | or => simp [Level.node, orExpr, CypherAst.createBinaryOp, CypherAst.withValue,
        CypherAst.addChild]
    | additive =>
      simp only [Level.node, CypherAst.withValue, Level.nodeType]
      simp
      tauto
    | multiplicative =>
      simp only [Level.node, CypherAst.withValue, Level.nodeType]
      simp
      tauto

end Chains

section Operations

inductive Operation
  | chain (chain : Chain)
  | sign (sign : Sign)

def Operation.RightNodes : Operation → Prop
  | .chain c => Gives c.level.expression c.start (c.level.intended c.first c.rest) c.stop
  | .sign s => Gives parseUnaryExpression s.start
      (.withValue .unaryOp s.start.parserPeekToken.text [s.operand]) s.stop

def Operation.Repeated : Operation → Prop
  | .chain c => c.level ≠ .or ∧ Followed c.stop.parserPeekToken.text c.rest
  | .sign _ => False

theorem Gives.unique {p : Nat → ParserState → Parsed CypherAst} {s s₁ s₂ : ParserState}
    {a b : CypherAst} (h : Gives p s a s₁) (h' : Gives p s b s₂) : a = b := by
  cases Settles.unique h h'
  rfl

theorem rightNodes_iff (operation : Operation) :
    operation.RightNodes ↔ operation.Repeated := by
  cases operation with
  | chain c =>
    have hmade := @made_eq_intended_iff c.level c.stop.parserPeekToken.text c.rest c.first c.first
    have hor : c.rest = [] ∨ c.level ≠ .or ↔ c.level ≠ .or :=
      ⟨fun h => h.resolve_left c.nonempty, .inr⟩
    rw [hor, and_iff_right rfl] at hmade
    rw [Operation.Repeated, ← hmade]
    constructor
    · exact c.gives.unique
    · intro h
      rw [Operation.RightNodes, ← h]
      exact c.gives
  | sign s =>
    refine iff_of_false (fun h => ?_) not_false
    have heq := congrArg CypherAst.apChildren (s.gives.unique h)
    cases heq

def onePlusTwo : ParserState := ⟨"1 + 2".toList, none⟩

theorem gives_one :
    Gives parseMultiplicativeExpression onePlusTwo (.createLiteral ['1']) ⟨" + 2".toList, none⟩ :=
  ⟨6, fun m hm => by obtain ⟨n, rfl⟩ := Nat.exists_eq_add_of_le' hm; rfl⟩

theorem gives_two : Gives parseMultiplicativeExpression ⟨" 2".toList, none⟩ (.createLiteral ['2'])
    ⟨[], none⟩ :=
  ⟨6, fun m hm => by obtain ⟨n, rfl⟩ := Nat.exists_eq_add_of_le' hm; rfl⟩

theorem operands_two : Operands .additive ⟨" + 2".toList, none⟩
    [(⟨.plus, ['+']⟩, .createLiteral ['2'])] ⟨[], none⟩ :=
  .operator (s := ⟨" + 2".toList, none⟩) rfl gives_two (.stop rfl)

def sumChain : Chain where
  level := .additive
  start := onePlusTwo
  first := .createLiteral ['1']
  middle := ⟨" + 2".toList, none⟩
  rest := [(⟨.plus, ['+']⟩, .createLiteral ['2'])]
  stop := ⟨[], none⟩
  firstRead := gives_one
  restRead := operands_two
  nonempty := List.cons_ne_nil _ _

theorem not_rightNodes_sum : ¬ (Operation.chain sumChain).RightNodes := by
  intro h
  have hvalue := congrArg CypherAst.zValue (sumChain.gives.unique h)
  exact absurd hvalue (by decide)

end Operations

end SqliteMultimodal.Graph.Cypher.Operators
