import SqliteMultimodal.Graph.Cypher.Parser
import SqliteMultimodal.Graph.Cypher.Spelling

namespace SqliteMultimodal.Graph.Cypher

namespace Grammar

section Expressions

mutual

inductive Expression : CypherAst → List CypherToken → Prop
  | identifier {i} (hi : i.type = .identifier) : Expression (.createIdentifier i.text) [i]
  | literal {t} (ht : isBasicLiteral t.type) : Expression (.createLiteral t.text) [t]
  | paren {a l r ts} (hl : l.type = .lparen) (ha : Expression a ts) (hr : r.type = .rparen) :
    Expression a (l :: (ts ++ [r]))
  | property {a d i ts} (ha : Expression a ts) (hd : d.type = .dot) (hi : i.type = .identifier) :
    Expression (.create .property [a, .createIdentifier i.text]) (ts ++ [d, i])
  | or {a b o ts us} (ha : Expression a ts) (ho : o.type = .or) (hb : Expression b us) :
    Expression (orExpr a b) (ts ++ o :: us)
  | and {a b o ts us} (ha : Expression a ts) (ho : o.type = .and) (hb : Expression b us) :
    Expression (.create .and [a, b]) (ts ++ o :: us)
  | not {a o ts} (ho : o.type = .not) (ha : Expression a ts) :
    Expression (.create .not [a]) (o :: ts)
  | comparison {a b o ts us} (ha : Expression a ts) (ho : isComparison o.type)
    (hb : Expression b us) : Expression (.withValue .comparison o.text [a, b]) (ts ++ o :: us)
  | additive {a b o ts us} (zValue : Text) (ha : Expression a ts) (ho : isAdditive o.type)
    (hb : Expression b us) : Expression (.withValue .additive zValue [a, b]) (ts ++ o :: us)
  | multiplicative {a b o ts us} (zValue : Text) (ha : Expression a ts)
    (ho : isMultiplicative o.type) (hb : Expression b us) :
    Expression (.withValue .multiplicative zValue [a, b]) (ts ++ o :: us)
  | unary {a o ts} (zOp : Text) (ho : isAdditive o.type) (ha : Expression a ts) :
    Expression (unaryExpr zOp a) (o :: ts)
  | noElements {l r} (hl : l.type = .lbracket) (hr : r.type = .rbracket) :
    Expression (.create .array []) [l, r]
  | list {a l r ts} (hl : l.type = .lbracket) (ha : Elements (.create .array []) a ts)
    (hr : r.type = .rbracket) : Expression a (l :: (ts ++ [r]))
  | noPairs {l r} (hl : l.type = .lbrace) (hr : r.type = .rbrace) :
    Expression (.create .object []) [l, r]
  | map {a l r ts} (hl : l.type = .lbrace) (ha : MapPairs (.create .object []) a ts)
    (hr : r.type = .rbrace) : Expression a (l :: (ts ++ [r]))
  | noArguments {f l r ts} (hf : Expression f ts) (hl : l.type = .lparen)
    (hr : r.type = .rparen) : Expression (.create .functionCall [f]) (ts ++ [l, r])
  | functionCall {a f l r ts us} (hf : Expression f ts) (hl : l.type = .lparen)
    (ha : Elements (.create .functionCall [f]) a us) (hr : r.type = .rparen) :
    Expression a (ts ++ l :: (us ++ [r]))

inductive Elements : CypherAst → CypherAst → List CypherToken → Prop
  | last {a p ts} (ha : Expression a ts) : Elements p (p.addChild a) ts
  | cons {a p q c ts us} (ha : Expression a ts) (hc : c.type = .comma)
    (hq : Elements (p.addChild a) q us) : Elements p q (ts ++ c :: us)

inductive MapPairs : CypherAst → CypherAst → List CypherToken → Prop
  | last {a p k c ts} (hk : k.type = .identifier ∨ k.type = .string) (hc : c.type = .colon)
    (ha : Expression a ts) :
    MapPairs p (p.addChild (.create .propertyPair [.createLiteral k.text, a])) (k :: c :: ts)
  | cons {a p q d k c ts us} (hk : k.type = .identifier ∨ k.type = .string) (hc : c.type = .colon)
    (ha : Expression a ts) (hd : d.type = .comma)
    (hq : MapPairs (p.addChild (.create .propertyPair [.createLiteral k.text, a])) q us) :
    MapPairs p q (k :: c :: (ts ++ d :: us))

end

end Expressions

section Ends

/-- The tokens that an expression goes on with. -/
def continuing : List CypherTokenType :=
  [.or, .and, .eq, .ne, .lt, .le, .gt, .ge, .startsWith, .endsWith, .contains, .in, .plus, .minus,
    .mult, .div, .mod, .dot]

def Complete (a : CypherAst) (next : CypherTokenType) : Prop :=
  next ∉ continuing ∧ ¬(a.type = .identifier ∧ next = .lparen)

def relationshipStarts : List CypherTokenType := [.dash, .minus, .arrowLeft]

/-- The parser's function gives NULL at the tokens, with `next` behind them. -/
def Refused (parse : Nat → ParserState → Parsed CypherAst) (ts : List CypherToken)
    (next : CypherTokenType) : Prop :=
  ∃ n s s', Lexes s.rest ts s'.rest ∧ s'.parserPeekToken.type = next ∧ parse n s = .ok (none, s')

end Ends

section Patterns

inductive Properties : CypherAst → CypherAst → List CypherToken → Prop
  | last {a p k c ts} (hk : k.type = .identifier) (hc : c.type = .colon)
    (ha : Expression a ts) :
    Properties p (p.addChild (.withValue .propertyPair k.text [a])) (k :: c :: ts)
  | cons {a p q d k c ts us} (hk : k.type = .identifier) (hc : c.type = .colon)
    (ha : Expression a ts) (hd : d.type = .comma)
    (hq : Properties (p.addChild (.withValue .propertyPair k.text [a])) q us) :
    Properties p q (k :: c :: (ts ++ d :: us))

inductive PropertyMap : CypherAst → List CypherToken → Prop
  | empty {l r} (hl : l.type = .lbrace) (hr : r.type = .rbrace) :
    PropertyMap (.create .map []) [l, r]
  | pairs {a l r ts} (hl : l.type = .lbrace) (ha : Properties (.create .map []) a ts)
    (hr : r.type = .rbrace) : PropertyMap a (l :: (ts ++ [r]))

inductive Variable (p : CypherAst) : CypherAst → List CypherToken → Prop
  | none : Variable p p []
  | some {i} (hi : i.type = .identifier) : Variable p (p.addChild (.createIdentifier i.text)) [i]

inductive Label (p : CypherAst) : CypherAst → List CypherToken → Prop
  | none : Label p p []
  | some {i c} (hc : c.type = .colon) (hi : i.type = .identifier) :
    Label p (p.addChild (.createNodeLabel i.text)) [c, i]

inductive OptionalMap (p : CypherAst) : CypherAst → List CypherToken → Prop
  | none : OptionalMap p p []
  | some {a ts} (ha : PropertyMap a ts) : OptionalMap p (p.addChild a) ts

inductive Node : CypherAst → List CypherToken → Prop
  | read {a p q l r ts us vs} (hl : l.type = .lparen) (hp : Variable (.create .nodePattern []) p ts)
    (hq : Label p q us) (ha : OptionalMap q a vs) (hr : r.type = .rparen) :
    Node a (l :: (ts ++ (us ++ (vs ++ [r]))))
  | unreadMap {p q l r d ts us vs} (hl : l.type = .lparen)
    (hp : Variable (.create .nodePattern []) p ts) (hq : Label p q us) (hd : d.type = .lbrace)
    (hvs : Refused parsePropertyMap (d :: vs) .rparen) (hr : r.type = .rparen) :
    Node q (l :: (ts ++ (us ++ (d :: vs ++ [r]))))

inductive Direction : Bool → Int → List CypherToken → Prop
  | right {r} (hr : r.type = .arrowRight) : Direction false 1 [r]
  | both {r} (hr : r.type = .arrowRight) : Direction true 0 [r]
  | left : Direction true (-1) []
  | none {d} (hd : d.type = .dash ∨ d.type = .minus) : Direction false 0 [d]
  | unread {t} (ht : t.type ∉ [.arrowRight, .dash, .minus]) : Direction false 0 [t]

inductive Relationship (left : Bool) : CypherAst → List CypherToken → Prop
  | read {a p q iDirection l r ts us vs ws} (hl : l.type = .lbracket)
    (hp : Variable (.create .relPattern []) p ts) (hq : Label p q us) (ha : OptionalMap q a vs)
    (hr : r.type = .rbracket) (hws : Direction left iDirection ws) :
    Relationship left { a with iFlags := iDirection } (l :: (ts ++ (us ++ (vs ++ r :: ws))))

inductive Relationships : CypherAst → CypherAst → List CypherToken → Prop
  | nil {p} : Relationships p p []
  | cons {a b p q d ts us vs} (hd : d.type ∈ [.dash, .minus, .arrowLeft])
    (ha : Relationship (d.type = .arrowLeft) a ts) (hb : Node b us)
    (hq : Relationships ((p.addChild a).addChild b) q vs) :
    Relationships p q (d :: (ts ++ (us ++ vs)))

inductive Pattern : CypherAst → List CypherToken → Prop
  | read {a b ts us} (ha : Node a ts)
    (hb : Relationships (.create .pattern [a]) b us) : Pattern b (ts ++ us)

end Patterns

section Clauses

variable (next : CypherTokenType)

def patternClauses : List (CypherTokenType × CypherAstNodeType) :=
  [(.match, .match), (.create, .create), (.merge, .merge)]

def expressionClauses : List (CypherTokenType × CypherAstNodeType) :=
  [(.set, .set), (.delete, .delete)]

/-- `next` is the token behind the clause. -/
inductive FirstClause : CypherAst → List CypherToken → Prop
  | pattern {a type k ts} (hk : (k.type, type) ∈ patternClauses) (ha : Pattern a ts)
    (hnext : next ∉ relationshipStarts) : FirstClause (.create type [a]) (k :: ts)
  | expression {a type k ts} (hk : (k.type, type) ∈ expressionClauses) (ha : Expression a ts)
    (hnext : Complete a next) : FirstClause (.create type [a]) (k :: ts)

inductive OptionalWhere (p : CypherAst) : CypherAst → List CypherToken → Prop
  | none (hnext : next ≠ .where) : OptionalWhere p p []
  | some {a w ts} (hw : w.type = .where) (ha : Expression a ts) (hnext : Complete a next) :
    OptionalWhere p (p.addChild (.create .where [a])) (w :: ts)
  | unread {w ts} (hw : w.type = .where) (hts : Refused parseExpression ts next) :
    OptionalWhere p p (w :: ts)

inductive OptionalReturn (p : CypherAst) : CypherAst → List CypherToken → Prop
  | none (hnext : next ≠ .return) : OptionalReturn p p []
  | some {a r ts} (hr : r.type = .return) (ha : Expression a ts) (hnext : Complete a next) :
    OptionalReturn p
      (p.addChild (.create .return [.create .projectionList [.create .projectionItem [a]]]))
      (r :: ts)

def firstType (ts : List CypherToken) : CypherTokenType := (ts.map CypherToken.type).headD next

inductive Query : CypherAst → List CypherToken → Prop
  | read {a p q ts us vs} (ha : FirstClause (firstType next (us ++ vs)) a ts)
    (hp : OptionalWhere (firstType next vs) (.create .singleQuery [a]) p us)
    (hq : OptionalReturn next p q vs) : Query (.create .query [q]) (ts ++ (us ++ vs))

/-- A query, tokens that are passed over, and the end. -/
inductive QueryText : CypherAst → List CypherToken → Prop
  | read {a t ts us} (ha : Query (firstType t.type us) a ts)
    (hus : ∀ u ∈ us, u.type ≠ .eof ∧ u.type ≠ .error) (ht : t.type = .eof) :
    QueryText a (ts ++ (us ++ [t]))

end Clauses

end Grammar

section Represents

def punctuation : List CypherTokenType :=
  [.lparen, .rparen, .lbracket, .rbracket, .lbrace, .rbrace, .comma, .colon, .dot, .semicolon]

def standsFor : List (CypherTokenType × CypherAstNodeType) :=
  [(.match, .match), (.create, .create), (.merge, .merge), (.set, .set), (.delete, .delete),
    (.where, .where), (.return, .return), (.or, .binaryOp), (.and, .and), (.not, .not),
    (.plus, .additive), (.minus, .additive), (.plus, .unaryOp), (.minus, .unaryOp),
    (.mult, .multiplicative), (.div, .multiplicative), (.mod, .multiplicative),
    (.dash, .relPattern), (.minus, .relPattern), (.arrowLeft, .relPattern),
    (.arrowRight, .relPattern)]

inductive Represents (t : CypherToken) : CypherAst → Prop
  | value {a} (h : a.zValue = some t.text) : Represents t a
  | type {a} (h : (t.type, a.type) ∈ standsFor) : Represents t a
  | child {a b} (hb : b ∈ a.apChildren) (h : Represents t b) : Represents t a

end Represents

end SqliteMultimodal.Graph.Cypher
