import SqliteMultimodal.Graph.Cypher.Lexer
import SqliteMultimodal.Lib.Text

namespace SqliteMultimodal.Graph.Cypher

inductive CypherAstNodeType
  | query | singleQuery | union | match | optionalMatch | where | return | projectionList
  | projectionItem | orderBy | sortList | sortItem | limit | skip | pattern | nodePattern
  | relPattern | labels | path | identifier | literal | unaryOp | binaryOp | property | map | list
  | functionCall | case | propertyPair | and | or | not | comparison | additive | multiplicative
  | array | object | startsWith | endsWith | containsOp | regex | create | merge | set | delete
  | remove
  deriving DecidableEq

structure CypherAst where
  type : CypherAstNodeType
  zValue : Option Text
  apChildren : List CypherAst
  iFlags : Int

namespace CypherAst

def create (type : CypherAstNodeType) (apChildren : List CypherAst) : CypherAst :=
  ⟨type, none, apChildren, 0⟩

def withValue (type : CypherAstNodeType) (zValue : Text) (apChildren : List CypherAst) :
    CypherAst :=
  ⟨type, some zValue, apChildren, 0⟩

def createLiteral (zValue : Text) : CypherAst := withValue .literal zValue []

def createIdentifier (zName : Text) : CypherAst := withValue .identifier zName []

def createNodeLabel (zName : Text) : CypherAst := withValue .labels zName []

def createBinaryOp (zOp : Text) (pLeft pRight : CypherAst) : CypherAst :=
  withValue .binaryOp zOp [pLeft, pRight]

def createUnaryOp (zOp : Text) (pExpr : CypherAst) : CypherAst := withValue .unaryOp zOp [pExpr]

def addChild (pParent pChild : CypherAst) : CypherAst :=
  { pParent with apChildren := pParent.apChildren ++ [pChild] }

def isType (pAst : CypherAst) (type : CypherAstNodeType) : Bool := pAst.type = type

end CypherAst

end SqliteMultimodal.Graph.Cypher

/-! The recursive descent parser.  A function may return NULL, which is `none`; of a message only
the text before the place is kept. -/

namespace SqliteMultimodal.Graph.Cypher

section State

structure ParserState where
  rest : Text
  zErrorMsg : Option Text

/-- Why a run gives nothing: the fuel is used up, or memory is read after it was freed. -/
inductive Stop
  | fuel
  | undefined

abbrev Parsed (α : Type) := Except Stop (Option α × ParserState)

namespace ParserState

def parserPeekToken (s : ParserState) : CypherToken := (cypherLexerNextToken s.rest).1

def next (s : ParserState) : ParserState := { s with rest := (cypherLexerNextToken s.rest).2 }

def parserConsumeToken (s : ParserState) (expectedType : CypherTokenType) : Option CypherToken :=
  if s.parserPeekToken.type = expectedType then some s.parserPeekToken else none

def parserSetError (msg : String) (s : ParserState) : ParserState :=
  { s with zErrorMsg := some msg.toList }

def null {α : Type} (s : ParserState) : Parsed α := .ok (none, s)

def found {α : Type} (a : α) (s : ParserState) : Parsed α := .ok (some a, s)

end ParserState

open ParserState

/-- What a function does with the result of another: it goes on where there is one, and returns NULL
where there is none. -/
def Parsed.andThen {α β : Type} (x : Parsed α) (onNull : ParserState → ParserState)
    (f : α → ParserState → Parsed β) : Parsed β :=
  match x with
  | .error e => .error e
  | .ok (none, s) => null (onNull s)
  | .ok (some a, s) => f a s

/-- Where the other function returns NULL, memory that it freed is used on. -/
def Parsed.orFreed {α β : Type} (x : Parsed α) (f : α → ParserState → Parsed β) : Parsed β :=
  match x with
  | .error e => .error e
  | .ok (none, _) => .error .undefined
  | .ok (some a, s) => f a s

def expect {β : Type} (type : CypherTokenType) (onNull : ParserState → ParserState)
    (s : ParserState) (f : CypherToken → ParserState → Parsed β) : Parsed β :=
  match s.parserConsumeToken type with
  | none => null (onNull s.next)
  | some token => f token s.next

end State

section Expressions

open ParserState

def isComparison (type : CypherTokenType) : Bool :=
  type ∈ [.eq, .ne, .lt, .le, .gt, .ge, .startsWith, .endsWith, .contains, .in]

def isAdditive (type : CypherTokenType) : Bool := type ∈ [.plus, .minus]

def isMultiplicative (type : CypherTokenType) : Bool := type ∈ [.mult, .div, .mod]

def isBasicLiteral (type : CypherTokenType) : Bool :=
  type ∈ [.integer, .float, .string, .boolean, .null]

def orExpr (pLeft pRight : CypherAst) : CypherAst :=
  ((CypherAst.createBinaryOp "OR".toList pLeft pRight).addChild pLeft).addChild pRight

def unaryExpr (zOp : Text) (pExpr : CypherAst) : CypherAst :=
  (CypherAst.createUnaryOp zOp pExpr).addChild pExpr

def parsePropertyExpression : Nat → CypherAst → ParserState → Parsed CypherAst
  | 0, _, _ => .error .fuel
  | n + 1, pExpr, s =>
    if s.parserPeekToken.type = .dot then
      expect .identifier (parserSetError "Expected property name after '.'") s.next
        fun pProperty s =>
          parsePropertyExpression n
            (.create .property [pExpr, .createIdentifier pProperty.text]) s
    else found pExpr s

mutual

def parseExpression : Nat → ParserState → Parsed CypherAst
  | 0, _ => .error .fuel
  | n + 1, s => parseOrExpression n s

def parseOrExpression : Nat → ParserState → Parsed CypherAst
  | 0, _ => .error .fuel
  | n + 1, s => (parseAndExpression n s).andThen id (parseOrRest n)

def parseOrRest : Nat → CypherAst → ParserState → Parsed CypherAst
  | 0, _, _ => .error .fuel
  | n + 1, pLeft, s =>
    if s.parserPeekToken.type = .or then
      (parseAndExpression n s.next).andThen (parserSetError "Expected expression after OR")
        fun pRight s => parseOrRest n (orExpr pLeft pRight) s
    else found pLeft s

def parseAndExpression : Nat → ParserState → Parsed CypherAst
  | 0, _ => .error .fuel
  | n + 1, s => (parseNotExpression n s).andThen id (parseAndRest n)

def parseAndRest : Nat → CypherAst → ParserState → Parsed CypherAst
  | 0, _, _ => .error .fuel
  | n + 1, pLeft, s =>
    if s.parserPeekToken.type = .and then
      (parseNotExpression n s.next).andThen (parserSetError "Expected expression after AND")
        fun pRight s => parseAndRest n (.create .and [pLeft, pRight]) s
    else found pLeft s

def parseNotExpression : Nat → ParserState → Parsed CypherAst
  | 0, _ => .error .fuel
  | n + 1, s =>
    if s.parserPeekToken.type = .not then
      (parseNotExpression n s.next).andThen (parserSetError "Expected expression after NOT")
        fun pExpr s => found (.create .not [pExpr]) s
    else parseComparisonExpression n s

def parseComparisonExpression : Nat → ParserState → Parsed CypherAst
  | 0, _ => .error .fuel
  | n + 1, s => (parseAdditiveExpression n s).andThen id (parseComparisonRest n)

def parseComparisonRest : Nat → CypherAst → ParserState → Parsed CypherAst
  | 0, _, _ => .error .fuel
  | n + 1, pLeft, s =>
    let pToken := s.parserPeekToken
    if isComparison pToken.type then
      (parseAdditiveExpression n s.next).andThen
        (parserSetError "Expected expression after comparison operator")
        fun pRight s =>
          parseComparisonRest n (.withValue .comparison pToken.text [pLeft, pRight]) s
    else found pLeft s

def parseAdditiveExpression : Nat → ParserState → Parsed CypherAst
  | 0, _ => .error .fuel
  | n + 1, s => (parseMultiplicativeExpression n s).andThen id (parseAdditiveRest n)

def parseAdditiveRest : Nat → CypherAst → ParserState → Parsed CypherAst
  | 0, _, _ => .error .fuel
  | n + 1, pLeft, s =>
    if isAdditive s.parserPeekToken.type then
      (parseMultiplicativeExpression n s.next).andThen
        (parserSetError "Expected expression after additive operator")
        fun pRight s =>
          parseAdditiveRest n (.withValue .additive s.parserPeekToken.text [pLeft, pRight]) s
    else found pLeft s

def parseMultiplicativeExpression : Nat → ParserState → Parsed CypherAst
  | 0, _ => .error .fuel
  | n + 1, s => (parseUnaryExpression n s).andThen id (parseMultiplicativeRest n)

def parseMultiplicativeRest : Nat → CypherAst → ParserState → Parsed CypherAst
  | 0, _, _ => .error .fuel
  | n + 1, pLeft, s =>
    if isMultiplicative s.parserPeekToken.type then
      (parseUnaryExpression n s.next).andThen
        (parserSetError "Expected expression after multiplicative operator")
        fun pRight s => parseMultiplicativeRest n
          (.withValue .multiplicative s.parserPeekToken.text [pLeft, pRight]) s
    else found pLeft s

def parseUnaryExpression : Nat → ParserState → Parsed CypherAst
  | 0, _ => .error .fuel
  | n + 1, s =>
    if isAdditive s.parserPeekToken.type then
      (parseUnaryExpression n s.next).andThen
        (parserSetError "Expected expression after unary operator")
        fun pExpr s => found (unaryExpr s.parserPeekToken.text pExpr) s
    else parsePrimaryExpression n s

def parsePrimaryExpression : Nat → ParserState → Parsed CypherAst
  | 0, _ => .error .fuel
  | n + 1, s => (parseLiteral n s).andThen id fun pExpr s =>
    if pExpr.isType .identifier && s.parserPeekToken.type = .lparen then
      (parseFunctionCall n pExpr s).orFreed (parsePropertyExpression n)
    else parsePropertyExpression n pExpr s

def parseLiteral : Nat → ParserState → Parsed CypherAst
  | 0, _ => .error .fuel
  | n + 1, s =>
    let pToken := s.parserPeekToken
    if pToken.type = .lbracket then parseListLiteral n s
    else if pToken.type = .lbrace then parseMapLiteral n s
    else if pToken.type = .lparen then
      (parseExpression n s.next).andThen id fun pExpr s =>
        expect .rparen (parserSetError "Expected closing parenthesis") s fun _ s => found pExpr s
    else if pToken.type = .identifier then found (.createIdentifier pToken.text) s.next
    else if isBasicLiteral pToken.type then found (.createLiteral pToken.text) s.next
    else null s

def parseListLiteral : Nat → ParserState → Parsed CypherAst
  | 0, _ => .error .fuel
  | n + 1, s => expect .lbracket id s fun _ s =>
    let pList := CypherAst.create .array []
    if s.parserPeekToken.type = .rbracket then found pList s.next
    else (parseElements n "Expected expression in list" pList s).andThen id fun pList s =>
      expect .rbracket (parserSetError "Expected closing bracket") s fun _ s => found pList s

/-- Expressions between commas, which become children of `pParent`. -/
def parseElements : Nat → String → CypherAst → ParserState → Parsed CypherAst
  | 0, _, _, _ => .error .fuel
  | n + 1, msg, pParent, s =>
    (parseExpression n s).andThen (parserSetError msg) fun pElement s =>
      if s.parserPeekToken.type = .comma then parseElements n msg (pParent.addChild pElement) s.next
      else found (pParent.addChild pElement) s

def parseMapLiteral : Nat → ParserState → Parsed CypherAst
  | 0, _ => .error .fuel
  | n + 1, s => expect .lbrace id s fun _ s =>
    let pMap := CypherAst.create .object []
    if s.parserPeekToken.type = .rbrace then found pMap s.next
    else (parseMapPairs n pMap s).andThen id fun pMap s =>
      expect .rbrace (parserSetError "Expected closing brace") s fun _ s => found pMap s

def parseMapPairs : Nat → CypherAst → ParserState → Parsed CypherAst
  | 0, _, _ => .error .fuel
  | n + 1, pMap, s =>
    let pToken := s.parserPeekToken
    if pToken.type = .identifier || pToken.type = .string then
      expect .colon (parserSetError "Expected colon after property name") s.next fun _ s =>
        (parseExpression n s).andThen (parserSetError "Expected expression after colon")
          fun pValue s =>
            let pPair := CypherAst.create .propertyPair [.createLiteral pToken.text, pValue]
            if s.parserPeekToken.type = .comma then parseMapPairs n (pMap.addChild pPair) s.next
            else found (pMap.addChild pPair) s
    else null (parserSetError "Expected property name" s)

def parseFunctionCall : Nat → CypherAst → ParserState → Parsed CypherAst
  | 0, _, _ => .error .fuel
  | n + 1, pFunctionName, s => expect .lparen id s fun _ s =>
    let pFunctionCall := CypherAst.create .functionCall [pFunctionName]
    if s.parserPeekToken.type = .rparen then found pFunctionCall s.next
    else (parseElements n "Expected expression in function call" pFunctionCall s).andThen id
      fun pFunctionCall s =>
        expect .rparen (parserSetError "Expected closing parenthesis") s
          fun _ s => found pFunctionCall s

end

end Expressions

section Clauses

open ParserState

def parseNodeLabels (s : ParserState) : Parsed CypherAst :=
  if s.parserPeekToken.type = .colon then
    expect .identifier (parserSetError "Expected node label after ':'") s.next
      fun pLabel s => found (.createNodeLabel pLabel.text) s
  else null s

def parsePropertyPairs : Nat → CypherAst → ParserState → Parsed CypherAst
  | 0, _, _ => .error .fuel
  | n + 1, pMap, s => expect .identifier (parserSetError "Expected property name") s fun pKey s =>
    expect .colon (parserSetError "Expected ':' after property name") s fun _ s =>
      (parseExpression n s).andThen (parserSetError "Expected property value expression")
        fun pValue s =>
          let pMap := pMap.addChild (.withValue .propertyPair pKey.text [pValue])
          if s.parserPeekToken.type = .comma then parsePropertyPairs n pMap s.next
          else found pMap s

def parsePropertyMap (n : Nat) (s : ParserState) : Parsed CypherAst :=
  expect .lbrace id s fun _ s =>
    let pMap := CypherAst.create .map []
    if s.parserPeekToken.type = .rbrace then found pMap s.next
    else (parsePropertyPairs n pMap s).andThen id fun pMap s =>
      expect .rbrace (parserSetError "Expected '\x7d' to close property map") s
        fun _ s => found pMap s

def parseVariable (pParent : CypherAst) (s : ParserState) : CypherAst × ParserState :=
  if s.parserPeekToken.type = .identifier then
    (pParent.addChild (.createIdentifier s.parserPeekToken.text), s.next)
  else (pParent, s)

def parseNodeProperties (n : Nat) (pNodePattern : CypherAst) (s : ParserState) :
    Except Stop (CypherAst × ParserState) :=
  if s.parserPeekToken.type = .lbrace then
    match parsePropertyMap n s with
    | .error e => .error e
    | .ok (some pProperties, s) => .ok (pNodePattern.addChild pProperties, s)
    | .ok (none, s) => .ok (pNodePattern, s)
  else .ok (pNodePattern, s)

def parseNodePattern (n : Nat) (s : ParserState) : Parsed CypherAst :=
  expect .lparen (parserSetError "Expected (") s fun _ s =>
    let (pNodePattern, s) := parseVariable (.create .nodePattern []) s
    match parseNodeLabels s with
    | .error e => .error e
    | .ok (pLabels, s) =>
      if pLabels.isNone && s.zErrorMsg.isSome then null s
      else match parseNodeProperties n (pLabels.elim pNodePattern pNodePattern.addChild) s with
        | .error e => .error e
        | .ok (pNodePattern, s) =>
          expect .rparen (parserSetError "Expected )") s fun _ s => found pNodePattern s

def parseRelType (pRelPattern : CypherAst) (s : ParserState) : Parsed CypherAst :=
  if s.parserPeekToken.type = .colon then
    expect .identifier (parserSetError "Expected relationship type after ':'") s.next
      fun pType s => found (pRelPattern.addChild (.createNodeLabel pType.text)) s
  else found pRelPattern s

def parseRelProperties (n : Nat) (pRelPattern : CypherAst) (s : ParserState) : Parsed CypherAst :=
  if s.parserPeekToken.type = .lbrace then
    match parsePropertyMap n s with
    | .error e => .error e
    | .ok (some pProperties, s) => found (pRelPattern.addChild pProperties) s
    | .ok (none, s) => if s.zErrorMsg.isSome then null s else found pRelPattern s
  else found pRelPattern s

def parseDirection (left : Bool) (s : ParserState) : Int × ParserState :=
  if s.parserPeekToken.type = .arrowRight then (if left then 0 else 1, s.next)
  else if left then (-1, s) else (0, s.next)

def parseRelPattern (n : Nat) (left : Bool) (s : ParserState) : Parsed CypherAst :=
  expect .lbracket (parserSetError "Expected '[' after '-' in relationship pattern") s fun _ s =>
    let (pRelPattern, s) := parseVariable (.create .relPattern []) s
    (parseRelType pRelPattern s).andThen id fun pRelPattern s =>
      (parseRelProperties n pRelPattern s).andThen id fun pRelPattern s =>
        expect .rbracket (parserSetError "Expected ']' after relationship pattern") s fun _ s =>
          let (iDirection, s) := parseDirection left s
          found { pRelPattern with iFlags := iDirection } s

def parseRelationships : Nat → CypherAst → ParserState → Parsed CypherAst
  | 0, _, _ => .error .fuel
  | n + 1, pPattern, s =>
    let pNext := s.parserPeekToken.type
    if pNext ∈ [.dash, .minus, .arrowLeft] then
      (parseRelPattern n (pNext = .arrowLeft) s.next).andThen id fun pRelPattern s =>
        (parseNodePattern n s).andThen (parserSetError "Expected node pattern after relationship")
          fun pTargetNode s =>
            parseRelationships n ((pPattern.addChild pRelPattern).addChild pTargetNode) s
    else found pPattern s

def parsePattern (n : Nat) (s : ParserState) : Parsed CypherAst :=
  (parseNodePattern n s).andThen id fun pNodePattern s =>
    parseRelationships n (.create .pattern [pNodePattern]) s

def parsePatternList (n : Nat) (s : ParserState) : Parsed CypherAst := parsePattern n s

def parsePatternClause (n : Nat) (token : CypherTokenType) (type : CypherAstNodeType) (msg : String)
    (s : ParserState) : Parsed CypherAst :=
  expect token (parserSetError msg) s fun _ s =>
    (parsePatternList n s).andThen id fun pPatternList s => found (.create type [pPatternList]) s

def parseMatchClause (n : Nat) : ParserState → Parsed CypherAst :=
  parsePatternClause n .match .match "Expected MATCH"

def parseCreateClause (n : Nat) : ParserState → Parsed CypherAst :=
  parsePatternClause n .create .create "Expected CREATE"

def parseMergeClause (n : Nat) : ParserState → Parsed CypherAst :=
  parsePatternClause n .merge .merge "Expected MERGE"

def parseExpressionClause (n : Nat) (token : CypherTokenType) (type : CypherAstNodeType)
    (onNull : ParserState → ParserState) (s : ParserState) : Parsed CypherAst :=
  expect token onNull s fun _ s =>
    (parseExpression n s).andThen id fun pExpr s => found (.create type [pExpr]) s

def parseSetClause (n : Nat) : ParserState → Parsed CypherAst :=
  parseExpressionClause n .set .set (parserSetError "Expected SET")

def parseDeleteClause (n : Nat) : ParserState → Parsed CypherAst :=
  parseExpressionClause n .delete .delete (parserSetError "Expected DELETE")

def parseWhereClause (n : Nat) : ParserState → Parsed CypherAst :=
  parseExpressionClause n .where .where id

def parseProjectionItem (n : Nat) (s : ParserState) : Parsed CypherAst :=
  (parseExpression n s).andThen id fun pExpr s => found (.create .projectionItem [pExpr]) s

def parseProjectionList (n : Nat) (s : ParserState) : Parsed CypherAst :=
  (parseProjectionItem n s).andThen id fun pProjectionItem s =>
    found (.create .projectionList [pProjectionItem]) s

def parseReturnClause (n : Nat) (s : ParserState) : Parsed CypherAst :=
  expect .return (parserSetError "Expected RETURN") s fun _ s =>
    (parseProjectionList n s).andThen id fun pProjectionList s =>
      found (.create .return [pProjectionList]) s

def parseFirstClause (n : Nat) (s : ParserState) : Parsed CypherAst :=
  match s.parserPeekToken.type with
  | .match => parseMatchClause n s
  | .create => parseCreateClause n s
  | .merge => parseMergeClause n s
  | .set => parseSetClause n s
  | .delete => parseDeleteClause n s
  | _ => null (parserSetError "Expected MATCH, CREATE, MERGE, SET, or DELETE" s)

def parseOptionalWhere (n : Nat) (pSingleQuery : CypherAst) (s : ParserState) :
    Except Stop (CypherAst × ParserState) :=
  if s.parserPeekToken.type = .where then
    match parseWhereClause n s with
    | .error e => .error e
    | .ok (some pWhereClause, s) => .ok (pSingleQuery.addChild pWhereClause, s)
    | .ok (none, s) => .ok (pSingleQuery, s)
  else .ok (pSingleQuery, s)

def parseOptionalReturn (n : Nat) (pSingleQuery : CypherAst) (s : ParserState) :
    Parsed CypherAst :=
  if s.parserPeekToken.type = .return then
    (parseReturnClause n s).andThen id fun pReturnClause s =>
      found (pSingleQuery.addChild pReturnClause) s
  else found pSingleQuery s

def drainTokens : Nat → ParserState → Except Stop (CypherTokenType × ParserState)
  | 0, _ => .error .fuel
  | n + 1, s =>
    let token := s.parserPeekToken
    if token.type = .eof ∨ token.type = .error then .ok (token.type, s.next)
    else drainTokens n s.next

def parseSingleQuery (n : Nat) (s : ParserState) : Parsed CypherAst :=
  (parseFirstClause n s).andThen id fun pClause s =>
    match parseOptionalWhere n (.create .singleQuery [pClause]) s with
    | .error e => .error e
    | .ok (pSingleQuery, s) =>
      (parseOptionalReturn n pSingleQuery s).andThen id fun pSingleQuery s =>
        match drainTokens n s with
        | .error e => .error e
        | .ok (token, s) =>
          if token = .error then null (parserSetError "Syntax error" s) else found pSingleQuery s

def parseQuery (n : Nat) (s : ParserState) : Parsed CypherAst :=
  (parseSingleQuery n s).andThen id fun pSingleQuery s => found (.create .query [pSingleQuery]) s

/-- The tree or NULL, and the message of a parser that is new. -/
def cypherParse (n : Nat) (zQuery : Text) : Parsed CypherAst := parseQuery n ⟨zQuery, none⟩

end Clauses

end SqliteMultimodal.Graph.Cypher
