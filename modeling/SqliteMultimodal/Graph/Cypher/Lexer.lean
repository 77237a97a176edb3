import SqliteMultimodal.Lib.Text

/-! The lexer.  Its state is what is left of the input, which is a text without NUL; lines, columns
and the lexer's own message are left out. -/

namespace SqliteMultimodal.Graph.Cypher

section Code

inductive CypherTokenType
  | eof | error | match | optional | where | return | create | merge | set | delete | detach
  | remove | with | union | as | order | by | asc | desc | limit | skip | distinct | and | or | xor
  | not | in | startsWith | endsWith | contains | isNull | null | eq | ne | lt | le | gt | ge | plus
  | minus | mult | div | mod | pow | dot | colon | comma | semicolon | lparen | rparen | lbracket
  | rbracket | lbrace | rbrace | dash | arrowRight | arrowLeft | arrowBoth | pipe | regex | dollar
  | integer | float | string | boolean | identifier
  deriving DecidableEq

structure CypherToken where
  type : CypherTokenType
  text : Text
  deriving DecidableEq

def lexerSkipWhitespace (t : Text) : Text := t.dropWhile Text.isSpace

def afterBlock : Text → Text
  | [] => []
  | [_] => []
  | c :: d :: t => if c = '*' ∧ d = '/' then t else afterBlock (d :: t)

def lexerSkipComment : Text → Text
  | '/' :: '/' :: t => t.dropWhile (· ≠ '\n')
  | '/' :: '*' :: t => afterBlock t
  | t => t

def keywords : List (Text × CypherTokenType) :=
  [("AS".toList, .as), ("BY".toList, .by), ("IS".toList, .isNull), ("IN".toList, .in),
    ("OR".toList, .or), ("AND".toList, .and), ("ASC".toList, .asc), ("NOT".toList, .not),
    ("SET".toList, .set), ("XOR".toList, .xor), ("DESC".toList, .desc), ("SKIP".toList, .skip),
    ("WITH".toList, .with), ("NULL".toList, .null), ("TRUE".toList, .boolean),
    ("MATCH".toList, .match), ("LIMIT".toList, .limit), ("MERGE".toList, .merge),
    ("ORDER".toList, .order), ("UNION".toList, .union), ("WHERE".toList, .where),
    ("FALSE".toList, .boolean), ("CREATE".toList, .create), ("DELETE".toList, .delete),
    ("DETACH".toList, .detach), ("REMOVE".toList, .remove), ("RETURN".toList, .return),
    ("DISTINCT".toList, .distinct), ("OPTIONAL".toList, .optional),
    ("CONTAINS".toList, .contains)]

def cypherGetKeywordToken (zKeyword : Text) : CypherTokenType :=
  ((keywords.find? (·.1 = zKeyword.map Char.toUpper)).map (·.2)).getD .identifier

def isWordChar (c : Char) : Bool := c.isAlphanum || c = '_'

def lexerTokenizeIdentifier (t : Text) : CypherToken × Text :=
  (⟨cypherGetKeywordToken (t.takeWhile isWordChar), t.takeWhile isWordChar⟩, t.dropWhile isWordChar)

def lexerTokenizeNumber (t : Text) : CypherToken × Text :=
  match t.dropWhile Char.isDigit with
  | '.' :: rest =>
    (⟨.float, t.takeWhile Char.isDigit ++ '.' :: rest.takeWhile Char.isDigit⟩,
      rest.dropWhile Char.isDigit)
  | rest => (⟨.integer, t.takeWhile Char.isDigit⟩, rest)

def stringBody (quote : Char) : Text → Option (Text × Text)
  | [] => none
  | c :: t =>
    if c = quote then some ([], t)
    else if c = '\\' then
      match t with
      | [] => none
      | d :: t => (stringBody quote t).map fun r => (c :: d :: r.1, r.2)
    else (stringBody quote t).map fun r => (c :: r.1, r.2)

def lexerTokenizeString (quote : Char) (t : Text) : CypherToken × Text :=
  match stringBody quote t with
  | some (content, rest) => (⟨.string, content⟩, rest)
  | none => (⟨.error, quote :: t⟩, [])

def operators : List (Text × CypherTokenType) :=
  [("=~".toList, .regex), ("=".toList, .eq), ("<>".toList, .ne), ("<->".toList, .arrowBoth),
    ("<-".toList, .arrowLeft), ("<=".toList, .le), ("<".toList, .lt), (">=".toList, .ge),
    (">".toList, .gt), ("->".toList, .arrowRight), ("-".toList, .minus), ("+".toList, .plus),
    ("*".toList, .mult), ("/".toList, .div), ("%".toList, .mod), ("^".toList, .pow),
    (".".toList, .dot), (":".toList, .colon), (",".toList, .comma), (";".toList, .semicolon),
    ("(".toList, .lparen), (")".toList, .rparen), ("[".toList, .lbracket), ("]".toList, .rbracket),
    (['\x7b'], .lbrace), (['\x7d'], .rbrace), ("|".toList, .pipe), ("$".toList, .dollar)]

def lexerTokenizeOperator (t : Text) : CypherToken × Text :=
  match operators.find? (·.1.isPrefixOf t) with
  | some op => (⟨op.2, op.1⟩, t.drop op.1.length)
  | none => (⟨.error, t.take 1⟩, t.drop 1)

def cypherLexerNextToken (input : Text) : CypherToken × Text :=
  match lexerSkipComment (lexerSkipWhitespace input) with
  | [] => (⟨.eof, []⟩, [])
  | c :: t =>
    if c.isAlpha || c = '_' then lexerTokenizeIdentifier (c :: t)
    else if c.isDigit then lexerTokenizeNumber (c :: t)
    else if c = '\x27' || c = '"' then lexerTokenizeString c t
    else lexerTokenizeOperator (c :: t)

end Code

end SqliteMultimodal.Graph.Cypher
