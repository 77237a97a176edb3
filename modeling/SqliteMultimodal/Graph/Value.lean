import Mathlib.Data.Rat.Defs
import SqliteMultimodal.Lib.RowTable
import SqliteMultimodal.Lib.Text

namespace SqliteMultimodal.Graph

inductive ResultCode
  | ok | error | nomem | toobig | constraint | misuse | format | range
  deriving DecidableEq

inductive CypherValue
  | null
  | boolean (b : Bool)
  | integer (i : Int)
  | float (r : ℚ)
  | string (z : Option Text)
  | node (iNodeId : Int)
  | relationship (iRelId : Int)
  | path
  | list (values : List CypherValue)
  | map (pairs : List (Text × CypherValue))

structure NodeRow where
  labels : Option Text
  properties : Option Text
  deriving DecidableEq

/-- What the code takes from the C library and from SQLite: the conversions `%g`, `%.6g` and
`%.15g`, and the JSON functions, which fail on text that is not JSON.  A property is the path
`$.property`, a label the path `$[i]`.  `pastedUpdate` is what
`UPDATE graph_nodes SET labels = 'zLabels' WHERE node_id = iNodeId` makes of the nodes where a quote
in `zLabels` ends the literal and the rest of the text is read as SQL. -/
structure Host where
  g : ℚ → Text
  g6 : ℚ → Text
  g15 : ℚ → Text
  jsonSet (doc property value : Text) : Option Text
  jsonExtract (doc property : Text) : Option Text
  jsonAppend (doc label : Text) : Option Text
  labelIs (doc : Text) (i : Nat) (label : Text) : Option Bool
  propertyIs (doc property value : Text) : Option Bool
  pastedUpdate (zLabels : Text) (iNodeId : Int) (nodes : RowTable NodeRow) : RowTable NodeRow

variable (host : Host)

def boolText (b : Bool) : Text := if b then "true".toList else "false".toList

def quoted (t : Text) : Text := '"' :: t ++ ['"']

def bracketed (t : Text) : Text := '[' :: t ++ [']']

def braced (t : Text) : Text := '{' :: t ++ ['}']

def jsonEscape (t : Text) : Text := t.flatMap fun c =>
  if c = '"' then ['\\', '"']
  else if c = '\\' then ['\\', '\\']
  else if c = '\n' then ['\\', 'n']
  else if c = '\r' then ['\\', 'r']
  else if c = '\t' then ['\\', 't']
  else [c]

mutual

def cypherValueToJson : CypherValue → Text
  | .null => "null".toList
  | .boolean b => boolText b
  | .integer i => Text.ofInt i
  | .float r => host.g15 r
  | .string z => quoted (jsonEscape (z.getD []))
  | .list values => bracketed (Text.join ',' (listToJson values))
  | .map pairs => braced (Text.join ',' (mapToJson pairs))
  | .node i => braced ("\"_type\":\"node\",\"_id\":".toList ++ Text.ofInt i)
  | .relationship i => braced ("\"_type\":\"relationship\",\"_id\":".toList ++ Text.ofInt i)
  | .path => "null".toList

def listToJson : List CypherValue → List Text
  | [] => []
  | v :: vs => cypherValueToJson v :: listToJson vs

def mapToJson : List (Text × CypherValue) → List Text
  | [] => []
  | (k, v) :: vs => (quoted k ++ ':' :: cypherValueToJson v) :: mapToJson vs

end

/-- The number of the type `CYPHER_VALUE_PATH` is `7`. -/
def cypherValueToString : CypherValue → Text
  | .null => "null".toList
  | .boolean b => boolText b
  | .integer i => Text.ofInt i
  | .float r => host.g6 r
  | .string z => quoted (z.getD [])
  | .node i => "Node(".toList ++ Text.ofInt i ++ [')']
  | .relationship i => "Relationship(".toList ++ Text.ofInt i ++ [')']
  | .path => "Unknown(7)".toList
  | .list values => "[List with ".toList ++ Text.ofInt values.length ++ " elements]".toList
  | .map pairs => braced ("Map with ".toList ++ Text.ofInt pairs.length ++ " pairs".toList)

def cypherSanitizeString (t : Text) : Text := t.flatMap fun c =>
  if c = Text.quote ∨ c = '"' ∨ c = '\\' then ['\\', c]
  else if c.toNat < 32 ∧ c ≠ '\t' ∧ c ≠ '\n' ∧ c ≠ '\r' then []
  else [c]

section Names

def maxNameLength : Nat := 255

def isValidName : Text → Bool
  | [] => false
  | c :: t => (c :: t).length ≤ maxNameLength && (c.isAlpha || c = '_') &&
    t.all fun d => d.isAlphanum || d = '_'

def isValidLabelName : Text → Bool := isValidName
def isValidPropertyName : Text → Bool := isValidName
def isValidVariableName : Text → Bool := isValidName

def reserved : List String :=
  ["CREATE", "MERGE", "SET", "DELETE", "DETACH", "MATCH", "WHERE", "RETURN", "WITH", "UNWIND",
    "OPTIONAL", "UNION", "ORDER", "BY", "SKIP", "LIMIT", "ASC", "DESC", "AND", "OR", "NOT", "XOR",
    "CASE", "WHEN", "THEN", "ELSE", "END", "AS", "DISTINCT", "TRUE", "FALSE", "NULL", "IN", "IS",
    "STARTS", "ENDS", "CONTAINS"]

def isReservedWord (t : Text) : Bool :=
  reserved.any fun word => t.map Char.toUpper = word.toList

end Names

end SqliteMultimodal.Graph
