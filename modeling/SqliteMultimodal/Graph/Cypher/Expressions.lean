import SqliteMultimodal.Lib.Except
import SqliteMultimodal.Lib.Text

/-! The evaluation of expressions.  Texts are bytes as characters. -/

namespace SqliteMultimodal.Graph.Cypher

open Except

section Code

/-- The doubles and what the code does with them.  The conversion to an integer is undefined out of
its range. -/
structure Doubles (D : Type) where
  zero : D
  ofInt : Int → D
  toInt64 : D → Option Int
  eq : D → D → Bool
  lt : D → D → Bool
  add : D → D → D
  sub : D → D → D
  mul : D → D → D
  div : D → D → D
  fmod : D → D → D
  pow : D → D → D
  fabs : D → D
  ceil : D → D
  floor : D → D
  round : D → D
  sqrt : D → D
  g6 : D → Text

/-- A `CypherValue` whose doubles are in `D`. -/
inductive CypherValueOf (D : Type)
  | null
  | boolean (b : Bool)
  | integer (i : Int)
  | float (r : D)
  | string (z : Option Text)
  | node (iNodeId : Int)
  | relationship (iRelId : Int)
  | path
  | list (values : List (CypherValueOf D))
  | map (pairs : List (Text × CypherValueOf D))

inductive CypherArithmeticOp
  | add | subtract | multiply | divide | modulo | power
  deriving DecidableEq

inductive CypherComparisonOp
  | equal | notEqual | less | lessEqual | greater | greaterEqual | isNull | isNotNull | startsWith
  | endsWith | contains | in
  deriving DecidableEq

inductive CypherLogicalOp
  | and | or | not | xor
  deriving DecidableEq

/-- A node for each case of the evaluator.  A negation is the logical node without a left operand,
`other` any node that has no case of its own. -/
inductive CypherExpression (D : Type)
  | literal (value : CypherValueOf D)
  | var (zName : Text)
  | arithmetic (pLeft pRight : CypherExpression D) (op : CypherArithmeticOp)
  | comparison (pLeft pRight : CypherExpression D) (op : CypherComparisonOp)
  | logical (pLeft pRight : CypherExpression D) (op : CypherLogicalOp)
  | negation (pRight : CypherExpression D)
  | function (zName : Text) (args : List (CypherExpression D))
  | other

/-- The codes that are returned, or no defined behaviour. -/
inductive Failure
  | error | nomem | misuse | mismatch | undefined
  deriving DecidableEq

variable {D : Type}

abbrev ExecutionContext (D : Type) := List (Text × CypherValueOf D)

def executionContextGet (pContext : ExecutionContext D) (zVar : Text) : Option (CypherValueOf D) :=
  (pContext.find? (·.1 = zVar)).map (·.2)

namespace CypherValueOf

def isNull : CypherValueOf D → Bool
  | .null => true
  | _ => false

def getBoolean : CypherValueOf D → Bool
  | .boolean b => b
  | _ => false

def isInteger : CypherValueOf D → Bool
  | .integer _ => true
  | _ => false

/-- There is memory that the destructor frees. -/
def ownsMemory : CypherValueOf D → Bool
  | .string z => z.isSome
  | .list values => !values.isEmpty
  | .map pairs => !pairs.isEmpty
  | _ => false

end CypherValueOf

mutual

def cypherValueCopy : CypherValueOf D → Option (CypherValueOf D)
  | .null => some .null
  | .boolean b => some (.boolean b)
  | .integer i => some (.integer i)
  | .float r => some (.float r)
  | .string z => some (.string z)
  | .node i => some (.node i)
  | .relationship i => some (.relationship i)
  | .list values => (copyValues values).map .list
  | .path => none
  | .map _ => none

def copyValues : List (CypherValueOf D) → Option (List (CypherValueOf D))
  | [] => some []
  | v :: vs => do return (← cypherValueCopy v) :: (← copyValues vs)

end

variable (d : Doubles D)

def sqliteMismatch : Int := 20

def signOfCompare (less greater : Bool) : Int := if less then -1 else if greater then 1 else 0

def cypherValueCompare : CypherValueOf D → CypherValueOf D → Int
  | .null, .null => 0
  | .null, _ => -1
  | _, .null => 1
  | .boolean a, .boolean b => if a = b then 0 else if a then 1 else -1
  | .integer a, .integer b => signOfCompare (a < b) (a > b)
  | .float a, .float b => signOfCompare (d.lt a b) (d.lt b a)
  | .string none, .string none => 0
  | .string none, .string (some _) => -1
  | .string (some _), .string none => 1
  | .string (some a), .string (some b) => Text.strcmp a b
  | .node a, .node b => signOfCompare (a < b) (a > b)
  | .relationship a, .relationship b => signOfCompare (a < b) (a > b)
  | _, _ => sqliteMismatch

def numeric : CypherValueOf D → Except Failure D
  | .integer i => .ok (d.ofInt i)
  | .float r => .ok r
  | _ => .error .mismatch

def CypherArithmeticOp.apply (op : CypherArithmeticOp) (a b : D) : D :=
  match op with
  | .add => d.add a b
  | .subtract => d.sub a b
  | .multiply => d.mul a b
  | .divide => d.div a b
  | .modulo => d.fmod a b
  | .power => d.pow a b

def cypherEvaluateArithmetic (pLeft pRight : CypherValueOf D) (op : CypherArithmeticOp) :
    Except Failure (CypherValueOf D) :=
  if pLeft.isNull || pRight.isNull then .ok .null
  else do
    let leftVal ← numeric d pLeft
    let rightVal ← numeric d pRight
    if (op = .divide ∨ op = .modulo) ∧ d.eq rightVal d.zero then return .null
    let result := op.apply d leftVal rightVal
    if pLeft.isInteger && pRight.isInteger && op ≠ .divide && op ≠ .power then
      return .integer (← ofOption .undefined (d.toInt64 result))
    return .float result

def compareStrings (test : Text → Text → Bool) :
    CypherValueOf D → CypherValueOf D → Except Failure (CypherValueOf D)
  | .string (some a), .string (some b) => .ok (.boolean (test a b))
  | .string _, .string _ => .error .undefined
  | _, _ => .ok .null

def compareIn (pLeft : CypherValueOf D) : CypherValueOf D → CypherValueOf D
  | .list values => .boolean (values.any fun v => cypherValueCompare d pLeft v = 0)
  | _ => .null

def cypherEvaluateComparison (pLeft pRight : CypherValueOf D) (op : CypherComparisonOp) :
    Except Failure (CypherValueOf D) :=
  let cmp := cypherValueCompare d pLeft pRight
  if op = .isNull then .ok (.boolean pLeft.isNull)
  else if op = .isNotNull then .ok (.boolean !pLeft.isNull)
  else if pLeft.isNull || pRight.isNull then .ok .null
  else match op with
    | .equal => .ok (.boolean (cmp = 0))
    | .notEqual => .ok (.boolean (cmp ≠ 0))
    | .less => .ok (.boolean (cmp < 0))
    | .lessEqual => .ok (.boolean (cmp ≤ 0))
    | .greater => .ok (.boolean (cmp > 0))
    | .greaterEqual => .ok (.boolean (cmp ≥ 0))
    | .startsWith => compareStrings (fun a b => b.isPrefixOf a) pLeft pRight
    | .endsWith => compareStrings (fun a b => b.isSuffixOf a) pLeft pRight
    | .contains => compareStrings (fun a b => (Text.strstr b a).isSome) pLeft pRight
    | .in => .ok (compareIn d pLeft pRight)
    | .isNull | .isNotNull => .error .error

def cypherEvaluateLogical (pLeft : Option (CypherValueOf D)) (pRight : CypherValueOf D) :
    CypherLogicalOp → Except Failure (CypherValueOf D)
  | .and => do
    let left ← ofOption .misuse pLeft
    if left.isNull || pRight.isNull then return .null
    return .boolean (left.getBoolean && pRight.getBoolean)
  | .or => do
    let left ← ofOption .misuse pLeft
    if left.getBoolean || pRight.getBoolean then return .boolean true
    if left.isNull || pRight.isNull then return .null
    return .boolean false
  | .not => if pRight.isNull then .ok .null else .ok (.boolean !pRight.getBoolean)
  | .xor => .error .misuse

/-- A result that may share the memory of an argument. -/
structure Returned (D : Type) where
  value : CypherValueOf D
  shared : Bool

abbrev XFunction (D : Type) := List (CypherValueOf D) → Except Failure (Returned D)

structure CypherBuiltinFunction (D : Type) where
  zName : Text
  nMinArgs : Nat
  nMaxArgs : Int
  xFunction : XFunction D

def unary (f : CypherValueOf D → Except Failure (CypherValueOf D)) : XFunction D
  | [v] => (f v).map (⟨·, false⟩)
  | _ => .error .misuse

def onText (f : Text → CypherValueOf D) : XFunction D :=
  unary fun
    | .null => .ok .null
    | .string (some z) => .ok (f z)
    | .string none => .error .undefined
    | _ => .error .mismatch

def onNumber (ofInteger : Int → Except Failure (CypherValueOf D))
    (ofFloat : D → CypherValueOf D) : XFunction D :=
  unary fun
    | .null => .ok .null
    | .integer i => ofInteger i
    | .float r => .ok (ofFloat r)
    | _ => .error .mismatch

def cypherFunctionToUpper : XFunction D :=
  onText fun z => .string (some (z.map Char.toUpper))

def cypherFunctionToLower : XFunction D :=
  onText fun z => .string (some (z.map Char.toLower))

def cypherFunctionLength : XFunction D :=
  onText fun z => .integer z.length

def cypherFunctionSize : XFunction D := cypherFunctionLength

def cypherFunctionAbs : XFunction D :=
  onNumber
    (fun i => if i = -9223372036854775808 then .error .undefined else .ok (.integer i.natAbs))
    fun r => .float (d.fabs r)

def cypherFunctionCeil : XFunction D :=
  onNumber (fun i => .ok (.integer i)) fun r => .float (d.ceil r)

def cypherFunctionFloor : XFunction D :=
  onNumber (fun i => .ok (.integer i)) fun r => .float (d.floor r)

def cypherFunctionRound : XFunction D :=
  onNumber (fun i => .ok (.integer i)) fun r => .float (d.round r)

def sqrtValue (r : D) : CypherValueOf D :=
  if d.lt (d.sqrt r) d.zero then .null else .float (d.sqrt r)

def cypherFunctionSqrt : XFunction D :=
  onNumber (fun i => .ok (sqrtValue d (d.ofInt i))) (sqrtValue d)

def CypherValueOf.toText : CypherValueOf D → Text
  | .null => "null".toList
  | .boolean b => if b then "true".toList else "false".toList
  | .integer i => Text.ofInt i
  | .float r => d.g6 r
  | .string z => '"' :: z.getD [] ++ ['"']
  | .node i => "Node(".toList ++ Text.ofInt i ++ [')']
  | .relationship i => "Relationship(".toList ++ Text.ofInt i ++ [')']
  | .path => "Unknown(7)".toList
  | .list values => "[List with ".toList ++ Text.ofInt values.length ++ " elements]".toList
  | .map pairs => '\x7b' :: "Map with ".toList ++ Text.ofInt pairs.length ++ " pairs\x7d".toList

def cypherFunctionToString : XFunction D :=
  unary fun v => .ok (.string (some (v.toText d)))

def cypherFunctionCount : XFunction D :=
  unary fun v => .ok (.integer (if v.isNull then 0 else 1))

def cypherFunctionSum : XFunction D :=
  onNumber (fun i => .ok (.integer i)) .float

def cypherFunctionAvg : XFunction D :=
  onNumber (fun i => .ok (.float (d.ofInt i))) .float

def cypherFunctionMin : XFunction D
  | [v] => .ok ⟨v, true⟩
  | _ => .error .misuse

def cypherFunctionMax : XFunction D
  | [v] => .ok ⟨v, true⟩
  | _ => .error .misuse

def builtinFunctions : List (CypherBuiltinFunction D) :=
  [⟨"toUpper".toList, 1, 1, cypherFunctionToUpper⟩,
    ⟨"toLower".toList, 1, 1, cypherFunctionToLower⟩,
    ⟨"length".toList, 1, 1, cypherFunctionLength⟩,
    ⟨"size".toList, 1, 1, cypherFunctionSize⟩,
    ⟨"abs".toList, 1, 1, cypherFunctionAbs d⟩,
    ⟨"ceil".toList, 1, 1, cypherFunctionCeil d⟩,
    ⟨"floor".toList, 1, 1, cypherFunctionFloor d⟩,
    ⟨"round".toList, 1, 1, cypherFunctionRound d⟩,
    ⟨"sqrt".toList, 1, 1, cypherFunctionSqrt d⟩,
    ⟨"toString".toList, 1, 1, cypherFunctionToString d⟩,
    ⟨"count".toList, 1, 1, cypherFunctionCount⟩,
    ⟨"sum".toList, 1, 1, cypherFunctionSum⟩,
    ⟨"avg".toList, 1, 1, cypherFunctionAvg d⟩,
    ⟨"min".toList, 1, 1, cypherFunctionMin⟩,
    ⟨"max".toList, 1, 1, cypherFunctionMax⟩]

/-- The global registry, which is empty before `cypherRegisterBuiltinFunctions` is called. -/
def registry (registered : Bool) : List (CypherBuiltinFunction D) :=
  if registered then builtinFunctions d else []

def cypherGetBuiltinFunction (functions : List (CypherBuiltinFunction D)) (zName : Text) :
    Option (CypherBuiltinFunction D) :=
  functions.find? fun f => zName.map Char.toLower = f.zName.map Char.toLower

def CypherBuiltinFunction.accepts (f : CypherBuiltinFunction D) (nArgs : Nat) : Prop :=
  ¬ (nArgs < f.nMinArgs ∨ (f.nMaxArgs ≥ 0 ∧ nArgs > f.nMaxArgs))

instance CypherBuiltinFunction.acceptsDecidable (f : CypherBuiltinFunction D) (nArgs : Nat) :
    Decidable (f.accepts nArgs) := inferInstanceAs (Decidable (¬ _))

def cypherEvaluateFunction (functions : List (CypherBuiltinFunction D)) (zName : Text) (nArgs : Nat)
    (aValues : Except Failure (List (CypherValueOf D))) : Except Failure (CypherValueOf D) := do
  let pFunc ← ofOption .error (cypherGetBuiltinFunction functions zName)
  require (pFunc.accepts nArgs) .error
  let values ← aValues
  let result ← pFunc.xFunction values
  if result.shared && result.value.ownsMemory then .error .undefined else .ok result.value

variable (functions : List (CypherBuiltinFunction D)) (pContext : ExecutionContext D)

mutual

def cypherExpressionEvaluate : CypherExpression D → Except Failure (CypherValueOf D)
  | .literal value => ofOption .nomem (cypherValueCopy value)
  | .var zName =>
    match executionContextGet pContext zName with
    | none => .ok .null
    | some value => do
      let copy ← ofOption .undefined (cypherValueCopy value)
      if copy.isNull then .error .nomem else .ok copy
  | .arithmetic pLeft pRight op => do
    let left ← cypherExpressionEvaluate pLeft
    let right ← cypherExpressionEvaluate pRight
    cypherEvaluateArithmetic d left right op
  | .comparison pLeft pRight op => do
    let left ← cypherExpressionEvaluate pLeft
    let right ← cypherExpressionEvaluate pRight
    cypherEvaluateComparison d left right op
  | .function zName args =>
    cypherEvaluateFunction functions zName args.length (evaluateArgs args)
  | .logical _ _ _ => .ok .null
  | .negation _ => .ok .null
  | .other => .ok .null

def evaluateArgs : List (CypherExpression D) → Except Failure (List (CypherValueOf D))
  | [] => .ok []
  | e :: es => do return (← cypherExpressionEvaluate e) :: (← evaluateArgs es)

end

end Code

end SqliteMultimodal.Graph.Cypher
