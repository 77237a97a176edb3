import SqliteMultimodal.Graph.Cypher.Expressions

namespace SqliteMultimodal.Graph.Cypher

open Except

section Compositional

variable {D : Type} (d : Doubles D) (pContext : ExecutionContext D)

def applyBuiltin (zName : Text) (values : List (CypherValueOf D)) :
    Except Failure (CypherValueOf D) := do
  let f ← ofOption .error (cypherGetBuiltinFunction (builtinFunctions d) zName)
  require (f.accepts values.length) .error
  return (← f.xFunction values).value

mutual

def meaning : CypherExpression D → Except Failure (CypherValueOf D)
  | .literal value => .ok value
  | .var zName => .ok ((executionContextGet pContext zName).getD .null)
  | .arithmetic pLeft pRight op => do
    cypherEvaluateArithmetic d (← meaning pLeft) (← meaning pRight) op
  | .comparison pLeft pRight op => do
    cypherEvaluateComparison d (← meaning pLeft) (← meaning pRight) op
  | .logical pLeft pRight op => do
    cypherEvaluateLogical (some (← meaning pLeft)) (← meaning pRight) op
  | .negation pRight => do cypherEvaluateLogical none (← meaning pRight) .not
  | .function zName args => do applyBuiltin d zName (← meaningArgs args)
  | .other => .error .undefined

def meaningArgs : List (CypherExpression D) → Except Failure (List (CypherValueOf D))
  | [] => .ok []
  | e :: es => do return (← meaning e) :: (← meaningArgs es)

end

mutual

def withoutLogic : CypherExpression D → CypherExpression D
  | .literal value => .literal value
  | .var zName => .var zName
  | .arithmetic pLeft pRight op => .arithmetic (withoutLogic pLeft) (withoutLogic pRight) op
  | .comparison pLeft pRight op => .comparison (withoutLogic pLeft) (withoutLogic pRight) op
  | .function zName args => .function zName (withoutLogicArgs args)
  | .logical _ _ _ => .literal .null
  | .negation _ => .literal .null
  | .other => .literal .null

def withoutLogicArgs : List (CypherExpression D) → List (CypherExpression D)
  | [] => []
  | e :: es => withoutLogic e :: withoutLogicArgs es

end

variable (registered : Bool)

mutual

def CypherValueOf.copyable : CypherValueOf D → Bool
  | .path => false
  | .map _ => false
  | .list values => copyableValues values
  | _ => true

def copyableValues : List (CypherValueOf D) → Bool
  | [] => true
  | v :: vs => v.copyable && copyableValues vs

end

/-- The call leaves its result in memory of its own, or needs none. -/
def Kept (zName : Text) (values : List (CypherValueOf D)) : Prop :=
  ∀ f, cypherGetBuiltinFunction (builtinFunctions d) zName = some f →
    ∀ result, f.xFunction values = .ok result → result.shared = true →
      result.value.ownsMemory = false

mutual

def Readable : CypherExpression D → Prop
  | .literal value => value.copyable = true
  | .var zName => ∀ value, executionContextGet pContext zName = some value →
    value.copyable = true ∧ value.isNull = false
  | .arithmetic pLeft pRight _ => Readable pLeft ∧ Readable pRight
  | .comparison pLeft pRight _ => Readable pLeft ∧ Readable pRight
  | .function zName args => registered = true ∧ ReadableArgs args ∧
    ∀ values, meaningArgs d pContext (withoutLogicArgs args) = .ok values → Kept d zName values
  | .logical _ _ _ => True
  | .negation _ => True
  | .other => True

def ReadableArgs : List (CypherExpression D) → Prop
  | [] => True
  | e :: es => Readable e ∧ ReadableArgs es

end

mutual

theorem cypherValueCopy_eq (v : CypherValueOf D) :
    cypherValueCopy v = if v.copyable then some v else none := by
  cases v with
  | list values =>
    rw [cypherValueCopy, copyValues_eq, CypherValueOf.copyable]
    split
    · rfl
    · rfl
  | null => rfl
  | boolean b => rfl
  | integer i => rfl
  | float r => rfl
  | string z => rfl
  | node i => rfl
  | relationship i => rfl
  | path => rfl
  | map pairs => rfl

theorem copyValues_eq (vs : List (CypherValueOf D)) :
    copyValues vs = if copyableValues vs then some vs else none := by
  cases vs with
  | nil => rfl
  | cons v vs =>
    rw [copyValues, cypherValueCopy_eq v, copyValues_eq vs, copyableValues]
    cases v.copyable with
    | false => rfl
    | true =>
      cases copyableValues vs with
      | false => rfl
      | true => rfl

end

theorem cypherValueCopy_eq_some {v w : CypherValueOf D} :
    cypherValueCopy v = some w ↔ v.copyable = true ∧ v = w := by
  rw [cypherValueCopy_eq]
  split
  next h => simp [h]
  next h => simp [h]

theorem kept_eq_ok {result : Returned D} {v : CypherValueOf D} :
    (if result.shared && result.value.ownsMemory then .error .undefined else .ok result.value :
      Except Failure (CypherValueOf D)) = .ok v ↔
      (result.shared = true → result.value.ownsMemory = false) ∧ result.value = v := by
  cases result.shared with
  | false => simp
  | true =>
    cases result.value.ownsMemory with
    | false => simp
    | true => simp

theorem cypherEvaluateFunction_eq_ok {zName : Text} {n : Nat}
    {aValues : Except Failure (List (CypherValueOf D))} {v : CypherValueOf D} :
    cypherEvaluateFunction (registry d registered) zName n aValues = .ok v ↔ registered = true ∧
      ∃ f, cypherGetBuiltinFunction (builtinFunctions d) zName = some f ∧ f.accepts n ∧
        ∃ values, aValues = .ok values ∧ ∃ result, f.xFunction values = .ok result ∧
          (result.shared = true → result.value.ownsMemory = false) ∧ result.value = v := by
  cases registered with
  | false => simp [cypherEvaluateFunction, registry, cypherGetBuiltinFunction]
  | true =>
    simp only [cypherEvaluateFunction, registry, if_true, bind_eq_ok, ofOption_eq_ok, require_eq_ok,
      exists_and_left, true_and, kept_eq_ok, exists_const]

theorem applyBuiltin_eq_ok {zName : Text} {values : List (CypherValueOf D)} {v : CypherValueOf D} :
    applyBuiltin d zName values = .ok v ↔
      ∃ f, cypherGetBuiltinFunction (builtinFunctions d) zName = some f ∧
        f.accepts values.length ∧
          ∃ result, f.xFunction values = .ok result ∧ result.value = v := by
  simp only [applyBuiltin, bind_eq_ok, ofOption_eq_ok, require_eq_ok, exists_and_left, exists_const,
    pure_eq_ok]

theorem length_of_meaningArgs {es : List (CypherExpression D)} {values : List (CypherValueOf D)}
    (h : meaningArgs d pContext es = .ok values) : values.length = es.length := by
  induction es generalizing values with
  | nil =>
    obtain rfl := Except.ok.inj h
    rfl
  | cons e es ih =>
    simp only [meaningArgs, bind_eq_ok, pure_eq_ok] at h
    obtain ⟨v, -, vs, hvs, rfl⟩ := h
    rw [List.length_cons, List.length_cons, ih hvs]

theorem length_withoutLogicArgs (es : List (CypherExpression D)) :
    (withoutLogicArgs es).length = es.length := by
  induction es with
  | nil => rfl
  | cons e es ih => rw [withoutLogicArgs, List.length_cons, List.length_cons, ih]

mutual

theorem cypherExpressionEvaluate_eq_ok (e : CypherExpression D) (v : CypherValueOf D) :
    cypherExpressionEvaluate d (registry d registered) pContext e = .ok v ↔
      Readable d pContext registered e ∧ meaning d pContext (withoutLogic e) = .ok v := by
  cases e with
  | literal value =>
    rw [cypherExpressionEvaluate, ofOption_eq_ok, cypherValueCopy_eq_some, Readable, withoutLogic,
      meaning, Except.ok.injEq]
  | var zName =>
    rw [cypherExpressionEvaluate, Readable, withoutLogic, meaning]
    cases executionContextGet pContext zName with
    | none => simp
    | some value =>
      simp only [bind_eq_ok, ofOption_eq_ok, cypherValueCopy_eq_some, Option.some.injEq,
        Option.getD_some, Except.ok.injEq]
      cases hnull : value.isNull with
      | false => simp_all
      | true => simp_all
  | arithmetic pLeft pRight op =>
    simp only [cypherExpressionEvaluate, withoutLogic, meaning, Readable, bind_eq_ok,
      cypherExpressionEvaluate_eq_ok pLeft, cypherExpressionEvaluate_eq_ok pRight]
    grind
  | comparison pLeft pRight op =>
    simp only [cypherExpressionEvaluate, withoutLogic, meaning, Readable, bind_eq_ok,
      cypherExpressionEvaluate_eq_ok pLeft, cypherExpressionEvaluate_eq_ok pRight]
    grind
  | logical pLeft pRight op => simp [cypherExpressionEvaluate, withoutLogic, meaning, Readable]
  | negation pRight => simp [cypherExpressionEvaluate, withoutLogic, meaning, Readable]
  | function zName args =>
    have hargs := evaluateArgs_eq_ok args
    simp only [cypherExpressionEvaluate, withoutLogic, meaning, Readable, bind_eq_ok,
      cypherEvaluateFunction_eq_ok, applyBuiltin_eq_ok, hargs, Kept]
    constructor
    · rintro ⟨hreg, f, hf, haccepts, values, ⟨hread, hvalues⟩, result, hresult, hkept, hv⟩
      have hlen := length_of_meaningArgs d pContext hvalues
      rw [length_withoutLogicArgs] at hlen
      refine ⟨⟨hreg, hread, fun values' hvalues' f' hf' result' hresult' => ?_⟩,
        values, hvalues, f, hf, hlen ▸ haccepts, result, hresult, hv⟩
      obtain rfl := Except.ok.inj (hvalues.symm.trans hvalues')
      obtain rfl := Option.some.inj (hf.symm.trans hf')
      obtain rfl := Except.ok.inj (hresult.symm.trans hresult')
      exact hkept
    · rintro ⟨⟨hreg, hread, hkept⟩, values, hvalues, f, hf, haccepts, result, hresult, hv⟩
      have hlen := length_of_meaningArgs d pContext hvalues
      rw [length_withoutLogicArgs] at hlen
      exact ⟨hreg, f, hf, hlen ▸ haccepts, values, ⟨hread, hvalues⟩, result, hresult,
        hkept values hvalues f hf result hresult, hv⟩
  | other => simp [cypherExpressionEvaluate, withoutLogic, meaning, Readable]

theorem evaluateArgs_eq_ok (es : List (CypherExpression D)) (values : List (CypherValueOf D)) :
    evaluateArgs d (registry d registered) pContext es = .ok values ↔
      ReadableArgs d pContext registered es ∧
        meaningArgs d pContext (withoutLogicArgs es) = .ok values := by
  cases es with
  | nil => simp [evaluateArgs, ReadableArgs, withoutLogicArgs, meaningArgs]
  | cons e es =>
    simp only [evaluateArgs, ReadableArgs, withoutLogicArgs, meaningArgs, bind_eq_ok, pure_eq_ok,
      cypherExpressionEvaluate_eq_ok e, evaluateArgs_eq_ok es]
    grind

end

/-- An expression that has a value is evaluated to it if and only if what the evaluator comes to can
be read and null in place of the logical nodes leads to the same value. -/
theorem cypherExpressionEvaluate_compositional_iff {e : CypherExpression D} {v : CypherValueOf D}
    (h : meaning d pContext e = .ok v) :
    cypherExpressionEvaluate d (registry d registered) pContext e = .ok v ↔
      Readable d pContext registered e ∧
        meaning d pContext (withoutLogic e) = meaning d pContext e := by
  rw [cypherExpressionEvaluate_eq_ok, h]

end Compositional

section Sample

def wholeNumbers : Doubles Int where
  zero := 0
  ofInt i := i
  toInt64 i := if -9223372036854775808 ≤ i ∧ i ≤ 9223372036854775807 then some i else none
  eq a b := a = b
  lt a b := a < b
  add a b := a + b
  sub a b := a - b
  mul a b := a * b
  div a b := a.tdiv b
  fmod a b := a.tmod b
  pow a b := (List.replicate b.toNat a).foldl (· * ·) 1
  fabs a := a.natAbs
  ceil a := a
  floor a := a
  round a := a
  sqrt a := a.toNat.sqrt
  g6 a := Text.ofInt a

def sumInList : CypherExpression Int :=
  .comparison (.arithmetic (.literal (.integer 1)) (.var ['x']) .add)
    (.literal (.list [.integer 3, .string (some ['a'])])) .in

theorem sumInList_evaluate :
    cypherExpressionEvaluate wholeNumbers (registry wholeNumbers true) [(['x'], .integer 2)]
      sumInList = .ok (.boolean true) :=
  (cypherExpressionEvaluate_compositional_iff wholeNumbers [(['x'], .integer 2)] true rfl).mpr
    ⟨⟨⟨rfl, fun _ h => by cases h; exact ⟨rfl, rfl⟩⟩, rfl⟩, rfl⟩

theorem conjunction_null :
    meaning wholeNumbers [] (.logical (.literal (.boolean true)) (.literal (.boolean true)) .and) =
        .ok (.boolean true) ∧
      cypherExpressionEvaluate wholeNumbers (registry wholeNumbers true) []
        (.logical (.literal (.boolean true)) (.literal (.boolean true)) .and) ≠
        .ok (.boolean true) :=
  ⟨rfl, fun h => by cases h⟩

end Sample

end SqliteMultimodal.Graph.Cypher
