import SqliteMultimodal.Graph.Cypher.ExpressionMeaning
import SqliteMultimodal.Lib.Compare
import Mathlib.Algebra.Order.Field.Rat
import Mathlib.Algebra.Order.Ring.Cast
import Mathlib.Data.Char
import Mathlib.Data.List.Lex
import Mathlib.Order.WithBot

namespace SqliteMultimodal.Graph.Cypher

variable {D : Type} (d : Doubles D) (value : D → ℚ)

structure ExactOrder : Prop where
  lt_iff : ∀ a b, d.lt a b = true ↔ value a < value b

inductive Comparand : CypherValueOf D → Prop
  | boolean (b : Bool) : Comparand (.boolean b)
  | integer (i : Int) : Comparand (.integer i)
  | float (r : D) : Comparand (.float r)
  | string (z : Option Text) : Comparand (.string z)
  | node (i : Int) : Comparand (.node i)
  | relationship (i : Int) : Comparand (.relationship i)
  | list (values : List (CypherValueOf D)) (h : ∀ v ∈ values, Comparand v) :
      Comparand (.list values)

def Compares (op : CypherComparisonOp) (a b : CypherValueOf D) : Prop :=
  cypherEvaluateComparison d a b op = .ok (.boolean true)

def CypherValueOf.number : CypherValueOf D → Option ℚ
  | .integer i => some i
  | .float r => some (value r)
  | _ => none

structure Consistent (a b : CypherValueOf D) : Prop where
  less_iff : Compares d .less a b ↔ Compares d .greater b a
  lessEqual_iff : Compares d .lessEqual a b ↔ Compares d .greaterEqual b a
  equal_iff : Compares d .equal a b ↔ Compares d .equal b a
  notEqual_iff : Compares d .notEqual a b ↔ ¬Compares d .equal a b
  not_less_equal : ¬(Compares d .less a b ∧ Compares d .equal a b)
  not_less_greater : ¬(Compares d .less a b ∧ Compares d .greater a b)
  not_equal_greater : ¬(Compares d .equal a b ∧ Compares d .greater a b)
  numbers : ∀ x y, a.number value = some x → b.number value = some y →
    (Compares d .less a b ↔ x < y) ∧ (Compares d .equal a b ↔ x = y) ∧
      (Compares d .greater a b ↔ y < x)
  strings : ∀ s t, a = .string s → b = .string t →
    Compares d .less a b ∨ Compares d .equal a b ∨ Compares d .greater a b
  less_trans : ∀ c, Comparand c → Compares d .less a b → Compares d .less b c →
    Compares d .less a c
  lists : ∀ values, a = .list values → b = .list values → Compares d .equal a b

inductive Alike : CypherValueOf D → CypherValueOf D → Prop
  | boolean (a b : Bool) : Alike (.boolean a) (.boolean b)
  | integer (a b : Int) : Alike (.integer a) (.integer b)
  | float (a b : D) : Alike (.float a) (.float b)
  | string (a b : Option Text) : Alike (.string a) (.string b)
  | node (a b : Int) : Alike (.node a) (.node b)
  | relationship (a b : Int) : Alike (.relationship a) (.relationship b)

section Sign

variable {d value} {a b c : CypherValueOf D}

def CypherComparisonOp.ofSign : CypherComparisonOp → Int → Bool
  | .equal, cmp => cmp = 0
  | .notEqual, cmp => cmp ≠ 0
  | .less, cmp => cmp < 0
  | .lessEqual, cmp => cmp ≤ 0
  | .greater, cmp => 0 < cmp
  | .greaterEqual, cmp => 0 ≤ cmp
  | _, _ => false

theorem Comparand.not_isNull (h : Comparand a) : a.isNull = false := by
  cases h <;> rfl

theorem compares_iff (ha : Comparand a) (hb : Comparand b) {op : CypherComparisonOp}
    (hop : op ∈ [.equal, .notEqual, .less, .lessEqual, .greater, .greaterEqual]) :
    Compares d op a b ↔ op.ofSign (cypherValueCompare d a b) = true := by
  have hnull : (a.isNull || b.isNull) = false := by rw [ha.not_isNull, hb.not_isNull]; rfl
  simp only [List.mem_cons, List.not_mem_nil, or_false] at hop
  obtain rfl | rfl | rfl | rfl | rfl | rfl := hop <;>
    simp [Compares, cypherEvaluateComparison, hnull, CypherComparisonOp.ofSign]

theorem compares_equal (ha : Comparand a) (hb : Comparand b) :
    Compares d .equal a b ↔ cypherValueCompare d a b = 0 :=
  (compares_iff ha hb (by decide)).trans decide_eq_true_iff

theorem compares_less (ha : Comparand a) (hb : Comparand b) :
    Compares d .less a b ↔ cypherValueCompare d a b < 0 :=
  (compares_iff ha hb (by decide)).trans decide_eq_true_iff

theorem compares_greater (ha : Comparand a) (hb : Comparand b) :
    Compares d .greater a b ↔ 0 < cypherValueCompare d a b :=
  (compares_iff ha hb (by decide)).trans decide_eq_true_iff

theorem compares_notEqual (ha : Comparand a) (hb : Comparand b) :
    Compares d .notEqual a b ↔ cypherValueCompare d a b ≠ 0 :=
  (compares_iff ha hb (by decide)).trans decide_eq_true_iff

theorem compares_lessEqual (ha : Comparand a) (hb : Comparand b) :
    Compares d .lessEqual a b ↔ cypherValueCompare d a b ≤ 0 :=
  (compares_iff ha hb (by decide)).trans decide_eq_true_iff

theorem compares_greaterEqual (ha : Comparand a) (hb : Comparand b) :
    Compares d .greaterEqual a b ↔ 0 ≤ cypherValueCompare d a b :=
  (compares_iff ha hb (by decide)).trans decide_eq_true_iff

theorem compare_of_not_alike (ha : Comparand a) (hb : Comparand b) (h : ¬Alike a b) :
    cypherValueCompare d a b = sqliteMismatch := by
  cases ha <;> cases hb <;> first | rfl | exact absurd (by constructor) h

theorem Alike.symm (h : Alike a b) : Alike b a := by
  cases h <;> constructor

end Sign

section Orders

variable {d value} {a b c : CypherValueOf D}

theorem threeWay_sign {α : Type*} [LinearOrder α] {x y : α} {less greater : Bool}
    (hless : less = true ↔ x < y) (hgreater : greater = true ↔ y < x) :
    ThreeWay (signOfCompare less greater) x y := by
  rw [signOfCompare]
  split_ifs with h₁ h₂
  · exact .of_lt (hless.mp h₁)
  · exact .of_gt (hgreater.mp h₂)
  · exact .of_eq (le_antisymm (not_lt.mp (mt hgreater.mpr h₂)) (not_lt.mp (mt hless.mpr h₁)))

theorem threeWay_boolean (x y : Bool) :
    ThreeWay (cypherValueCompare d (.boolean x) (.boolean y)) x y := by
  cases x <;> cases y
  · exact .of_eq rfl
  · exact .of_lt (by decide)
  · exact .of_gt (by decide)
  · exact .of_eq rfl

theorem threeWay_int (x y : Int) : ThreeWay (signOfCompare (x < y) (x > y)) x y :=
  threeWay_sign decide_eq_true_iff decide_eq_true_iff

theorem threeWay_float (hd : ExactOrder d value) (x y : D) :
    ThreeWay (cypherValueCompare d (.float x) (.float y)) (value x) (value y) :=
  threeWay_sign (hd.lt_iff x y) (hd.lt_iff y x)

theorem threeWay_strcmp (s t : Text) : ThreeWay (Text.strcmp s t) s t := by
  induction s generalizing t with
  | nil =>
    cases t with
    | nil => exact .of_eq rfl
    | cons b t => exact .of_lt (List.nil_lt_cons b t)
  | cons a s ih =>
    cases t with
    | nil => exact .of_gt (List.nil_lt_cons a s)
    | cons b t =>
      rw [Text.strcmp]
      split_ifs with heq hlt
      · rw [heq]
        exact ⟨(ih t).neg.trans (by simp), (ih t).pos.trans (by simp)⟩
      · exact .of_lt (List.cons_lt_cons_iff.mpr (.inl hlt))
      · have hle : b ≤ a := not_lt.mp hlt
        exact .of_gt (List.cons_lt_cons_iff.mpr (.inl (lt_of_le_of_ne hle (Ne.symm heq))))

theorem threeWay_string (s t : Option Text) :
    @ThreeWay (WithBot Text) _ (cypherValueCompare d (.string s) (.string t)) s t := by
  cases s with
  | none =>
    cases t with
    | none => exact .of_eq rfl
    | some t => exact .of_lt (WithBot.bot_lt_coe t)
  | some s =>
    cases t with
    | none => exact .of_gt (WithBot.bot_lt_coe s)
    | some t =>
      have h := threeWay_strcmp s t
      exact ⟨h.neg.trans WithBot.coe_lt_coe.symm, h.pos.trans WithBot.coe_lt_coe.symm⟩

end Orders

section Laws

variable {d value} {a b c : CypherValueOf D}

theorem Alike.ordered (hd : ExactOrder d value) (h : Alike a b) :
    ∃ (α : Type) (_ : LinearOrder α) (x y : α), ThreeWay (cypherValueCompare d a b) x y ∧
      ThreeWay (cypherValueCompare d b a) y x := by
  cases h with
  | boolean x y => exact ⟨Bool, _, x, y, threeWay_boolean x y, threeWay_boolean y x⟩
  | integer x y => exact ⟨Int, _, x, y, threeWay_int x y, threeWay_int y x⟩
  | float x y => exact ⟨ℚ, _, _, _, threeWay_float hd x y, threeWay_float hd y x⟩
  | string s t => exact ⟨WithBot Text, _, s, t, threeWay_string s t, threeWay_string t s⟩
  | node x y => exact ⟨Int, _, x, y, threeWay_int x y, threeWay_int y x⟩
  | relationship x y => exact ⟨Int, _, x, y, threeWay_int x y, threeWay_int y x⟩

theorem Alike.trans (hd : ExactOrder d value) (hab : Alike a b) (hbc : Alike b c)
    (hlt : cypherValueCompare d a b < 0) (hlt' : cypherValueCompare d b c < 0) :
    cypherValueCompare d a c < 0 := by
  cases hab with
  | boolean x y =>
    cases hbc with
    | boolean _ z =>
      exact (threeWay_boolean x y).trans (threeWay_boolean y z) (threeWay_boolean x z) hlt hlt'
  | integer x y =>
    cases hbc with
    | integer _ z => exact (threeWay_int x y).trans (threeWay_int y z) (threeWay_int x z) hlt hlt'
  | float x y =>
    cases hbc with
    | float _ z =>
      exact (threeWay_float hd x y).trans (threeWay_float hd y z) (threeWay_float hd x z) hlt hlt'
  | string s t =>
    cases hbc with
    | string _ u =>
      exact (threeWay_string s t).trans (threeWay_string t u) (threeWay_string s u) hlt hlt'
  | node x y =>
    cases hbc with
    | node _ z => exact (threeWay_int x y).trans (threeWay_int y z) (threeWay_int x z) hlt hlt'
  | relationship x y =>
    cases hbc with
    | relationship _ z =>
      exact (threeWay_int x y).trans (threeWay_int y z) (threeWay_int x z) hlt hlt'

theorem alike_of_lt (ha : Comparand a) (hb : Comparand b) (hlt : cypherValueCompare d a b < 0) :
    Alike a b := by
  by_contra h
  rw [compare_of_not_alike ha hb h] at hlt
  exact absurd hlt (by decide)

theorem Alike.numbers (hd : ExactOrder d value) (h : Alike a b) {x y : ℚ}
    (hx : a.number value = some x) (hy : b.number value = some y) :
    ThreeWay (cypherValueCompare d a b) x y := by
  cases h with
  | integer i j =>
    obtain rfl := Option.some.inj hx
    obtain rfl := Option.some.inj hy
    have h := threeWay_int i j
    exact ⟨h.neg.trans Int.cast_lt.symm, h.pos.trans Int.cast_lt.symm⟩
  | float r s =>
    obtain rfl := Option.some.inj hx
    obtain rfl := Option.some.inj hy
    exact threeWay_float hd r s
  | boolean x y => cases hx
  | string s t => cases hx
  | node i j => cases hx
  | relationship i j => cases hx

theorem Alike.consistent (hd : ExactOrder d value) (ha : Comparand a) (hb : Comparand b)
    (h : Alike a b) : Consistent d value a b where
  less_iff := by
    obtain ⟨α, _, x, y, hc, hc'⟩ := h.ordered hd
    rw [compares_less ha hb, compares_greater hb ha, hc.neg, hc'.pos]
  lessEqual_iff := by
    obtain ⟨α, _, x, y, hc, hc'⟩ := h.ordered hd
    rw [compares_lessEqual ha hb, compares_greaterEqual hb ha, hc.nonpos, hc'.nonneg]
  equal_iff := by
    obtain ⟨α, _, x, y, hc, hc'⟩ := h.ordered hd
    rw [compares_equal ha hb, compares_equal hb ha, hc.zero, hc'.zero, eq_comm]
  notEqual_iff := by
    rw [compares_notEqual ha hb, compares_equal ha hb]
  not_less_equal := by
    rw [compares_less ha hb, compares_equal ha hb]
    omega
  not_less_greater := by
    rw [compares_less ha hb, compares_greater ha hb]
    omega
  not_equal_greater := by
    rw [compares_equal ha hb, compares_greater ha hb]
    omega
  numbers x y hx hy := by
    rw [compares_less ha hb, compares_equal ha hb, compares_greater ha hb]
    have hway := h.numbers hd hx hy
    exact ⟨hway.neg, hway.zero, hway.pos⟩
  strings _ _ _ _ := by
    rw [compares_less ha hb, compares_equal ha hb, compares_greater ha hb]
    omega
  less_trans c hc := by
    rw [compares_less ha hb, compares_less hb hc, compares_less ha hc]
    exact fun hlt hlt' => h.trans hd (alike_of_lt hb hc hlt') hlt hlt'
  lists values ha' hb' := by
    rw [ha', hb'] at h
    cases h

/-- The operators are consistent on two values just if these are of one type that is no list. -/
theorem comparison_consistent_iff (hd : ExactOrder d value) (ha : Comparand a)
    (hb : Comparand b) : Consistent d value a b ↔ Alike a b := by
  refine ⟨fun hlaws => ?_, fun h => h.consistent hd ha hb⟩
  by_contra h
  have hless := hlaws.less_iff
  rw [compares_less ha hb, compares_greater hb ha, compare_of_not_alike ha hb h,
    compare_of_not_alike hb ha fun hba => h hba.symm] at hless
  exact absurd (hless.mpr (by decide)) (by decide)

theorem exactOrder_wholeNumbers : ExactOrder wholeNumbers Int.cast where
  lt_iff _ _ := decide_eq_true_iff.trans Int.cast_lt.symm

theorem comparison_consistent_iff_integers :
    Consistent wholeNumbers Int.cast (.integer 1) (.integer 2) :=
  (comparison_consistent_iff exactOrder_wholeNumbers (.integer 1) (.integer 2)).mpr (.integer 1 2)

theorem not_consistent_mixed : ¬∀ a b : CypherValueOf Int, Comparand a → Comparand b →
    Consistent wholeNumbers Int.cast a b := by
  intro hlaws
  have hless := (hlaws (.integer 1) (.string (some ['a'])) (.integer 1) (.string _)).less_iff
  rw [compares_less (.integer 1) (.string _), compares_greater (.string _) (.integer 1)] at hless
  exact absurd (hless.mpr (by decide)) (by decide)

end Laws

end SqliteMultimodal.Graph.Cypher
