import Mathlib.Algebra.Order.Field.Rat
import Mathlib.Algebra.Order.Ring.Cast
import Mathlib.Data.Int.Cast.Lemmas
import SqliteMultimodal.Graph.Cypher.Chain

namespace SqliteMultimodal.Graph.Cypher

open Pull

section Meaning

structure Conversions where
  atof : Text → ℚ
  realText : ℚ → Text
  unescape : Text → Text
  realText_ne : ∀ r, ∃ c ∈ realText r, c.isDigit = false

variable (c : Conversions)

inductive Op
  | eq | ne | lt | le | gt | ge

namespace Op

def text : Op → Text
  | eq => "=".toList
  | ne => "<>".toList
  | lt => "<".toList
  | le => "<=".toList
  | gt => ">".toList
  | ge => ">=".toList

def holds : Op → Ordering → Bool
  | eq => Ordering.isEq
  | ne => Ordering.isNe
  | lt => Ordering.isLT
  | le => Ordering.isLE
  | gt => Ordering.isGT
  | ge => Ordering.isGE

def isEquality : Op → Bool
  | eq => true
  | ne => true
  | _ => false

end Op

inductive Literal
  | integer (t : Text) (h : t ≠ [] ∧ ∀ c ∈ t, c.isDigit = true)
  | float (whole frac : Text) (h : whole ≠ [] ∧ ∀ c ∈ whole ++ frac, c.isDigit = true)
  | string (t : Text)
  | boolean (b : Bool) (t : Text) (h : t.map Char.toLower = (toString b).toList)

def Literal.text : Literal → Text
  | integer t _ => t
  | float whole frac _ => whole ++ '.' :: frac
  | string t => t
  | boolean _ t _ => t

inductive TypedValue
  | number (q : ℚ)
  | string (s : Text)
  | boolean (b : Bool)
  | compound

def Literal.typed : Literal → TypedValue
  | integer t _ => .number (Text.leading t)
  | float whole frac _ => .number (c.atof (whole ++ '.' :: frac))
  | string t => .string (c.unescape t)
  | boolean b _ _ => .boolean b

def PropertyValue.typed : PropertyValue → Option TypedValue
  | .null => none
  | .boolean b => some (.boolean b)
  | .integer i => some (.number i)
  | .real r => some (.number r)
  | .string s => some (.string s)
  | .compound _ => some .compound

def TypedValue.ordering : TypedValue → TypedValue → Option Ordering
  | number q, number q' => some (compareOfLessAndEq q q')
  | string s, string s' => some (compareOfLessAndEq (Text.strcmp s s') 0)
  | boolean b, boolean b' => some (compareOfLessAndEq b.toNat b'.toNat)
  | _, _ => none

/-- The comparison of typed values, `none` where it is unknown. -/
def Op.typed (op : Op) (a b : TypedValue) : Option Bool :=
  match a.ordering b with
  | some o => some (op.holds o)
  | none => if op.isEquality then some (op.holds .lt) else none

inductive Condition
  | property (zProperty : Text) (op : Op) (lit : Literal)
  | literal (lit : Literal) (op : Op) (zProperty : Text)
  | and (p q : Condition)
  | or (p q : Condition)
  | not (p : Condition)

def bothTrue : Option Bool → Option Bool → Option Bool
  | some false, _ => some false
  | _, some false => some false
  | some true, some true => some true
  | _, _ => none

def Condition.eval (node : NodeRow) : Condition → Option Bool
  | property zProperty op lit => do
    op.typed (← (← node.property zProperty).typed) (lit.typed c)
  | literal lit op zProperty => do
    op.typed (lit.typed c) (← (← node.property zProperty).typed)
  | and p q => bothTrue (p.eval node) (q.eval node)
  | or p q => (bothTrue ((p.eval node).map (!·)) ((q.eval node).map (!·))).map (!·)
  | not p => (p.eval node).map (!·)

end Meaning

section Trees

def propertyAst (zVar zProperty : Text) : CypherAst :=
  .create .property [.createIdentifier zVar, .createIdentifier zProperty]

def Condition.toAst (zVar : Text) : Condition → CypherAst
  | property zProperty op lit =>
    .withValue .comparison op.text [propertyAst zVar zProperty, .createLiteral lit.text]
  | literal lit op zProperty =>
    .withValue .comparison op.text [.createLiteral lit.text, propertyAst zVar zProperty]
  | and p q => .create .and [p.toAst zVar, q.toAst zVar]
  | or p q => ((CypherAst.createBinaryOp "OR".toList (p.toAst zVar) (q.toAst zVar)).addChild
      (p.toAst zVar)).addChild (q.toAst zVar)
  | not p => .create .not [p.toAst zVar]

def matchAst (zVar : Text) (zLabel : Option Text) : CypherAst :=
  .create .match [.create .pattern [nodePatternAst zVar zLabel]]

def queryAst (zVar : Text) (zLabel : Option Text) (cond : Option Condition)
    (items : List CypherAst) : CypherAst :=
  .create .singleQuery (matchAst zVar zLabel ::
    (cond.toList.map fun cond => .create .where [cond.toAst zVar]) ++ [.create .return items])

end Trees

section Texts

variable (c : Conversions)

def Op.flag : Op → Int
  | eq => 1
  | gt => 2
  | lt => 3
  | ge => 4
  | le => 5
  | ne => 6

def Op.onTexts (op : Op) (s t : Text) : Bool :=
  if op.isEquality then op.holds (compareOfLessAndEq (Text.strcmp s t) 0)
  else op.holds (compareOfLessAndEq (atoi s) (atoi t))

def Op.rel {α : Type} [LT α] [LE α] : Op → α → α → Prop
  | eq, x, y => x = y
  | ne, x, y => x ≠ y
  | lt, x, y => x < y
  | le, x, y => x ≤ y
  | gt, x, y => y < x
  | ge, x, y => y ≤ x

theorem Op.holds_iff {α : Type} [LinearOrder α] (op : Op) (x y : α) :
    op.holds (compareOfLessAndEq x y) = true ↔ op.rel x y := by
  unfold compareOfLessAndEq
  rcases lt_trichotomy x y with h | rfl | h
  · rw [if_pos h]
    cases op <;> simp [holds, rel, h, h.le, h.ne, h.not_gt]
  · rw [if_neg (lt_irrefl x), if_pos rfl]
    cases op <;> simp [holds, rel]
  · rw [if_neg h.not_gt, if_neg h.ne']
    cases op <;> simp [holds, rel, h, h.le, h.ne', h.not_gt]

theorem filterCompare_flag (op : Op) (s t : Text) :
    filterCompare op.flag s t = op.onTexts s t := by
  rw [Bool.eq_iff_iff, Op.onTexts]
  cases op <;> simp only [Op.isEquality, if_true, Bool.false_eq_true, if_false, Op.holds_iff] <;>
    exact decide_eq_true_iff

/-- An `int` from a whole number that is read as 64 bits. -/
def narrow (i : Int) : Int :=
  (BitVec.ofInt 32 (max (-9223372036854775808) (min 9223372036854775807 i))).toInt

def SameAlike : PropertyValue → Literal → Prop
  | .integer i, .integer t _ => i = Text.leading t → t = Text.ofInt i
  | .integer i, .float whole frac _ => (i : ℚ) ≠ c.atof (whole ++ '.' :: frac)
  | .real r, .integer t _ => r ≠ Text.leading t
  | .real r, .float whole frac _ =>
    c.realText r = whole ++ '.' :: frac ↔ r = c.atof (whole ++ '.' :: frac)
  | .string s, .string t => s.takeWhile (· ≠ '\x00') = t ↔ s = c.unescape t
  | .boolean b, .boolean b' _ _ => b ≠ b'
  | w, lit => w.columnText c.realText ≠ some lit.text

def OrderAlike (op : Op) : PropertyValue → Literal → Prop
  | .integer i, .integer t _ =>
    op.rel (narrow i) (narrow (Text.leading t)) ↔ op.rel i (Text.leading t)
  | .integer i, .float whole frac _ =>
    op.rel (narrow i) (narrow (Text.leading whole)) ↔
      op.rel (i : ℚ) (c.atof (whole ++ '.' :: frac))
  | .real r, .integer t _ =>
    op.rel (atoi (c.realText r)) (narrow (Text.leading t)) ↔ op.rel r (Text.leading t)
  | .real r, .float whole frac _ =>
    op.rel (atoi (c.realText r)) (narrow (Text.leading whole)) ↔
      op.rel r (c.atof (whole ++ '.' :: frac))
  | .string s, .string t =>
    op.rel (atoi (s.takeWhile (· ≠ '\x00'))) (atoi t) ↔ op.rel (Text.strcmp s (c.unescape t)) 0
  | .boolean b, .boolean b' _ _ => op.rel (b.toNat : Int) 0 ↔ op.rel b.toNat b'.toNat
  | w, lit => ∀ t ∈ w.columnText c.realText, ¬op.rel (atoi t) (atoi lit.text)

theorem leading_append {whole : Text} (h : ∀ c ∈ whole, c.isDigit = true) (t : Text) :
    Text.leading (whole ++ '.' :: t) = Text.leading whole := by
  rw [Text.leading, Text.leading, List.takeWhile_append_of_pos h,
    List.takeWhile_cons_of_neg (by decide), List.append_nil, List.takeWhile_eq_self_iff.mpr h]

theorem Literal.atoll_boolean {b : Bool} {t : Text} (h : t.map Char.toLower = (toString b).toList) :
    Text.atoll t = 0 := by
  cases t with
  | nil => cases b <;> cases h
  | cons a t =>
    apply Text.atoll_of_isAlpha
    apply Text.isAlpha_of_toLower
    cases b with
    | true => rw [(List.cons.inj h).1]; rfl
    | false => rw [(List.cons.inj h).1]; rfl

theorem Literal.atoll_digits {t u : Text} (hne : t ≠ []) (h : ∀ c ∈ t, c.isDigit = true) :
    Text.atoll (t ++ u) = Text.leading (t ++ u) := by
  obtain ⟨c, rest, rfl⟩ := List.exists_cons_of_ne_nil hne
  exact Text.atoll_of_isDigit (h c List.mem_cons_self) _

theorem Literal.atoll_integer {t : Text} (h : t ≠ [] ∧ ∀ c ∈ t, c.isDigit = true) :
    Text.atoll t = Text.leading t := by
  have := atoll_digits (u := []) h.1 h.2
  rwa [List.append_nil] at this

theorem Literal.atoll_float {whole frac : Text}
    (h : whole ≠ [] ∧ ∀ c ∈ whole ++ frac, c.isDigit = true) :
    Text.atoll (whole ++ '.' :: frac) = Text.leading whole := by
  have hwhole := fun c hc => h.2 c (List.mem_append_left frac hc)
  rw [atoll_digits h.1 hwhole, leading_append hwhole]

theorem atoi_eq (t : Text) : atoi t = narrow (Text.atoll t) := rfl

theorem Op.typed_eq (a b : TypedValue) :
    Op.typed .eq a b = some true ↔ a.ordering b = some .eq := by
  unfold typed
  rcases a.ordering b with _ | _ | _ | _ <;> simp [holds, isEquality]

theorem Op.typed_ne (a b : TypedValue) :
    Op.typed .ne a b = some true ↔ a.ordering b ≠ some .eq := by
  unfold typed
  rcases a.ordering b with _ | _ | _ | _ <;> simp [holds, isEquality]

theorem Op.rel_cast (op : Op) (i j : Int) : op.rel (i : ℚ) j ↔ op.rel i j := by
  cases op <;> simp only [rel, ne_eq, Int.cast_inj, Int.cast_lt, Int.cast_le]

section Order

variable {op : Op} {a b : TypedValue} {column : Option Text} {s t : Text}

theorem order_of_some {α : Type} [LinearOrder α] (hcolumn : column = some s) {x y : α}
    (hab : a.ordering b = some (compareOfLessAndEq x y)) :
    ((∃ s, column = some s ∧ op.rel (atoi s) (atoi t)) ↔ op.typed a b = some true) ↔
      (op.rel (atoi s) (atoi t) ↔ op.rel x y) := by
  rw [Op.typed, hab, hcolumn]
  simp [Op.holds_iff]

theorem order_of_none (hop : op.isEquality = false) (hab : a.ordering b = none) :
    ((∃ s, column = some s ∧ op.rel (atoi s) (atoi t)) ↔ op.typed a b = some true) ↔
      ∀ s ∈ column, ¬op.rel (atoi s) (atoi t) := by
  rw [Op.typed, hab]
  simp [hop]

end Order

theorem order_iff {op : Op} (hop : op.isEquality = false) {w : PropertyValue} {a : TypedValue}
    (hw : w.typed = some a) (lit : Literal) :
    ((∃ s, w.columnText c.realText = some s ∧ op.rel (atoi s) (atoi lit.text)) ↔
      op.typed a (lit.typed c) = some true) ↔ OrderAlike c op w lit := by
  cases w with
  | null => cases hw
  | boolean b =>
    cases hw
    cases lit with
    | boolean b' t h =>
      refine Iff.trans (order_of_some rfl rfl) ?_
      have hb : atoi (if b then ['1'] else ['0']) = b.toNat := by cases b <;> decide
      have hzero : narrow 0 = 0 := by decide
      rw [Literal.text, atoi_eq t, Literal.atoll_boolean h, hb, hzero]
      rfl
    | integer t h => exact order_of_none hop rfl
    | float whole frac h => exact order_of_none hop rfl
    | string t => exact order_of_none hop rfl
  | integer i =>
    cases hw
    cases lit with
    | integer t h =>
      refine Iff.trans (order_of_some rfl rfl) ?_
      rw [Literal.text, atoi_eq, atoi_eq, Literal.atoll_integer h, Text.atoll_ofInt, OrderAlike,
        ← Op.rel_cast op i]
      rfl
    | float whole frac h =>
      refine Iff.trans (order_of_some rfl rfl) ?_
      rw [Literal.text, atoi_eq, atoi_eq, Literal.atoll_float h, Text.atoll_ofInt]
      rfl
    | string t => exact order_of_none hop rfl
    | boolean b' t h => exact order_of_none hop rfl
  | real r =>
    cases hw
    cases lit with
    | integer t h =>
      refine Iff.trans (order_of_some rfl rfl) ?_
      rw [Literal.text, atoi_eq t, Literal.atoll_integer h]
      rfl
    | float whole frac h =>
      refine Iff.trans (order_of_some rfl rfl) ?_
      rw [Literal.text, atoi_eq (_ ++ _), Literal.atoll_float h]
      rfl
    | string t => exact order_of_none hop rfl
    | boolean b' t h => exact order_of_none hop rfl
  | string s =>
    cases hw
    cases lit with
    | string t => exact order_of_some rfl rfl
    | integer t h => exact order_of_none hop rfl
    | float whole frac h => exact order_of_none hop rfl
    | boolean b' t h => exact order_of_none hop rfl
  | compound json =>
    cases hw
    cases lit <;> exact order_of_none hop rfl

theorem compareOfLessAndEq_rat {q q' : ℚ} : compareOfLessAndEq q q' = .eq ↔ q = q' :=
  compareOfLessAndEq_eq_eq le_refl not_le

theorem same_of_ne {column : Option Text} {t : Text} {o : Option Ordering}
    (hne : column ≠ some t) : ((column = some t) ↔ o = some .eq) ↔ o ≠ some .eq := by
  simp [hne]

theorem Literal.ofInt_ne_float (i : Int) (whole frac : Text) :
    Text.ofInt i ≠ whole ++ '.' :: frac := by
  intro h
  have hmem : '.' ∈ Text.ofInt i := h ▸ List.mem_append_right _ List.mem_cons_self
  exact Text.not_mem_ofInt rfl (by decide) i hmem

theorem Literal.boolean_length {b : Bool} {t : Text}
    (h : t.map Char.toLower = (toString b).toList) : 4 ≤ t.length := by
  rw [← List.length_map Char.toLower, h]
  cases b <;> decide

theorem same_iff {w : PropertyValue} {a : TypedValue} (hw : w.typed = some a) (lit : Literal) :
    ((w.columnText c.realText = some lit.text) ↔ a.ordering (lit.typed c) = some .eq) ↔
      SameAlike c w lit := by
  cases w with
  | null => cases hw
  | boolean b =>
    cases hw
    cases lit with
    | boolean b' t h =>
      refine Iff.trans (same_of_ne fun heq => ?_) ?_
      · have ht : (if b then ['1'] else ['0']) = t := Option.some.inj heq
        have hlen := Literal.boolean_length h
        rw [← ht] at hlen
        cases b <;> exact absurd hlen (by decide)
      · cases b <;> cases b' <;> simp [TypedValue.ordering, Literal.typed, SameAlike,
          compareOfLessAndEq]
    | integer t h => simp [TypedValue.ordering, Literal.typed, SameAlike]
    | float whole frac h => simp [TypedValue.ordering, Literal.typed, SameAlike]
    | string t => simp [TypedValue.ordering, Literal.typed, SameAlike]
  | integer i =>
    cases hw
    cases lit with
    | integer t h =>
      simp only [PropertyValue.columnText, Literal.text, TypedValue.ordering, Literal.typed,
        Option.some.injEq, compareOfLessAndEq_rat, SameAlike]
      have hcast : (i : ℚ) = (Text.leading t : ℚ) ↔ i = Text.leading t := by
        rw [← Int.cast_natCast, Int.cast_inj]
      rw [hcast]
      constructor
      · intro hiff hi
        exact (hiff.mpr hi).symm
      · intro himp
        refine ⟨fun ht => ?_, fun hi => (himp hi).symm⟩
        rw [← Literal.atoll_integer h, ← ht, Text.atoll_ofInt]
    | float whole frac h =>
      refine Iff.trans (same_of_ne fun heq => ?_) ?_
      · exact Literal.ofInt_ne_float i whole frac (Option.some.inj heq)
      · simp [TypedValue.ordering, Literal.typed, SameAlike, compareOfLessAndEq_rat]
    | string t => simp [TypedValue.ordering, Literal.typed, SameAlike]
    | boolean b' t h => simp [TypedValue.ordering, Literal.typed, SameAlike]
  | real r =>
    cases hw
    cases lit with
    | integer t h =>
      refine Iff.trans (same_of_ne fun heq => ?_) ?_
      · obtain ⟨d, hd, hdigit⟩ := c.realText_ne r
        rw [Option.some.inj heq] at hd
        exact absurd (h.2 d hd) (by simp [hdigit])
      · simp [TypedValue.ordering, Literal.typed, SameAlike, compareOfLessAndEq_rat]
    | float whole frac h =>
      simp [PropertyValue.columnText, Literal.text, TypedValue.ordering, Literal.typed, SameAlike,
        compareOfLessAndEq_rat]
    | string t => simp [TypedValue.ordering, Literal.typed, SameAlike]
    | boolean b' t h => simp [TypedValue.ordering, Literal.typed, SameAlike]
  | string s =>
    cases hw
    cases lit with
    | string t =>
      have heq : compareOfLessAndEq (Text.strcmp s (c.unescape t)) 0 = .eq ↔ s = c.unescape t := by
        rw [compareOfLessAndEq_eq_eq le_refl not_le, Text.strcmp_eq_zero]
      simp [PropertyValue.columnText, Literal.text, TypedValue.ordering, Literal.typed, SameAlike,
        heq]
    | integer t h => simp [TypedValue.ordering, Literal.typed, SameAlike]
    | float whole frac h => simp [TypedValue.ordering, Literal.typed, SameAlike]
    | boolean b' t h => simp [TypedValue.ordering, Literal.typed, SameAlike]
  | compound json =>
    cases hw
    cases lit <;> simp [TypedValue.ordering, SameAlike]

end Texts

section Filters

variable (c : Conversions)

def Condition.Alike (node : NodeRow) : Condition → Prop
  | property zProperty op lit => ∀ w ∈ node.property zProperty,
    if op.isEquality then SameAlike c w lit else OrderAlike c op w lit
  | cond => cond.eval c node ≠ some true

def filterPlan (zVar : Text) (cond : Condition) : LogicalPlanNode :=
  match cond with
  | .property zProperty op lit => { LogicalPlanNode.ofType .propertyFilter with
      zAlias := some zVar
      zProperty := some zProperty
      zValue := some lit.text
      iFlags := op.flag
      pExtra := some (cond.toAst zVar) }
  | _ => { LogicalPlanNode.ofType .filter with pExtra := some (cond.toAst zVar) }

theorem operatorFlag_text (op : Op) : operatorFlag op.text = op.flag := by
  cases op <;> decide

theorem compileWhere_toAst (zVar : Text) (cond : Condition) :
    compileWhere [cond.toAst zVar] = some (filterPlan zVar cond) := by
  cases cond with
  | property zProperty op lit =>
    rw [filterPlan, ← operatorFlag_text]
    rfl
  | literal lit op zProperty => rfl
  | and p q => rfl
  | or p q => cases p <;> rfl
  | not p => rfl

def Condition.passes (g : GraphTables) (cond : Condition) (i : Int) : Bool :=
  match cond with
  | .property zProperty op lit =>
    ((g.node i).bind (·.property zProperty)).any fun w =>
      (w.columnText c.realText).any fun t => op.onTexts t lit.text
  | _ => false

theorem Op.onTexts_iff_same {op : Op} (hop : op.isEquality = true) {a b : TypedValue} (s t : Text) :
    (op.onTexts s t = true ↔ op.typed a b = some true) ↔ (s = t ↔ a.ordering b = some .eq) := by
  rw [onTexts, if_pos hop, holds_iff]
  cases op with
  | eq => rw [rel, Text.strcmp_eq_zero, typed_eq]
  | ne => rw [rel, Ne, Text.strcmp_eq_zero, typed_ne, Ne, not_iff_not]
  | lt => cases hop
  | le => cases hop
  | gt => cases hop
  | ge => cases hop

theorem Op.onTexts_iff_order {op : Op} (hop : op.isEquality = false) (s t : Text) :
    op.onTexts s t = true ↔ op.rel (atoi s) (atoi t) := by
  rw [onTexts, if_neg (by simp [hop]), holds_iff]

theorem alike_of_null {w : PropertyValue} (hw : w.typed = none) (op : Op) (lit : Literal) :
    if op.isEquality then SameAlike c w lit else OrderAlike c op w lit := by
  cases w with
  | null =>
    split
    · cases lit <;> simp [SameAlike, PropertyValue.columnText]
    · cases lit <;> simp [OrderAlike, PropertyValue.columnText]
  | boolean b => cases hw
  | integer i => cases hw
  | real r => cases hw
  | string s => cases hw
  | compound json => cases hw

theorem columnText_of_typed {w : PropertyValue} {a : TypedValue} (hw : w.typed = some a) :
    ∃ s, w.columnText c.realText = some s := by
  cases w with
  | null => cases hw
  | boolean b => exact ⟨_, rfl⟩
  | integer i => exact ⟨_, rfl⟩
  | real r => exact ⟨_, rfl⟩
  | string s => exact ⟨_, rfl⟩
  | compound json => exact ⟨_, rfl⟩

theorem compare_iff (op : Op) (w : PropertyValue) (lit : Literal) :
    ((w.columnText c.realText).any (fun s => op.onTexts s lit.text) = true ↔
      (w.typed.bind fun a => op.typed a (lit.typed c)) = some true) ↔
    if op.isEquality then SameAlike c w lit else OrderAlike c op w lit := by
  cases hw : w.typed with
  | none =>
    refine iff_of_true ?_ (alike_of_null c hw op lit)
    cases w with
    | null => simp [PropertyValue.columnText]
    | boolean b => cases hw
    | integer i => cases hw
    | real r => cases hw
    | string s => cases hw
    | compound json => cases hw
  | some a =>
    obtain ⟨s, hs⟩ := columnText_of_typed c hw
    rw [hs, Option.any_some, Option.bind_some]
    split
    next hop =>
      rw [Op.onTexts_iff_same hop, ← same_iff c hw, hs, Option.some.injEq]
    next hop =>
      have hop : op.isEquality = false := Bool.eq_false_iff.mpr hop
      rw [Op.onTexts_iff_order hop, ← order_iff c hop hw, hs]
      simp

theorem Condition.passes_iff {g : GraphTables} {i : Int} {node : NodeRow}
    (hnode : g.node i = some node) (cond : Condition) :
    (cond.passes c g i = true ↔ cond.eval c node = some true) ↔ cond.Alike c node := by
  cases cond with
  | property zProperty op lit =>
    rw [passes, hnode, Option.bind_some, eval, Alike]
    cases hw : node.property zProperty with
    | none => simp
    | some w =>
      have h := compare_iff c op w lit
      simpa using h
  | literal lit op zProperty => simp [passes, Alike]
  | and p q => simp [passes, Alike]
  | or p q => simp [passes, Alike]
  | not p => simp [passes, Alike]

theorem filterPasses_eq (realText : ℚ → Text) (g : GraphTables) {pPlan : PhysicalPlanNode}
    {row : Row} (zVarName zProperty zValue : Text) (halias : pPlan.zAlias = some zVarName)
    (hproperty : pPlan.zProperty = some zProperty) (hvalue : pPlan.zValue = some zValue) :
    filterPasses realText g pPlan row =
      ((columnOf row zVarName).bind (cypherValueGetProperty realText g zProperty)).any
        fun zPropValue => filterCompare pPlan.iFlags zPropValue zValue := by
  simp only [filterPasses, halias, hproperty, hvalue]
  generalize (columnOf row zVarName).bind (cypherValueGetProperty realText g zProperty) = found
  cases found with
  | none => rfl
  | some zPropValue => rfl

theorem filterPasses_filterPlan (g : GraphTables) (bUseIndexes : Bool) (zVar : Text)
    (cond : Condition) (pSource : LogicalPlanNode) (i : Int) :
    filterPasses c.realText g
      (cypherPlannerOptimize bUseIndexes ((filterPlan zVar cond).addChild pSource))
      [(zVar, .node i)] = cond.passes c g i := by
  cases cond with
  | property zProperty op lit =>
    have hcolumn : columnOf [(zVar, .node i)] zVar = some (.node i) := by
      rw [columnOf, List.find?_cons_of_pos (by simp), Option.map_some]
    rw [filterPasses_eq c.realText g zVar zProperty lit.text rfl rfl rfl, hcolumn,
      Option.bind_some, Condition.passes]
    simp only [cypherValueGetProperty]
    cases g.node i with
    | none => rfl
    | some node =>
      simp only [bind, Option.bind_some]
      cases node.property zProperty with
      | none => rfl
      | some w =>
        simp only [Option.bind_some, Option.any_some]
        cases w.columnText c.realText with
        | none => rfl
        | some s => exact filterCompare_flag op s lit.text
  | literal lit op zProperty => rfl
  | and p q => rfl
  | or p q => rfl
  | not p => rfl

end Filters

section Runs

variable {realText : ℚ → Text} {g : GraphTables} {pSource : PhysicalPlanNode} {rows : List Row}

theorem yields_filter (pPlan : PhysicalPlanNode) (htype : pPlan.type = .filter)
    (hfilter : (pPlan.pExecState.isSome || pPlan.zProperty.isSome && pPlan.zValue.isSome) = true)
    (hsource : pPlan.apChildren = [pSource])
    (h : Yields realText g pSource rows) :
    Yields realText g pPlan (rows.filter (filterPasses realText g pPlan)) := by
  obtain ⟨it, opened, hcreate, hopen, hrows⟩ := h
  refine ⟨.filter pPlan it, .filter pPlan opened, ?_, ?_, ?_⟩
  · obtain ⟨type, zAlias, zLabel, zProperty, zValue, iFlags, pExecState, apChildren⟩ := pPlan
    cases htype
    cases hsource
    simp only at hfilter
    simp only [cypherIteratorCreate, hfilter, if_true, createFirst, hcreate]
    rfl
  · rw [xOpen, hopen, Option.map_some]
  · refine hrows.filter xNext_steady (.filter pPlan) _ (fun n s s' hnext => ?_)
      fun n s s' row hnext => ?_
    · rw [xNext, hnext]
    · rw [xNext, hnext]

theorem projection_produces {pPlan : PhysicalPlanNode} {s : CypherIterator}
    (h : Produces (xNext realText g) s rows) :
    Produces (xNext realText g) (.projection pPlan s) rows := by
  induction h with
  | done hnext =>
    rename_i n s s'
    have hstep : xNext realText g (n + 1) (.projection pPlan s) =
        some (.done, .projection pPlan s') := by
      rw [xNext, hnext]
      rfl
    exact .done hstep
  | row hnext _ ih =>
    rename_i n _ _ _ _ _
    refine .row (n := n + 1) ?_ ih
    rw [xNext, hnext]
    rfl

theorem yields_projection {pPlan : PhysicalPlanNode} (htype : pPlan.type = .projection)
    (hsource : pPlan.apChildren = [pSource]) (h : Yields realText g pSource rows) :
    Yields realText g pPlan rows := by
  obtain ⟨it, opened, hcreate, hopen, hrows⟩ := h
  refine ⟨.projection pPlan it, .projection pPlan opened, ?_, ?_, projection_produces hrows⟩
  · obtain ⟨type, zAlias, zLabel, zProperty, zValue, iFlags, pExecState, apChildren⟩ := pPlan
    cases htype
    cases hsource
    simp only [cypherIteratorCreate, createFirst, hcreate]
    rfl
  · rw [xOpen, hopen, Option.map_some]

end Runs

section Queries

variable (c : Conversions) (g : GraphTables) (bUseIndexes : Bool)

def matchPlan (zVar : Text) : Option Text → LogicalPlanNode
  | none => { LogicalPlanNode.ofType .nodeScan with zAlias := some zVar }
  | some zLabel =>
    { LogicalPlanNode.ofType .labelScan with zAlias := some zVar, zLabel := some zLabel }

def matchedIds (zLabel : Option Text) : List Int :=
  scanned (match zLabel with
    | some zLabel =>
      if bUseIndexes then labelIndexQuery g zLabel else allNodesQuery g (some zLabel)
    | none => allNodesQuery g none)

def nodeRow (zVar : Text) (i : Int) : Row := [(zVar, .node i)]

theorem yields_matchPlan (zVar : Text) (zLabel : Option Text) :
    Yields c.realText g (cypherPlannerOptimize bUseIndexes (matchPlan zVar zLabel))
      ((matchedIds g bUseIndexes zLabel).map (nodeRow zVar)) := by
  cases zLabel with
  | none => exact yields_scan rfl rfl
  | some zLabel =>
    cases bUseIndexes with
    | true => exact yields_scan rfl rfl
    | false => exact yields_scan rfl rfl

theorem compileReturn_type (items : List CypherAst) : (compileReturn items).type = .projection := by
  unfold compileReturn
  repeat (first | rfl | split)

theorem compileReturn_apChildren (items : List CypherAst) :
    (compileReturn items).apChildren = [] := by
  unfold compileReturn
  repeat (first | rfl | split)

theorem yields_return {rows : List Row} (items : List CypherAst) {pLogical : LogicalPlanNode}
    (h : Yields c.realText g (cypherPlannerOptimize bUseIndexes pLogical) rows) :
    Yields c.realText g
      (cypherPlannerOptimize bUseIndexes ((compileReturn items).addChild pLogical)) rows := by
  have htype := compileReturn_type items
  have hchildren := compileReturn_apChildren items
  generalize compileReturn items = pReturn at htype hchildren
  obtain ⟨type, zAlias, zLabel, zProperty, zValue, iFlags, pExtra, apChildren⟩ := pReturn
  cases htype
  cases hchildren
  exact yields_projection rfl rfl h

theorem yields_filterPlan {ids : List Int} (zVar : Text) (cond : Condition)
    {pLogical : LogicalPlanNode} (h : Yields c.realText g
      (cypherPlannerOptimize bUseIndexes pLogical) (ids.map (nodeRow zVar))) :
    Yields c.realText g
      (cypherPlannerOptimize bUseIndexes ((filterPlan zVar cond).addChild pLogical))
      ((ids.filter (cond.passes c g)).map (nodeRow zVar)) := by
  have hpasses := funext (filterPasses_filterPlan c g bUseIndexes zVar cond pLogical)
  have hrows := yields_filter
    (cypherPlannerOptimize bUseIndexes ((filterPlan zVar cond).addChild pLogical))
    (by cases cond <;> rfl) (by cases cond <;> rfl) (by cases cond <;> rfl) h
  rw [List.filter_map] at hrows
  rwa [← hpasses]

theorem compile_match (zVar : Text) (zLabel : Option Text) (items : List CypherAst) :
    compileAstNode (queryAst zVar zLabel none items) =
      some ((compileReturn items).addChild (matchPlan zVar zLabel)) := by
  cases zLabel <;> rfl

theorem compile_where (zVar : Text) (zLabel : Option Text) (cond : Condition)
    (items : List CypherAst) :
    compileAstNode (queryAst zVar zLabel (some cond) items) =
      some ((compileReturn items).addChild
        ((filterPlan zVar cond).addChild (matchPlan zVar zLabel))) := by
  have hcompile : compileAstNode (queryAst zVar zLabel (some cond) items) =
      pipeline [some (matchPlan zVar zLabel), compileWhere [cond.toAst zVar],
        some (compileReturn items)] := by
    cases zLabel <;> rfl
  rw [hcompile, compileWhere_toAst]
  rfl

theorem answers_match (zVar : Text) (zLabel : Option Text) (items : List CypherAst) :
    Answers c.realText g bUseIndexes (queryAst zVar zLabel none items)
      ((matchedIds g bUseIndexes zLabel).map (nodeRow zVar)) :=
  Yields.answers (compile_match zVar zLabel items)
    (yields_return c g bUseIndexes items (yields_matchPlan c g bUseIndexes zVar zLabel))

theorem answers_where (zVar : Text) (zLabel : Option Text) (cond : Condition)
    (items : List CypherAst) :
    Answers c.realText g bUseIndexes (queryAst zVar zLabel (some cond) items)
      (((matchedIds g bUseIndexes zLabel).filter (cond.passes c g)).map (nodeRow zVar)) :=
  Yields.answers (compile_where zVar zLabel cond items)
    (yields_return c g bUseIndexes items (yields_filterPlan c g bUseIndexes zVar cond
      (yields_matchPlan c g bUseIndexes zVar zLabel)))

/-- WHERE keeps a row when the condition is true and only then, exactly where the two are alike.
Property names stand for members here, as identifiers do in a path. -/
theorem where_iff (zVar : Text) (zLabel : Option Text) (cond : Condition)
    (items : List CypherAst) :
    ∃ matched kept : List Int,
      Answers c.realText g bUseIndexes (queryAst zVar zLabel none items)
        (matched.map (nodeRow zVar)) ∧
      Answers c.realText g bUseIndexes (queryAst zVar zLabel (some cond) items)
        (kept.map (nodeRow zVar)) ∧
      kept.Sublist matched ∧ ∀ i ∈ matched, ∀ node, g.node i = some node →
        ((i ∈ kept ↔ cond.eval c node = some true) ↔ cond.Alike c node) := by
  refine ⟨_, _, answers_match c g bUseIndexes zVar zLabel items,
    answers_where c g bUseIndexes zVar zLabel cond items, List.filter_sublist,
    fun i hi node hnode => ?_⟩
  rw [List.mem_filter, and_iff_right hi]
  exact cond.passes_iff c hnode

end Queries

section Samples

def plainConversions : Conversions where
  atof _ := 0
  realText _ := ['.']
  unescape := id
  realText_ne _ := ⟨'.', List.mem_singleton_self _, rfl⟩

def five : GraphTables where
  nodes := [⟨1, "[]".toList, [(['x'], .integer 5)]⟩, ⟨2, "[]".toList, [(['x'], .string ['5'])]⟩]
  edges := []
  nodesNodup := by decide
  edgesNodup := by decide

def fiveLiteral : Literal :=
  .integer ['5'] ⟨List.cons_ne_nil _ _, fun c hc => by rw [List.mem_singleton.mp hc]; rfl⟩

def isFive : Condition := .property ['x'] .eq fiveLiteral

def fiveIs : Condition := .literal fiveLiteral .eq ['x']

theorem where_five :
    ∃ matched kept : List Int,
      Answers plainConversions.realText five true (queryAst ['n'] none none [])
        (matched.map (nodeRow ['n'])) ∧
      Answers plainConversions.realText five true (queryAst ['n'] none (some isFive) [])
        (kept.map (nodeRow ['n'])) ∧
      kept.Sublist matched ∧ ∀ i ∈ matched, ∀ node, five.node i = some node →
        ((i ∈ kept ↔ isFive.eval plainConversions node = some true) ↔
          isFive.Alike plainConversions node) :=
  where_iff plainConversions five true ['n'] none isFive []

theorem where_not_typed :
    (Answers plainConversions.realText five true (queryAst ['n'] none (some isFive) [])
        [nodeRow ['n'] 1, nodeRow ['n'] 2] ∧
      (five.node 2).map (isFive.eval plainConversions) = some (some false)) ∧
    Answers plainConversions.realText five true (queryAst ['n'] none (some fiveIs) []) [] ∧
      (five.node 1).map (fiveIs.eval plainConversions) = some (some true) := by
  refine ⟨⟨answers_where plainConversions five true ['n'] none isFive [], ?_⟩,
    answers_where plainConversions five true ['n'] none fiveIs [], ?_⟩
  · decide +kernel
  · decide +kernel

end Samples

end SqliteMultimodal.Graph.Cypher
