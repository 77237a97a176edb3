import SqliteMultimodal.Graph.Cypher.ExpressionMeaning
import SqliteMultimodal.Lib.Significand

namespace SqliteMultimodal.Graph.Cypher

open Significand

def significandBits : Nat := 53

def InInt64 (x : Int) : Prop := -9223372036854775808 ≤ x ∧ x ≤ 9223372036854775807

instance (x : Int) : Decidable (InInt64 x) := inferInstanceAs (Decidable (_ ∧ _))

def Small (x : Int) : Prop := x.natAbs ≤ 9223372036854775808

variable {D : Type} (d : Doubles D) (whole : D → Option Int)

structure RoundsWhole : Prop where
  ofInt : ∀ x, Small x → whole (d.ofInt x) = some (round significandBits x)
  zero : whole d.zero = some 0
  eq : ∀ r s x y, whole r = some x → whole s = some y → d.eq r s = decide (x = y)
  add : ∀ r s x y, whole r = some x → whole s = some y → Small x → Small y →
    whole (d.add r s) = some (round significandBits (x + y))
  sub : ∀ r s x y, whole r = some x → whole s = some y → Small x → Small y →
    whole (d.sub r s) = some (round significandBits (x - y))
  mul : ∀ r s x y, whole r = some x → whole s = some y → Small x → Small y →
    whole (d.mul r s) = some (round significandBits (x * y))
  fmod : ∀ r s x y, whole r = some x → whole s = some y → Small x → Small y → y ≠ 0 →
    whole (d.fmod r s) = some (x.tmod y)
  toInt64 : ∀ r x, whole r = some x → d.toInt64 r = if InInt64 x then some x else none

def CypherArithmeticOp.exact (op : CypherArithmeticOp) (a b : Int) : Option Int :=
  match op with
  | .add => some (a + b)
  | .subtract => some (a - b)
  | .multiply => some (a * b)
  | .modulo => if b = 0 then none else some (a.tmod b)
  | .divide | .power => none

def CypherArithmeticOp.Keeps (op : CypherArithmeticOp) (a b : Int) : Prop :=
  match op with
  | .add => Fits significandBits (a + b) ∧
      Absorbs significandBits (a + b) (error significandBits a + error significandBits b)
  | .subtract => Fits significandBits (a - b) ∧
      Absorbs significandBits (a - b) (error significandBits a - error significandBits b)
  | .multiply => Fits significandBits (a * b)
  | .modulo =>
      round significandBits b ∣ error significandBits a - a.tdiv b * error significandBits b ∧
        (a.tmod b).natAbs < (round significandBits b).natAbs
  | .divide | .power => False

section Exact

variable {d whole} {a b x : Int} {op : CypherArithmeticOp}

theorem InInt64.small (h : InInt64 x) : Small x := by
  obtain ⟨hlow, hhigh⟩ := h
  rw [Small]
  omega

theorem Small.round (h : Small x) : Small (round significandBits x) := by
  rw [Small, natAbs_round]
  exact roundNat_le_pow (k := 63) h (by decide)

def CypherArithmeticOp.rounded (op : CypherArithmeticOp) (a b : Int) : Int :=
  match op with
  | .add => Significand.round significandBits (a + b)
  | .subtract => Significand.round significandBits (a - b)
  | .multiply => Significand.round significandBits (a * b)
  | .modulo | .divide | .power => a.tmod b

theorem rounded_eq_iff (hexact : op.exact a b = some x) :
    op.rounded (round significandBits a) (round significandBits b) = x ↔ op.Keeps a b := by
  have hp : 0 < significandBits := by decide
  cases op with
  | add =>
    obtain rfl := Option.some.inj hexact
    exact round_add_round_iff hp
  | subtract =>
    obtain rfl := Option.some.inj hexact
    exact round_sub_round_iff hp
  | multiply =>
    obtain rfl := Option.some.inj hexact
    exact round_mul_round_iff hp
  | modulo =>
    by_cases hb : b = 0
    · rw [CypherArithmeticOp.exact, if_pos hb] at hexact
      cases hexact
    · rw [CypherArithmeticOp.exact, if_neg hb] at hexact
      obtain rfl := Option.some.inj hexact
      exact round_tmod_round_iff hp hb
  | divide => cases hexact
  | power => cases hexact

theorem whole_apply (hd : RoundsWhole d whole) (ha : Small a) (hb : Small b)
    (hexact : op.exact a b = some x) :
    whole (op.apply d (d.ofInt a) (d.ofInt b)) =
      some (op.rounded (round significandBits a) (round significandBits b)) := by
  have hleft := hd.ofInt a ha
  have hright := hd.ofInt b hb
  cases op with
  | add => exact hd.add _ _ _ _ hleft hright ha.round hb.round
  | subtract => exact hd.sub _ _ _ _ hleft hright ha.round hb.round
  | multiply => exact hd.mul _ _ _ _ hleft hright ha.round hb.round
  | modulo =>
    have hne : b ≠ 0 := by
      rintro rfl
      cases hexact
    exact hd.fmod _ _ _ _ hleft hright ha.round hb.round (round_ne_zero (by decide) hne)
  | divide => cases hexact
  | power => cases hexact

theorem not_divides_zero (hd : RoundsWhole d whole) (hb : Small b)
    (hexact : op.exact a b = some x) : ¬(op = .modulo ∧ d.eq (d.ofInt b) d.zero = true) := by
  rintro ⟨rfl, heq⟩
  rw [hd.eq _ _ _ _ (hd.ofInt b hb) hd.zero, decide_eq_true_eq] at heq
  have hne : b ≠ 0 := by
    rintro rfl
    cases hexact
  exact round_ne_zero (by decide) hne heq

/-- Integer arithmetic is exact just where rounding keeps the result. -/
theorem cypherEvaluateArithmetic_exact_iff (hd : RoundsWhole d whole) (ha : InInt64 a)
    (hb : InInt64 b) (hexact : op.exact a b = some x) (hx : InInt64 x) :
    cypherEvaluateArithmetic d (.integer a) (.integer b) op = .ok (.integer x) ↔
      op.Keeps a b := by
  have hdivide : op ≠ .divide := by
    rintro rfl
    cases hexact
  have hpower : op ≠ .power := by
    rintro rfl
    cases hexact
  have heval : cypherEvaluateArithmetic d (.integer a) (.integer b) op = .ok (.integer x) ↔
      d.toInt64 (op.apply d (d.ofInt a) (d.ofInt b)) = some x := by
    have hzero := not_divides_zero hd hb.small hexact
    simp only [cypherEvaluateArithmetic, CypherValueOf.isNull, CypherValueOf.isInteger, numeric,
      Bool.or_self, Bool.and_self, Bool.false_eq_true, ↓reduceIte, hdivide, hpower, hzero, ne_eq,
      false_or, not_false_eq_true, decide_true, bind_pure_comp, Except.ok_bind]
    cases d.toInt64 (op.apply d (d.ofInt a) (d.ofInt b)) <;> simp [Except.ofOption]
  rw [← rounded_eq_iff hexact, heval, hd.toInt64 _ _ (whole_apply hd ha.small hb.small hexact)]
  split
  next => exact Option.some_inj
  next hrange =>
    refine iff_of_false (Option.some_ne_none x).symm fun heq => ?_
    rw [heq] at hrange
    exact hrange hx

end Exact

section Sample

def roundedNumbers : Doubles Int :=
  { wholeNumbers with
    ofInt := round significandBits
    add := fun a b => round significandBits (a + b)
    sub := fun a b => round significandBits (a - b)
    mul := fun a b => round significandBits (a * b) }

theorem roundsWhole_roundedNumbers : RoundsWhole roundedNumbers some where
  ofInt _ _ := rfl
  zero := rfl
  eq _ _ _ _ hr hs := by rw [← Option.some.inj hr, ← Option.some.inj hs]; rfl
  add _ _ _ _ hr hs _ _ := by rw [← Option.some.inj hr, ← Option.some.inj hs]; rfl
  sub _ _ _ _ hr hs _ _ := by rw [← Option.some.inj hr, ← Option.some.inj hs]; rfl
  mul _ _ _ _ hr hs _ _ := by rw [← Option.some.inj hr, ← Option.some.inj hs]; rfl
  fmod _ _ _ _ hr hs _ _ _ := by rw [← Option.some.inj hr, ← Option.some.inj hs]; rfl
  toInt64 _ _ hr := by rw [← Option.some.inj hr]; rfl

theorem cypherEvaluateArithmetic_exact_iff_product :
    cypherEvaluateArithmetic roundedNumbers (.integer 6) (.integer 7) .multiply =
      .ok (.integer 42) ↔ CypherArithmeticOp.Keeps .multiply 6 7 :=
  cypherEvaluateArithmetic_exact_iff roundsWhole_roundedNumbers (by decide) (by decide) rfl
    (by decide)

theorem not_exact_sum : ¬∀ (op : CypherArithmeticOp) (a b x : Int), InInt64 a → InInt64 b →
    op.exact a b = some x → InInt64 x →
    cypherEvaluateArithmetic roundedNumbers (.integer a) (.integer b) op = .ok (.integer x) := by
  intro hexact
  have hsum := hexact .add 9007199254740993 0 9007199254740993 (by decide) (by decide) rfl
    (by decide)
  have heven : cypherEvaluateArithmetic roundedNumbers (.integer 9007199254740993) (.integer 0)
      .add = .ok (.integer 9007199254740992) := rfl
  rw [heven] at hsum
  cases hsum

end Sample

end SqliteMultimodal.Graph.Cypher
