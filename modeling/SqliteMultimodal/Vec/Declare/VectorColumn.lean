import SqliteMultimodal.Vec.Declare.Keys
import SqliteMultimodal.Vec.Storage.Defs

namespace SqliteMultimodal.Vec.Declare

open Storage (VectorElementType)

inductive Vec0DistanceMetrics
  | l2 | cosine | l1
  deriving DecidableEq

structure VectorColumnDefinition where
  name : Text
  elementType : VectorElementType
  dimensions : Nat
  distanceMetric : Vec0DistanceMetrics
  deriving DecidableEq

def Vec0Token.begins (token : Vec0Token) (keyword : String) : Bool :=
  strnicmp token.start keyword.toList keyword.toList.length

def vectorElementType (token : Vec0Token) : Option VectorElementType :=
  if token.begins "float" || token.begins "f32" then some .float32
  else if token.begins "int8" || token.begins "i8" then some .int8
  else if token.begins "bit" then some .bit
  else none

def distanceMetric (token : Vec0Token) : Option Vec0DistanceMetrics :=
  if token.abbreviates "l2" then some .l2
  else if token.abbreviates "l1" then some .l1
  else if token.abbreviates "cosine" then some .cosine
  else none

/-- A number that is not an `int` is undefined behaviour. -/
def atoi (t : Text) : Except Stop Int :=
  if -2147483648 ≤ Text.atoll t ∧ Text.atoll t ≤ 2147483647 then .ok (Text.atoll t)
  else .error .undefined

/-- `rc != VEC0_TOKEN_RESULT_SOME || token.token_type != TOKEN_TYPE_IDENTIFIER`, which only the type
of the column is checked for. -/
def expectIdentifier (rc : ResultCode) (s : Vec0Scanner) :
    Except Stop (Vec0Token × Vec0Scanner) :=
  match vec0TokenNext s.rest with
  | .some token rest =>
    if token.type = .identifier then .ok (token, ⟨rest, some token⟩) else .error (.code rc)
  | .eof | .error => .error (.code rc)

def parseColumnOption (elementType : VectorElementType) (s : Vec0Scanner) :
    Except Stop (Vec0DistanceMetrics × Vec0Scanner) := do
  let (key, s) ← expectToken [.identifier] sqliteError s
  Except.require (key.abbreviates "distance_metric") (.code sqliteError)
  Except.require (elementType ≠ .bit) (.code sqliteError)
  let (_, s) ← expectToken [.eq] sqliteError s
  let (value, s) ← expectToken [.identifier] sqliteError s
  let metric ← Except.ofOption (.code sqliteError) (distanceMetric value)
  .ok (metric, s)

def parseColumnOptions (elementType : VectorElementType) :
    Nat → Vec0DistanceMetrics → Vec0Scanner → Except Stop Vec0DistanceMetrics
  | 0, _, _ => .error .undefined
  | fuel + 1, metric, s =>
    match vec0TokenNext s.rest with
    | .eof => .ok metric
    | .some _ _ | .error => do
      let (metric, s) ← parseColumnOption elementType s
      parseColumnOptions elementType fuel metric s

def vec0ParseVectorColumn (source : Text) : Except Stop VectorColumnDefinition := do
  let (name, s) ← expectToken [.identifier] sqliteEmpty ⟨source, none⟩
  let (type, s) ← expectIdentifier sqliteEmpty s
  let elementType ← Except.ofOption (.code sqliteEmpty) (vectorElementType type)
  let (_, s) ← expectToken [.lbracket] sqliteEmpty s
  let (digits, s) ← expectToken [.digit] sqliteError s
  let dimensions ← atoi digits.start
  Except.require (0 < dimensions) (.code sqliteError)
  let (_, s) ← expectToken [.rbracket] sqliteError s
  let metric ← parseColumnOptions elementType (s.rest.length + 1) .l2 s
  .ok ⟨name.text, elementType, dimensions.toNat, metric⟩

section Options

variable {elementType : VectorElementType} {metric metric' : Vec0DistanceMetrics} {t rest : Text}
  {l key value : Lexeme} {s' : Vec0Scanner} {fuel : Nat}

def Lexeme.Chooses (l : Lexeme) : Vec0DistanceMetrics → Prop
  | .l2 => l.Abbreviates "l2"
  | .l1 => ¬l.Abbreviates "l2" ∧ l.Abbreviates "l1"
  | .cosine => ¬l.Abbreviates "l2" ∧ ¬l.Abbreviates "l1" ∧ l.Abbreviates "cosine"

inductive OptionsAccepted (elementType : VectorElementType) :
    Vec0DistanceMetrics → Text → Vec0DistanceMetrics → Prop
  | done {metric : Vec0DistanceMetrics} {t : Text} :
    Blank t → OptionsAccepted elementType metric t metric
  | option {metric chosen metric' : Vec0DistanceMetrics} {t rest : Text} {key eq value : Lexeme} :
    elementType ≠ .bit → Spells [key, eq, value] t rest → key.Abbreviates "distance_metric" →
      value.Chooses chosen → OptionsAccepted elementType chosen rest metric' →
      OptionsAccepted elementType metric t metric'
  | last {metric chosen : Vec0DistanceMetrics} {t rest : Text} {key value : Lexeme} :
    elementType ≠ .bit → Spells [key, value] t rest → Blank rest →
      key.Abbreviates "distance_metric" → value.type = .identifier → value.Chooses chosen →
      OptionsAccepted elementType metric t chosen

def Vec0DistanceMetrics.Named (w : Text) : Vec0DistanceMetrics → Prop
  | .l2 => Whole w "l2"
  | .l1 => Whole w "l1"
  | .cosine => Whole w "cosine"

inductive OptionsSpelled (elementType : VectorElementType) :
    Vec0DistanceMetrics → Text → Vec0DistanceMetrics → Prop
  | done {metric : Vec0DistanceMetrics} {t : Text} :
    Blank t → OptionsSpelled elementType metric t metric
  | option {metric chosen metric' : Vec0DistanceMetrics} {t rest key value : Text} :
    elementType ≠ .bit →
      Spells [⟨.identifier, key⟩, ⟨.eq, ['=']⟩, ⟨.identifier, value⟩] t rest →
      Whole key "distance_metric" → chosen.Named value →
      OptionsSpelled elementType chosen rest metric' → OptionsSpelled elementType metric t metric'

theorem distanceMetric_eq_some :
    distanceMetric (l.token rest) = some metric ↔ l.Chooses metric := by
  have hl2 : (l.token rest).abbreviates "l2" = true ↔ _ := l.abbreviates_iff
  have hl1 : (l.token rest).abbreviates "l1" = true ↔ _ := l.abbreviates_iff
  have hcosine : (l.token rest).abbreviates "cosine" = true ↔ _ := l.abbreviates_iff
  unfold distanceMetric
  cases metric with
  | l2 =>
    simp only [Lexeme.Chooses, ← hl2]
    split_ifs with h h' h'' <;> simp [h]
  | l1 =>
    simp only [Lexeme.Chooses, ← hl2, ← hl1]
    split_ifs with h h' h'' <;> simp_all
  | cosine =>
    simp only [Lexeme.Chooses, ← hl2, ← hl1, ← hcosine]
    split_ifs with h h' h'' <;> simp_all

theorem Vec0DistanceMetrics.Named.chooses {w : Text} (h : metric.Named w) :
    Lexeme.Chooses ⟨.identifier, w⟩ metric := by
  have hnot {keyword keyword' : String} (h : Whole w keyword)
      (hkeyword : ¬lower keyword.toList <+: lower keyword'.toList) :
      ¬Lexeme.Abbreviates ⟨.identifier, w⟩ keyword' := by
    intro habbr
    refine hkeyword ?_
    rw [← show lower w = _ from h]
    exact habbr
  cases metric with
  | l2 => exact Whole.abbreviates h
  | l1 => exact ⟨hnot h (by decide), Whole.abbreviates h⟩
  | cosine => exact ⟨hnot h (by decide), hnot h (by decide), Whole.abbreviates h⟩

theorem parseColumnOption_eq_ok :
    parseColumnOption elementType (l.scanner t) = .ok (metric, s') ↔
      elementType ≠ .bit ∧ ∃ key value rest,
        ((∃ eq, Spells [key, eq, value] t rest) ∨
          Spells [key, value] t rest ∧ ¬Starts rest ∧ value.type = .identifier) ∧
        key.Abbreviates "distance_metric" ∧ value.Chooses metric ∧ s' = value.scanner rest := by
  constructor
  · intro h
    unfold parseColumnOption at h
    obtain ⟨⟨token₁, s₁⟩, h₁, h⟩ := Except.bind_eq_ok.mp h
    obtain ⟨key, rest₁, hkey, rfl, rfl⟩ := expectToken_next.mp h₁
    obtain ⟨_, habbr, h⟩ := Except.bind_eq_ok.mp h
    obtain ⟨_, hbit, h⟩ := Except.bind_eq_ok.mp h
    obtain ⟨⟨token₂, s₂⟩, h₂, h⟩ := Except.bind_eq_ok.mp h
    obtain ⟨eq, rest₂, heq, rfl, rfl⟩ := expectToken_next.mp h₂
    obtain ⟨⟨token₃, s₃⟩, h₃, h⟩ := Except.bind_eq_ok.mp h
    obtain ⟨value, rest₃, hvalue, rfl, rfl⟩ := expectToken_next.mp h₃
    obtain ⟨chosen, hchosen, h⟩ := Except.bind_eq_ok.mp h
    obtain ⟨rfl, rfl⟩ := Prod.mk.inj (Except.ok.inj h)
    rw [Except.require_eq_ok] at habbr hbit
    rw [Except.ofOption_eq_ok, distanceMetric_eq_some] at hchosen
    refine ⟨hbit, key, value, rest₃, ?_, Lexeme.abbreviates_iff.mp habbr, hchosen, rfl⟩
    obtain hvalue | ⟨hnot, htype, rfl, rfl⟩ := hvalue
    · have heq := heq.spells ⟨value, rest₃, hvalue⟩
      have hkey := hkey.spells ⟨eq, rest₂, heq⟩
      exact .inl ⟨eq, Spells.cons_iff.mpr ⟨rest₁, hkey, Spells.cons_iff.mpr ⟨rest₂, heq, hvalue⟩⟩⟩
    · have htype := List.mem_singleton.mp htype
      obtain heq | ⟨-, htype', rfl, -⟩ := heq
      · have hkey := hkey.spells ⟨value, rest₃, heq⟩
        exact .inr ⟨Spells.cons_iff.mpr ⟨rest₁, hkey, heq⟩, hnot, htype⟩
      · rw [htype] at htype'
        exact absurd htype' (by decide)
  · rintro ⟨hbit, key, value, rest, hspells, habbr, hchosen, rfl⟩
    obtain ⟨eq, rest₁, rest₂, hkey, heq, hvalue⟩ : ∃ eq rest₁ rest₂, Spells [key] t rest₁ ∧
        Passes [.eq] key rest₁ eq rest₂ ∧ Passes [.identifier] eq rest₂ value rest := by
      obtain ⟨eq, hspells⟩ | ⟨hspells, hnot, htype⟩ := hspells
      · obtain ⟨rest₁, hkey, hspells⟩ := Spells.cons_iff.mp hspells
        obtain ⟨rest₂, heq, hvalue⟩ := Spells.cons_iff.mp hspells
        exact ⟨eq, rest₁, rest₂, hkey, .inl heq, .inl hvalue⟩
      · obtain ⟨rest₁, hkey, hvalue⟩ := Spells.cons_iff.mp hspells
        exact ⟨value, rest₁, rest, hkey, .inl hvalue,
          .inr ⟨hnot, List.mem_singleton.mpr htype, rfl, rfl⟩⟩
    unfold parseColumnOption
    refine Except.bind_eq_ok.mpr ⟨_, expectToken_next.mpr ⟨key, rest₁, .inl hkey, rfl, rfl⟩, ?_⟩
    refine Except.bind_eq_ok.mpr
      ⟨⟨⟩, Except.require_eq_ok.mpr (Lexeme.abbreviates_iff.mpr habbr), ?_⟩
    refine Except.bind_eq_ok.mpr ⟨⟨⟩, Except.require_eq_ok.mpr hbit, ?_⟩
    refine Except.bind_eq_ok.mpr ⟨_, expectToken_next.mpr ⟨eq, rest₂, heq, rfl, rfl⟩, ?_⟩
    refine Except.bind_eq_ok.mpr ⟨_, expectToken_next.mpr ⟨value, rest, hvalue, rfl, rfl⟩, ?_⟩
    exact Except.bind_eq_ok.mpr
      ⟨metric, Except.ofOption_eq_ok.mpr (distanceMetric_eq_some.mpr hchosen), rfl⟩

theorem parseColumnOption_defined :
    parseColumnOption elementType (l.scanner t) ≠ .error .undefined := by
  refine Except.bind_ne_error expectToken_next_defined ?_
  rintro ⟨_, _⟩ h₁
  obtain ⟨key, rest₁, -, rfl, rfl⟩ := expectToken_next.mp h₁
  refine Except.bind_ne_error (Except.require_ne_error (by decide)) fun _ _ => ?_
  refine Except.bind_ne_error (Except.require_ne_error (by decide)) fun _ _ => ?_
  refine Except.bind_ne_error expectToken_next_defined ?_
  rintro ⟨_, _⟩ h₂
  obtain ⟨eq, rest₂, -, rfl, rfl⟩ := expectToken_next.mp h₂
  refine Except.bind_ne_error expectToken_next_defined ?_
  rintro ⟨_, _⟩ -
  refine Except.bind_ne_error (Except.ofOption_ne_error (by decide)) fun _ _ h => ?_
  cases h

theorem parseColumnOptions_of_blank (h : Blank t) :
    parseColumnOptions elementType (fuel + 1) metric (l.scanner t) = .ok metric := by
  rw [parseColumnOptions]
  simp only [Lexeme.scanner, vec0TokenNext_eq_eof_iff.mpr h]

theorem parseColumnOptions_of_not_blank (h : ¬Blank t) :
    parseColumnOptions elementType (fuel + 1) metric (l.scanner t) =
      parseColumnOption elementType (l.scanner t) >>= fun step =>
        parseColumnOptions elementType fuel step.1 step.2 := by
  rw [parseColumnOptions]
  cases hnext : vec0TokenNext (l.scanner t).rest with
  | eof => exact absurd (vec0TokenNext_eq_eof_iff.mp hnext) h
  | some token rest => rfl
  | error => rfl

theorem OptionsAccepted.of_not_starts (h : OptionsAccepted elementType metric t metric')
    (hstarts : ¬Starts t) : Blank t ∧ metric' = metric := by
  cases h with
  | done hblank => exact ⟨hblank, rfl⟩
  | option _ hspells =>
    obtain ⟨t', hkey, -⟩ := Spells.cons_iff.mp hspells
    exact absurd ⟨_, t', hkey⟩ hstarts
  | last _ hspells =>
    obtain ⟨t', hkey, -⟩ := Spells.cons_iff.mp hspells
    exact absurd ⟨_, t', hkey⟩ hstarts

theorem parseColumnOptions_eq_ok (hfuel : t.length < fuel) :
    parseColumnOptions elementType fuel metric (l.scanner t) = .ok metric' ↔
      OptionsAccepted elementType metric t metric' := by
  constructor
  · intro h
    induction fuel generalizing l t metric with
    | zero => exact absurd hfuel (Nat.not_lt_zero _)
    | succ fuel ih =>
      by_cases hblank : Blank t
      · rw [parseColumnOptions_of_blank hblank] at h
        obtain rfl := Except.ok.inj h
        exact .done hblank
      · rw [parseColumnOptions_of_not_blank hblank] at h
        obtain ⟨⟨chosen, s'⟩, hoption, h⟩ := Except.bind_eq_ok.mp h
        obtain ⟨hbit, key, value, rest, hspells, habbr, hchosen, rfl⟩ :=
          parseColumnOption_eq_ok.mp hoption
        obtain ⟨eq, hspells⟩ | ⟨hspells, hnot, htype⟩ := hspells
        · have hlt := hspells.length_lt
          exact .option hbit hspells habbr hchosen (ih (by omega) h)
        · have hlt := hspells.length_lt
          obtain ⟨hblank, rfl⟩ := (ih (by omega) h).of_not_starts hnot
          exact .last hbit hspells hblank habbr htype hchosen
  · intro h
    induction h generalizing l fuel with
    | done hblank =>
      obtain ⟨fuel, rfl⟩ := Nat.exists_eq_succ_of_ne_zero (Nat.ne_zero_of_lt hfuel)
      exact parseColumnOptions_of_blank hblank
    | @option metric chosen metric' t rest key eq value hbit hspells habbr hchosen _ ih =>
      obtain ⟨fuel, rfl⟩ := Nat.exists_eq_succ_of_ne_zero (Nat.ne_zero_of_lt hfuel)
      have hlt := hspells.length_lt
      rw [Nat.succ_eq_add_one, parseColumnOptions_of_not_blank hspells.not_blank]
      refine Except.bind_eq_ok.mpr ⟨(chosen, value.scanner rest), ?_, ih (by omega)⟩
      exact parseColumnOption_eq_ok.mpr
        ⟨hbit, key, value, rest, .inl ⟨eq, hspells⟩, habbr, hchosen, rfl⟩
    | @last metric chosen t rest key value hbit hspells hblank habbr htype hchosen =>
      obtain ⟨fuel, rfl⟩ := Nat.exists_eq_succ_of_ne_zero (Nat.ne_zero_of_lt hfuel)
      have hlt := hspells.length_lt
      rw [Nat.succ_eq_add_one, parseColumnOptions_of_not_blank hspells.not_blank]
      refine Except.bind_eq_ok.mpr ⟨(chosen, value.scanner rest), ?_, ?_⟩
      · exact parseColumnOption_eq_ok.mpr
          ⟨hbit, key, value, rest, .inr ⟨hspells, hblank.not_starts, htype⟩, habbr, hchosen, rfl⟩
      · obtain ⟨fuel, rfl⟩ := Nat.exists_eq_succ_of_ne_zero (n := fuel) (by omega)
        exact parseColumnOptions_of_blank hblank

theorem parseColumnOptions_defined (hfuel : t.length < fuel) :
    parseColumnOptions elementType fuel metric (l.scanner t) ≠ .error .undefined := by
  induction fuel generalizing l t metric with
  | zero => exact absurd hfuel (Nat.not_lt_zero _)
  | succ fuel ih =>
    by_cases hblank : Blank t
    · rw [parseColumnOptions_of_blank hblank]
      intro h
      cases h
    · rw [parseColumnOptions_of_not_blank hblank]
      refine Except.bind_ne_error parseColumnOption_defined ?_
      rintro ⟨chosen, s'⟩ hoption
      obtain ⟨-, key, value, rest, hspells, -, -, rfl⟩ := parseColumnOption_eq_ok.mp hoption
      obtain ⟨eq, hspells⟩ | ⟨hspells, -, -⟩ := hspells
      · have hlt := hspells.length_lt
        exact ih (by omega)
      · have hlt := hspells.length_lt
        exact ih (by omega)

end Options

section ElementType

variable {w rest t : Text} {keyword : String} {elementType : VectorElementType} {rc : ResultCode}
  {l : Lexeme} {token : Vec0Token} {s' : Vec0Scanner}

def ElementTypeBegun (w : Text) : VectorElementType → Prop
  | .float32 => lower "float".toList <+: lower w ∨ lower "f32".toList <+: lower w
  | .int8 => lower "int8".toList <+: lower w ∨ lower "i8".toList <+: lower w
  | .bit => lower "bit".toList <+: lower w

def ElementTypeNamed (w : Text) : VectorElementType → Prop
  | .float32 => Whole w "float" ∨ Whole w "f32"
  | .int8 => Whole w "int8" ∨ Whole w "i8"
  | .bit => Whole w "bit"

theorem Whole.begun (h : Whole w keyword) : lower keyword.toList <+: lower w :=
  List.prefix_iff_eq_take.mpr (by rw [h, List.take_length])

theorem ElementTypeNamed.begun (h : ElementTypeNamed w elementType) :
    ElementTypeBegun w elementType := by
  cases elementType with
  | float32 => exact h.imp Whole.begun Whole.begun
  | int8 => exact h.imp Whole.begun Whole.begun
  | bit => exact Whole.begun h

theorem isWordChar_of_toLower {c : Char} (h : isWordChar c.toLower = true) :
    isWordChar c = true := by
  by_cases hu : c.isUpper = true
  · refine isWordChar_of_isAlpha ?_
    change (c.isUpper || c.isLower) = true
    rw [hu, Bool.true_or]
  · have heq : c.toLower = c := by
      unfold Char.toLower
      exact dif_neg fun hupper => hu (decide_eq_true hupper)
    rwa [heq] at h

theorem begins_iff (hkeyword : (lower keyword.toList).all isWordChar = true)
    (hstops : Lexeme.Stops ⟨.identifier, w⟩ rest) :
    (Lexeme.token ⟨.identifier, w⟩ rest).begins keyword = true ↔
      lower keyword.toList <+: lower w := by
  have htext : (Lexeme.token ⟨.identifier, w⟩ rest).begins keyword = true ↔
      lower keyword.toList <+: lower w ++ lower rest := by
    have hkey : (lower keyword.toList).take keyword.toList.length = lower keyword.toList :=
      List.take_of_length_le (by simp [lower])
    have happend : lower (w ++ rest) = lower w ++ lower rest := List.map_append
    rw [Vec0Token.begins, strnicmp_iff, hkey, List.prefix_iff_eq_take, ← happend, eq_comm]
    simp only [lower, List.length_map]
    rfl
  rw [htext]
  refine ⟨fun h => ?_, fun h => h.trans (List.prefix_append _ _)⟩
  obtain h' | ⟨more, hmore⟩ :=
    List.prefix_or_prefix_of_prefix h (List.prefix_append (lower w) (lower rest))
  · exact h'
  · cases more with
    | nil =>
      have heq : lower keyword.toList = lower w := hmore.symm.trans (List.append_nil _)
      exact heq ▸ List.prefix_refl _
    | cons c more =>
      rw [← hmore, List.prefix_append_right_inj] at h
      have hc := List.all_eq_true.mp hkeyword c
        (hmore ▸ List.mem_append_right _ List.mem_cons_self)
      cases rest with
      | nil => exact absurd (List.eq_nil_of_prefix_nil h) (List.cons_ne_nil c more)
      | cons d rest =>
        obtain ⟨rfl, -⟩ := List.cons_prefix_cons.mp h
        have hnot := hstops d rfl
        rw [isWordChar_of_toLower hc] at hnot
        exact absurd hnot (by decide)

theorem head_of_begun {a : Text} (h : a <+: w) (hne : a ≠ []) : a.head? = w.head? := by
  obtain ⟨c, a, rfl⟩ := List.exists_cons_of_ne_nil hne
  obtain ⟨u, rfl⟩ := h
  rfl

def typeLetter : VectorElementType → Char
  | .float32 => 'f'
  | .int8 => 'i'
  | .bit => 'b'

theorem begun_head (h : ElementTypeBegun w elementType) :
    (lower w).head? = some (typeLetter elementType) := by
  cases elementType with
  | float32 =>
    obtain h | h := h
    · exact (head_of_begun h (by decide)).symm
    · exact (head_of_begun h (by decide)).symm
  | int8 =>
    obtain h | h := h
    · exact (head_of_begun h (by decide)).symm
    · exact (head_of_begun h (by decide)).symm
  | bit => exact (head_of_begun h (by decide)).symm

theorem ElementTypeBegun.unique {elementType' : VectorElementType}
    (h : ElementTypeBegun w elementType) (h' : ElementTypeBegun w elementType') :
    elementType = elementType' := by
  have heq := Option.some.inj ((begun_head h).symm.trans (begun_head h'))
  cases elementType <;> cases elementType' <;> first | rfl | exact absurd heq (by decide)

theorem vectorElementType_eq_some (hstops : Lexeme.Stops ⟨.identifier, w⟩ rest) :
    vectorElementType (Lexeme.token ⟨.identifier, w⟩ rest) = some elementType ↔
      ElementTypeBegun w elementType := by
  have hfloat : ((Lexeme.token ⟨.identifier, w⟩ rest).begins "float" ||
      (Lexeme.token ⟨.identifier, w⟩ rest).begins "f32") = true ↔ ElementTypeBegun w .float32 := by
    rw [Bool.or_eq_true, begins_iff (by decide) hstops, begins_iff (by decide) hstops]
    rfl
  have hint : ((Lexeme.token ⟨.identifier, w⟩ rest).begins "int8" ||
      (Lexeme.token ⟨.identifier, w⟩ rest).begins "i8") = true ↔ ElementTypeBegun w .int8 := by
    rw [Bool.or_eq_true, begins_iff (by decide) hstops, begins_iff (by decide) hstops]
    rfl
  have hbit : (Lexeme.token ⟨.identifier, w⟩ rest).begins "bit" = true ↔
      ElementTypeBegun w .bit := begins_iff (by decide) hstops
  unfold vectorElementType
  split_ifs with h h' h''
  · rw [Option.some.injEq]
    exact ⟨fun heq => heq ▸ hfloat.mp h, fun hbegun => (hfloat.mp h).unique hbegun⟩
  · rw [Option.some.injEq]
    exact ⟨fun heq => heq ▸ hint.mp h', fun hbegun => (hint.mp h').unique hbegun⟩
  · rw [Option.some.injEq]
    exact ⟨fun heq => heq ▸ hbit.mp h'', fun hbegun => (hbit.mp h'').unique hbegun⟩
  · refine iff_of_false not_false fun hbegun => ?_
    cases elementType with
    | float32 => exact h (hfloat.mpr hbegun)
    | int8 => exact h' (hint.mpr hbegun)
    | bit => exact h'' (hbit.mpr hbegun)

theorem expectIdentifier_eq_ok :
    expectIdentifier rc (l.scanner t) = .ok (token, s') ↔
      ∃ w rest, Spells [⟨.identifier, w⟩] t rest ∧ token = Lexeme.token ⟨.identifier, w⟩ rest ∧
        s' = Lexeme.scanner ⟨.identifier, w⟩ rest := by
  constructor
  · intro h
    unfold expectIdentifier at h
    cases hnext : vec0TokenNext (l.scanner t).rest with
    | eof => simp [hnext] at h
    | error => simp [hnext] at h
    | some found rest =>
      simp only [hnext] at h
      split_ifs at h with htype
      obtain ⟨rfl, rfl⟩ := Prod.mk.inj (Except.ok.inj h)
      obtain ⟨⟨type, w⟩, hspells, rfl⟩ := vec0TokenNext_eq_some_iff.mp hnext
      rw [Lexeme.token_type] at htype
      obtain rfl : type = .identifier := htype
      exact ⟨w, rest, hspells, rfl, rfl⟩
  · rintro ⟨w, rest, hspells, rfl, rfl⟩
    have hnext : vec0TokenNext (l.scanner t).rest = _ :=
      vec0TokenNext_eq_some_iff.mpr ⟨_, hspells, rfl⟩
    unfold expectIdentifier
    rw [hnext]
    rfl

theorem expectIdentifier_defined : expectIdentifier rc (l.scanner t) ≠ .error .undefined := by
  unfold expectIdentifier
  cases vec0TokenNext (l.scanner t).rest with
  | eof => simp
  | some token rest =>
    simp only
    split_ifs <;> simp
  | error => simp

end ElementType

section Column

variable {source : Text} {r : VectorColumnDefinition}

def ColumnAccepted (source : Text) (r : VectorColumnDefinition) : Prop :=
  ∃ name type opening number closing rest₄ rest,
    Spells [name, ⟨.identifier, type⟩, opening, number] source rest₄ ∧
    Spells [closing] rest₄ rest ∧ ElementTypeBegun type r.elementType ∧
    Text.atoll (number.token rest₄).start = r.dimensions ∧ 0 < r.dimensions ∧
    r.dimensions ≤ 2147483647 ∧ OptionsAccepted r.elementType .l2 rest r.distanceMetric ∧
    r.name = name.span

/-- The number is none that an `int` can hold. -/
def ColumnOverflows (source : Text) : Prop :=
  ∃ name type opening number rest₃ rest₄ elementType,
    Spells [name, ⟨.identifier, type⟩, opening] source rest₃ ∧ ElementTypeBegun type elementType ∧
    Passes [.digit] opening rest₃ number rest₄ ∧
    ¬(-2147483648 ≤ Text.atoll (number.token rest₄).start ∧
      Text.atoll (number.token rest₄).start ≤ 2147483647)

def ColumnSpelled (source : Text) (r : VectorColumnDefinition) : Prop :=
  ∃ type number rest,
    Spells [⟨.identifier, r.name⟩, ⟨.identifier, type⟩, ⟨.lbracket, ['[']⟩, ⟨.digit, number⟩,
      ⟨.rbracket, [']']⟩] source rest ∧
    ElementTypeNamed type r.elementType ∧ Text.leading number = r.dimensions ∧
    0 < r.dimensions ∧ r.dimensions ≤ 2147483647 ∧
    OptionsSpelled r.elementType .l2 rest r.distanceMetric

theorem atoi_eq_ok {t : Text} {n : Int} :
    atoi t = .ok n ↔ Text.atoll t = n ∧ -2147483648 ≤ n ∧ n ≤ 2147483647 := by
  unfold atoi
  split_ifs with h
  · rw [Except.ok.injEq]
    constructor
    · rintro rfl
      exact ⟨rfl, h⟩
    · exact fun hn => hn.1
  · refine iff_of_false (by simp) ?_
    rintro ⟨rfl, hn⟩
    exact h hn

theorem atoll_of_blank {t : Text} (h : Blank t) : Text.atoll t = 0 := by
  have hdrop : t.dropWhile Text.isSpace = [] := by
    refine List.dropWhile_eq_nil_iff.mpr fun c hc => ?_
    rw [Text.isSpace, h c hc, Bool.true_or, Bool.true_or]
  rw [Text.atoll, hdrop]
  rfl

theorem Lexeme.atoll_number {number rest : Text} (hwritten : Lexeme.Written ⟨.digit, number⟩)
    (hstops : Lexeme.Stops ⟨.digit, number⟩ rest) :
    Text.atoll (Lexeme.token ⟨.digit, number⟩ rest).start = Text.leading number := by
  obtain ⟨hne, hdigit⟩ := hwritten
  obtain ⟨c, t, rfl⟩ := List.exists_cons_of_ne_nil hne
  have hself := List.takeWhile_eq_self_iff.mpr hdigit
  show Text.atoll (c :: (t ++ rest)) = _
  rw [Text.atoll_of_isDigit (hdigit c List.mem_cons_self), ← List.cons_append, Text.leading,
    takeWhile_of_stops hdigit hstops, Text.leading, hself]

theorem vec0ParseVectorColumn_eq_ok :
    vec0ParseVectorColumn source = .ok r ↔ ColumnAccepted source r := by
  constructor
  · intro h
    unfold vec0ParseVectorColumn at h
    obtain ⟨⟨token₁, s₁⟩, h₁, h⟩ := Except.bind_eq_ok.mp h
    obtain ⟨name, rest₁, hname, rfl, rfl⟩ := expectToken_first.mp h₁
    obtain ⟨⟨token₂, s₂⟩, h₂, h⟩ := Except.bind_eq_ok.mp h
    obtain ⟨type, rest₂, htype, rfl, rfl⟩ := expectIdentifier_eq_ok.mp h₂
    obtain ⟨elementType, helement, h⟩ := Except.bind_eq_ok.mp h
    obtain ⟨⟨token₃, s₃⟩, h₃, h⟩ := Except.bind_eq_ok.mp h
    obtain ⟨opening, rest₃, hopening, rfl, rfl⟩ := expectToken_next.mp h₃
    obtain ⟨⟨token₄, s₄⟩, h₄, h⟩ := Except.bind_eq_ok.mp h
    obtain ⟨number, rest₄, hnumber, rfl, rfl⟩ := expectToken_next.mp h₄
    obtain ⟨n, hn, h⟩ := Except.bind_eq_ok.mp h
    obtain ⟨_, hpos, h⟩ := Except.bind_eq_ok.mp h
    obtain ⟨⟨token₅, s₅⟩, h₅, h⟩ := Except.bind_eq_ok.mp h
    obtain ⟨closing, rest₅, hclosing, rfl, rfl⟩ := expectToken_next.mp h₅
    obtain ⟨metric, hoptions, h⟩ := Except.bind_eq_ok.mp h
    obtain rfl := Except.ok.inj h
    obtain ⟨hvalue, -, hle⟩ := atoi_eq_ok.mp hn
    rw [Except.require_eq_ok] at hpos
    rw [Except.ofOption_eq_ok, vectorElementType_eq_some htype.stops] at helement
    have hoptions := (parseColumnOptions_eq_ok (Nat.lt_succ_self rest₅.length)).mp hoptions
    -- Where no token closes the column, the number is the text after a bracket and none is left.
    have hclosing : Spells [closing] rest₄ rest₅ := by
      obtain h | ⟨hnot, hbracket, rfl, rfl⟩ := hclosing
      · exact h
      · have hbracket := List.mem_singleton.mp hbracket
        have hblank := (hoptions.of_not_starts hnot).1
        refine absurd hvalue ?_
        rw [Lexeme.token_start_of_symbol (by rw [hbracket]; decide), atoll_of_blank hblank]
        omega
    have hnumber := hnumber.spells ⟨closing, rest₅, hclosing⟩
    have hopening : Spells [opening] rest₂ rest₃ := by
      obtain h | ⟨-, hbracket, -⟩ := hopening
      · exact h
      · cases List.mem_singleton.mp hbracket
    refine ⟨name, type, opening, number, closing, rest₄, rest₅, ?_, hclosing, helement, ?_, ?_, ?_,
      hoptions, Lexeme.token_text name rest₁⟩
    · exact Spells.cons_iff.mpr ⟨rest₁, hname, Spells.cons_iff.mpr ⟨rest₂, htype,
        Spells.cons_iff.mpr ⟨rest₃, hopening, hnumber⟩⟩⟩
    · rw [hvalue]
      exact (Int.toNat_of_nonneg hpos.le).symm
    · show 0 < n.toNat
      omega
    · show n.toNat ≤ 2147483647
      omega
  · rintro ⟨name, type, opening, number, closing, rest₄, rest, hspells, hclosing, helement, hvalue,
      hpos, hle, hoptions, hname⟩
    obtain ⟨rest₁, h₁, hspells⟩ := Spells.cons_iff.mp hspells
    obtain ⟨rest₂, h₂, hspells⟩ := Spells.cons_iff.mp hspells
    obtain ⟨rest₃, h₃, h₄⟩ := Spells.cons_iff.mp hspells
    unfold vec0ParseVectorColumn
    refine Except.bind_eq_ok.mpr ⟨_, expectToken_first.mpr ⟨name, rest₁, h₁, rfl, rfl⟩, ?_⟩
    refine Except.bind_eq_ok.mpr ⟨_, expectIdentifier_eq_ok.mpr ⟨type, rest₂, h₂, rfl, rfl⟩, ?_⟩
    refine Except.bind_eq_ok.mpr ⟨r.elementType, Except.ofOption_eq_ok.mpr
      ((vectorElementType_eq_some h₂.stops).mpr helement), ?_⟩
    refine Except.bind_eq_ok.mpr ⟨_, expectToken_next.mpr ⟨opening, rest₃, .inl h₃, rfl, rfl⟩, ?_⟩
    refine Except.bind_eq_ok.mpr ⟨_, expectToken_next.mpr ⟨number, rest₄, .inl h₄, rfl, rfl⟩, ?_⟩
    refine Except.bind_eq_ok.mpr
      ⟨r.dimensions, atoi_eq_ok.mpr ⟨hvalue, by omega, by omega⟩, ?_⟩
    refine Except.bind_eq_ok.mpr ⟨⟨⟩, Except.require_eq_ok.mpr (by omega), ?_⟩
    refine Except.bind_eq_ok.mpr
      ⟨_, expectToken_next.mpr ⟨closing, rest, .inl hclosing, rfl, rfl⟩, ?_⟩
    refine Except.bind_eq_ok.mpr ⟨r.distanceMetric,
      (parseColumnOptions_eq_ok (Nat.lt_succ_self rest.length)).mpr hoptions, ?_⟩
    obtain ⟨text, elementType, dimensions, metric⟩ := r
    obtain rfl : text = name.span := hname
    rw [Lexeme.token_text]
    rfl

theorem vec0ParseVectorColumn_ne_undefined :
    vec0ParseVectorColumn source ≠ .error .undefined ↔
      Starts source ∧ ¬ColumnOverflows source := by
  constructor
  · intro h
    constructor
    · by_contra hstarts
      refine h ?_
      rw [vec0ParseVectorColumn, expectToken_first_undefined.mpr hstarts]
      rfl
    · rintro ⟨name, type, opening, number, rest₃, rest₄, elementType, hspells, helement, hnumber,
        hrange⟩
      obtain ⟨rest₁, h₁, hspells⟩ := Spells.cons_iff.mp hspells
      obtain ⟨rest₂, h₂, h₃⟩ := Spells.cons_iff.mp hspells
      refine h ?_
      rw [vec0ParseVectorColumn, expectToken_first.mpr ⟨name, rest₁, h₁, rfl, rfl⟩, Except.ok_bind]
      simp only
      rw [expectIdentifier_eq_ok.mpr ⟨type, rest₂, h₂, rfl, rfl⟩, Except.ok_bind]
      simp only
      rw [(vectorElementType_eq_some h₂.stops).mpr helement, Except.ofOption, Except.ok_bind,
        expectToken_next.mpr ⟨opening, rest₃, .inl h₃, rfl, rfl⟩, Except.ok_bind]
      simp only
      rw [expectToken_next.mpr ⟨number, rest₄, hnumber, rfl, rfl⟩, Except.ok_bind]
      simp only
      rw [atoi, if_neg hrange]
      rfl
  · rintro ⟨hstarts, hoverflow⟩
    refine Except.bind_ne_error (fun h => expectToken_first_undefined.mp h hstarts) ?_
    rintro ⟨_, _⟩ h₁
    obtain ⟨name, rest₁, hname, rfl, rfl⟩ := expectToken_first.mp h₁
    refine Except.bind_ne_error expectIdentifier_defined ?_
    rintro ⟨_, _⟩ h₂
    obtain ⟨type, rest₂, htype, rfl, rfl⟩ := expectIdentifier_eq_ok.mp h₂
    refine Except.bind_ne_error (Except.ofOption_ne_error (by decide)) fun elementType helement => ?_
    rw [Except.ofOption_eq_ok, vectorElementType_eq_some htype.stops] at helement
    refine Except.bind_ne_error expectToken_next_defined ?_
    rintro ⟨_, _⟩ h₃
    obtain ⟨opening, rest₃, hopening, rfl, rfl⟩ := expectToken_next.mp h₃
    refine Except.bind_ne_error expectToken_next_defined ?_
    rintro ⟨_, _⟩ h₄
    obtain ⟨number, rest₄, hnumber, rfl, rfl⟩ := expectToken_next.mp h₄
    have hopening : Spells [opening] rest₂ rest₃ := by
      obtain h | ⟨-, hbracket, -⟩ := hopening
      · exact h
      · cases List.mem_singleton.mp hbracket
    refine Except.bind_ne_error (fun h => hoverflow ?_) fun n _ => ?_
    · refine ⟨name, type, opening, number, rest₃, rest₄, elementType, ?_, helement, hnumber, ?_⟩
      · exact Spells.cons_iff.mpr ⟨rest₁, hname, Spells.cons_iff.mpr ⟨rest₂, htype, hopening⟩⟩
      · intro hrange
        rw [atoi, if_pos hrange] at h
        cases h
    refine Except.bind_ne_error (Except.require_ne_error (by decide)) fun _ _ => ?_
    refine Except.bind_ne_error expectToken_next_defined ?_
    rintro ⟨_, _⟩ h₅
    obtain ⟨closing, rest₅, -, rfl, rfl⟩ := expectToken_next.mp h₅
    refine Except.bind_ne_error (parseColumnOptions_defined (Nat.lt_succ_self _)) fun _ _ h => ?_
    cases h

theorem OptionsSpelled.accepted {elementType : VectorElementType}
    {metric metric' : Vec0DistanceMetrics} {t : Text}
    (h : OptionsSpelled elementType metric t metric') :
    OptionsAccepted elementType metric t metric' := by
  induction h with
  | done hblank => exact .done hblank
  | option hbit hspells hkey hvalue _ ih =>
    exact .option hbit hspells hkey.abbreviates (Vec0DistanceMetrics.Named.chooses hvalue) ih

theorem ColumnSpelled.accepted (h : ColumnSpelled source r) : ColumnAccepted source r := by
  obtain ⟨type, number, rest, hspells, helement, hvalue, hpos, hle, hoptions⟩ := h
  obtain ⟨rest₁, h₁, hspells⟩ := Spells.cons_iff.mp hspells
  obtain ⟨rest₂, h₂, hspells⟩ := Spells.cons_iff.mp hspells
  obtain ⟨rest₃, h₃, hspells⟩ := Spells.cons_iff.mp hspells
  obtain ⟨rest₄, h₄, h₅⟩ := Spells.cons_iff.mp hspells
  refine ⟨_, type, _, _, _, rest₄, rest, Spells.cons_iff.mpr ⟨rest₁, h₁, Spells.cons_iff.mpr
    ⟨rest₂, h₂, Spells.cons_iff.mpr ⟨rest₃, h₃, h₄⟩⟩⟩, h₅, helement.begun, ?_, hpos, hle,
    hoptions.accepted, rfl⟩
  rw [Lexeme.atoll_number h₄.written h₄.stops, hvalue]

/-- The parser is exact on a text that starts with a token, whose number is an `int`, and that is
not merely like a definition. -/
theorem vec0ParseVectorColumn_exact_iff (source : Text) :
    ParsesExactly vec0ParseVectorColumn ColumnSpelled source ↔
      (Starts source ∧ ¬ColumnOverflows source) ∧
        ((∃ r, ColumnAccepted source r) → ∃ r, ColumnSpelled source r) := by
  rw [parsesExactly_iff (fun r => vec0ParseVectorColumn_eq_ok) fun r hr => hr.accepted,
    vec0ParseVectorColumn_ne_undefined]

theorem bracket_not_exact :
    ¬∀ source, ParsesExactly vec0ParseVectorColumn ColumnSpelled source := by
  intro h
  obtain ⟨type, number, rest, hspells, -⟩ :=
    ((h "a floats[[5".toList).2 ⟨"a".toList, .float32, 5, .l2⟩).mp (by decide)
  have hbracket := hspells.isInfix (l := ⟨.rbracket, [']']⟩) (by simp)
  exact absurd (hbracket.subset List.mem_cons_self) (by decide)

end Column

end SqliteMultimodal.Vec.Declare
