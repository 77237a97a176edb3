import SqliteMultimodal.Graph.Cypher.Layout
import SqliteMultimodal.Graph.Cypher.Written
import SqliteMultimodal.Lib.JsonValue

namespace SqliteMultimodal.Graph.Cypher

open Json

section Code

/-- The value looks like a number, a boolean or NULL. -/
def isNumeric (zValue : Text) : Bool :=
  zValue.head?.any (fun c => c.isDigit || c = '-') || zValue = "true".toList ||
    zValue = "false".toList || zValue = "null".toList

def valueJson (zValue : Text) : Text :=
  if isNumeric zValue then zValue else '"' :: (zValue ++ ['"'])

def memberJson (pPair : CypherAst) : Option Text :=
  if pPair.isType .propertyPair then do
    let zKey ← pPair.zValue
    let zValue ← pPair.apChildren.head?.bind (·.zValue)
    return '"' :: (zKey ++ '"' :: ':' :: valueJson zValue)
  else none

def convertMapToJson (pMap : CypherAst) : Text :=
  if pMap.isType .map then
    '\x7b' :: (Text.join ',' (pMap.apChildren.filterMap memberJson) ++ ['\x7d'])
  else "{}".toList

end Code

section Literals

inductive PropertyLiteral
  | integer (t : Text) (ne : t ≠ []) (digits : ∀ c ∈ t, c.isDigit = true)
  | float (whole frac : Text) (ne : whole ≠ []) (digits : ∀ c ∈ whole ++ frac, c.isDigit = true)
  | string (quote : Char) (content : Text) (hquote : quote = '\x27' ∨ quote = '"')
    (quoted : Layout.Quoted quote content)
  | boolean (t : Text) (word : isWord t = true) (keyword : cypherGetKeywordToken t = .boolean)
  | null (t : Text) (word : isWord t = true) (keyword : cypherGetKeywordToken t = .null)

namespace PropertyLiteral

def lexeme : PropertyLiteral → Layout.Lexeme
  | integer t ne digits => .integer t ne digits
  | float whole frac ne digits => .float whole frac ne digits
  | string quote content hquote quoted => .string quote content hquote quoted
  | boolean t word _ => .word t word
  | null t word _ => .word t word

theorem isBasicLiteral (lit : PropertyLiteral) : isBasicLiteral lit.lexeme.token.type = true := by
  cases lit with
  | integer => rfl
  | float => rfl
  | string => rfl
  | boolean t word keyword =>
    change Cypher.isBasicLiteral (cypherGetKeywordToken t) = true
    rw [keyword]
    rfl
  | null t word keyword =>
    change Cypher.isBasicLiteral (cypherGetKeywordToken t) = true
    rw [keyword]
    rfl

/-- The tree that `parseLiteral` makes of the token. -/
def toAst (lit : PropertyLiteral) : CypherAst := .createLiteral lit.lexeme.token.text

def json : PropertyLiteral → Value
  | integer t _ _ => .scalar (.number t)
  | float whole frac _ _ => .scalar (.number (whole ++ '.' :: frac))
  | string _ content _ _ => .scalar (.string content)
  | boolean t _ _ => .scalar (.bool (t.map Char.toLower = "true".toList))
  | null _ _ _ => .scalar .null

end PropertyLiteral

def pairsAst (pairs : List (Name × PropertyLiteral)) : CypherAst :=
  .create .map (pairs.map fun pair => .withValue .propertyPair pair.1.text [pair.2.toAst])

def StoresPairs (pairs : List (Name × PropertyLiteral)) : Prop :=
  parse (convertMapToJson (pairsAst pairs)) =
    some (.object (pairs.map fun pair => (pair.1.text, pair.2.json)))

def PropertyLiteral.Survives : PropertyLiteral → Prop
  | integer t _ _ => NoLeadingZero t
  | float whole frac _ _ => NoLeadingZero whole ∧ frac ≠ []
  | string _ content _ _ => isNumeric content = false ∧ ∀ c ∈ content, Plain c
  | boolean t _ _ => t = "true".toList ∨ t = "false".toList
  | null t _ _ => t = "null".toList

end Literals

section Values

variable {t u : Text} {v : Value} {n : Nat}

theorem valueJson_of_digit (hne : t ≠ []) (h : ∀ c ∈ t.head?, c.isDigit = true) :
    valueJson t = t := by
  obtain ⟨c, t, rfl⟩ := List.exists_cons_of_ne_nil hne
  refine if_pos ?_
  rw [isNumeric, List.head?_cons, Option.any_some, h c rfl]
  rfl

theorem zero_of_not_noLeadingZero (hne : t ≠ []) (h : ¬NoLeadingZero t) :
    ∃ c t', t = '0' :: c :: t' := by
  obtain ⟨hzero, hhead⟩ := not_or.mp h
  obtain ⟨c, t, rfl⟩ := List.exists_cons_of_ne_nil hne
  obtain rfl := Option.some.inj (not_not.mp hhead)
  cases t with
  | nil => exact absurd rfl hzero
  | cons d t => exact ⟨d, t, rfl⟩

theorem value_zero {c : Char} (hc : c.isDigit = true)
    (h : value (n + 1) (skip ('0' :: c :: t)) = some (v, u)) : v = .scalar (.number ['0']) := by
  rw [skip_cons rfl, value_number (.inl rfl), number_zero hc] at h
  exact (Prod.mk.inj (Option.some.inj h)).1.symm

theorem value_ne_string {c : Char} (hc : c.isDigit = true ∨ c = '-')
    (h : value (n + 1) (skip (c :: t)) = some (v, u)) (content : Text) :
    v ≠ .scalar (.string content) := by
  rw [skip_cons (isWs_of_ofInt_head hc), value_number hc] at h
  obtain ⟨r, -, heq⟩ := Option.map_eq_some_iff.mp h
  rw [← (Prod.mk.inj heq).1]
  intro hstring
  cases hstring

theorem isNumeric_ne_string (hnumeric : isNumeric t = true) {k : Text}
    (h : value (n + 1) (skip (t ++ k)) = some (v, u)) (content : Text) :
    v ≠ .scalar (.string content) := by
  rw [isNumeric, Bool.or_eq_true, Bool.or_eq_true, Bool.or_eq_true, decide_eq_true_eq,
    decide_eq_true_eq, decide_eq_true_eq, or_assoc, or_assoc] at hnumeric
  obtain hhead | rfl | rfl | rfl := hnumeric
  · obtain ⟨c, hc, hnumber⟩ := (Option.any_eq_true _ _).mp hhead
    obtain ⟨t', rfl⟩ := List.head?_eq_some_iff.mp hc
    rw [Bool.or_eq_true, decide_eq_true_eq] at hnumber
    exact value_ne_string hnumber h content
  · obtain ⟨rfl, -⟩ := Prod.mk.inj (Option.some.inj h)
    intro hstring
    cases hstring
  · obtain ⟨rfl, -⟩ := Prod.mk.inj (Option.some.inj h)
    intro hstring
    cases hstring
  · obtain ⟨rfl, -⟩ := Prod.mk.inj (Option.some.inj h)
    intro hstring
    cases hstring

theorem not_isNumeric_of_word (hword : isWord t = true)
    (hne : t ≠ "true".toList ∧ t ≠ "false".toList ∧ t ≠ "null".toList) : isNumeric t = false := by
  cases t with
  | nil => cases hword
  | cons c t =>
    obtain ⟨hstart, -⟩ := Bool.and_eq_true_iff.mp hword
    have hc : (c.isDigit || c = '-') = false := by
      obtain halpha | hunder := Bool.or_eq_true_iff.mp hstart
      · rw [Text.isDigit_of_isAlpha halpha, Bool.false_or, decide_eq_false_iff_not]
        exact Text.ne_of_isAlpha halpha rfl
      · rw [of_decide_eq_true hunder]
        rfl
    rw [isNumeric, List.head?_cons, Option.any_some, hc, decide_eq_false hne.1,
      decide_eq_false hne.2.1, decide_eq_false hne.2.2]
    rfl

theorem value_of_not_isNumeric (hnumeric : isNumeric t = false) {k : Text}
    (h : value (n + 1) (skip (valueJson t ++ k)) = some (v, u)) :
    ∃ content, v = .scalar (.string content) ∧ (content = t → (∀ c ∈ t, Plain c) ∧ u = k) := by
  rw [valueJson, if_neg (ne_true_of_eq_false hnumeric), List.cons_append, skip_cons rfl,
    List.append_assoc, value_quote] at h
  obtain ⟨⟨content, rest⟩, hscan, heq⟩ := Option.map_eq_some_iff.mp h
  obtain ⟨rfl, rfl⟩ := Prod.mk.inj heq
  refine ⟨content, rfl, ?_⟩
  rintro rfl
  exact plain_of_scan hscan

theorem valueJson_integer (ne : t ≠ []) (digits : ∀ c ∈ t, c.isDigit = true) : valueJson t = t :=
  valueJson_of_digit ne fun c hc => digits c (List.mem_of_mem_head? hc)

theorem valueJson_float {whole frac : Text} (ne : whole ≠ [])
    (digits : ∀ c ∈ whole ++ frac, c.isDigit = true) :
    valueJson (whole ++ '.' :: frac) = whole ++ '.' :: frac := by
  obtain ⟨c, whole, rfl⟩ := List.exists_cons_of_ne_nil ne
  refine valueJson_of_digit (List.cons_ne_nil _ _) fun d hd => ?_
  obtain rfl := Option.some.inj hd
  exact digits c List.mem_cons_self

theorem value_point {whole k : Text} (ne : whole ≠ []) (digits : ∀ c ∈ whole, c.isDigit = true)
    (hzero : NoLeadingZero whole) (hk : EndsItem '\x7d' k) (n : Nat) :
    value (n + 1) (skip (whole ++ '.' :: k)) = none := by
  have hinteger : integer (whole ++ '.' :: k) = some (whole, '.' :: k) :=
    integer_append ne digits hzero rfl
  have hfraction : fraction ('.' :: k) = none := by
    rw [fraction, Json.digits, if_pos (StopsNumber.of_ends (.inr rfl) hk).rest.1]
    rfl
  obtain ⟨c, whole, rfl⟩ := List.exists_cons_of_ne_nil ne
  have hc := digits c List.mem_cons_self
  have hsign : sign (c :: (whole ++ '.' :: k)) = ([], c :: (whole ++ '.' :: k)) :=
    sign_of_ne (Text.ne_of_isDigit hc rfl) _
  rw [List.cons_append] at hinteger ⊢
  rw [skip_cons (isWs_of_ofInt_head (.inl hc)), value_number (.inl hc)]
  simp [number, hsign, hinteger, hfraction]

theorem read_literal {lit : PropertyLiteral} {k : Text} (hk : EndsItem '\x7d' k)
    (hgood : lit.Survives) (n : Nat) :
    value (n + 1) (skip (valueJson lit.lexeme.token.text ++ k)) = some (lit.json, k) := by
  cases lit with
  | integer t ne digits =>
    change value (n + 1) (skip (valueJson t ++ k)) = _
    rw [valueJson_integer ne digits]
    exact value_printed (printsNumber_digits ne digits hgood) (.inr rfl) n hk
  | float whole frac ne digits =>
    change value (n + 1) (skip (valueJson (whole ++ '.' :: frac) ++ k)) = _
    rw [valueJson_float ne digits]
    obtain ⟨hwhole, hfrac⟩ := List.forall_mem_append.mp digits
    exact value_printed (printsNumber_decimal false ne hwhole hgood.1 hgood.2 hfrac)
      (.inr rfl) n hk
  | string quote content hquote quoted =>
    obtain ⟨hnumeric, hplain⟩ := hgood
    change value (n + 1) (skip (valueJson content ++ k)) = _
    rw [valueJson, if_neg (ne_true_of_eq_false hnumeric), List.cons_append, skip_cons rfl,
      List.append_assoc, value_quote, List.singleton_append, scan_plain hplain]
    rfl
  | boolean t word keyword =>
    obtain rfl | rfl := hgood
    · rfl
    · rfl
  | null t word keyword =>
    have hgood : t = "null".toList := hgood
    subst hgood
    rfl

theorem good_integer (ne : t ≠ []) (digits : ∀ c ∈ t, c.isDigit = true) {k : Text}
    (hk : EndsItem '\x7d' k)
    (hread : value (n + 1) (skip (valueJson t ++ k)) = some (.scalar (.number t), u)) :
    NoLeadingZero t ∧ u = k := by
  rw [valueJson_integer ne digits] at hread
  by_cases hzero : NoLeadingZero t
  · rw [value_printed (printsNumber_digits ne digits hzero) (.inr rfl) n hk] at hread
    exact ⟨hzero, (Prod.mk.inj (Option.some.inj hread)).2.symm⟩
  · obtain ⟨c, t, rfl⟩ := zero_of_not_noLeadingZero ne hzero
    cases value_zero (digits c (by simp)) hread

theorem good_float {whole frac k : Text} (ne : whole ≠ [])
    (digits : ∀ c ∈ whole ++ frac, c.isDigit = true) (hk : EndsItem '\x7d' k)
    (hread : value (n + 1) (skip (valueJson (whole ++ '.' :: frac) ++ k)) =
      some (.scalar (.number (whole ++ '.' :: frac)), u)) :
    (NoLeadingZero whole ∧ frac ≠ []) ∧ u = k := by
  rw [valueJson_float ne digits] at hread
  obtain ⟨hwhole, hfrac⟩ := List.forall_mem_append.mp digits
  by_cases hzero : NoLeadingZero whole
  · cases frac with
    | nil =>
      rw [List.append_assoc, List.cons_append, List.nil_append,
        value_point ne hwhole hzero hk] at hread
      cases hread
    | cons c frac =>
      have hne := List.cons_ne_nil c frac
      have hprinted := value_printed (printsNumber_decimal false ne hwhole hzero hne hfrac)
        (.inr rfl) n hk
      change value (n + 1) (skip (whole ++ '.' :: c :: frac ++ k)) = _ at hprinted
      rw [hprinted] at hread
      exact ⟨⟨hzero, hne⟩, (Prod.mk.inj (Option.some.inj hread)).2.symm⟩
  · obtain ⟨c, whole, rfl⟩ := zero_of_not_noLeadingZero ne hzero
    cases value_zero (hwhole c (by simp)) hread

theorem good_string {k : Text}
    (hread : value (n + 1) (skip (valueJson t ++ k)) = some (.scalar (.string t), u)) :
    (isNumeric t = false ∧ ∀ c ∈ t, Plain c) ∧ u = k := by
  cases hnumeric : isNumeric t with
  | true =>
    rw [valueJson, if_pos hnumeric] at hread
    exact absurd rfl (isNumeric_ne_string hnumeric hread t)
  | false =>
    obtain ⟨content, hv, hsame⟩ := value_of_not_isNumeric hnumeric hread
    obtain ⟨hplain, hu⟩ := hsame (Scalar.string.inj (Value.scalar.inj hv)).symm
    exact ⟨⟨rfl, hplain⟩, hu⟩

theorem good_boolean (word : isWord t = true) (keyword : cypherGetKeywordToken t = .boolean)
    {b : Bool} {k : Text}
    (hread : value (n + 1) (skip (valueJson t ++ k)) = some (.scalar (.bool b), u)) :
    (t = "true".toList ∨ t = "false".toList) ∧ u = k := by
  by_cases htrue : t = "true".toList
  · subst htrue
    exact ⟨.inl rfl, (Prod.mk.inj (Option.some.inj hread)).2.symm⟩
  by_cases hfalse : t = "false".toList
  · subst hfalse
    exact ⟨.inr rfl, (Prod.mk.inj (Option.some.inj hread)).2.symm⟩
  have hnull : t ≠ "null".toList := by
    rintro rfl
    cases keyword
  obtain ⟨content, hv, -⟩ :=
    value_of_not_isNumeric (not_isNumeric_of_word word ⟨htrue, hfalse, hnull⟩) hread
  cases hv

theorem good_null (word : isWord t = true) (keyword : cypherGetKeywordToken t = .null) {k : Text}
    (hread : value (n + 1) (skip (valueJson t ++ k)) = some (.scalar .null, u)) :
    t = "null".toList ∧ u = k := by
  by_cases hnull : t = "null".toList
  · subst hnull
    exact ⟨rfl, (Prod.mk.inj (Option.some.inj hread)).2.symm⟩
  have htrue : t ≠ "true".toList := by
    rintro rfl
    cases keyword
  have hfalse : t ≠ "false".toList := by
    rintro rfl
    cases keyword
  obtain ⟨content, hv, -⟩ :=
    value_of_not_isNumeric (not_isNumeric_of_word word ⟨htrue, hfalse, hnull⟩) hread
  cases hv

theorem readsBack_literal (n : Nat) : ReadsBack (value (n + 1))
    (fun lit : PropertyLiteral => valueJson lit.lexeme.token.text) (fun lit v => v = lit.json)
    PropertyLiteral.Survives (EndsItem '\x7d') where
  read hk hgood := ⟨_, read_literal hk hgood n, rfl⟩
  good {lit k v u} hk hread hv := by
    subst hv
    cases lit with
    | integer t ne digits => exact good_integer ne digits hk hread
    | float whole frac ne digits => exact good_float ne digits hk hread
    | string quote content hquote quoted => exact good_string hread
    | boolean t word keyword => exact good_boolean word keyword hread
    | null t word keyword => exact good_null word keyword hread

end Values

section Maps

theorem Name.plain (name : Name) : ∀ c ∈ name.text, Plain c := by
  intro c hc
  refine ⟨fun h => name.not_mem rfl (h ▸ hc), fun h => name.not_mem rfl (h ▸ hc), ?_⟩
  by_contra hlow
  have hcontrol : ∀ n < 32, Cypher.isWordChar (Char.ofNat n) = false := by decide
  have hc' := hcontrol c.toNat (not_le.mp hlow)
  rw [Char.ofNat_toNat] at hc'
  exact name.not_mem hc' hc

theorem convertMapToJson_pairsAst (pairs : List (Name × PropertyLiteral)) :
    convertMapToJson (pairsAst pairs) = '\x7b' :: (Text.join ','
      ((pairs.map fun pair => (pair.1.text, pair.2)).map fun pair =>
        '"' :: (pair.1 ++ '"' :: ':' :: valueJson pair.2.lexeme.token.text)) ++ ['\x7d']) := by
  have hmembers : (pairsAst pairs).apChildren.filterMap memberJson =
      (pairs.map fun pair => (pair.1.text, pair.2)).map fun pair =>
        '"' :: (pair.1 ++ '"' :: ':' :: valueJson pair.2.lexeme.token.text) := by
    change (pairs.map _).filterMap memberJson = _
    rw [List.filterMap_map, List.map_map, ← List.filterMap_eq_map]
    rfl
  have hmap : (pairsAst pairs).isType .map = true := rfl
  rw [convertMapToJson, if_pos hmap, hmembers]

/-- The stored text holds what the map does exactly where every literal is written in JSON as it is
in Cypher. -/
theorem storesPairs_iff (pairs : List (Name × PropertyLiteral)) :
    StoresPairs pairs ↔ ∀ pair ∈ pairs, pair.2.Survives := by
  have hkeys : ∀ m ∈ pairs.map fun pair => (pair.1.text, pair.2), ∀ c ∈ m.1, Plain c := by
    rw [List.forall_mem_map]
    exact fun pair _ => pair.1.plain
  have h := parse_members_iff readsBack_literal (pairs.map fun pair => (pair.1.text, pair.2)) hkeys
  rw [← convertMapToJson_pairsAst, List.forall_mem_map, List.map_map] at h
  exact h

theorem answer_word : isWord "answer".toList = true := by decide

theorem answer_identifier : cypherGetKeywordToken "answer".toList = .identifier := by decide

theorem fortyTwo_quoted : Layout.Quoted '\x27' "42".toList :=
  .plain (by decide) (by decide) (.plain (by decide) (by decide) .nil)

def answerPairs : List (Name × PropertyLiteral) :=
  [(⟨"answer".toList, answer_word, answer_identifier⟩,
    .string '\x27' "42".toList (.inl rfl) fortyTwo_quoted)]

theorem not_storesPairs_answer :
    convertMapToJson (pairsAst answerPairs) = "\x7b\"answer\":42\x7d".toList ∧
      ¬StoresPairs answerPairs := by
  refine ⟨by decide +kernel, fun h => ?_⟩
  have hparse : parse (convertMapToJson (pairsAst answerPairs)) =
      some (.object [("answer".toList, .scalar (.number "42".toList))]) := rfl
  rw [StoresPairs, hparse] at h
  have hmembers := Value.object.inj (Option.some.inj h)
  cases (Prod.mk.inj (List.cons.inj hmembers).1).2

end Maps

end SqliteMultimodal.Graph.Cypher
