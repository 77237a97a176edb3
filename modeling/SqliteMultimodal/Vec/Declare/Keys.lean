import SqliteMultimodal.Lib.Except
import SqliteMultimodal.Vec.Declare.Spelling

namespace SqliteMultimodal.Vec.Declare

inductive KeyColumnType
  | text | integer
  deriving DecidableEq

def keyColumnType (token : Vec0Token) : Option KeyColumnType :=
  if token.abbreviates "text" then some .text
  else if token.abbreviates "int" || token.abbreviates "integer" then some .integer
  else none

/-- The two parsers of key definitions differ in the word in front of `key` only. -/
def parseKeyDefinition (word : String) (source : Text) : Except Stop (Text × KeyColumnType) := do
  let (columnName, s) ← expectToken [.identifier] sqliteEmpty ⟨source, none⟩
  let (type, s) ← expectToken [.identifier] sqliteEmpty s
  let columnType ← Except.ofOption (.code sqliteEmpty) (keyColumnType type)
  let (first, s) ← expectToken [.identifier] sqliteEmpty s
  Except.require (first.abbreviates word) (.code sqliteEmpty)
  let (second, _) ← expectToken [.identifier] sqliteEmpty s
  Except.require (second.abbreviates "key") (.code sqliteEmpty)
  .ok (columnName.text, columnType)

def vec0ParsePartitionKeyDefinition : Text → Except Stop (Text × KeyColumnType) :=
  parseKeyDefinition "partition"

def vec0ParsePrimaryKeyDefinition : Text → Except Stop (Text × KeyColumnType) :=
  parseKeyDefinition "primary"

def expectEof (rc : ResultCode) (s : Vec0Scanner) : Except Stop PUnit :=
  match vec0TokenNext s.rest with
  | .eof => .ok ⟨⟩
  | .some _ _ | .error => .error (.code rc)

def vec0ParseTableOption (source : Text) : Except Stop (Text × Text) := do
  let (key, s) ← expectToken [.identifier] sqliteEmpty ⟨source, none⟩
  let (_, s) ← expectToken [.eq] sqliteEmpty s
  let (value, s) ← expectToken [.identifier, .digit] sqliteError s
  expectEof sqliteError s
  .ok (key.text, value.text)

section Exact

variable {α : Type} {parse : Text → Except Stop α} {accepted spelled : Text → α → Prop} {s : Text}

def ParsesExactly (parse : Text → Except Stop α) (spelled : Text → α → Prop) (s : Text) : Prop :=
  parse s ≠ .error .undefined ∧ ∀ r, parse s = .ok r ↔ spelled s r

theorem parsesExactly_iff (hok : ∀ r, parse s = .ok r ↔ accepted s r)
    (hspelled : ∀ r, spelled s r → accepted s r) :
    ParsesExactly parse spelled s ↔
      parse s ≠ .error .undefined ∧ ((∃ r, accepted s r) → ∃ r, spelled s r) := by
  unfold ParsesExactly
  refine and_congr_right fun _ => ?_
  constructor
  · rintro h ⟨r, hr⟩
    exact ⟨r, (h r).mp ((hok r).mpr hr)⟩
  · intro h r
    refine ⟨fun hr => ?_, fun hr => (hok r).mpr (hspelled r hr)⟩
    obtain ⟨r', hr'⟩ := h ⟨r, (hok r).mp hr⟩
    have heq := (hok r').mpr (hspelled r' hr')
    rw [hr] at heq
    rwa [Except.ok.inj heq]

end Exact

section Definition

variable {word : String} {source : Text} {r : Text × KeyColumnType} {l : Lexeme}

def Lexeme.Declares (l : Lexeme) : KeyColumnType → Prop
  | .text => l.Abbreviates "text"
  | .integer => ¬l.Abbreviates "text" ∧ (l.Abbreviates "int" ∨ l.Abbreviates "integer")

def KeyAccepted (word : String) (source : Text) (r : Text × KeyColumnType) : Prop :=
  ∃ name type first second rest, Spells [name, type, first, second] source rest ∧
    type.Declares r.2 ∧ first.Abbreviates word ∧ second.Abbreviates "key" ∧ r.1 = name.span

def KeyColumnType.Named (w : Text) : KeyColumnType → Prop
  | .text => Whole w "text"
  | .integer => Whole w "int" ∨ Whole w "integer"

def KeySpelled (word : String) (source : Text) (r : Text × KeyColumnType) : Prop :=
  ∃ type first second rest,
    Spells [⟨.identifier, r.1⟩, ⟨.identifier, type⟩, ⟨.identifier, first⟩, ⟨.identifier, second⟩]
      source rest ∧
    Blank rest ∧ r.2.Named type ∧ Whole first word ∧ Whole second "key"

theorem keyColumnType_eq_some {rest : Text} {type : KeyColumnType} :
    keyColumnType (l.token rest) = some type ↔ l.Declares type := by
  have htext : (l.token rest).abbreviates "text" = true ↔ _ := l.abbreviates_iff
  have hint : (l.token rest).abbreviates "int" = true ↔ _ := l.abbreviates_iff
  have hinteger : (l.token rest).abbreviates "integer" = true ↔ _ := l.abbreviates_iff
  unfold keyColumnType
  cases type with
  | text =>
    simp only [Lexeme.Declares, ← htext]
    split_ifs with h h' <;> simp [h]
  | integer =>
    simp only [Lexeme.Declares, ← htext, ← hint, ← hinteger]
    split_ifs with h h' <;> simp_all

theorem Lexeme.head_of_abbreviates {keyword keyword' : String} (hl : l.Written)
    (htype : l.type = .identifier) (h : l.Abbreviates keyword) (h' : l.Abbreviates keyword') :
    (lower keyword.toList).head? = (lower keyword'.toList).head? := by
  obtain ⟨type, w⟩ := l
  subst htype
  obtain ⟨c, t, rfl, -⟩ := hl
  obtain ⟨rest, hrest⟩ := h
  obtain ⟨rest', hrest'⟩ := h'
  rw [← hrest, ← hrest']
  rfl

theorem parseKeyDefinition_eq_ok
    (hword : (lower word.toList).head? ≠ (lower "key".toList).head?) :
    parseKeyDefinition word source = .ok r ↔ KeyAccepted word source r := by
  constructor
  · intro h
    unfold parseKeyDefinition at h
    obtain ⟨⟨token₁, s₁⟩, h₁, h⟩ := Except.bind_eq_ok.mp h
    obtain ⟨name, rest₁, hname, rfl, rfl⟩ := expectToken_first.mp h₁
    obtain ⟨⟨token₂, s₂⟩, h₂, h⟩ := Except.bind_eq_ok.mp h
    obtain ⟨type, rest₂, htype, rfl, rfl⟩ := expectToken_next.mp h₂
    obtain ⟨columnType, hcolumn, h⟩ := Except.bind_eq_ok.mp h
    obtain ⟨⟨token₃, s₃⟩, h₃, h⟩ := Except.bind_eq_ok.mp h
    obtain ⟨first, rest₃, hfirst, rfl, rfl⟩ := expectToken_next.mp h₃
    obtain ⟨_, hword₃, h⟩ := Except.bind_eq_ok.mp h
    obtain ⟨⟨token₄, s₄⟩, h₄, h⟩ := Except.bind_eq_ok.mp h
    obtain ⟨second, rest₄, hsecond, rfl, rfl⟩ := expectToken_next.mp h₄
    obtain ⟨_, hword₄, h⟩ := Except.bind_eq_ok.mp h
    obtain rfl := Except.ok.inj h
    rw [Except.ofOption_eq_ok, keyColumnType_eq_some] at hcolumn
    rw [Except.require_eq_ok, Lexeme.abbreviates_iff] at hword₃ hword₄
    have hfound : Spells [second] rest₃ rest₄ := by
      obtain h | ⟨-, hidentifier, rfl, rfl⟩ := hsecond
      · exact h
      · have hwritten := hfirst.written (htype.written hname.written)
        exact absurd (Lexeme.head_of_abbreviates hwritten (by simpa using hidentifier) hword₃ hword₄)
          hword
    have hfirst := hfirst.spells ⟨second, rest₄, hfound⟩
    have htype := htype.spells ⟨first, rest₃, hfirst⟩
    refine ⟨name, type, first, second, rest₄, ?_, hcolumn, hword₃, hword₄,
      Lexeme.token_text name rest₁⟩
    exact Spells.cons_iff.mpr ⟨rest₁, hname, Spells.cons_iff.mpr ⟨rest₂, htype,
      Spells.cons_iff.mpr ⟨rest₃, hfirst, hfound⟩⟩⟩
  · rintro ⟨name, type, first, second, rest₄, hspells, hcolumn, hword₃, hword₄, hname⟩
    obtain ⟨rest₁, h₁, hspells⟩ := Spells.cons_iff.mp hspells
    obtain ⟨rest₂, h₂, hspells⟩ := Spells.cons_iff.mp hspells
    obtain ⟨rest₃, h₃, h₄⟩ := Spells.cons_iff.mp hspells
    unfold parseKeyDefinition
    refine Except.bind_eq_ok.mpr ⟨_, expectToken_first.mpr ⟨name, rest₁, h₁, rfl, rfl⟩, ?_⟩
    refine Except.bind_eq_ok.mpr ⟨_, expectToken_next.mpr ⟨type, rest₂, .inl h₂, rfl, rfl⟩, ?_⟩
    refine Except.bind_eq_ok.mpr
      ⟨r.2, Except.ofOption_eq_ok.mpr (keyColumnType_eq_some.mpr hcolumn), ?_⟩
    refine Except.bind_eq_ok.mpr ⟨_, expectToken_next.mpr ⟨first, rest₃, .inl h₃, rfl, rfl⟩, ?_⟩
    refine Except.bind_eq_ok.mpr
      ⟨⟨⟩, Except.require_eq_ok.mpr (Lexeme.abbreviates_iff.mpr hword₃), ?_⟩
    refine Except.bind_eq_ok.mpr ⟨_, expectToken_next.mpr ⟨second, rest₄, .inl h₄, rfl, rfl⟩, ?_⟩
    refine Except.bind_eq_ok.mpr
      ⟨⟨⟩, Except.require_eq_ok.mpr (Lexeme.abbreviates_iff.mpr hword₄), ?_⟩
    exact congrArg Except.ok (Prod.ext (name.token_text rest₁ |>.trans hname.symm) rfl)

theorem parseKeyDefinition_ne_undefined :
    parseKeyDefinition word source ≠ .error .undefined ↔ Starts source := by
  constructor
  · intro h
    by_contra hstarts
    refine h ?_
    rw [parseKeyDefinition, expectToken_first_undefined.mpr hstarts]
    rfl
  · intro hstarts
    refine Except.bind_ne_error (fun h => expectToken_first_undefined.mp h hstarts) ?_
    rintro ⟨_, _⟩ h₁
    obtain ⟨name, rest₁, -, rfl, rfl⟩ := expectToken_first.mp h₁
    refine Except.bind_ne_error expectToken_next_defined ?_
    rintro ⟨_, _⟩ h₂
    obtain ⟨type, rest₂, -, rfl, rfl⟩ := expectToken_next.mp h₂
    refine Except.bind_ne_error (Except.ofOption_ne_error (by decide)) fun _ _ => ?_
    refine Except.bind_ne_error expectToken_next_defined ?_
    rintro ⟨_, _⟩ h₃
    obtain ⟨first, rest₃, -, rfl, rfl⟩ := expectToken_next.mp h₃
    refine Except.bind_ne_error (Except.require_ne_error (by decide)) fun _ _ => ?_
    refine Except.bind_ne_error expectToken_next_defined ?_
    rintro ⟨_, _⟩ -
    refine Except.bind_ne_error (Except.require_ne_error (by decide)) fun _ _ => ?_
    intro h
    cases h

theorem KeySpelled.accepted (h : KeySpelled word source r) : KeyAccepted word source r := by
  obtain ⟨type, first, second, rest, hspells, -, htype, hfirst, hsecond⟩ := h
  refine ⟨_, _, _, _, rest, hspells, ?_, hfirst.abbreviates, hsecond.abbreviates, rfl⟩
  obtain ⟨name, columnType⟩ := r
  obtain ⟨rest₁, -, hspells⟩ := Spells.cons_iff.mp hspells
  have hnot {keyword : String} (h : Whole type keyword)
      (hhead : (lower keyword.toList).head? ≠ (lower "text".toList).head?) :
      ¬Lexeme.Abbreviates ⟨.identifier, type⟩ "text" :=
    fun habbr => hhead (Lexeme.head_of_abbreviates hspells.written rfl h.abbreviates habbr)
  cases columnType with
  | text => exact htype.abbreviates
  | integer =>
    obtain htype | htype := htype
    · exact ⟨hnot htype (by decide), .inl htype.abbreviates⟩
    · exact ⟨hnot htype (by decide), .inr htype.abbreviates⟩

end Definition

section Option

variable {source : Text} {r : Text × Text}

def OptionAccepted (source : Text) (r : Text × Text) : Prop :=
  ∃ key rest, Blank rest ∧ r.1 = key.span ∧
    ((∃ second value, Spells [key, second, value] source rest ∧ r.2 = value.span) ∨
      ∃ value, Spells [key, value] source rest ∧ value.type ∈ [.identifier, .digit] ∧
        r.2 = value.span)

def OptionSpelled (source : Text) (r : Text × Text) : Prop :=
  ∃ type rest, type ∈ [.identifier, .digit] ∧ Blank rest ∧
    Spells [⟨.identifier, r.1⟩, ⟨.eq, ['=']⟩, ⟨type, r.2⟩] source rest

theorem expectEof_eq_ok {rc : ResultCode} {s : Vec0Scanner} :
    expectEof rc s = .ok ⟨⟩ ↔ Blank s.rest := by
  rw [← vec0TokenNext_eq_eof_iff]
  unfold expectEof
  cases vec0TokenNext s.rest <;> simp

theorem expectEof_defined {rc : ResultCode} {s : Vec0Scanner} :
    expectEof rc s ≠ .error .undefined := by
  unfold expectEof
  cases vec0TokenNext s.rest <;> simp

theorem vec0ParseTableOption_eq_ok :
    vec0ParseTableOption source = .ok r ↔ OptionAccepted source r := by
  constructor
  · intro h
    unfold vec0ParseTableOption at h
    obtain ⟨⟨token₁, s₁⟩, h₁, h⟩ := Except.bind_eq_ok.mp h
    obtain ⟨key, rest₁, hkey, rfl, rfl⟩ := expectToken_first.mp h₁
    obtain ⟨⟨token₂, s₂⟩, h₂, h⟩ := Except.bind_eq_ok.mp h
    obtain ⟨second, rest₂, hsecond, rfl, rfl⟩ := expectToken_next.mp h₂
    obtain ⟨⟨token₃, s₃⟩, h₃, h⟩ := Except.bind_eq_ok.mp h
    obtain ⟨value, rest₃, hvalue, rfl, rfl⟩ := expectToken_next.mp h₃
    obtain ⟨_, heof, h⟩ := Except.bind_eq_ok.mp h
    obtain rfl := Except.ok.inj h
    have hblank := expectEof_eq_ok.mp heof
    refine ⟨key, rest₃, hblank, Lexeme.token_text key rest₁, ?_⟩
    have hspan := Lexeme.token_text value rest₃
    obtain hvalue | ⟨hnot, htype, rfl, rfl⟩ := hvalue
    · have hsecond := hsecond.spells ⟨value, rest₃, hvalue⟩
      refine .inl ⟨second, value, ?_, hspan⟩
      exact Spells.cons_iff.mpr ⟨rest₁, hkey, Spells.cons_iff.mpr ⟨rest₂, hsecond, hvalue⟩⟩
    · obtain hsecond | ⟨-, heq, rfl, -⟩ := hsecond
      · exact .inr ⟨value, Spells.cons_iff.mpr ⟨rest₁, hkey, hsecond⟩, htype, hspan⟩
      · rw [List.mem_singleton.mp heq] at htype
        exact absurd htype (by decide)
  · rintro ⟨key, rest, hblank, hkey, ⟨second, value, hspells, hvalue⟩ |
      ⟨value, hspells, htype, hvalue⟩⟩
    · obtain ⟨rest₁, h₁, hspells⟩ := Spells.cons_iff.mp hspells
      obtain ⟨rest₂, h₂, h₃⟩ := Spells.cons_iff.mp hspells
      unfold vec0ParseTableOption
      refine Except.bind_eq_ok.mpr ⟨_, expectToken_first.mpr ⟨key, rest₁, h₁, rfl, rfl⟩, ?_⟩
      refine Except.bind_eq_ok.mpr ⟨_, expectToken_next.mpr ⟨second, rest₂, .inl h₂, rfl, rfl⟩, ?_⟩
      refine Except.bind_eq_ok.mpr ⟨_, expectToken_next.mpr ⟨value, rest, .inl h₃, rfl, rfl⟩, ?_⟩
      refine Except.bind_eq_ok.mpr ⟨⟨⟩, expectEof_eq_ok.mpr hblank, congrArg Except.ok ?_⟩
      exact Prod.ext ((key.token_text rest₁).trans hkey.symm)
        ((value.token_text rest).trans hvalue.symm)
    · obtain ⟨rest₁, h₁, h₂⟩ := Spells.cons_iff.mp hspells
      have hstays : Passes [.identifier, .digit] value rest value rest :=
        .inr ⟨hblank.not_starts, htype, rfl, rfl⟩
      unfold vec0ParseTableOption
      refine Except.bind_eq_ok.mpr ⟨_, expectToken_first.mpr ⟨key, rest₁, h₁, rfl, rfl⟩, ?_⟩
      refine Except.bind_eq_ok.mpr ⟨_, expectToken_next.mpr ⟨value, rest, .inl h₂, rfl, rfl⟩, ?_⟩
      refine Except.bind_eq_ok.mpr ⟨_, expectToken_next.mpr ⟨value, rest, hstays, rfl, rfl⟩, ?_⟩
      refine Except.bind_eq_ok.mpr ⟨⟨⟩, expectEof_eq_ok.mpr hblank, congrArg Except.ok ?_⟩
      exact Prod.ext ((key.token_text rest₁).trans hkey.symm)
        ((value.token_text rest).trans hvalue.symm)

theorem vec0ParseTableOption_ne_undefined :
    vec0ParseTableOption source ≠ .error .undefined ↔ Starts source := by
  constructor
  · intro h
    by_contra hstarts
    refine h ?_
    rw [vec0ParseTableOption, expectToken_first_undefined.mpr hstarts]
    rfl
  · intro hstarts
    refine Except.bind_ne_error (fun h => expectToken_first_undefined.mp h hstarts) ?_
    rintro ⟨_, _⟩ h₁
    obtain ⟨key, rest₁, -, rfl, rfl⟩ := expectToken_first.mp h₁
    refine Except.bind_ne_error expectToken_next_defined ?_
    rintro ⟨_, _⟩ h₂
    obtain ⟨second, rest₂, -, rfl, rfl⟩ := expectToken_next.mp h₂
    refine Except.bind_ne_error expectToken_next_defined ?_
    rintro ⟨_, s⟩ -
    refine Except.bind_ne_error expectEof_defined fun _ _ h => ?_
    cases h

theorem OptionSpelled.accepted (h : OptionSpelled source r) : OptionAccepted source r := by
  obtain ⟨type, rest, htype, hblank, hspells⟩ := h
  refine ⟨_, rest, hblank, rfl, .inl ⟨_, _, hspells, ?_⟩⟩
  simp only [List.mem_cons, List.not_mem_nil, or_false] at htype
  obtain rfl | rfl := htype <;> rfl

end Option

section Definitions

def KeyUnambiguous (word : String) (source : Text) : Prop :=
  Starts source ∧ ((∃ r, KeyAccepted word source r) → ∃ r, KeySpelled word source r)

def OptionUnambiguous (source : Text) : Prop :=
  Starts source ∧ ((∃ r, OptionAccepted source r) → ∃ r, OptionSpelled source r)

theorem parseKeyDefinition_exact_iff {word : String}
    (hword : (lower word.toList).head? ≠ (lower "key".toList).head?) (source : Text) :
    ParsesExactly (parseKeyDefinition word) (KeySpelled word) source ↔
      KeyUnambiguous word source := by
  rw [parsesExactly_iff (fun r => parseKeyDefinition_eq_ok hword) fun r hr => hr.accepted,
    parseKeyDefinition_ne_undefined]
  rfl

/-- The parsers of definitions are exact on the texts that start with a token and do not abbreviate
a definition or go on after it. -/
theorem definitions_exact_iff (source : Text) :
    (ParsesExactly vec0ParsePartitionKeyDefinition (KeySpelled "partition") source ↔
        KeyUnambiguous "partition" source) ∧
      (ParsesExactly vec0ParsePrimaryKeyDefinition (KeySpelled "primary") source ↔
        KeyUnambiguous "primary" source) ∧
      (ParsesExactly vec0ParseTableOption OptionSpelled source ↔ OptionUnambiguous source) := by
  refine ⟨parseKeyDefinition_exact_iff (by decide) source,
    parseKeyDefinition_exact_iff (by decide) source, ?_⟩
  rw [parsesExactly_iff (fun r => vec0ParseTableOption_eq_ok) fun r hr => hr.accepted,
    vec0ParseTableOption_ne_undefined]
  rfl

theorem abbreviated_not_exact :
    ¬∀ source, ParsesExactly vec0ParsePartitionKeyDefinition (KeySpelled "partition") source ∧
      ParsesExactly vec0ParsePrimaryKeyDefinition (KeySpelled "primary") source ∧
      ParsesExactly vec0ParseTableOption OptionSpelled source := by
  intro h
  obtain ⟨type, first, second, rest, hspells, -, -, hfirst, -⟩ :=
    ((h "a t p k".toList).1.2 ("a".toList, .text)).mp (by decide)
  have hle := (hspells.isInfix (l := ⟨.identifier, first⟩) (by simp)).length_le
  have hlength := congrArg List.length hfirst
  simp only [lower, List.length_map] at hlength
  rw [hlength] at hle
  exact absurd hle (by decide)

end Definitions

end SqliteMultimodal.Vec.Declare
