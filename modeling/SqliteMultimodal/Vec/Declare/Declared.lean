import SqliteMultimodal.Vec.Declare.Table

namespace SqliteMultimodal.Vec.Declare

open Storage (VectorElementType MetadataKind)
open Plan (UserColumn UserColumnKind)

section Arguments

inductive Argument
  | vector (column : VectorColumnDefinition)
  | partition (column : Text × KeyColumnType)
  | primaryKey (column : Text × KeyColumnType)
  | auxiliary (column : Text × SqlType)
  | metadata (column : Text × MetadataKind)
  | chunkSize (n : Nat)
  | index (type : IndexType) (column : Text)

def AuxiliaryTypeNamed (w : Text) : SqlType → Prop
  | .text => Whole w "text"
  | .integer => Whole w "int" ∨ Whole w "integer"
  | .float => Whole w "float" ∨ Whole w "double"
  | .blob => Whole w "blob"
  | .null => False

def MetadataKindNamed (w : Text) : MetadataKind → Prop
  | .boolean => Whole w "boolean" ∨ Whole w "bool"
  | .integer => Whole w "int64" ∨ Whole w "integer64" ∨ Whole w "integer" ∨ Whole w "int"
  | .float => Whole w "float" ∨ Whole w "double" ∨ Whole w "float64" ∨ Whole w "f64"
  | .text => Whole w "text"

def IndexType.keyword : IndexType → String
  | .kdtree => "create_index_kdtree"
  | .hnsw => "create_index_hnsw"
  | .ivf => "create_index_ivf"
  | .hybrid => "create_index_hybrid"

def AuxiliarySpelled (source : Text) (r : Text × SqlType) : Prop :=
  ∃ type rest, Spells [⟨.plus, ['+']⟩, ⟨.identifier, r.1⟩, ⟨.identifier, type⟩] source rest ∧
    Blank rest ∧ AuxiliaryTypeNamed type r.2

def MetadataSpelled (source : Text) (r : Text × MetadataKind) : Prop :=
  ∃ type rest, Spells [⟨.identifier, r.1⟩, ⟨.identifier, type⟩] source rest ∧ Blank rest ∧
    MetadataKindNamed type r.2

def ChunkSizeSpelled (source : Text) (n : Nat) : Prop :=
  ∃ key number rest,
    Spells [⟨.identifier, key⟩, ⟨.eq, ['=']⟩, ⟨.digit, number⟩] source rest ∧ Blank rest ∧
    Whole key "chunk_size" ∧ Text.leading number = n ∧ n ≤ 2147483647

def IndexSpelled (source : Text) (type : IndexType) (column : Text) : Prop :=
  ∃ key rest, Spells [⟨.identifier, key⟩, ⟨.eq, ['=']⟩, ⟨.identifier, column⟩] source rest ∧
    Blank rest ∧ Whole key type.keyword

def Argument.Spelled : Argument → Text → Prop
  | .vector column, source => ColumnSpelled source column
  | .partition column, source => KeySpelled "partition" source column
  | .primaryKey column, source => KeySpelled "primary" source column
  | .auxiliary column, source => AuxiliarySpelled source column
  | .metadata column, source => MetadataSpelled source column
  | .chunkSize n, source => ChunkSizeSpelled source n
  | .index type column, source => IndexSpelled source type column

/-- What stands behind the `+` is first read as the type of a vector column with this name. -/
def Argument.Distinct : Argument → Prop
  | .auxiliary column => ∀ e, ¬ElementTypeBegun column.1 e
  | _ => True

def Definition.add (d : Definition) : Argument → Except InitError Definition
  | .vector column => d.addVector column
  | .partition column => d.addPartition column
  | .primaryKey column => d.addPrimaryKey column
  | .auxiliary column => d.addAuxiliary column
  | .metadata column => d.addMetadata column
  | .chunkSize n => d.setChunkSize (Text.ofInt n)
  | .index type column => d.addIndex type.keyword.toList column

end Arguments

section Tokens

variable {types : List Vec0TokenType} {rc : ResultCode} {s : Vec0Scanner} {l : Lexeme}
  {t rest w : Text}

theorem expectToken_of_spells (h : Spells [l] s.rest rest) :
    expectToken types rc s = .ok (l.token rest, l.scanner rest) :=
  expectToken_of_next (vec0TokenNext_eq_some_iff.mpr ⟨l, h, rfl⟩)

theorem expectToken_of_blank (h : Blank rest) :
    expectToken types rc (l.scanner rest) =
      if l.type ∈ types then .ok (l.token rest, l.scanner rest) else .error (.code rc) := by
  rw [expectToken_of_not_starts h.not_starts]
  simp only [Lexeme.scanner, Lexeme.token_type]

theorem expectIdentifier_of_spells (h : Spells [l] s.rest rest) :
    expectIdentifier rc s =
      if l.type = .identifier then .ok (l.token rest, l.scanner rest) else .error (.code rc) := by
  unfold expectIdentifier
  rw [vec0TokenNext_eq_some_iff.mpr ⟨l, h, rfl⟩]
  simp only [Lexeme.token_type, Lexeme.scanner]

theorem expectPlus_of_spells (h : Spells [l] s.rest rest) :
    expectPlus rc s = if l.type = .plus then .ok (l.scanner rest) else .error (.code rc) := by
  unfold expectPlus
  rw [vec0TokenNext_eq_some_iff.mpr ⟨l, h, rfl⟩]
  simp only [Lexeme.token_type, Lexeme.scanner]

end Tokens

section Skipped

variable {source rest w : Text} {first second : Lexeme} {word : String}

theorem vec0ParseVectorColumn_skips (h : Spells [first, second] source rest)
    (hsecond : second.type ≠ .identifier ∨ Blank rest ∨ ∀ e, ¬ElementTypeBegun second.text e) :
    vec0ParseVectorColumn source = .error (.code sqliteEmpty) := by
  obtain ⟨rest₁, hfirst, h⟩ := Spells.cons_iff.mp h
  rw [vec0ParseVectorColumn, expectToken_of_spells hfirst, Except.ok_bind]
  dsimp only
  rw [expectIdentifier_of_spells (s := first.scanner rest₁) h]
  by_cases htype : second.type = .identifier
  · rw [if_pos htype, Except.ok_bind]
    dsimp only
    obtain ⟨_, w⟩ := second
    subst htype
    cases helement : vectorElementType (Lexeme.token ⟨.identifier, w⟩ rest) with
    | none => rfl
    | some e =>
      have hbegun := (vectorElementType_eq_some h.stops).mp helement
      obtain hnot | hblank | hnone := hsecond
      · exact absurd rfl hnot
      · rw [Except.ofOption, Except.ok_bind, expectToken_of_blank hblank]
        rfl
      · exact absurd hbegun (hnone e)
  · rw [if_neg htype]
    rfl

theorem parseKeyDefinition_skips (hword : (lower word.toList).head? ≠ (lower "key".toList).head?)
    (hstarts : Starts source) (hnot : ∀ r, ¬KeyAccepted word source r) :
    ∃ rc, parseKeyDefinition word source = .error (.code rc) := by
  cases hparse : parseKeyDefinition word source with
  | ok r => exact absurd ((parseKeyDefinition_eq_ok hword).mp hparse) (hnot r)
  | error stop =>
    cases stop with
    | undefined => exact absurd hparse (parseKeyDefinition_ne_undefined.mpr hstarts)
    | code rc => exact ⟨rc, rfl⟩

theorem KeyAccepted.words {r : Text × KeyColumnType} (h : KeyAccepted word source r)
    (hspells : Spells [first, second] source rest) :
    ∃ third fourth rest', Spells [third, fourth] rest rest' ∧ third.Abbreviates word := by
  obtain ⟨name, type, third, fourth, rest', h, -, hthird, -, -⟩ := h
  obtain ⟨rest₁, hname, h⟩ := Spells.cons_iff.mp h
  obtain ⟨rest₂, htype, h⟩ := Spells.cons_iff.mp h
  obtain ⟨rest₁', hfirst, hsecond⟩ := Spells.cons_iff.mp hspells
  obtain ⟨-, rfl⟩ := hname.unique hfirst
  obtain ⟨-, rfl⟩ := htype.unique hsecond
  exact ⟨third, fourth, rest', h, hthird⟩

theorem not_keyAccepted_of_two (h : Spells [first, second] source rest) (hblank : Blank rest)
    (r : Text × KeyColumnType) : ¬KeyAccepted word source r := by
  intro haccepted
  obtain ⟨third, fourth, rest', hrest, -⟩ := haccepted.words h
  exact hrest.not_blank hblank

theorem not_keyAccepted_of_three {third : Lexeme} (h : Spells [first, second, third] source rest)
    (hblank : Blank rest) (r : Text × KeyColumnType) : ¬KeyAccepted word source r := by
  intro haccepted
  obtain ⟨rest₁, hfirst, h⟩ := Spells.cons_iff.mp h
  obtain ⟨rest₂, hsecond, hthird⟩ := Spells.cons_iff.mp h
  obtain ⟨third', fourth, rest', hrest, -⟩ :=
    haccepted.words (Spells.cons_iff.mpr ⟨rest₁, hfirst, hsecond⟩)
  obtain ⟨rest₃, hthird', hfourth⟩ := Spells.cons_iff.mp hrest
  obtain ⟨-, rfl⟩ := hthird.unique hthird'
  exact hfourth.not_blank hblank

theorem not_keyAccepted_of_word {third : Lexeme} (h : Spells [first, second, third] source rest)
    (hword : ¬third.Abbreviates word) (r : Text × KeyColumnType) : ¬KeyAccepted word source r := by
  intro haccepted
  obtain ⟨rest₁, hfirst, h⟩ := Spells.cons_iff.mp h
  obtain ⟨rest₂, hsecond, hthird⟩ := Spells.cons_iff.mp h
  obtain ⟨third', fourth, rest', hrest, habbr⟩ :=
    haccepted.words (Spells.cons_iff.mpr ⟨rest₁, hfirst, hsecond⟩)
  obtain ⟨rest₃, hthird', -⟩ := Spells.cons_iff.mp hrest
  obtain ⟨rfl, -⟩ := hthird.unique hthird'
  exact hword habbr

theorem vec0ParseAuxiliaryColumnDefinition_skips (h : Spells [first] source rest)
    (hfirst : first.type ≠ .plus) :
    vec0ParseAuxiliaryColumnDefinition source = .error (.code sqliteEmpty) := by
  rw [vec0ParseAuxiliaryColumnDefinition, expectPlus_of_spells h, if_neg hfirst]
  rfl

theorem vec0ParseMetadataColumnDefinition_skips (h : Spells [first, second] source rest)
    (hsecond : second.type ≠ .identifier) :
    vec0ParseMetadataColumnDefinition source = .error (.code sqliteEmpty) := by
  obtain ⟨rest₁, hfirst, h⟩ := Spells.cons_iff.mp h
  rw [vec0ParseMetadataColumnDefinition, expectIdentifier_of_spells hfirst]
  split
  · rw [Except.ok_bind]
    dsimp only
    rw [expectIdentifier_of_spells (s := first.scanner rest₁) h, if_neg hsecond]
    rfl
  · rfl

end Skipped

section Taken

variable {source w : Text} {d : Definition}

theorem Whole.not_begun {keyword : String} (h : Whole w keyword)
    (hnone : ∀ k ∈ ["float", "f32", "int8", "i8", "bit"], ¬lower k.toList <+: lower keyword.toList)
    (e : VectorElementType) : ¬ElementTypeBegun w e := by
  intro hbegun
  rw [Whole] at h
  unfold ElementTypeBegun at hbegun
  rw [h] at hbegun
  cases e with
  | float32 =>
    obtain hbegun | hbegun := hbegun
    · exact hnone _ (by simp) hbegun
    · exact hnone _ (by simp) hbegun
  | int8 =>
    obtain hbegun | hbegun := hbegun
    · exact hnone _ (by simp) hbegun
    · exact hnone _ (by simp) hbegun
  | bit => exact hnone _ (by simp) hbegun

theorem KeyColumnType.Named.not_begun {type : KeyColumnType} (h : type.Named w)
    (e : VectorElementType) : ¬ElementTypeBegun w e := by
  cases type with
  | text => exact Whole.not_begun h (by decide) e
  | integer =>
    obtain h | h := h
    · exact Whole.not_begun h (by decide) e
    · exact Whole.not_begun h (by decide) e

theorem Whole.not_abbreviates {keyword keyword' : String} (h : Whole w keyword)
    (hkeyword : ¬lower keyword.toList <+: lower keyword'.toList) :
    ¬Lexeme.Abbreviates ⟨.identifier, w⟩ keyword' := by
  intro habbr
  refine hkeyword ?_
  rw [← show lower w = lower keyword.toList from h]
  exact habbr

theorem scenario_ok {β γ : Type} {x : β} {found : β → Except InitError γ}
    {next : ResultCode → Except InitError γ} : scenario (.ok x) found next = found x := rfl

theorem scenario_skips {β γ : Type} {parsed : Except Stop β} {found : β → Except InitError γ}
    {next : Except InitError γ} (h : ∃ rc, parsed = .error (.code rc)) :
    scenario parsed found (fun _ => next) = next := by
  obtain ⟨rc, rfl⟩ := h
  rfl

theorem vec0InitArgument_vector {column : VectorColumnDefinition}
    (h : ColumnSpelled source column) : vec0InitArgument d source = d.addVector column := by
  rw [vec0InitArgument, vec0ParseVectorColumn_eq_ok.mpr h.accepted, scenario_ok]

theorem vec0InitArgument_skips (h : vec0ParseVectorColumn source = .error (.code sqliteEmpty)) :
    vec0InitArgument d source =
      scenario (vec0ParsePartitionKeyDefinition source) d.addPartition fun _ =>
      scenario (vec0ParsePrimaryKeyDefinition source) d.addPrimaryKey fun _ =>
      scenario (vec0ParseAuxiliaryColumnDefinition source) d.addAuxiliary fun _ =>
      scenario (vec0ParseMetadataColumnDefinition source) d.addMetadata fun _ =>
      scenario (vec0ParseTableOption source) d.addOption fun rc =>
      .error <| constructorError <|
        if rc = sqliteError then "could not parse table option '".toList ++ source ++ "'".toList
        else "Could not parse '".toList ++ source ++ "'".toList := by
  rw [vec0InitArgument, h]
  rfl

theorem vec0ParseVectorColumn_of_key {word : String} {column : Text × KeyColumnType}
    (h : KeySpelled word source column) :
    vec0ParseVectorColumn source = .error (.code sqliteEmpty) := by
  obtain ⟨type, first, second, rest, hspells, -, htype, -, -⟩ := h
  obtain ⟨rest₁, h₁, hspells⟩ := Spells.cons_iff.mp hspells
  obtain ⟨rest₂, h₂, -⟩ := Spells.cons_iff.mp hspells
  exact vec0ParseVectorColumn_skips (Spells.cons_iff.mpr ⟨rest₁, h₁, h₂⟩)
    (.inr (.inr htype.not_begun))

theorem vec0InitArgument_partition {column : Text × KeyColumnType}
    (h : KeySpelled "partition" source column) :
    vec0InitArgument d source = d.addPartition column := by
  have hok : vec0ParsePartitionKeyDefinition source = .ok column :=
    (parseKeyDefinition_eq_ok (by decide)).mpr h.accepted
  rw [vec0InitArgument_skips (vec0ParseVectorColumn_of_key h), hok, scenario_ok]

theorem vec0InitArgument_primaryKey {column : Text × KeyColumnType}
    (h : KeySpelled "primary" source column) :
    vec0InitArgument d source = d.addPrimaryKey column := by
  have hok : vec0ParsePrimaryKeyDefinition source = .ok column :=
    (parseKeyDefinition_eq_ok (by decide)).mpr h.accepted
  rw [vec0InitArgument_skips (vec0ParseVectorColumn_of_key h), hok]
  obtain ⟨type, first, second, rest, hspells, -, -, hfirst, -⟩ := h
  obtain ⟨rest₁, h₁, hspells⟩ := Spells.cons_iff.mp hspells
  obtain ⟨rest₂, h₂, hspells⟩ := Spells.cons_iff.mp hspells
  obtain ⟨rest₃, h₃, -⟩ := Spells.cons_iff.mp hspells
  refine (scenario_skips (parseKeyDefinition_skips (by decide) ⟨_, _, h₁⟩ ?_)).trans scenario_ok
  exact not_keyAccepted_of_word
    (Spells.cons_iff.mpr ⟨rest₁, h₁, Spells.cons_iff.mpr ⟨rest₂, h₂, h₃⟩⟩)
    (hfirst.not_abbreviates (by decide))

theorem Whole.abbreviates_eq {keyword : String} {rest : Text} (h : Whole w keyword)
    (keyword' : String) : (Lexeme.token ⟨.identifier, w⟩ rest).abbreviates keyword' =
      decide (lower keyword.toList <+: lower keyword'.toList) := by
  rw [Bool.eq_iff_iff, Lexeme.abbreviates_iff, decide_eq_true_iff]
  show lower w <+: _ ↔ _
  rw [show lower w = lower keyword.toList from h]

theorem auxiliaryColumnType_eq {type : SqlType} {rest : Text} (h : AuxiliaryTypeNamed w type) :
    auxiliaryColumnType (Lexeme.token ⟨.identifier, w⟩ rest) = some type := by
  unfold auxiliaryColumnType
  cases type with
  | null => cases h
  | text | blob =>
    simp only [Whole.abbreviates_eq h]
    decide
  | integer | float =>
    obtain h | h := h
    all_goals
      simp only [Whole.abbreviates_eq h]
      decide

theorem metadataColumnKind_eq {kind : MetadataKind} {rest : Text} (h : MetadataKindNamed w kind) :
    metadataColumnKind (Lexeme.token ⟨.identifier, w⟩ rest) = some kind := by
  unfold metadataColumnKind
  cases kind with
  | text =>
    simp only [Whole.abbreviates_eq h]
    decide
  | boolean =>
    obtain h | h := h
    all_goals
      simp only [Whole.abbreviates_eq h]
      decide
  | integer | float =>
    obtain h | h | h | h := h
    all_goals
      simp only [Whole.abbreviates_eq h]
      decide

theorem vec0InitArgument_begun {column : Text × SqlType} {e : VectorElementType}
    (h : AuxiliarySpelled source column) (he : ElementTypeBegun column.1 e) :
    vec0InitArgument d source = .error (constructorError
      ("could not parse vector column '".toList ++ source ++ "'".toList)) := by
  obtain ⟨type, rest, hspells, hblank, -⟩ := h
  obtain ⟨rest₁, h₁, hrest⟩ := Spells.cons_iff.mp hspells
  obtain ⟨rest₂, h₂, h₃⟩ := Spells.cons_iff.mp hrest
  have hparse : vec0ParseVectorColumn source = .error (.code sqliteError) := by
    rw [vec0ParseVectorColumn, expectToken_of_spells h₁, Except.ok_bind]
    dsimp only
    rw [expectIdentifier_of_spells (s := Lexeme.scanner _ rest₁) h₂, if_pos rfl, Except.ok_bind]
    dsimp only
    rw [(vectorElementType_eq_some h₂.stops).mpr he, Except.ofOption, Except.ok_bind,
      expectToken_of_spells (s := Lexeme.scanner _ rest₂) h₃, Except.ok_bind]
    dsimp only
    rw [expectToken_of_blank hblank]
    rfl
  rw [vec0InitArgument, hparse]
  rfl

example : (vec0InitArgument .empty "+bitmap text".toList).toOption = none := by decide

theorem vec0InitArgument_auxiliary {column : Text × SqlType} (h : AuxiliarySpelled source column)
    (hname : ∀ e, ¬ElementTypeBegun column.1 e) :
    vec0InitArgument d source = d.addAuxiliary column := by
  obtain ⟨type, rest, hspells, hblank, htype⟩ := h
  obtain ⟨rest₁, h₁, hrest⟩ := Spells.cons_iff.mp hspells
  obtain ⟨rest₂, h₂, h₃⟩ := Spells.cons_iff.mp hrest
  have hskip := fun {word : String}
      (hword : (lower word.toList).head? ≠ (lower "key".toList).head?) =>
    parseKeyDefinition_skips hword ⟨_, _, h₁⟩ (not_keyAccepted_of_three hspells hblank)
  have hok : vec0ParseAuxiliaryColumnDefinition source = .ok column := by
    rw [vec0ParseAuxiliaryColumnDefinition, expectPlus_of_spells h₁, if_pos rfl, Except.ok_bind,
      expectToken_of_spells (s := Lexeme.scanner _ rest₁) h₂, Except.ok_bind]
    dsimp only
    rw [expectToken_of_spells (s := Lexeme.scanner _ rest₂) h₃, Except.ok_bind]
    dsimp only
    rw [auxiliaryColumnType_eq htype, Except.ofOption, Except.ok_bind, Lexeme.token_text]
    rfl
  rw [vec0InitArgument_skips (vec0ParseVectorColumn_skips
    (Spells.cons_iff.mpr ⟨rest₁, h₁, h₂⟩) (.inr (.inr hname)))]
  refine (scenario_skips (hskip (by decide))).trans ?_
  refine (scenario_skips (hskip (by decide))).trans ?_
  rw [hok, scenario_ok]

theorem vec0InitArgument_metadata {column : Text × MetadataKind}
    (h : MetadataSpelled source column) : vec0InitArgument d source = d.addMetadata column := by
  obtain ⟨type, rest, hspells, hblank, htype⟩ := h
  obtain ⟨rest₁, h₁, h₂⟩ := Spells.cons_iff.mp hspells
  have hskip := fun {word : String}
      (hword : (lower word.toList).head? ≠ (lower "key".toList).head?) =>
    parseKeyDefinition_skips hword ⟨_, _, h₁⟩ (not_keyAccepted_of_two hspells hblank)
  have hok : vec0ParseMetadataColumnDefinition source = .ok column := by
    rw [vec0ParseMetadataColumnDefinition, expectIdentifier_of_spells h₁, if_pos rfl,
      Except.ok_bind]
    dsimp only
    rw [expectIdentifier_of_spells (s := Lexeme.scanner _ rest₁) h₂, if_pos rfl, Except.ok_bind]
    dsimp only
    rw [metadataColumnKind_eq htype, Except.ofOption, Except.ok_bind, Lexeme.token_text]
    rfl
  rw [vec0InitArgument_skips (vec0ParseVectorColumn_skips hspells (.inr (.inl hblank)))]
  refine (scenario_skips (hskip (by decide))).trans ?_
  refine (scenario_skips (hskip (by decide))).trans ?_
  refine (scenario_skips
    ⟨_, vec0ParseAuxiliaryColumnDefinition_skips h₁ (by simp)⟩).trans ?_
  rw [hok, scenario_ok]

theorem vec0InitArgument_option {type : Vec0TokenType} {key value rest : Text}
    (htype : type ∈ [.identifier, .digit])
    (h : Spells [⟨.identifier, key⟩, ⟨.eq, ['=']⟩, ⟨type, value⟩] source rest)
    (hblank : Blank rest) : vec0InitArgument d source = d.addOption (key, value) := by
  obtain ⟨rest₁, h₁, hrest⟩ := Spells.cons_iff.mp h
  obtain ⟨rest₂, h₂, h₃⟩ := Spells.cons_iff.mp hrest
  have htwo := Spells.cons_iff.mpr ⟨rest₁, h₁, h₂⟩
  have hskip := fun {word : String}
      (hword : (lower word.toList).head? ≠ (lower "key".toList).head?) =>
    parseKeyDefinition_skips hword ⟨_, _, h₁⟩ (not_keyAccepted_of_three h hblank)
  have hok : vec0ParseTableOption source = .ok (key, value) :=
    vec0ParseTableOption_eq_ok.mpr (OptionSpelled.accepted ⟨type, rest, htype, hblank, h⟩)
  rw [vec0InitArgument_skips (vec0ParseVectorColumn_skips htwo (.inl (by decide)))]
  refine (scenario_skips (hskip (by decide))).trans ?_
  refine (scenario_skips (hskip (by decide))).trans ?_
  refine (scenario_skips
    ⟨_, vec0ParseAuxiliaryColumnDefinition_skips h₁ (by simp)⟩).trans ?_
  refine (scenario_skips
    ⟨_, vec0ParseMetadataColumnDefinition_skips htwo (by decide)⟩).trans ?_
  rw [hok, scenario_ok]

theorem Whole.strnicmp_eq {keyword : String} (h : Whole w keyword) (keyword' : String) :
    strnicmp w keyword'.toList w.length =
      decide (lower keyword.toList <+: lower keyword'.toList) := by
  have hw : (lower w).take w.length = lower keyword.toList := by
    rw [show lower w = lower keyword.toList from h, List.take_of_length_le]
    rw [← show lower w = lower keyword.toList from h, lower, List.length_map]
  rw [Bool.eq_iff_iff, strnicmp_iff, hw, decide_eq_true_iff, List.prefix_iff_eq_take]
  rw [← show lower w = lower keyword.toList from h, lower, List.length_map]

theorem vec0InitArgument_chunkSize {n : Nat} (h : ChunkSizeSpelled source n) :
    vec0InitArgument d source = d.setChunkSize (Text.ofInt n) := by
  obtain ⟨key, number, rest, hspells, hblank, hkey, hn, hle⟩ := h
  obtain ⟨rest₁, -, hrest⟩ := Spells.cons_iff.mp hspells
  obtain ⟨rest₂, -, h₃⟩ := Spells.cons_iff.mp hrest
  have hnumber : atoi number = atoi (Text.ofInt n) := by
    have hatoll : Text.atoll (Lexeme.token ⟨.digit, number⟩ []).start = Text.leading number :=
      Lexeme.atoll_number h₃.written (by simp [Lexeme.Stops])
    have htext : (Lexeme.token ⟨.digit, number⟩ []).start = number := List.append_nil number
    rw [htext, hn] at hatoll
    rw [atoi, atoi, hatoll, Text.atoll_ofInt]
  rw [vec0InitArgument_option (by simp) hspells hblank, Definition.addOption,
    if_pos (by rw [Whole.strnicmp_eq hkey]; decide), Definition.setChunkSize, hnumber]
  rfl

theorem vec0InitArgument_index {type : IndexType} {column : Text}
    (h : IndexSpelled source type column) :
    vec0InitArgument d source = d.addIndex type.keyword.toList column := by
  obtain ⟨key, rest, hspells, hblank, hkey⟩ := h
  have hself : Whole type.keyword.toList type.keyword := rfl
  have htype : Definition.indexType key = Definition.indexType type.keyword.toList := by
    simp only [Definition.indexType, Whole.strnicmp_eq hkey, Whole.strnicmp_eq hself]
  have hsome : Definition.indexType type.keyword.toList = some type := by
    cases type <;> decide
  rw [vec0InitArgument_option (by simp) hspells hblank, Definition.addOption,
    if_neg (by rw [Whole.strnicmp_eq hkey]; cases type <;> decide), Definition.addIndex,
    Definition.addIndex, htype, hsome]
  rfl

theorem vec0InitArgument_distinct {argument : Argument} (h : argument.Spelled source)
    (hdistinct : argument.Distinct) : vec0InitArgument d source = d.add argument := by
  cases argument with
  | vector column => exact vec0InitArgument_vector h
  | partition column => exact vec0InitArgument_partition h
  | primaryKey column => exact vec0InitArgument_primaryKey h
  | auxiliary column => exact vec0InitArgument_auxiliary h hdistinct
  | metadata column => exact vec0InitArgument_metadata h
  | chunkSize n => exact vec0InitArgument_chunkSize h
  | index type column => exact vec0InitArgument_index h

theorem vec0InitArgument_spelled {argument : Argument} {d' : Definition}
    (h : argument.Spelled source) :
    vec0InitArgument d source = .ok d' ↔ argument.Distinct ∧ d.add argument = .ok d' := by
  by_cases hdistinct : argument.Distinct
  · rw [vec0InitArgument_distinct h hdistinct]
    exact ⟨fun hadd => ⟨hdistinct, hadd⟩, fun hadd => hadd.2⟩
  · refine iff_of_false ?_ fun hadd => hdistinct hadd.1
    cases argument with
    | auxiliary column =>
      obtain ⟨e, he⟩ := not_forall.mp hdistinct
      rw [vec0InitArgument_begun h (not_not.mp he)]
      exact fun herror => by cases herror
    | _ => exact absurd trivial hdistinct

end Taken

section Declaration

def vectorsOf : List Argument → List VectorColumnDefinition :=
  List.filterMap fun | .vector column => some column | _ => none

def partitionsOf : List Argument → List (Text × KeyColumnType) :=
  List.filterMap fun | .partition column => some column | _ => none

def primaryKeysOf : List Argument → List (Text × KeyColumnType) :=
  List.filterMap fun | .primaryKey column => some column | _ => none

def auxiliaryOf : List Argument → List (Text × SqlType) :=
  List.filterMap fun | .auxiliary column => some column | _ => none

def metadataOf : List Argument → List (Text × MetadataKind) :=
  List.filterMap fun | .metadata column => some column | _ => none

def chunkSizesOf : List Argument → List Nat :=
  List.filterMap fun | .chunkSize n => some n | _ => none

def indexesOf : List Argument → List (IndexType × Text) :=
  List.filterMap fun | .index type column => some (type, column) | _ => none

def Argument.kind? : Argument → Option UserColumnKind
  | .vector _ => some .vector
  | .partition _ => some .partition
  | .auxiliary _ => some .auxiliary
  | .metadata _ => some .metadata
  | .primaryKey _ | .chunkSize _ | .index _ _ => none

def userColumnsOf (args : List Argument) : List UserColumn :=
  (args.filterMap Argument.kind?).mapIdx fun i kind =>
    ⟨kind, ((args.filterMap Argument.kind?).take i).count kind⟩

def Argument.Fits (before : List Argument) : Argument → Prop
  | .vector column => (vectorsOf before).length < 16 ∧ column.dimensions ≤ 8192
  | .partition _ => (partitionsOf before).length < 4
  | .primaryKey _ => primaryKeysOf before = []
  | .auxiliary _ => (auxiliaryOf before).length < 16
  | .metadata _ => (metadataOf before).length < 16
  | .chunkSize n => 0 < n ∧ n % 8 = 0 ∧ n ≤ 4096
  | .index _ _ => indexesOf before = [] ∧ (vectorsOf before).length = 1

def Admissible (args : List Argument) : Prop :=
  ∀ before argument after, args = before ++ argument :: after → argument.Fits before

def definitionOf (args : List Argument) : Definition where
  chunkSize := ((chunkSizesOf args).getLast?.map Int.ofNat).getD (-1)
  vectorColumns := vectorsOf args
  partitionColumns := partitionsOf args
  auxiliaryColumns := auxiliaryOf args
  metadataColumns := metadataOf args
  userColumns := userColumnsOf args
  primaryKey := (primaryKeysOf args).head?
  index := (indexesOf args).head?

theorem foldlM_spelled {args : List Argument} {texts : List Text} {d d' : Definition}
    (h : List.Forall₂ Argument.Spelled args texts) :
    texts.foldlM vec0InitArgument d = .ok d' ↔
      (∀ argument ∈ args, argument.Distinct) ∧ args.foldlM Definition.add d = .ok d' := by
  induction h generalizing d with
  | nil => exact ⟨fun h => ⟨List.forall_mem_nil _, h⟩, fun h => h.2⟩
  | cons harg _ ih =>
    rw [List.foldlM_cons, List.foldlM_cons, Except.bind_eq_ok, Except.bind_eq_ok,
      List.forall_mem_cons]
    constructor
    · rintro ⟨d₁, hadd, hrest⟩
      obtain ⟨hdistinct, hadd⟩ := (vec0InitArgument_spelled harg).mp hadd
      obtain ⟨hall, hrest⟩ := ih.mp hrest
      exact ⟨⟨hdistinct, hall⟩, d₁, hadd, hrest⟩
    · rintro ⟨⟨hdistinct, hall⟩, d₁, hadd, hrest⟩
      exact ⟨d₁, (vec0InitArgument_spelled harg).mpr ⟨hdistinct, hadd⟩, ih.mpr ⟨hall, hrest⟩⟩

theorem admissible_nil : Admissible [] := by
  intro before argument after h
  simp at h

theorem admissible_snoc {args : List Argument} {argument : Argument} :
    Admissible (args ++ [argument]) ↔ Admissible args ∧ argument.Fits args := by
  constructor
  · intro h
    refine ⟨fun before a after heq => h before a (after ++ [argument]) ?_,
      h args argument [] rfl⟩
    rw [heq, List.append_assoc, List.cons_append]
  · rintro ⟨h, hfits⟩ before a after heq
    obtain rfl | ⟨after, last, rfl⟩ := List.eq_nil_or_concat after
    · obtain ⟨rfl, hsame⟩ := List.append_inj' heq rfl
      obtain rfl := List.singleton_inj.mp hsame
      exact hfits
    · rw [List.concat_eq_append, ← List.cons_append, ← List.append_assoc] at heq
      exact h before a after (List.append_inj' heq rfl).1

theorem count_kinds (args : List Argument) (kind : UserColumnKind) :
    (args.filterMap Argument.kind?).count kind = (definitionOf args).count kind := by
  induction args with
  | nil => cases kind <;> rfl
  | cons argument args ih =>
    cases argument <;> cases kind <;>
      simpa [List.filterMap_cons, Argument.kind?, definitionOf, Definition.count, vectorsOf,
        partitionsOf, auxiliaryOf, metadataOf] using ih

theorem userColumnsOf_snoc {args : List Argument} {argument : Argument} {kind : UserColumnKind}
    (h : argument.kind? = some kind) : userColumnsOf (args ++ [argument]) =
      userColumnsOf args ++ [⟨kind, (definitionOf args).count kind⟩] := by
  have hkinds : (args ++ [argument]).filterMap Argument.kind? =
      args.filterMap Argument.kind? ++ [kind] := by
    rw [List.filterMap_append, List.filterMap_cons_some h, List.filterMap_nil]
  rw [userColumnsOf, hkinds, List.mapIdx_concat, List.take_left, count_kinds, userColumnsOf]
  congr 1
  refine List.mapIdx_eq_mapIdx_iff.mpr fun i hi => ?_
  rw [List.take_append_of_le_length (Nat.le_of_lt hi)]

theorem userColumnsOf_snoc_of_none {args : List Argument} {argument : Argument}
    (h : argument.kind? = none) : userColumnsOf (args ++ [argument]) = userColumnsOf args := by
  rw [userColumnsOf, List.filterMap_append, List.filterMap_cons_none h, List.filterMap_nil,
    List.append_nil, userColumnsOf]

def Definition.extend (d : Definition) : Argument → Definition
  | .vector column => { d with
    userColumns := d.userColumns ++ [⟨.vector, d.vectorColumns.length⟩]
    vectorColumns := d.vectorColumns ++ [column] }
  | .partition column => { d with
    userColumns := d.userColumns ++ [⟨.partition, d.partitionColumns.length⟩]
    partitionColumns := d.partitionColumns ++ [column] }
  | .primaryKey column => { d with primaryKey := some column }
  | .auxiliary column => { d with
    userColumns := d.userColumns ++ [⟨.auxiliary, d.auxiliaryColumns.length⟩]
    auxiliaryColumns := d.auxiliaryColumns ++ [column] }
  | .metadata column => { d with
    userColumns := d.userColumns ++ [⟨.metadata, d.metadataColumns.length⟩]
    metadataColumns := d.metadataColumns ++ [column] }
  | .chunkSize n => { d with chunkSize := n }
  | .index type column => { d with index := some (type, column) }

theorem definitionOf_snoc {args : List Argument} {argument : Argument} (h : argument.Fits args) :
    definitionOf (args ++ [argument]) = (definitionOf args).extend argument := by
  rw [definitionOf]
  cases argument with
  | vector column =>
    rw [userColumnsOf_snoc rfl]
    simp [vectorsOf, partitionsOf, primaryKeysOf, auxiliaryOf, metadataOf, chunkSizesOf, indexesOf,
      definitionOf, Definition.count, Definition.extend]
  | partition column =>
    rw [userColumnsOf_snoc rfl]
    simp [vectorsOf, partitionsOf, primaryKeysOf, auxiliaryOf, metadataOf, chunkSizesOf, indexesOf,
      definitionOf, Definition.count, Definition.extend]
  | auxiliary column =>
    rw [userColumnsOf_snoc rfl]
    simp [vectorsOf, partitionsOf, primaryKeysOf, auxiliaryOf, metadataOf, chunkSizesOf, indexesOf,
      definitionOf, Definition.count, Definition.extend]
  | metadata column =>
    rw [userColumnsOf_snoc rfl]
    simp [vectorsOf, partitionsOf, primaryKeysOf, auxiliaryOf, metadataOf, chunkSizesOf, indexesOf,
      definitionOf, Definition.count, Definition.extend]
  | primaryKey column =>
    have hnone : primaryKeysOf args = [] := h
    have hkeys : primaryKeysOf (args ++ [.primaryKey column]) = [column] := by
      rw [primaryKeysOf, List.filterMap_append]
      exact congrArg (· ++ [column]) hnone
    rw [userColumnsOf_snoc_of_none rfl, hkeys]
    simp [vectorsOf, partitionsOf, auxiliaryOf, metadataOf, chunkSizesOf, indexesOf, definitionOf,
      Definition.extend]
  | chunkSize n =>
    rw [userColumnsOf_snoc_of_none rfl]
    simp [vectorsOf, partitionsOf, primaryKeysOf, auxiliaryOf, metadataOf, chunkSizesOf, indexesOf,
      definitionOf, Definition.extend]
  | index type column =>
    have hnone : indexesOf args = [] := h.1
    have hindexes : indexesOf (args ++ [.index type column]) = [(type, column)] := by
      rw [indexesOf, List.filterMap_append]
      exact congrArg (· ++ [(type, column)]) hnone
    rw [userColumnsOf_snoc_of_none rfl, hindexes]
    simp [vectorsOf, partitionsOf, primaryKeysOf, auxiliaryOf, metadataOf, chunkSizesOf,
      definitionOf, Definition.extend]

theorem setChunkSize_eq_ok {d d' : Definition} {n : Nat} :
    d.setChunkSize (Text.ofInt n) = .ok d' ↔
      (0 < n ∧ n % 8 = 0 ∧ n ≤ 4096) ∧ d' = { d with chunkSize := n } := by
  unfold Definition.setChunkSize
  cases hatoi : atoi (Text.ofInt n) with
  | error stop =>
    refine iff_of_false (by simp) ?_
    rintro ⟨⟨-, -, hle⟩, -⟩
    rw [atoi, Text.atoll_ofInt, if_pos (by omega)] at hatoi
    cases hatoi
  | ok m =>
    obtain ⟨hm, -, -⟩ := atoi_eq_ok.mp hatoi
    rw [Text.atoll_ofInt] at hm
    subst hm
    have hmax : sqliteVecChunkSizeMax = 4096 := rfl
    simp only [Except.bind_eq_ok, Except.require_eq_ok, Except.ok.injEq, hmax]
    constructor
    · rintro ⟨_, h₁, _, h₂, _, h₃, rfl⟩
      exact ⟨⟨by omega, by omega, by omega⟩, rfl⟩
    · rintro ⟨⟨h₁, h₂, h₃⟩, rfl⟩
      exact ⟨⟨⟩, by omega, ⟨⟩, by omega, ⟨⟩, by omega, rfl⟩

theorem indexType_keyword (type : IndexType) :
    Definition.indexType type.keyword.toList = some type := by
  cases type <;> decide

theorem definitionOf_add {args : List Argument} {argument : Argument} {d : Definition} :
    (definitionOf args).add argument = .ok d ↔
      argument.Fits args ∧ d = (definitionOf args).extend argument := by
  cases argument with
  | vector column =>
    simp only [Definition.add, Definition.addVector, Except.bind_eq_ok, Except.require_eq_ok,
      Except.ok.injEq]
    constructor
    · rintro ⟨_, h₁, _, h₂, rfl⟩
      exact ⟨⟨h₁, h₂⟩, rfl⟩
    · rintro ⟨⟨h₁, h₂⟩, rfl⟩
      exact ⟨(), h₁, (), h₂, rfl⟩
  | partition column =>
    simp only [Definition.add, Definition.addPartition, Except.bind_eq_ok, Except.require_eq_ok,
      Except.ok.injEq]
    constructor
    · rintro ⟨_, h, rfl⟩
      exact ⟨h, rfl⟩
    · rintro ⟨h, rfl⟩
      exact ⟨(), h, rfl⟩
  | auxiliary column =>
    simp only [Definition.add, Definition.addAuxiliary, Except.bind_eq_ok, Except.require_eq_ok,
      Except.ok.injEq]
    constructor
    · rintro ⟨_, h, rfl⟩
      exact ⟨h, rfl⟩
    · rintro ⟨h, rfl⟩
      exact ⟨(), h, rfl⟩
  | metadata column =>
    simp only [Definition.add, Definition.addMetadata, Except.bind_eq_ok, Except.require_eq_ok,
      Except.ok.injEq]
    constructor
    · rintro ⟨_, h, rfl⟩
      exact ⟨h, rfl⟩
    · rintro ⟨h, rfl⟩
      exact ⟨(), h, rfl⟩
  | primaryKey column =>
    have hnone : (definitionOf args).primaryKey.isNone ↔ primaryKeysOf args = [] := by
      rw [Option.isNone_iff_eq_none]
      exact List.head?_eq_none_iff
    simp only [Definition.add, Definition.addPrimaryKey, Except.bind_eq_ok, Except.require_eq_ok,
      Except.ok.injEq, hnone]
    constructor
    · rintro ⟨_, h, rfl⟩
      exact ⟨h, rfl⟩
    · rintro ⟨h, rfl⟩
      exact ⟨(), h, rfl⟩
  | chunkSize n => exact setChunkSize_eq_ok
  | index type column =>
    have hnone : (definitionOf args).index.isNone ↔ indexesOf args = [] := by
      rw [Option.isNone_iff_eq_none]
      exact List.head?_eq_none_iff
    simp only [Definition.add, Definition.addIndex, Except.bind_eq_ok, Except.require_eq_ok,
      Except.ofOption_eq_ok, Except.ok.injEq, hnone, indexType_keyword]
    constructor
    · rintro ⟨_, h₁, _, h₂, _, ⟨⟩, rfl⟩
      exact ⟨⟨h₁, h₂⟩, rfl⟩
    · rintro ⟨⟨h₁, h₂⟩, rfl⟩
      exact ⟨(), h₁, (), h₂, _, rfl, rfl⟩

theorem foldlM_add_eq_ok {args : List Argument} {d : Definition} :
    args.foldlM Definition.add .empty = .ok d ↔ Admissible args ∧ d = definitionOf args := by
  induction args using List.reverseRecOn generalizing d with
  | nil => exact ⟨fun h => ⟨admissible_nil, (Except.ok.inj h).symm⟩, fun h => congrArg _ h.2.symm⟩
  | append_singleton args argument ih =>
    rw [List.foldlM_append, Except.bind_eq_ok, admissible_snoc]
    constructor
    · rintro ⟨d₁, h, hadd⟩
      obtain ⟨hadm, rfl⟩ := ih.mp h
      obtain ⟨d₂, hadd, hnil⟩ := Except.bind_eq_ok.mp hadd
      obtain ⟨hfits, rfl⟩ := definitionOf_add.mp hadd
      exact ⟨⟨hadm, hfits⟩, (Except.ok.inj hnil).symm.trans (definitionOf_snoc hfits).symm⟩
    · rintro ⟨⟨hadm, hfits⟩, rfl⟩
      rw [definitionOf_snoc hfits]
      exact ⟨_, ih.mpr ⟨hadm, rfl⟩,
        Except.bind_eq_ok.mpr ⟨_, definitionOf_add.mpr ⟨hfits, rfl⟩, rfl⟩⟩

def tableOf (args : List Argument) : Definition :=
  { definitionOf args with chunkSize := (chunkSizesOf args).getLast?.getD 1024 }

theorem chunkSize_definitionOf (args : List Argument) :
    (if (definitionOf args).chunkSize < 0 then 1024 else (definitionOf args).chunkSize) =
      (tableOf args).chunkSize := by
  rw [definitionOf, tableOf]
  cases (chunkSizesOf args).getLast? with
  | none => rfl
  | some n => exact if_neg (Int.not_lt.mpr (Int.natCast_nonneg n))

/-- A declaration that is spelled as documented is accepted exactly when no auxiliary column is
named like a vector type, each argument fits those in front of it, there is a vector column, SQLite
takes the statement and, at the creation, makes the shadow tables and the index is for a vector
column; the table is then the one declared. -/
theorem vec0Init_spelled {db : Connection} {schemaName tableName : Text} {isCreate : Bool}
    {args : List Argument} {texts : List Text} {d : Definition}
    (h : List.Forall₂ Argument.Spelled args texts) :
    vec0Init db schemaName tableName isCreate texts = .ok d ↔
      (∀ argument ∈ args, argument.Distinct) ∧ Admissible args ∧ 0 < (vectorsOf args).length ∧
        db.declareVtab (tableOf args).createStr = none ∧
        (isCreate = true → ∀ statement ∈ (tableOf args).shadowStatements schemaName tableName,
          db.exec statement.1 = none) ∧
        (isCreate = true → ∀ index, (indexesOf args).head? = some index →
          (vectorsOf args).any (stricmp ·.name index.2) = true) ∧
        d = tableOf args := by
  simp only [vec0Init_eq_ok, foldlM_spelled h]
  have htable : { definitionOf args with
      chunkSize := if (definitionOf args).chunkSize < 0 then 1024
        else (definitionOf args).chunkSize } = tableOf args := by
    rw [chunkSize_definitionOf]
    rfl
  have hdeclare : (definitionOf args).createStr = (tableOf args).createStr := rfl
  have hshadow : (definitionOf args).shadowStatements schemaName tableName =
      (tableOf args).shadowStatements schemaName tableName := rfl
  constructor
  · rintro ⟨d₀, ⟨hdistinct, hargs⟩, hpos, hd, hcreate, hindex, rfl⟩
    obtain ⟨hadm, rfl⟩ := foldlM_add_eq_ok.mp hargs
    exact ⟨hdistinct, hadm, hpos, hdeclare ▸ Definition.declare_eq_ok.mp hd,
      hshadow ▸ Definition.createShadow_eq_ok.mp hcreate, Definition.checkIndex_eq_ok.mp hindex,
      htable⟩
  · rintro ⟨hdistinct, hadm, hpos, hd, hcreate, hindex, rfl⟩
    exact ⟨_, ⟨hdistinct, foldlM_add_eq_ok.mpr ⟨hadm, rfl⟩⟩, hpos,
      Definition.declare_eq_ok.mpr (hdeclare ▸ hd),
      Definition.createShadow_eq_ok.mpr (hshadow ▸ hcreate),
      Definition.checkIndex_eq_ok.mpr hindex, htable.symm⟩

theorem sampleVector_spelled :
    ColumnSpelled "v float[4]".toList ⟨"v".toList, .float32, 4, .l2⟩ := by
  refine ⟨"float".toList, ['4'], [], ?_, .inl rfl, by decide, by decide, by decide,
    .done (List.forall_mem_nil _)⟩
  show Spells _ ([] ++ (['v'] ++ ([' '] ++ ("float".toList ++ ([] ++ (['['] ++ ([] ++ (['4'] ++
    ([] ++ ([']'] ++ [])))))))))) _
  have hblank : Blank [' '] := by
    intro c hc
    rw [List.mem_singleton.mp hc]
    decide
  refine .cons (List.forall_mem_nil _) ⟨'v', [], rfl, rfl, List.forall_mem_nil _⟩
    (by rintro _ ⟨⟩; decide) ?_
  refine .cons hblank ⟨'f', "loat".toList, rfl, rfl, List.all_eq_true.mp rfl⟩
    (by rintro _ ⟨⟩; decide) ?_
  refine .cons (List.forall_mem_nil _) rfl trivial ?_
  refine .cons (List.forall_mem_nil _) ⟨by simp, List.all_eq_true.mp rfl⟩
    (by rintro _ ⟨⟩; decide) ?_
  exact .cons (List.forall_mem_nil _) rfl trivial .nil

def sampleColumn : Argument := .vector ⟨"v".toList, .float32, 4, .l2⟩

theorem sample_spelled : vec0Init sampleConnection "main".toList "t".toList true
    ["v float[4]".toList] = .ok (tableOf [sampleColumn]) := by
  have hspelled : sampleColumn.Spelled "v float[4]".toList := sampleVector_spelled
  have hfits : sampleColumn.Fits [] := ⟨by decide, by decide⟩
  have hadmissible : Admissible ([] ++ [sampleColumn]) :=
    admissible_snoc.mpr ⟨admissible_nil, hfits⟩
  exact (vec0Init_spelled (.cons hspelled .nil)).mpr
    ⟨List.forall_mem_singleton.mpr trivial, hadmissible, by decide, rfl, fun _ _ _ => rfl,
      fun _ _ h => absurd h (by simp [indexesOf, sampleColumn]), rfl⟩

end Declaration

end SqliteMultimodal.Vec.Declare
