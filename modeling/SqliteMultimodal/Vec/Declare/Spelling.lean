import SqliteMultimodal.Lib.Text
import SqliteMultimodal.Vec.Basic

namespace SqliteMultimodal.Vec.Declare

inductive Vec0TokenType
  | identifier | digit | lbracket | rbracket | plus | eq
  deriving DecidableEq

/-- `start` is the text from the token on and `length` what lies between `start` and `end`, which is
nothing for a token of one character. -/
structure Vec0Token where
  type : Vec0TokenType
  start : Text
  length : Nat

def Vec0Token.text (token : Vec0Token) : Text := token.start.take token.length

inductive TokenResult
  | eof
  | some (token : Vec0Token) (rest : Text)
  | error

def isWordChar (c : Char) : Bool := c.isAlpha || c.isDigit || c = '_'

def vec0TokenNext : Text → TokenResult
  | [] => .eof
  | c :: t =>
    if c.isWhitespace then vec0TokenNext t
    else if c = '+' then .some ⟨.plus, t, 0⟩ t
    else if c = '[' then .some ⟨.lbracket, t, 0⟩ t
    else if c = ']' then .some ⟨.rbracket, t, 0⟩ t
    else if c = '=' then .some ⟨.eq, t, 0⟩ t
    else if c.isAlpha then
      .some ⟨.identifier, c :: t, ((c :: t).takeWhile isWordChar).length⟩
        ((c :: t).dropWhile isWordChar)
    else if c.isDigit then
      .some ⟨.digit, c :: t, ((c :: t).takeWhile Char.isDigit).length⟩
        ((c :: t).dropWhile Char.isDigit)
    else .error

structure Vec0Scanner where
  rest : Text
  token : Option Vec0Token

/-- A parser that does not return `SQLITE_OK` returns another code or has no defined behaviour. -/
inductive Stop
  | undefined
  | code (rc : ResultCode)
  deriving DecidableEq

/-- `rc != VEC0_TOKEN_RESULT_SOME && token.token_type != ...` as the condition of a failure. -/
def expectToken (types : List Vec0TokenType) (rc : ResultCode) (s : Vec0Scanner) :
    Except Stop (Vec0Token × Vec0Scanner) :=
  match vec0TokenNext s.rest with
  | .some token rest => .ok (token, ⟨rest, some token⟩)
  | .eof | .error =>
    match s.token with
    | none => .error .undefined
    | some token => if token.type ∈ types then .ok (token, s) else .error (.code rc)

/-- Whether `sqlite3_strnicmp` returns `0`. -/
def strnicmp : Text → Text → Nat → Bool
  | _, _, 0 => true
  | [], right, _ + 1 => right.isEmpty
  | _ :: _, [], _ + 1 => false
  | a :: left, b :: right, n + 1 => a.toLower = b.toLower && strnicmp left right n

def Vec0Token.abbreviates (token : Vec0Token) (keyword : String) : Bool :=
  strnicmp token.start keyword.toList token.length

end SqliteMultimodal.Vec.Declare

namespace SqliteMultimodal.Vec.Declare

section Spelling

structure Lexeme where
  type : Vec0TokenType
  text : Text

def Lexeme.Written (l : Lexeme) : Prop :=
  match l.type with
  | .identifier => ∃ c t, l.text = c :: t ∧ c.isAlpha = true ∧ ∀ d ∈ t, isWordChar d = true
  | .digit => l.text ≠ [] ∧ ∀ c ∈ l.text, c.isDigit = true
  | .lbracket => l.text = ['[']
  | .rbracket => l.text = [']']
  | .plus => l.text = ['+']
  | .eq => l.text = ['=']

def Lexeme.Stops (l : Lexeme) (rest : Text) : Prop :=
  match l.type with
  | .identifier => ∀ c ∈ rest.head?, isWordChar c = false
  | .digit => ∀ c ∈ rest.head?, c.isDigit = false
  | _ => True

/-- The token that is found, with `rest` after it. -/
def Lexeme.token (l : Lexeme) (rest : Text) : Vec0Token :=
  match l.type with
  | .identifier | .digit => ⟨l.type, l.text ++ rest, l.text.length⟩
  | _ => ⟨l.type, rest, 0⟩

def Blank (t : Text) : Prop := ∀ c ∈ t, c.isWhitespace = true

inductive Spells : List Lexeme → Text → Text → Prop
  | nil {t : Text} : Spells [] t t
  | cons {space rest t : Text} {l : Lexeme} {ls : List Lexeme} :
    Blank space → l.Written → l.Stops rest → Spells ls rest t →
      Spells (l :: ls) (space ++ (l.text ++ rest)) t

theorem takeWhile_of_stops {p : Char → Bool} {w rest : Text} (hw : ∀ c ∈ w, p c = true)
    (hrest : ∀ c ∈ rest.head?, p c = false) : (w ++ rest).takeWhile p = w := by
  rw [List.takeWhile_append_of_pos hw]
  cases rest with
  | nil => exact List.append_nil w
  | cons c rest =>
    rw [List.takeWhile_cons_of_neg (by simp [hrest c rfl]), List.append_nil]

theorem dropWhile_of_stops {p : Char → Bool} {w rest : Text} (hw : ∀ c ∈ w, p c = true)
    (hrest : ∀ c ∈ rest.head?, p c = false) : (w ++ rest).dropWhile p = rest := by
  rw [List.dropWhile_append_of_pos hw]
  cases rest with
  | nil => rfl
  | cons c rest => exact List.dropWhile_cons_of_neg (by simp [hrest c rfl])

theorem head_dropWhile {p : Char → Bool} {t : Text} : ∀ c ∈ (t.dropWhile p).head?, p c = false := by
  intro c hc
  have hnot := List.head?_dropWhile_not p t
  rw [Option.mem_def.mp hc] at hnot
  simpa using hnot

theorem isWordChar_of_isAlpha {c : Char} (h : c.isAlpha = true) : isWordChar c = true := by
  rw [isWordChar, h, Bool.true_or, Bool.true_or]

theorem isWhitespace_of_isAlpha {c : Char} (h : c.isAlpha = true) : c.isWhitespace = false := by
  have hspace := Text.isSpace_of_isAlpha h
  rw [Text.isSpace, Bool.or_eq_false_iff, Bool.or_eq_false_iff] at hspace
  exact hspace.1.1

theorem isWhitespace_of_isDigit {c : Char} (h : c.isDigit = true) : c.isWhitespace = false := by
  have hspace := Text.isSpace_of_isDigit h
  rw [Text.isSpace, Bool.or_eq_false_iff, Bool.or_eq_false_iff] at hspace
  exact hspace.1.1

theorem isAlpha_of_isDigit {c : Char} (h : c.isDigit = true) : c.isAlpha = false := by
  by_contra halpha
  rw [Text.isDigit_of_isAlpha (by simpa using halpha)] at h
  exact Bool.false_ne_true h

variable {t rest space : Text} {token : Vec0Token} {l : Lexeme} {ls : List Lexeme}

theorem vec0TokenNext_of_blank (h : Blank space) (t : Text) :
    vec0TokenNext (space ++ t) = vec0TokenNext t := by
  induction space with
  | nil => rfl
  | cons c space ih =>
    rw [List.cons_append, vec0TokenNext, if_pos (h c List.mem_cons_self)]
    exact ih fun d hd => h d (List.mem_cons_of_mem c hd)

theorem isWordChar_of_identifier {w : Text}
    (h : ∃ c t, w = c :: t ∧ c.isAlpha = true ∧ ∀ d ∈ t, isWordChar d = true) :
    ∀ c ∈ w, isWordChar c = true := by
  obtain ⟨c, t, rfl, hc, ht⟩ := h
  intro d hd
  obtain rfl | hd := List.mem_cons.mp hd
  · exact isWordChar_of_isAlpha hc
  · exact ht d hd

theorem vec0TokenNext_of_written (hl : l.Written) (hstops : l.Stops rest) :
    vec0TokenNext (l.text ++ rest) = .some (l.token rest) rest := by
  obtain ⟨type, w⟩ := l
  cases type with
  | identifier =>
    have hword := isWordChar_of_identifier hl
    obtain ⟨c, t, rfl, hc, ht⟩ := hl
    rw [List.cons_append, vec0TokenNext, if_neg (by simp [isWhitespace_of_isAlpha hc]),
      if_neg (Text.ne_of_isAlpha hc rfl), if_neg (Text.ne_of_isAlpha hc rfl),
      if_neg (Text.ne_of_isAlpha hc rfl), if_neg (Text.ne_of_isAlpha hc rfl), if_pos hc,
      ← List.cons_append, takeWhile_of_stops hword hstops, dropWhile_of_stops hword hstops]
    rfl
  | digit =>
    obtain ⟨hne, hdigit⟩ := hl
    obtain ⟨c, t, rfl⟩ := List.exists_cons_of_ne_nil hne
    have hc : c.isDigit = true := hdigit c List.mem_cons_self
    rw [List.cons_append, vec0TokenNext, if_neg (by simp [isWhitespace_of_isDigit hc]),
      if_neg (Text.ne_of_isDigit hc rfl), if_neg (Text.ne_of_isDigit hc rfl),
      if_neg (Text.ne_of_isDigit hc rfl), if_neg (Text.ne_of_isDigit hc rfl),
      if_neg (by simp [isAlpha_of_isDigit hc]), if_pos hc, ← List.cons_append,
      takeWhile_of_stops hdigit hstops, dropWhile_of_stops hdigit hstops]
    rfl
  | lbracket =>
    obtain rfl : w = ['['] := hl
    rfl
  | rbracket =>
    obtain rfl : w = [']'] := hl
    rfl
  | plus =>
    obtain rfl : w = ['+'] := hl
    rfl
  | eq =>
    obtain rfl : w = ['='] := hl
    rfl

theorem exists_of_vec0TokenNext (h : vec0TokenNext t = .some token rest) :
    ∃ (l : Lexeme) (space : Text), Blank space ∧ l.Written ∧ l.Stops rest ∧
      t = space ++ (l.text ++ rest) ∧ token = l.token rest := by
  induction t with
  | nil => cases h
  | cons c t ih =>
    unfold vec0TokenNext at h
    split_ifs at h with hspace hplus hlb hrb heq halpha hdigit
    · obtain ⟨l, space, hblank, hl, hstops, rfl, htoken⟩ := ih h
      refine ⟨l, c :: space, fun d hd => ?_, hl, hstops, rfl, htoken⟩
      obtain rfl | hd := List.mem_cons.mp hd
      · exact hspace
      · exact hblank d hd
    · cases h
      exact ⟨⟨.plus, [c]⟩, [], List.forall_mem_nil _, congrArg (fun d => [d]) hplus, trivial, rfl,
        rfl⟩
    · cases h
      exact ⟨⟨.lbracket, [c]⟩, [], List.forall_mem_nil _, congrArg (fun d => [d]) hlb, trivial, rfl,
        rfl⟩
    · cases h
      exact ⟨⟨.rbracket, [c]⟩, [], List.forall_mem_nil _, congrArg (fun d => [d]) hrb, trivial, rfl,
        rfl⟩
    · cases h
      exact ⟨⟨.eq, [c]⟩, [], List.forall_mem_nil _, congrArg (fun d => [d]) heq, trivial, rfl, rfl⟩
    · cases h
      have hword := List.takeWhile_append_dropWhile (p := isWordChar) (l := c :: t)
      refine ⟨⟨.identifier, (c :: t).takeWhile isWordChar⟩, [], List.forall_mem_nil _, ?_,
        head_dropWhile, hword.symm, ?_⟩
      · refine ⟨c, t.takeWhile isWordChar, ?_, halpha, fun d hd => List.mem_takeWhile_imp hd⟩
        exact List.takeWhile_cons_of_pos (isWordChar_of_isAlpha halpha)
      · show _ = Vec0Token.mk _ (_ ++ _) _
        rw [hword]
    · cases h
      have hword := List.takeWhile_append_dropWhile (p := Char.isDigit) (l := c :: t)
      refine ⟨⟨.digit, (c :: t).takeWhile Char.isDigit⟩, [], List.forall_mem_nil _, ?_,
        head_dropWhile, hword.symm, ?_⟩
      · refine ⟨?_, fun d hd => List.mem_takeWhile_imp hd⟩
        change (c :: t).takeWhile Char.isDigit ≠ []
        rw [List.takeWhile_cons_of_pos hdigit]
        exact List.cons_ne_nil _ _
      · show _ = Vec0Token.mk _ (_ ++ _) _
        rw [hword]

theorem vec0TokenNext_eq_eof_iff : vec0TokenNext t = .eof ↔ Blank t := by
  constructor
  · intro h
    induction t with
    | nil => exact List.forall_mem_nil _
    | cons c t ih =>
      unfold vec0TokenNext at h
      split_ifs at h with hspace
      intro d hd
      obtain rfl | hd := List.mem_cons.mp hd
      · exact hspace
      · exact ih h d hd
  · intro h
    have := vec0TokenNext_of_blank h []
    rwa [List.append_nil] at this

theorem Lexeme.token_inj {l l' : Lexeme} (hl : l.Written) (hl' : l'.Written)
    (h : l.token rest = l'.token rest) : l = l' := by
  obtain ⟨type, w⟩ := l
  obtain ⟨type', w'⟩ := l'
  have htype : type = type' := by
    have := congrArg Vec0Token.type h
    cases type <;> cases type' <;> first | rfl | cases this
  subst htype
  have hw : w = w' := by
    cases type with
    | identifier => exact List.append_cancel_right (congrArg Vec0Token.start h)
    | digit => exact List.append_cancel_right (congrArg Vec0Token.start h)
    | lbracket | rbracket | plus | eq => exact hl.trans hl'.symm
  rw [hw]

theorem vec0TokenNext_eq_some_iff :
    vec0TokenNext t = .some token rest ↔ ∃ l, Spells [l] t rest ∧ token = l.token rest := by
  constructor
  · intro h
    obtain ⟨l, space, hblank, hl, hstops, rfl, htoken⟩ := exists_of_vec0TokenNext h
    exact ⟨l, .cons hblank hl hstops .nil, htoken⟩
  · rintro ⟨l, hspells, rfl⟩
    cases hspells with
    | cons hblank hl hstops hnil =>
      cases hnil
      rw [vec0TokenNext_of_blank hblank, vec0TokenNext_of_written hl hstops]

theorem Spells.cons_iff :
    Spells (l :: ls) t rest ↔ ∃ t', Spells [l] t t' ∧ Spells ls t' rest := by
  constructor
  · intro h
    cases h with
    | cons hblank hl hstops hls => exact ⟨_, .cons hblank hl hstops .nil, hls⟩
  · rintro ⟨t', h, hls⟩
    cases h with
    | cons hblank hl hstops hnil =>
      cases hnil
      exact .cons hblank hl hstops hls

theorem Spells.written (h : Spells (l :: ls) t rest) : l.Written := by
  cases h with
  | cons _ hl _ _ => exact hl

theorem Spells.isInfix (h : Spells ls t rest) (hl : l ∈ ls) : l.text <:+: t := by
  induction h with
  | nil => exact absurd hl List.not_mem_nil
  | @cons space rest t l' ls _ _ _ _ ih =>
    obtain rfl | hl := List.mem_cons.mp hl
    · exact (List.prefix_append _ _).isInfix.trans (List.suffix_append _ _).isInfix
    · refine (ih hl).trans (List.IsInfix.trans ?_ (List.suffix_append _ _).isInfix)
      exact (List.suffix_append _ _).isInfix

theorem Lexeme.text_ne_nil {l : Lexeme} (hl : l.Written) : l.text ≠ [] := by
  obtain ⟨type, w⟩ := l
  cases type with
  | identifier =>
    obtain ⟨c, t, hw, -⟩ := hl
    exact hw ▸ List.cons_ne_nil c t
  | digit => exact hl.1
  | lbracket | rbracket | plus | eq => exact (hl : w = _) ▸ List.cons_ne_nil _ _

theorem Spells.length_le_rest (h : Spells ls t rest) : rest.length ≤ t.length := by
  induction h with
  | nil => exact Nat.le_refl _
  | cons _ _ _ _ ih =>
    simp only [List.length_append]
    omega

theorem Spells.length_lt (h : Spells (l :: ls) t rest) : rest.length < t.length := by
  cases h with
  | cons _ hl _ hls =>
    have hle := hls.length_le_rest
    have hpos := List.length_pos_of_ne_nil (Lexeme.text_ne_nil hl)
    simp only [List.length_append]
    omega

theorem Spells.stops (h : Spells [l] t rest) : l.Stops rest := by
  cases h with
  | cons _ _ hstops hnil =>
    cases hnil
    exact hstops

theorem Spells.unique {l' : Lexeme} {rest' : Text} (h : Spells [l] t rest)
    (h' : Spells [l'] t rest') : l = l' ∧ rest = rest' := by
  have hnext := vec0TokenNext_eq_some_iff.mpr ⟨l, h, rfl⟩
  rw [vec0TokenNext_eq_some_iff.mpr ⟨l', h', rfl⟩, TokenResult.some.injEq] at hnext
  obtain ⟨htoken, rfl⟩ := hnext
  exact ⟨Lexeme.token_inj h.written h'.written htoken.symm, rfl⟩

def Starts (t : Text) : Prop := ∃ l rest, Spells [l] t rest

theorem starts_iff : Starts t ↔ ∃ token rest, vec0TokenNext t = .some token rest := by
  simp only [vec0TokenNext_eq_some_iff]
  constructor
  · rintro ⟨l, rest, h⟩
    exact ⟨l.token rest, rest, l, h, rfl⟩
  · rintro ⟨token, rest, l, h, -⟩
    exact ⟨l, rest, h⟩

theorem Blank.not_starts (h : Blank t) : ¬Starts t := by
  intro hstarts
  obtain ⟨token, rest, hnext⟩ := starts_iff.mp hstarts
  rw [vec0TokenNext_eq_eof_iff.mpr h] at hnext
  cases hnext

theorem Spells.not_blank (h : Spells (l :: ls) t rest) : ¬Blank t := by
  intro hblank
  obtain ⟨t', hl, -⟩ := Spells.cons_iff.mp h
  exact hblank.not_starts ⟨l, t', hl⟩

end Spelling

section Steps

variable {types : List Vec0TokenType} {rc : ResultCode} {s' : Vec0Scanner} {token : Vec0Token}
  {t rest rest' : Text} {l l' : Lexeme}

/-- The scanner with `l` in its variable and `rest` not read yet. -/
def Lexeme.scanner (l : Lexeme) (rest : Text) : Vec0Scanner := ⟨rest, some (l.token rest)⟩

def Passes (types : List Vec0TokenType) (l : Lexeme) (rest : Text) (l' : Lexeme) (rest' : Text) :
    Prop :=
  Spells [l'] rest rest' ∨ ¬Starts rest ∧ l.type ∈ types ∧ l' = l ∧ rest' = rest

theorem Lexeme.token_type (l : Lexeme) (rest : Text) : (l.token rest).type = l.type := by
  obtain ⟨type, w⟩ := l
  cases type <;> rfl

theorem Lexeme.token_start_of_symbol (h : l.type ∉ [.identifier, .digit]) :
    (l.token rest).start = rest := by
  obtain ⟨type, w⟩ := l
  cases type with
  | identifier | digit => exact absurd (by simp) h
  | lbracket | rbracket | plus | eq => rfl

theorem expectToken_of_next {s : Vec0Scanner} (h : vec0TokenNext s.rest = .some token rest) :
    expectToken types rc s = .ok (token, ⟨rest, some token⟩) := by
  unfold expectToken
  rw [h]

theorem expectToken_of_not_starts {s : Vec0Scanner} (h : ¬Starts s.rest) :
    expectToken types rc s = match s.token with
      | none => .error .undefined
      | some token => if token.type ∈ types then .ok (token, s) else .error (.code rc) := by
  unfold expectToken
  cases hnext : vec0TokenNext s.rest with
  | some token rest => exact absurd (starts_iff.mpr ⟨token, rest, hnext⟩) h
  | eof => rfl
  | error => rfl

theorem expectToken_first :
    expectToken types rc ⟨t, none⟩ = .ok (token, s') ↔
      ∃ l rest, Spells [l] t rest ∧ token = l.token rest ∧ s' = l.scanner rest := by
  by_cases hstarts : Starts t
  · obtain ⟨l, rest, h⟩ := hstarts
    have hnext := vec0TokenNext_eq_some_iff.mpr ⟨l, h, rfl⟩
    rw [expectToken_of_next hnext, Except.ok.injEq, Prod.mk.injEq]
    constructor
    · rintro ⟨rfl, rfl⟩
      exact ⟨l, rest, h, rfl, rfl⟩
    · rintro ⟨l', rest', h', rfl, rfl⟩
      obtain ⟨rfl, rfl⟩ := h.unique h'
      exact ⟨rfl, rfl⟩
  · rw [expectToken_of_not_starts hstarts]
    constructor
    · intro h
      cases h
    · rintro ⟨l, rest, h, -⟩
      exact absurd ⟨l, rest, h⟩ hstarts

theorem expectToken_next :
    expectToken types rc (l.scanner rest) = .ok (token, s') ↔
      ∃ l' rest', Passes types l rest l' rest' ∧ token = l'.token rest' ∧
        s' = l'.scanner rest' := by
  by_cases hstarts : Starts rest
  · obtain ⟨l', rest', h⟩ := hstarts
    have hnext := vec0TokenNext_eq_some_iff.mpr ⟨l', h, rfl⟩
    rw [expectToken_of_next hnext, Except.ok.injEq, Prod.mk.injEq]
    constructor
    · rintro ⟨rfl, rfl⟩
      exact ⟨l', rest', .inl h, rfl, rfl⟩
    · rintro ⟨l'', rest'', h' | ⟨hnot, -⟩, rfl, rfl⟩
      · obtain ⟨rfl, rfl⟩ := h.unique h'
        exact ⟨rfl, rfl⟩
      · exact absurd ⟨l', rest', h⟩ hnot
  · rw [expectToken_of_not_starts hstarts]
    constructor
    · intro h
      simp only [Lexeme.scanner, Lexeme.token_type] at h
      split_ifs at h with htype
      cases h
      exact ⟨l, rest, .inr ⟨hstarts, htype, rfl, rfl⟩, rfl, rfl⟩
    · rintro ⟨l', rest', h | ⟨-, htype, rfl, rfl⟩, rfl, rfl⟩
      · exact absurd ⟨l', rest', h⟩ hstarts
      · simp only [Lexeme.scanner, Lexeme.token_type, if_pos htype]

theorem expectToken_first_undefined :
    expectToken types rc ⟨t, none⟩ = .error .undefined ↔ ¬Starts t := by
  constructor
  · intro h hstarts
    obtain ⟨token, rest, hnext⟩ := starts_iff.mp hstarts
    rw [expectToken_of_next hnext] at h
    cases h
  · intro h
    rw [expectToken_of_not_starts h]

theorem expectToken_next_defined :
    expectToken types rc (l.scanner rest) ≠ .error .undefined := by
  intro h
  by_cases hstarts : Starts rest
  · obtain ⟨token, rest, hnext⟩ := starts_iff.mp hstarts
    rw [expectToken_of_next hnext] at h
    cases h
  · rw [expectToken_of_not_starts hstarts] at h
    simp only [Lexeme.scanner] at h
    split_ifs at h
    cases h

theorem Passes.spells (h : Passes types l rest l' rest') (hstarts : Starts rest') :
    Spells [l'] rest rest' := by
  obtain h | ⟨hnot, -, -, rfl⟩ := h
  · exact h
  · exact absurd hstarts hnot

theorem Passes.written (h : Passes types l rest l' rest') (hl : l.Written) : l'.Written := by
  obtain h | ⟨-, -, rfl, -⟩ := h
  · exact h.written
  · exact hl

end Steps

section Keywords

variable {left right keyword : Text} {l : Lexeme}

def lower (t : Text) : Text := t.map Char.toLower

theorem strnicmp_zero (left right : Text) : strnicmp left right 0 = true := by
  rw [strnicmp]

theorem strnicmp_iff {n : Nat} :
    strnicmp left right n = true ↔ (lower left).take n = (lower right).take n := by
  induction n generalizing left right with
  | zero => simp [strnicmp]
  | succ n ih =>
    cases left with
    | nil => cases right <;> simp [strnicmp, lower]
    | cons a left =>
      cases right with
      | nil => simp [strnicmp, lower]
      | cons b right =>
        rw [strnicmp, Bool.and_eq_true, ih]
        simp [lower]

def Lexeme.Abbreviates (l : Lexeme) (keyword : String) : Prop :=
  match l.type with
  | .identifier | .digit => lower l.text <+: lower keyword.toList
  | _ => True

theorem Lexeme.abbreviates_iff {keyword : String} {rest : Text} :
    (l.token rest).abbreviates keyword = true ↔ l.Abbreviates keyword := by
  have hword (w : Text) : strnicmp (w ++ rest) keyword.toList w.length = true ↔
      lower w <+: lower keyword.toList := by
    have hw : (lower (w ++ rest)).take w.length = lower w := by simp [lower]
    rw [strnicmp_iff, hw, List.prefix_iff_eq_take]
    simp [lower]
  obtain ⟨type, w⟩ := l
  cases type with
  | identifier | digit => exact hword w
  | lbracket | rbracket | plus | eq => exact iff_of_true (strnicmp_zero _ _) trivial

def Whole (w : Text) (keyword : String) : Prop := lower w = lower keyword.toList

theorem Whole.abbreviates {w : Text} {keyword : String} (h : Whole w keyword) :
    Lexeme.Abbreviates ⟨.identifier, w⟩ keyword :=
  List.prefix_iff_eq_take.mpr (by rw [h, List.take_length])

def Lexeme.span (l : Lexeme) : Text :=
  match l.type with
  | .identifier | .digit => l.text
  | _ => []

theorem Lexeme.token_text (l : Lexeme) (rest : Text) : (l.token rest).text = l.span := by
  obtain ⟨type, w⟩ := l
  cases type with
  | identifier | digit => exact List.take_left
  | lbracket | rbracket | plus | eq => exact List.take_zero

end Keywords

end SqliteMultimodal.Vec.Declare
