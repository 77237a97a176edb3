import SqliteMultimodal.Lib.Text

namespace Text

section Longest

def longest (p : Text → Bool) : Text → Option Text
  | [] => if p [] then some [] else none
  | c :: t =>
    match longest (fun u => p (c :: u)) t with
    | some u => some (c :: u)
    | none => if p [] then some [] else none

def Longest (p : Text → Bool) (t w : Text) : Prop :=
  w <+: t ∧ p w ∧ ∀ v, v <+: t → p v → v.length ≤ w.length

variable {p : Text → Bool} {t w : Text}

theorem longest_eq_none (h : longest p t = none) : ∀ v, v <+: t → p v = false := by
  induction t generalizing p with
  | nil =>
    intro v hv
    obtain rfl := List.prefix_nil.mp hv
    simpa [longest] using h
  | cons c t ih =>
    rw [longest] at h
    split at h
    next => cases h
    next hrest =>
      intro v hv
      cases v with
      | nil => simpa using h
      | cons d v =>
        obtain ⟨rfl, hv'⟩ := List.cons_prefix_cons.mp hv
        exact ih hrest v hv'

theorem longest_spec (h : longest p t = some w) : Longest p t w := by
  induction t generalizing p w with
  | nil =>
    simp only [longest, Option.ite_none_right_eq_some, Option.some.injEq] at h
    obtain ⟨hp, rfl⟩ := h
    exact ⟨List.prefix_rfl, hp, fun v hv _ => hv.length_le⟩
  | cons c t ih =>
    rw [longest] at h
    split at h
    next u hu =>
      obtain rfl := Option.some.inj h
      obtain ⟨hstart, hp, hmax⟩ := ih hu
      refine ⟨List.cons_prefix_cons.mpr ⟨rfl, hstart⟩, hp, fun v hv hpv => ?_⟩
      cases v with
      | nil => exact Nat.zero_le _
      | cons d v =>
        obtain ⟨rfl, hv'⟩ := List.cons_prefix_cons.mp hv
        exact Nat.succ_le_succ (hmax v hv' hpv)
    next hrest =>
      simp only [Option.ite_none_right_eq_some, Option.some.injEq] at h
      obtain ⟨hp, rfl⟩ := h
      refine ⟨List.nil_prefix, hp, fun v hv hpv => ?_⟩
      cases v with
      | nil => exact Nat.le_refl _
      | cons d v =>
        obtain ⟨rfl, hv'⟩ := List.cons_prefix_cons.mp hv
        exact absurd hpv (Bool.not_eq_true _ ▸ longest_eq_none hrest v hv')

theorem longest_iff : longest p t = some w ↔ Longest p t w := by
  refine ⟨longest_spec, fun ⟨hstart, hp, hmax⟩ => ?_⟩
  cases h : longest p t with
  | none => exact absurd hp (Bool.not_eq_true _ ▸ longest_eq_none h w hstart)
  | some v =>
    obtain ⟨hstart', hp', hmax'⟩ := longest_spec h
    have hlen := Nat.le_antisymm (hmax v hstart' hp') (hmax' w hstart hp)
    rw [List.IsPrefix.eq_of_length (List.prefix_of_prefix_length_le hstart' hstart hlen.le) hlen]

end Longest

section Numerals

def isNumeralChar (c : Char) : Bool := c.isAlphanum || c ∈ ['+', '-', '.', '_', '(', ')']

theorem isSpace_of_isNumeralChar {c : Char} (h : isNumeralChar c = true) : isSpace c = false := by
  simp only [isNumeralChar, Char.isAlphanum, Bool.or_eq_true, decide_eq_true_eq] at h
  obtain (halpha | hdigit) | hmem := h
  · exact isSpace_of_isAlpha halpha
  · exact isSpace_of_isDigit hdigit
  · have hsigns : ['+', '-', '.', '_', '(', ')'].all (!isSpace ·) = true := rfl
    simpa using List.all_eq_true.mp hsigns c hmem

structure Numerals where
  isNumeral : Text → Bool
  ne_nil : ∀ t, isNumeral t = true → t ≠ []
  chars : ∀ t, isNumeral t = true → ∀ c ∈ t, isNumeralChar c = true

variable (N : Numerals)

def Numerals.read (t : Text) : Option (Text × Text) :=
  (longest N.isNumeral (t.dropWhile isSpace)).map fun w =>
    (w, (t.dropWhile isSpace).drop w.length)

def Spaces (t : Text) : Prop := ∀ c ∈ t, isSpace c = true

variable {N} {t w rest : Text}

theorem read_spec (h : N.read t = some (w, rest)) :
    ∃ a, Spaces a ∧ t = a ++ (w ++ rest) ∧ Longest N.isNumeral (w ++ rest) w := by
  obtain ⟨v, hlongest, heq⟩ := Option.map_eq_some_iff.mp h
  obtain ⟨rfl, rfl⟩ := Prod.mk.inj heq
  have hspec := longest_spec hlongest
  have happend : v ++ (t.dropWhile isSpace).drop v.length = t.dropWhile isSpace := by
    rw [List.prefix_iff_eq_append.mp hspec.1]
  refine ⟨t.takeWhile isSpace, fun c hc => List.mem_takeWhile_imp hc, ?_, ?_⟩
  · rw [happend, List.takeWhile_append_dropWhile]
  · rwa [happend]

theorem dropWhile_isSpace {a : Text} (ha : Spaces a) (hw : N.isNumeral w = true) (rest : Text) :
    (a ++ (w ++ rest)).dropWhile isSpace = w ++ rest := by
  obtain ⟨c, cs, rfl⟩ := List.exists_cons_of_ne_nil (N.ne_nil w hw)
  have hc := isSpace_of_isNumeralChar (N.chars _ hw c List.mem_cons_self)
  rw [List.dropWhile_append_of_pos ha, List.cons_append, List.dropWhile_cons_of_neg (by simp [hc])]

theorem read_of_longest {a : Text} (ha : Spaces a) (h : Longest N.isNumeral (w ++ rest) w) :
    N.read (a ++ (w ++ rest)) = some (w, rest) := by
  rw [Numerals.read, dropWhile_isSpace ha h.2.1, longest_iff.mpr h, Option.map_some,
    List.drop_left]

theorem longest_of_head (hw : N.isNumeral w = true)
    (hrest : ∀ c ∈ rest.head?, isNumeralChar c = false) : Longest N.isNumeral (w ++ rest) w := by
  refine ⟨List.prefix_append w rest, hw, fun v hv hnumeral => ?_⟩
  by_contra hlt
  obtain ⟨u, rfl⟩ : ∃ u, w ++ u = v :=
    List.prefix_of_prefix_length_le (List.prefix_append w rest) hv (by omega)
  have hu := (List.prefix_append_right_inj w).mp hv
  obtain ⟨c, cs, rfl⟩ : ∃ c cs, u = c :: cs := List.exists_cons_of_ne_nil (by
    rintro rfl
    simp at hlt)
  have hc := N.chars _ hnumeral c (List.mem_append_right w List.mem_cons_self)
  obtain ⟨us, rfl⟩ := hu
  exact absurd hc (by simpa using hrest c rfl)

end Numerals

section Syntax

def unsigned : Text → Text
  | [] => []
  | c :: t => if c = '+' ∨ c = '-' then t else c :: t

def isDigits (t : Text) : Bool := t ≠ [] && t.all Char.isDigit

def isInteger (t : Text) : Bool := isDigits (unsigned t)

def isMantissa (digit : Char → Bool) (t : Text) : Bool :=
  t.any digit && t.all (fun c => digit c || c = '.') && t.count '.' ≤ 1

def isScaled (digit mark : Char → Bool) (t : Text) : Bool :=
  match t.dropWhile (!mark ·) with
  | [] => isMantissa digit t
  | _ :: e => isMantissa digit (t.takeWhile (!mark ·)) && isInteger e

def isHexDigit (c : Char) : Bool := c.isDigit || c.toLower ∈ "abcdef".toList

def isHex : Text → Bool
  | c :: d :: t => c = '0' && d.toLower = 'x' && isScaled isHexDigit (·.toLower = 'p') t
  | _ => false

def isInfinity (t : Text) : Bool :=
  t.map Char.toLower = "inf".toList || t.map Char.toLower = "infinity".toList

def isNan (t : Text) : Bool :=
  (t.take 3).map Char.toLower = "nan".toList &&
    match t.drop 3 with
    | [] => true
    | c :: u => c = '(' && u.getLast? = some ')' && u.dropLast.all fun c => c.isAlphanum || c = '_'

def isDouble (t : Text) : Bool :=
  isScaled Char.isDigit (·.toLower = 'e') (unsigned t) || isHex (unsigned t) ||
    isInfinity (unsigned t) || isNan (unsigned t)

def Plain (t : Text) : Prop := ∀ c ∈ t, isNumeralChar c = true

theorem isNumeralChar_of_isDigit {c : Char} (h : c.isDigit = true) : isNumeralChar c = true := by
  simp [isNumeralChar, Char.isAlphanum, h]

theorem isNumeralChar_of_isAlpha {c : Char} (h : c.isAlpha = true) : isNumeralChar c = true := by
  simp [isNumeralChar, Char.isAlphanum, h]

theorem isNumeralChar_of_toLower {c d : Char} (h : c.toLower = d) (hd : d.isAlpha = true) :
    isNumeralChar c = true :=
  isNumeralChar_of_isAlpha (isAlpha_of_toLower (h ▸ hd))

theorem plain_unsigned {t : Text} (h : Plain (unsigned t)) : Plain t := by
  cases t with
  | nil => exact h
  | cons c t =>
    by_cases hc : c = '+' ∨ c = '-'
    · rw [unsigned, if_pos hc] at h
      refine List.forall_mem_cons.mpr ⟨?_, h⟩
      obtain rfl | rfl := hc <;> decide
    · rwa [unsigned, if_neg hc] at h

theorem plain_digits {t : Text} (h : isDigits t = true) : Plain t := fun c hc =>
  isNumeralChar_of_isDigit (List.all_eq_true.mp (Bool.and_eq_true_iff.mp h).2 c hc)

theorem plain_integer {t : Text} (h : isInteger t = true) : Plain t :=
  plain_unsigned (plain_digits h)

theorem plain_mantissa {digit : Char → Bool} (hdigit : ∀ c, digit c = true → isNumeralChar c = true)
    {t : Text} (h : isMantissa digit t = true) : Plain t := by
  intro c hc
  simp only [isMantissa, Bool.and_eq_true, List.all_eq_true, Bool.or_eq_true,
    decide_eq_true_eq] at h
  obtain hd | rfl := h.1.2 c hc
  · exact hdigit c hd
  · decide

theorem plain_scaled {digit mark : Char → Bool}
    (hdigit : ∀ c, digit c = true → isNumeralChar c = true)
    (hmark : ∀ c, mark c = true → isNumeralChar c = true) {t : Text}
    (h : isScaled digit mark t = true) : Plain t := by
  have hsplit := List.takeWhile_append_dropWhile (p := (!mark ·)) (l := t)
  unfold isScaled at h
  split at h
  next => exact plain_mantissa hdigit h
  next c e hdrop =>
    obtain ⟨hmantissa, hexponent⟩ := Bool.and_eq_true_iff.mp h
    have hc : mark c = true := by
      have hhead := List.head?_dropWhile_not (!mark ·) t
      rw [hdrop] at hhead
      simpa using hhead
    rw [← hsplit, hdrop]
    refine List.forall_mem_append.mpr ⟨plain_mantissa hdigit hmantissa, ?_⟩
    exact List.forall_mem_cons.mpr ⟨hmark c hc, plain_integer hexponent⟩

theorem isNumeralChar_of_isHexDigit {c : Char} (h : isHexDigit c = true) :
    isNumeralChar c = true := by
  obtain hdigit | hletter := Bool.or_eq_true_iff.mp h
  · exact isNumeralChar_of_isDigit hdigit
  · have halpha : "abcdef".toList.all Char.isAlpha = true := rfl
    exact isNumeralChar_of_toLower rfl
      (List.all_eq_true.mp halpha _ (decide_eq_true_eq.mp hletter))

theorem plain_hex {t : Text} (h : isHex t = true) : Plain t := by
  match t, h with
  | c :: d :: t, h =>
    simp only [isHex, Bool.and_eq_true, decide_eq_true_eq] at h
    obtain ⟨⟨rfl, hd⟩, hscaled⟩ := h
    have hplain : Plain t := plain_scaled (fun _ => isNumeralChar_of_isHexDigit)
      (fun _ hc => isNumeralChar_of_toLower (decide_eq_true_eq.mp hc) (by decide)) hscaled
    have hmark := isNumeralChar_of_toLower hd (by decide)
    exact List.forall_mem_cons.mpr ⟨by decide, List.forall_mem_cons.mpr ⟨hmark, hplain⟩⟩

theorem plain_map_toLower {t u : Text} (h : t.map Char.toLower = u)
    (hu : u.all Char.isAlpha = true) : Plain t := fun _ hc =>
  isNumeralChar_of_toLower rfl (List.all_eq_true.mp hu _ (h ▸ List.mem_map_of_mem hc))

theorem plain_nan {t : Text} (h : isNan t = true) : Plain t := by
  obtain ⟨hname, hrest⟩ := Bool.and_eq_true_iff.mp h
  rw [← List.take_append_drop 3 t]
  refine List.forall_mem_append.mpr
    ⟨plain_map_toLower (decide_eq_true_eq.mp hname) rfl, ?_⟩
  split at hrest
  next hdrop => simp [hdrop]
  next c u hdrop =>
    simp only [Bool.and_eq_true, decide_eq_true_eq, List.all_eq_true, Bool.or_eq_true] at hrest
    obtain ⟨⟨rfl, hlast⟩, hinner⟩ := hrest
    have hu : u = u.dropLast ++ [')'] := (List.dropLast_append_getLast? _ hlast).symm
    rw [hdrop, hu]
    refine List.forall_mem_cons.mpr ⟨by decide, List.forall_mem_append.mpr ⟨fun c hc => ?_, ?_⟩⟩
    · obtain halnum | rfl := hinner c hc
      · simp [isNumeralChar, halnum]
      · decide
    · exact List.forall_mem_singleton.mpr (by decide)

theorem plain_double {t : Text} (h : isDouble t = true) : Plain t := by
  refine plain_unsigned ?_
  simp only [isDouble, Bool.or_eq_true] at h
  obtain ((hscaled | hhex) | hinfinity) | hnan := h
  · exact plain_scaled (fun _ => isNumeralChar_of_isDigit)
      (fun _ hc => isNumeralChar_of_toLower (decide_eq_true_eq.mp hc) (by decide)) hscaled
  · exact plain_hex hhex
  · obtain hname | hname := Bool.or_eq_true_iff.mp hinfinity
    · exact plain_map_toLower (decide_eq_true_eq.mp hname) rfl
    · exact plain_map_toLower (decide_eq_true_eq.mp hname) rfl
  · exact plain_nan hnan

def integers : Numerals where
  isNumeral := isInteger
  ne_nil t h := by
    rintro rfl
    cases h
  chars _ h := plain_integer h

def doubles : Numerals where
  isNumeral := isDouble
  ne_nil t h := by
    rintro rfl
    cases h
  chars _ h := plain_double h

def integerOf (t : Text) : Int :=
  let n : Int := Nat.ofDigitChars 10 (unsigned t) 0
  if t.head? = some '-' then -n else n

theorem isDigits_toDigits (n : Nat) : isDigits (Nat.toDigits 10 n) = true := by
  rw [isDigits, Bool.and_eq_true_iff, List.all_eq_true]
  exact ⟨decide_eq_true Nat.toDigits_ne_nil, fun c hc => isDigit_of_mem_toDigits hc⟩

theorem unsigned_toDigits (n : Nat) : unsigned (Nat.toDigits 10 n) = Nat.toDigits 10 n ∧
    (Nat.toDigits 10 n).head? ≠ some '-' := by
  obtain ⟨c, cs, hcs⟩ := List.exists_cons_of_ne_nil (Nat.toDigits_ne_nil (n := n) (b := 10))
  have hc : c.isDigit = true := isDigit_of_mem_toDigits (hcs ▸ List.mem_cons_self)
  have hplus : c ≠ '+' := ne_of_isDigit hc rfl
  have hminus : c ≠ '-' := ne_of_isDigit hc rfl
  rw [hcs, unsigned, if_neg (by simp [hplus, hminus])]
  exact ⟨rfl, fun h => hminus (Option.some.inj h)⟩

theorem isInteger_ofInt (n : Int) : isInteger (ofInt n) = true := by
  cases n with
  | ofNat n => rw [isInteger, ofInt, (unsigned_toDigits n).1, isDigits_toDigits]
  | negSucc n => exact isDigits_toDigits (n + 1)

theorem integerOf_ofInt (n : Int) : integerOf (ofInt n) = n := by
  cases n with
  | ofNat n =>
    obtain ⟨hunsigned, hhead⟩ := unsigned_toDigits n
    rw [integerOf, ofInt, hunsigned, if_neg hhead,
      Nat.ofDigitChars_toDigits (by decide) (by decide)]
    rfl
  | negSucc n =>
    have hvalue : Nat.ofDigitChars 10 (unsigned ('-' :: Nat.toDigits 10 (n + 1))) 0 = n + 1 :=
      Nat.ofDigitChars_toDigits (by decide) (by decide)
    rw [integerOf, ofInt, hvalue, if_pos List.head?_cons]
    rfl

end Syntax

end Text
