import SqliteMultimodal.Lib.JsonValue

namespace Json

section Local

variable {α : Type} {u : Text}

def StopsBefore (u : Text) (read : Text → Option (α × Text)) : Prop :=
  ∀ t, read (t ++ u) = (read t).map fun r => (r.1, r.2 ++ u)

def scalarChars : Text := ".eE+-nulltruefalse\"".toList

def EndsWord (u : Text) : Prop := ∀ c ∈ u.head?, c.isDigit = false ∧ c ∉ scalarChars

theorem EndsWord.cases (h : EndsWord u) :
    u = [] ∨ ∃ c v, u = c :: v ∧ c.isDigit = false ∧ c ∉ scalarChars := by
  cases u with
  | nil => exact .inl rfl
  | cons c v => exact .inr ⟨c, v, rfl, h c rfl⟩

theorem EndsWord.digits (h : EndsWord u) : u.takeWhile Char.isDigit = [] ∧
    u.dropWhile Char.isDigit = u := by
  obtain rfl | ⟨c, v, rfl, hc, -⟩ := h.cases
  · exact ⟨rfl, rfl⟩
  · exact ⟨List.takeWhile_cons_of_neg (by simp [hc]), List.dropWhile_cons_of_neg (by simp [hc])⟩

theorem EndsWord.span (h : EndsWord u) (t : Text) :
    (t ++ u).takeWhile Char.isDigit = t.takeWhile Char.isDigit ∧
      (t ++ u).dropWhile Char.isDigit = t.dropWhile Char.isDigit ++ u := by
  induction t with
  | nil => exact h.digits
  | cons c t ih =>
    cases hc : c.isDigit with
    | true => simp [hc, ih]
    | false => simp [hc]

theorem stopsBefore_digits (h : EndsWord u) : StopsBefore u digits := by
  intro t
  obtain ⟨htake, hdrop⟩ := h.span t
  unfold digits
  rw [htake, hdrop]
  split
  next => rfl
  next => rfl

theorem stopsBefore_integer (h : EndsWord u) : StopsBefore u integer := by
  intro t
  cases t with
  | nil =>
    obtain rfl | ⟨c, v, rfl, hc, -⟩ := h.cases
    · rfl
    · have hzero : c ≠ '0' := by
        rintro rfl
        cases hc
      rw [List.nil_append, integer]
      · simp [digits, hc, integer]
      · rintro w heq
        exact hzero (List.cons.inj heq).1
  | cons d t =>
    by_cases hd : d = '0'
    · subst hd
      rfl
    · have heq : ∀ v, integer (d :: v) = digits (d :: v) := by
        intro v
        rw [integer]
        rintro w heq
        exact hd (List.cons.inj heq).1
      rw [List.cons_append, heq, heq]
      exact stopsBefore_digits h (d :: t)

theorem stopsBefore_fraction (h : EndsWord u) : StopsBefore u fraction := by
  intro t
  cases t with
  | nil =>
    obtain rfl | ⟨c, v, rfl, -, hc⟩ := h.cases
    · rfl
    · rw [List.nil_append, fraction]
      · rfl
      · rintro w heq
        rw [(List.cons.inj heq).1] at hc
        exact absurd hc (by decide)
  | cons d t =>
    by_cases hd : d = '.'
    · subst hd
      rw [List.cons_append, fraction, fraction, stopsBefore_digits h, Option.map_map,
        Option.map_map]
      rfl
    · have heq : ∀ v, fraction (d :: v) = some ([], d :: v) := by
        intro v
        rw [fraction]
        rintro w heq
        exact hd (List.cons.inj heq).1
      rw [List.cons_append, heq, heq]
      rfl

theorem exponentSign_append (h : EndsWord u) (t : Text) : exponentSign (t ++ u) =
    ((exponentSign t).1, (exponentSign t).2 ++ u) := by
  cases t with
  | nil =>
    obtain rfl | ⟨c, v, rfl, -, hc⟩ := h.cases
    · rfl
    · rw [List.nil_append, exponentSign]
      · rfl
      · rintro w heq
        rw [(List.cons.inj heq).1] at hc
        exact absurd hc (by decide)
      · rintro w heq
        rw [(List.cons.inj heq).1] at hc
        exact absurd hc (by decide)
  | cons d t =>
    rw [List.cons_append]
    unfold exponentSign
    split
    next heq =>
      obtain ⟨rfl, rfl⟩ := List.cons.inj heq
      rfl
    next heq =>
      obtain ⟨rfl, rfl⟩ := List.cons.inj heq
      rfl
    next hplus hminus =>
      split
      next heq => exact absurd (by rw [(List.cons.inj heq).1]) (hplus _)
      next heq => exact absurd (by rw [(List.cons.inj heq).1]) (hminus _)
      next => rfl

theorem stopsBefore_exponent (h : EndsWord u) : StopsBefore u exponent := by
  intro t
  cases t with
  | nil =>
    obtain rfl | ⟨c, v, rfl, -, hc⟩ := h.cases
    · rfl
    · have hexp : ¬(c = 'e' ∨ c = 'E') := by
        rintro (rfl | rfl)
        · exact hc (by decide)
        · exact hc (by decide)
      have heq : exponent (c :: v) = some ([], c :: v) := if_neg hexp
      rw [List.nil_append, heq]
      rfl
  | cons d t =>
    rw [List.cons_append, exponent, exponent, exponentSign_append h]
    split
    next => rw [stopsBefore_digits h, Option.map_map, Option.map_map]; rfl
    next => rfl

theorem sign_append (h : EndsWord u) (t : Text) :
    sign (t ++ u) = ((sign t).1, (sign t).2 ++ u) := by
  cases t with
  | nil =>
    obtain rfl | ⟨c, v, rfl, -, hc⟩ := h.cases
    · rfl
    · rw [List.nil_append, sign_of_ne]
      · rfl
      · rintro rfl
        exact hc (by decide)
  | cons d t =>
    by_cases hd : d = '-'
    · subst hd
      rfl
    · rw [List.cons_append, sign_of_ne hd, sign_of_ne hd]
      rfl

theorem stopsBefore_number (h : EndsWord u) : StopsBefore u number := by
  intro t
  simp only [number, sign_append h, stopsBefore_integer h _]
  cases integer (sign t).2 with
  | none => rfl
  | some i =>
    simp only [Option.map_some, Option.bind_eq_bind, Option.bind_some, stopsBefore_fraction h _]
    cases fraction i.2 with
    | none => rfl
    | some f =>
      simp only [Option.map_some, Option.bind_some, stopsBefore_exponent h _]
      cases exponent f.2 with
      | none => rfl
      | some e => rfl

theorem EndsWord.literal (h : EndsWord u) {k t v : Text} (hk : ∀ c ∈ k, c ∈ scalarChars)
    (heq : t ++ u = k ++ v) : ∃ w, t = k ++ w ∧ v = w ++ u := by
  obtain ⟨w, rfl, hu⟩ | ⟨w, hk', hv⟩ := List.append_eq_append_iff.mp heq
  · cases w with
    | nil => exact ⟨[], by simp, by simpa using hu.symm⟩
    | cons c w =>
      have hmem := hk c (List.mem_append_right _ List.mem_cons_self)
      exact absurd hmem (h c (by rw [hu]; rfl)).2
  · exact ⟨w, hk', hv⟩

theorem stopsBefore_scalar (h : EndsWord u) {t : Text} (ht : t.head? ≠ some '"') :
    scalar (t ++ u) = (scalar t).map fun r => (r.1, r.2 ++ u) := by
  have hliteral : ∀ k : Text, k.all (· ∈ scalarChars) = true → ∀ c ∈ k, c ∈ scalarChars :=
    fun k hk c hc => of_decide_eq_true (List.all_eq_true.mp hk c hc)
  generalize hw : t ++ u = w
  unfold scalar
  split
  next v =>
    obtain ⟨v', rfl, rfl⟩ := h.literal (hliteral ['"'] rfl) hw
    exact absurd rfl ht
  next v =>
    obtain ⟨v', rfl, rfl⟩ := h.literal (hliteral "null".toList rfl) hw
    rfl
  next v =>
    obtain ⟨v', rfl, rfl⟩ := h.literal (hliteral "true".toList rfl) hw
    rfl
  next v =>
    obtain ⟨v', rfl, rfl⟩ := h.literal (hliteral "false".toList rfl) hw
    rfl
  next hquote hnull htrue hfalse =>
    subst hw
    split
    next => exact absurd rfl ht
    next => exact absurd rfl (hnull _)
    next => exact absurd rfl (htrue _)
    next => exact absurd rfl (hfalse _)
    next =>
      rw [stopsBefore_number h, Option.map_map, Option.map_map]
      rfl

end Local

section Steps

def Mode.isEscape : Mode → Bool
  | .escape => true
  | _ => false

variable {high : Option Nat} {mode : Mode} {c : Char} {t v r : Text}

theorem scan_step (h : scan high mode (c :: t) = some (v, r)) :
    mode = .plain ∧ c = '"' ∧ v = alone high ∧ r = t ∨
      ¬(c = '"' ∧ mode.isEscape = false) ∧ ∃ high' mode' out,
        mode'.isEscape = (!mode.isEscape && decide (c = '\\')) ∧
        ∀ t', scan high mode (c :: t') = (scan high' mode' t').map fun x => (out ++ x.1, x.2) := by
  cases mode with
  | plain =>
    by_cases hquote : c = '"'
    · subst hquote
      obtain ⟨rfl, rfl⟩ := Prod.mk.inj (Option.some.inj h)
      exact .inl ⟨rfl, rfl, rfl, rfl⟩
    refine .inr ⟨fun h => hquote h.1, ?_⟩
    by_cases hslash : c = '\\'
    · subst hslash
      exact ⟨high, .escape, [], rfl, fun t' => by simp [scan]⟩
    · rw [scan, if_neg hquote, if_neg hslash] at h
      split at h
      next => cases h
      next hcontrol =>
        refine ⟨none, .plain, alone high ++ [c], by simp [Mode.isEscape, hslash], fun t' => ?_⟩
        simp [scan, hquote, hslash, hcontrol]
  | escape =>
    refine .inr ⟨fun h => Bool.noConfusion h.2, ?_⟩
    by_cases hunit : c = 'u'
    · subst hunit
      exact ⟨high, .hex 3 0, [], rfl, fun t' => by simp [scan]⟩
    · rw [scan, if_neg hunit] at h
      obtain ⟨d, hd, -⟩ := Option.bind_eq_some_iff.mp h
      refine ⟨none, .plain, alone high ++ [d], rfl, fun t' => ?_⟩
      simp [scan, hunit, hd]
  | hex left acc =>
    rw [scan] at h
    obtain ⟨digit, hdigit, -⟩ := Option.bind_eq_some_iff.mp h
    have hquote : c ≠ '"' := by
      rintro rfl
      cases hdigit
    have hslash : c ≠ '\\' := by
      rintro rfl
      cases hdigit
    refine .inr ⟨fun h => hquote h.1, ?_⟩
    cases left with
    | succ left =>
      exact ⟨high, .hex left (acc * 16 + digit), [], by simp [Mode.isEscape, hslash],
        fun t' => by simp [scan, hdigit]⟩
    | zero =>
      cases high with
      | none =>
        by_cases hhigh : isHigh (acc * 16 + digit) = true
        · exact ⟨some (acc * 16 + digit), .plain, [], by simp [Mode.isEscape, hslash],
            fun t' => by simp [scan, hdigit, hhigh]⟩
        · exact ⟨none, .plain, utf8 (acc * 16 + digit), by simp [Mode.isEscape, hslash],
            fun t' => by simp [scan, hdigit, hhigh]⟩
      | some high =>
        by_cases hlow : isLow (acc * 16 + digit) = true
        · exact ⟨none, .plain, _, by simp [Mode.isEscape, hslash],
            fun t' => by simp [scan, hdigit, hlow]; rfl⟩
        · by_cases hhigh : isHigh (acc * 16 + digit) = true
          · exact ⟨some (acc * 16 + digit), .plain, utf8 high, by simp [Mode.isEscape, hslash],
              fun t' => by simp [scan, hdigit, hhigh, hlow]⟩
          · exact ⟨none, .plain, utf8 high ++ utf8 (acc * 16 + digit),
              by simp [Mode.isEscape, hslash], fun t' => by simp [scan, hdigit, hhigh, hlow]⟩

end Steps

section Rest

variable {t r : Text}

theorem digits_suffix {ds : Text} (h : digits t = some (ds, r)) : r <:+ t := by
  unfold digits at h
  split at h
  next => cases h
  next =>
    rw [← (Prod.mk.inj (Option.some.inj h)).2]
    exact List.dropWhile_suffix _

theorem sign_suffix (t : Text) : (sign t).2 <:+ t := by
  unfold sign
  split
  next => exact List.suffix_cons _ _
  next => exact List.suffix_refl _

theorem integer_suffix {ds : Text} (h : integer t = some (ds, r)) : r <:+ t := by
  unfold integer at h
  split at h
  next =>
    rw [← (Prod.mk.inj (Option.some.inj h)).2]
    exact List.suffix_cons _ _
  next => exact digits_suffix h

theorem fraction_suffix {ds : Text} (h : fraction t = some (ds, r)) : r <:+ t := by
  unfold fraction at h
  split at h
  next =>
    obtain ⟨⟨ds', r'⟩, hread, heq⟩ := Option.map_eq_some_iff.mp h
    rw [← (Prod.mk.inj heq).2]
    exact (digits_suffix hread).trans (List.suffix_cons _ _)
  next =>
    obtain ⟨-, rfl⟩ := Prod.mk.inj (Option.some.inj h)
    exact List.suffix_refl _

theorem exponentSign_suffix (t : Text) : (exponentSign t).2 <:+ t := by
  unfold exponentSign
  split
  next => exact List.suffix_cons _ _
  next => exact List.suffix_cons _ _
  next => exact List.suffix_refl _

theorem exponent_suffix {ds : Text} (h : exponent t = some (ds, r)) : r <:+ t := by
  unfold exponent at h
  split at h
  next =>
    obtain ⟨-, rfl⟩ := Prod.mk.inj (Option.some.inj h)
    exact List.suffix_refl _
  next c u =>
    split at h
    next =>
      obtain ⟨⟨ds', r'⟩, hread, heq⟩ := Option.map_eq_some_iff.mp h
      rw [← (Prod.mk.inj heq).2]
      exact ((digits_suffix hread).trans (exponentSign_suffix u)).trans (List.suffix_cons _ _)
    next =>
      obtain ⟨-, rfl⟩ := Prod.mk.inj (Option.some.inj h)
      exact List.suffix_refl _

theorem number_suffix {z : Text} (h : number t = some (z, r)) : r <:+ t := by
  simp only [number, Option.bind_eq_bind, Option.bind_eq_some_iff] at h
  obtain ⟨⟨i, u⟩, hinteger, ⟨f, v⟩, hfraction, ⟨e, w⟩, hexponent, heq⟩ := h
  rw [← (Prod.mk.inj (Option.some.inj heq)).2]
  exact (((exponent_suffix hexponent).trans (fraction_suffix hfraction)).trans
    (integer_suffix hinteger)).trans (sign_suffix t)

theorem scalar_suffix {s : Scalar} (ht : t.head? ≠ some '"') (h : scalar t = some (s, r)) :
    r <:+ t := by
  unfold scalar at h
  split at h
  next => exact absurd rfl ht
  next u =>
    rw [← (Prod.mk.inj (Option.some.inj h)).2]
    exact ⟨"null".toList, rfl⟩
  next =>
    rw [← (Prod.mk.inj (Option.some.inj h)).2]
    exact ⟨"true".toList, rfl⟩
  next =>
    rw [← (Prod.mk.inj (Option.some.inj h)).2]
    exact ⟨"false".toList, rfl⟩
  next =>
    obtain ⟨⟨z, r'⟩, hread, heq⟩ := Option.map_eq_some_iff.mp h
    rw [← (Prod.mk.inj heq).2]
    exact number_suffix hread

end Rest

end Json
