import Mathlib.Data.List.Forall2
import SqliteMultimodal.Lib.Json

namespace Json

inductive Value
  | scalar (s : Scalar)
  | array (values : List Value)
  | object (members : List (Text × Value))

namespace Value

def elements : Value → List Value
  | array values => values
  | _ => []

def member (key : Text) : Value → Option Value
  | object members => (members.find? fun m => m.1 = key).map Prod.snd
  | _ => none

def text : Value → Option Text
  | scalar s => s.text
  | _ => none

end Value

section Readers

variable {α : Type}

def memberOf (item : Text → Option (α × Text)) (t : Text) : Option ((Text × α) × Text) := do
  let (key, t) ← string t
  match skip t with
  | ':' :: t =>
    let (x, t) ← item (skip t)
    return ((key, x), t)
  | _ => none

def value : Nat → Text → Option (Value × Text)
  | 0, _ => none
  | n + 1, t =>
    if t.head? = some '[' then (container '[' ']' (value n) t).map fun r => (.array r.1, r.2)
    else if t.head? = some '\x7b' then
      (container '\x7b' '\x7d' (memberOf (value n)) t).map fun r => (.object r.1, r.2)
    else (scalar t).map fun r => (.scalar r.1, r.2)

theorem value_array (n : Nat) (t : Text) : value (n + 1) ('[' :: t) =
    (container '[' ']' (value n) ('[' :: t)).map fun r => (.array r.1, r.2) := rfl

theorem value_object (n : Nat) (t : Text) : value (n + 1) ('\x7b' :: t) =
    (container '\x7b' '\x7d' (memberOf (value n)) ('\x7b' :: t)).map fun r => (.object r.1, r.2) :=
  rfl

theorem value_scalar {n : Nat} {c : Char} (harray : c ≠ '[') (hobject : c ≠ '\x7b') (t : Text) :
    value (n + 1) (c :: t) = (scalar (c :: t)).map fun r => (.scalar r.1, r.2) := by
  rw [value, if_neg (by simpa using harray), if_neg (by simpa using hobject)]

theorem value_quote (n : Nat) (t : Text) : value (n + 1) ('"' :: t) =
    (scan none .plain t).map fun r => (.scalar (.string r.1), r.2) := by
  rw [value_scalar (by decide) (by decide), scalar, Option.map_map]
  rfl

def parse (t : Text) : Option Value := whole (value (t.length + 1)) t

end Readers

section Strings

def lead : Option Nat → Mode → Nat
  | none, .plain => 1
  | none, .escape => 1
  | none, .hex left _ => 2 + (3 - left)
  | some _, .plain => 6
  | some _, .escape => 7
  | some _, .hex left _ => 8 + (3 - left)

theorem length_utf8_le (n : Nat) : (utf8 n).length ≤ 4 := by
  unfold utf8
  rw [List.length_map]
  split_ifs <;> simp

theorem length_alone_le (high : Option Nat) :
    (alone high).length + 1 ≤ lead high .plain ∧ (alone high).length + 1 ≤ lead high .escape := by
  cases high with
  | none => exact ⟨le_rfl, le_rfl⟩
  | some n =>
    have h : (alone (some n)).length ≤ 4 := length_utf8_le n
    simp only [lead]
    omega

def Behind (v : Text) (n : Nat) : Prop := '"' ∈ v.take n ∨ v.length < n

theorem Behind.append (out : Text) {v : Text} {n m : Nat} (h : Behind v n)
    (hm : out.length + n = m) :
    Behind (out ++ v) m := by
  subst hm
  obtain h | h := h
  · left
    rw [List.take_append, Nat.add_sub_cancel_left]
    exact List.mem_append_right _ h
  · right
    rw [List.length_append]
    omega

theorem behind_of_quote {high : Option Nat} {mode : Mode} {b v u : Text} {k : Nat}
    (hk : lead high mode ≤ k) (h : scan high mode ('"' :: b) = some (v, u)) : Behind v k := by
  cases mode with
  | plain =>
    obtain rfl := (Prod.mk.inj (Option.some.inj h)).1
    have hlen := (length_alone_le high).1
    exact .inr (by omega)
  | escape =>
    obtain ⟨r, -, hr⟩ := Option.map_eq_some_iff.mp h
    obtain rfl := (Prod.mk.inj hr).1
    have hlen := (length_alone_le high).2
    left
    rw [List.take_append]
    refine List.mem_append_right _ ?_
    obtain ⟨m, hm⟩ := Nat.exists_eq_add_of_le (Nat.le_trans hlen hk)
    have hsub : k - (alone high).length = m + 1 := by omega
    rw [hsub, List.take_succ_cons]
    exact List.mem_cons_self
  | hex left acc => cases h

/-- The scan puts `out` before what it makes of `t`, and `out` is no longer than the lead lets it
be. -/
def ScansOn (high : Option Nat) (mode : Mode) (t v u : Text) : Prop :=
  ∃ (out : Text) (high' : Option Nat) (mode' : Mode) (w : Text),
    out.length + lead high' mode' ≤ lead high mode + 1 ∧ scan high' mode' t = some (w, u) ∧
      v = out ++ w

section Characters

variable {high : Option Nat} {mode : Mode} {c : Char} {t v u : Text}

theorem scansOn_map (out : Text) {high' : Option Nat} {mode' : Mode}
    (hlead : out.length + lead high' mode' ≤ lead high mode + 1)
    (h : (scan high' mode' t).map (fun r => (out ++ r.1, r.2)) = some (v, u)) :
    ScansOn high mode t v u := by
  obtain ⟨⟨w, u'⟩, hr, heq⟩ := Option.map_eq_some_iff.mp h
  obtain ⟨rfl, rfl⟩ := Prod.mk.inj heq
  exact ⟨out, high', mode', w, hlead, hr, rfl⟩

theorem scansOn_alone (hlead : (alone high).length + 2 ≤ lead high mode + 1)
    (h : (scan none .plain t).map (fun r => (alone high ++ c :: r.1, r.2)) = some (v, u)) :
    ScansOn high mode t v u := by
  have hmap : (scan none .plain t).map (fun r => (alone high ++ [c] ++ r.1, r.2)) =
      some (v, u) := by
    simpa only [List.append_assoc, List.singleton_append] using h
  exact scansOn_map _ (by rwa [List.length_append, List.length_singleton, Nat.add_assoc]) hmap

theorem scansOn_plain (hc : c ≠ '"') (h : scan high .plain (c :: t) = some (v, u)) :
    ScansOn high .plain t v u := by
  rw [scan, if_neg hc] at h
  split_ifs at h
  · exact ⟨[], high, .escape, v, by cases high <;> simp [lead], h, rfl⟩
  · have hlen := (length_alone_le high).1
    exact scansOn_alone (by omega) h

theorem scansOn_escape (h : scan high .escape (c :: t) = some (v, u)) :
    ScansOn high .escape t v u := by
  rw [scan] at h
  split_ifs at h
  · exact ⟨[], high, .hex 3 0, v, by cases high <;> simp [lead], h, rfl⟩
  · obtain ⟨d, -, h⟩ := Option.bind_eq_some_iff.mp h
    have hlen := (length_alone_le high).2
    exact scansOn_alone (by omega) h

theorem scansOn_hex {left acc : Nat} (h : scan high (.hex left acc) (c :: t) = some (v, u)) :
    ScansOn high (.hex left acc) t v u := by
  rw [scan] at h
  obtain ⟨digit, -, h⟩ := Option.bind_eq_some_iff.mp h
  dsimp only at h
  cases left with
  | succ left =>
    refine ⟨[], high, .hex left (acc * 16 + digit), v, ?_, h, rfl⟩
    cases high <;> simp only [lead, List.length_nil] <;> omega
  | zero =>
    have hunit := length_utf8_le (acc * 16 + digit)
    cases high with
    | none =>
      dsimp only at h
      split_ifs at h
      · exact ⟨[], some _, .plain, v, by simp [lead], h, rfl⟩
      · exact scansOn_map _ (by simp only [lead]; omega) h
    | some n =>
      have hhigh := length_utf8_le n
      dsimp only at h
      split_ifs at h
      · have hpair := length_utf8_le
          (0x10000 + (n - 0xD800) * 0x400 + (acc * 16 + digit - 0xDC00))
        exact scansOn_map _ (by simp only [lead]; omega) h
      · exact scansOn_map _ (by simp only [lead]; omega) h
      · exact scansOn_map _ (by simp only [lead, List.length_append]; omega) h

theorem scansOn (hc : c ≠ '"') (h : scan high mode (c :: t) = some (v, u)) :
    ScansOn high mode t v u := by
  cases mode with
  | plain => exact scansOn_plain hc h
  | escape => exact scansOn_escape h
  | hex left acc => exact scansOn_hex h

end Characters

theorem behind_of_scan {high : Option Nat} {mode : Mode} {a b v u : Text} {k : Nat} (ha : '"' ∉ a)
    (hk : lead high mode ≤ k) (h : scan high mode (a ++ '"' :: b) = some (v, u)) :
    Behind v (a.length + k) := by
  induction a generalizing high mode k v with
  | nil =>
    rw [List.length_nil, Nat.zero_add]
    exact behind_of_quote hk h
  | cons c a ih =>
    obtain ⟨hc, ha⟩ := not_or.mp (mt List.mem_cons.mpr ha)
    obtain ⟨out, high', mode', w, hlead, hscan, rfl⟩ := scansOn (Ne.symm hc) h
    have hrest := ih ha (k := k + 1 - out.length) (by omega) hscan
    refine hrest.append out ?_
    rw [List.length_cons]
    omega

theorem scan_first_quote {a b v u : Text} (ha : '"' ∉ a)
    (h : scan none .plain (a ++ '"' :: b) = some (v, u)) :
    (v = a ∧ u = b ∧ ∀ c ∈ a, Plain c) ∨ Behind v a.length := by
  induction a generalizing v with
  | nil =>
    obtain ⟨rfl, rfl⟩ := Prod.mk.inj (Option.some.inj h)
    exact .inl ⟨rfl, rfl, fun c hc => absurd hc List.not_mem_nil⟩
  | cons c a ih =>
    obtain ⟨hc, ha⟩ := not_or.mp (mt List.mem_cons.mpr ha)
    rw [List.cons_append, scan, if_neg (Ne.symm hc)] at h
    split_ifs at h with hslash hcontrol
    · exact .inr (behind_of_scan ha (k := 1) le_rfl h)
    · obtain ⟨r, hr, heq⟩ := Option.map_eq_some_iff.mp h
      obtain ⟨rfl, rfl⟩ := Prod.mk.inj heq
      obtain ⟨hv, hu, hplain⟩ | hbehind := ih ha hr
      · refine .inl ⟨congrArg (c :: ·) hv, hu, List.forall_mem_cons.mpr ⟨?_, hplain⟩⟩
        exact ⟨Ne.symm hc, hslash, Nat.le_of_not_lt hcontrol⟩
      · exact .inr (hbehind.append [c] (by simp [Nat.add_comm]))

theorem plain_of_scan {n t u : Text} (h : scan none .plain (n ++ '"' :: t) = some (n, u)) :
    (∀ c ∈ n, Plain c) ∧ u = t := by
  by_cases hquote : '"' ∈ n
  · obtain ⟨a, b, rfl, ha⟩ := List.eq_append_cons_of_mem hquote
    rw [List.append_assoc, List.cons_append] at h
    obtain ⟨heq, -⟩ | hbehind | hshort := scan_first_quote ha h
    · have := congrArg List.length heq
      rw [List.length_append, List.length_cons] at this
      omega
    · rw [List.take_left'] at hbehind
      · exact absurd hbehind ha
      · rfl
    · rw [List.length_append, List.length_cons] at hshort
      omega
  · obtain ⟨-, hu, hplain⟩ | hbehind | hshort := scan_first_quote hquote h
    · exact ⟨hplain, hu⟩
    · rw [List.take_length] at hbehind
      exact absurd hbehind hquote
    · exact absurd hshort (Nat.lt_irrefl _)

end Strings

section Numbers

def StopsNumber : Text → Prop
  | [] => True
  | c :: _ => c.isDigit = false ∧ c ≠ '.' ∧ c ≠ 'e' ∧ c ≠ 'E'

theorem StopsNumber.rest {t : Text} (h : StopsNumber t) :
    t.takeWhile Char.isDigit = [] ∧ t.dropWhile Char.isDigit = t ∧ fraction t = some ([], t) ∧
      exponent t = some ([], t) := by
  cases t with
  | nil => exact ⟨rfl, rfl, rfl, rfl⟩
  | cons c t =>
    obtain ⟨hdigit, hdot, he, hE⟩ := h
    refine ⟨by simp [hdigit], by simp [hdigit], ?_, ?_⟩
    · rw [fraction]
      rintro u heq
      exact hdot (List.cons.inj heq).1
    · rw [exponent, if_neg (by simp [he, hE])]

theorem digits_append {t u : Text} (hne : t ≠ []) (hall : ∀ c ∈ t, c.isDigit = true)
    (hu : u.takeWhile Char.isDigit = []) : digits (t ++ u) = some (t, u) := by
  have htake : (t ++ u).takeWhile Char.isDigit = t := by
    rw [List.takeWhile_append_of_pos hall, hu, List.append_nil]
  have hdrop : (t ++ u).dropWhile Char.isDigit = u := by
    have := List.takeWhile_append_dropWhile (p := Char.isDigit) (l := u)
    rw [hu, List.nil_append] at this
    rw [List.dropWhile_append_of_pos hall, this]
  rw [digits, htake, hdrop, if_neg hne]

def NoLeadingZero (t : Text) : Prop := t = ['0'] ∨ t.head? ≠ some '0'

instance (t : Text) : Decidable (NoLeadingZero t) :=
  inferInstanceAs (Decidable (t = ['0'] ∨ t.head? ≠ some '0'))

theorem noLeadingZero_toDigits (n : Nat) : NoLeadingZero (Nat.toDigits 10 n) := by
  rcases Nat.eq_zero_or_pos n with rfl | hn
  · exact .inl rfl
  · obtain ⟨c, cs, hcs, hc⟩ := Text.toDigits_head hn
    right
    rw [hcs]
    exact fun h => hc (Option.some.inj h)

theorem integer_append {t u : Text} (hne : t ≠ []) (hall : ∀ c ∈ t, c.isDigit = true)
    (hzero : NoLeadingZero t) (hu : u.takeWhile Char.isDigit = []) :
    integer (t ++ u) = some (t, u) := by
  obtain rfl | hzero := hzero
  · rfl
  · obtain ⟨c, cs, rfl⟩ := List.exists_cons_of_ne_nil hne
    rw [integer, digits_append hne hall hu]
    rintro v heq
    exact hzero (congrArg some (List.cons.inj heq).1)

theorem number_zero {c : Char} (hc : c.isDigit = true) (t : Text) :
    number ('0' :: c :: t) = some (['0'], c :: t) := by
  have hfraction : fraction (c :: t) = some ([], c :: t) := by
    rw [fraction]
    rintro u heq
    exact Text.ne_of_isDigit hc rfl (List.cons.inj heq).1
  have hexponent : exponent (c :: t) = some ([], c :: t) := by
    rw [exponent, if_neg]
    rintro (h | h)
    · exact Text.ne_of_isDigit hc rfl h
    · exact Text.ne_of_isDigit hc rfl h
  simp [number, sign, integer, hfraction, hexponent]

theorem sign_of_ne {c : Char} (hc : c ≠ '-') (t : Text) : sign (c :: t) = ([], c :: t) := by
  rw [sign]
  rintro u heq
  exact hc (List.cons.inj heq).1

theorem number_ofInt (i : Int) {t : Text} (ht : StopsNumber t) :
    number (Text.ofInt i ++ t) = some (Text.ofInt i, t) := by
  have hinteger : ∀ n, integer (Nat.toDigits 10 n ++ t) = some (Nat.toDigits 10 n, t) :=
    fun n => integer_append Nat.toDigits_ne_nil (fun _ => Text.isDigit_of_mem_toDigits)
      (noLeadingZero_toDigits n) ht.rest.1
  cases i with
  | ofNat n =>
    have hsign : sign (Nat.toDigits 10 n ++ t) = ([], Nat.toDigits 10 n ++ t) := by
      obtain ⟨c, cs, hcs⟩ := List.exists_cons_of_ne_nil (Nat.toDigits_ne_nil (n := n) (b := 10))
      have hc : c.isDigit = true := Text.isDigit_of_mem_toDigits (hcs ▸ List.mem_cons_self)
      rw [hcs]
      exact sign_of_ne (Text.ne_of_isDigit hc rfl) _
    simp [number, Text.ofInt, hsign, hinteger, ht.rest.2.2.1, ht.rest.2.2.2]
  | negSucc n =>
    have hsign : sign ('-' :: (Nat.toDigits 10 (n + 1) ++ t)) =
        (['-'], Nat.toDigits 10 (n + 1) ++ t) := rfl
    simp [number, Text.ofInt, hsign, hinteger, ht.rest.2.2.1, ht.rest.2.2.2]

theorem scalar_eq_none {c : Char} (hquote : c ≠ '"') (hn : c ≠ 'n') (ht : c ≠ 't') (hf : c ≠ 'f')
    (hminus : c ≠ '-') (hdigit : c.isDigit = false) (t : Text) : scalar (c :: t) = none := by
  have hsign : sign (c :: t) = ([], c :: t) := sign_of_ne hminus t
  have hinteger : integer (c :: t) = none := by
    rw [integer]
    · simp [digits, hdigit]
    · rintro u heq
      rw [(List.cons.inj heq).1] at hdigit
      exact absurd hdigit (by decide)
  have hnumber : number (c :: t) = none := by
    simp [number, hsign, hinteger]
  unfold scalar
  split
  next heq => exact absurd (List.cons.inj heq).1 hquote
  next heq => exact absurd (List.cons.inj heq).1 hn
  next heq => exact absurd (List.cons.inj heq).1 ht
  next heq => exact absurd (List.cons.inj heq).1 hf
  next => rw [hnumber]; rfl

structure PrintsNumber (lexeme : Text) : Prop where
  head : ∃ c cs, lexeme = c :: cs ∧ (c.isDigit = true ∨ c = '-')
  read : ∀ t, StopsNumber t → number (lexeme ++ t) = some (lexeme, t)

theorem printsNumber_ofInt (i : Int) : PrintsNumber (Text.ofInt i) where
  head := Text.ofInt_head i
  read _ := number_ofInt i

theorem printsNumber_digits {t : Text} (hne : t ≠ []) (hall : ∀ c ∈ t, c.isDigit = true)
    (hzero : NoLeadingZero t) : PrintsNumber t where
  head := by
    obtain ⟨c, cs, rfl⟩ := List.exists_cons_of_ne_nil hne
    exact ⟨c, cs, rfl, .inl (hall c List.mem_cons_self)⟩
  read u hu := by
    have hsign : sign (t ++ u) = ([], t ++ u) := by
      obtain ⟨c, cs, rfl⟩ := List.exists_cons_of_ne_nil hne
      exact sign_of_ne (Text.ne_of_isDigit (hall c List.mem_cons_self) rfl) _
    simp [number, hsign, integer_append hne hall hzero hu.rest.1, hu.rest.2.2.1, hu.rest.2.2.2]

theorem printsNumber_decimal (minus : Bool) {whole ds : Text} (hwhole : whole ≠ [])
    (hall : ∀ c ∈ whole, c.isDigit = true) (hzero : NoLeadingZero whole) (hne : ds ≠ [])
    (hds : ∀ c ∈ ds, c.isDigit = true) :
    PrintsNumber ((if minus then ['-'] else []) ++ (whole ++ '.' :: ds)) where
  head := by
    cases minus with
    | true => exact ⟨'-', _, rfl, .inr rfl⟩
    | false =>
      obtain ⟨c, cs, rfl⟩ := List.exists_cons_of_ne_nil hwhole
      exact ⟨c, cs ++ '.' :: ds, rfl, .inl (hall c List.mem_cons_self)⟩
  read t ht := by
    have hfraction : fraction ('.' :: (ds ++ t)) = some ('.' :: ds, t) := by
      rw [fraction, digits_append hne hds ht.rest.1]
      rfl
    have hinteger : integer (whole ++ '.' :: (ds ++ t)) = some (whole, '.' :: (ds ++ t)) :=
      integer_append hwhole hall hzero rfl
    have hsign : sign ((if minus then ['-'] else []) ++ (whole ++ '.' :: (ds ++ t))) =
        (if minus then ['-'] else [], whole ++ '.' :: (ds ++ t)) := by
      cases minus with
      | true => rfl
      | false =>
        obtain ⟨c, cs, rfl⟩ := List.exists_cons_of_ne_nil hwhole
        exact sign_of_ne (Text.ne_of_isDigit (hall c List.mem_cons_self) rfl) _
    simp only [List.append_assoc, List.cons_append]
    simp [number, hsign, hinteger, hfraction, ht.rest.2.2.2]

theorem printsNumber_fraction (minus : Bool) (n : Nat) {ds : Text} (hne : ds ≠ [])
    (hds : ∀ c ∈ ds, c.isDigit = true) :
    PrintsNumber ((if minus then ['-'] else []) ++ (Nat.toDigits 10 n ++ '.' :: ds)) :=
  printsNumber_decimal minus Nat.toDigits_ne_nil (fun _ => Text.isDigit_of_mem_toDigits)
    (noLeadingZero_toDigits n) hne hds

theorem scalar_number {c : Char} (hc : c.isDigit = true ∨ c = '-') (t : Text) :
    scalar (c :: t) = (number (c :: t)).map fun r => (.number r.1, r.2) := by
  have hne : ∀ d : Char, d.isDigit = false → d ≠ '-' → c ≠ d := fun _ => Text.ne_of_ofInt_head hc
  unfold Json.scalar
  split
  next heq => exact absurd (List.cons.inj heq).1 (hne _ rfl (by decide))
  next heq => exact absurd (List.cons.inj heq).1 (hne _ rfl (by decide))
  next heq => exact absurd (List.cons.inj heq).1 (hne _ rfl (by decide))
  next heq => exact absurd (List.cons.inj heq).1 (hne _ rfl (by decide))
  next => rfl

theorem value_number {c : Char} (hc : c.isDigit = true ∨ c = '-') (n : Nat) (t : Text) :
    value (n + 1) (c :: t) =
      (number (c :: t)).map fun r => (.scalar (.number r.1), r.2) := by
  rw [value_scalar (Text.ne_of_ofInt_head hc rfl (by decide))
    (Text.ne_of_ofInt_head hc rfl (by decide)), scalar_number hc, Option.map_map]
  rfl

variable {lexeme : Text}

theorem PrintsNumber.value (h : PrintsNumber lexeme) (n : Nat) {t : Text} (ht : StopsNumber t) :
    value (n + 1) (lexeme ++ t) = some (.scalar (.number lexeme), t) := by
  have hnumber := h.read t ht
  obtain ⟨c, cs, hcs, hc⟩ := h.head
  rw [hcs, List.cons_append] at hnumber ⊢
  rw [value_number hc, hnumber]
  rfl

theorem isWs_of_ofInt_head {c : Char} (hc : c.isDigit = true ∨ c = '-') : isWs c = false := by
  simp only [isWs, Bool.or_eq_false_iff, decide_eq_false_iff_not]
  exact ⟨⟨⟨Text.ne_of_ofInt_head hc rfl (by decide), Text.ne_of_ofInt_head hc rfl (by decide)⟩,
    Text.ne_of_ofInt_head hc rfl (by decide)⟩, Text.ne_of_ofInt_head hc rfl (by decide)⟩

theorem PrintsNumber.skip (h : PrintsNumber lexeme) (t : Text) :
    skip (lexeme ++ t) = lexeme ++ t := by
  obtain ⟨c, cs, hcs, hc⟩ := h.head
  rw [hcs, List.cons_append]
  exact skip_cons (isWs_of_ofInt_head hc) _

end Numbers

section Printers

variable {α β : Type} {item : Text → Option (α × Text)} {print : β → Text} {R : β → α → Prop}
  {Good : β → Prop} {Ends : Text → Prop} {opening close : Char}

/-- What is printed is read back, to something that `R` relates to it, if and only if it is
`Good`; and then the reader stops where the printer did.  `Ends` tells what may follow. -/
structure ReadsBack (item : Text → Option (α × Text)) (print : β → Text) (R : β → α → Prop)
    (Good : β → Prop) (Ends : Text → Prop) : Prop where
  read : ∀ {x t}, Ends t → Good x → ∃ y, item (skip (print x ++ t)) = some (y, t) ∧ R x y
  good : ∀ {x t y u}, Ends t → item (skip (print x ++ t)) = some (y, u) → R x y → Good x ∧ u = t

def EndsItem (close : Char) (t : Text) : Prop := ∃ u, t = ',' :: u ∨ t = close :: u

theorem StopsNumber.of_ends (hclose : close = ']' ∨ close = '\x7d') {t : Text}
    (h : EndsItem close t) : StopsNumber t := by
  obtain ⟨u, rfl | rfl⟩ := h
  · exact ⟨rfl, by decide, by decide, by decide⟩
  · obtain rfl | rfl := hclose
    · exact ⟨rfl, by decide, by decide, by decide⟩
    · exact ⟨rfl, by decide, by decide, by decide⟩

theorem join_cons_append (print : β → Text) (close : Char) (x : β) (xs : List β) (t : Text) :
    ∃ c u, Text.join ',' ((x :: xs).map print) ++ close :: t = print x ++ c :: u ∧
      (xs = [] ∧ c = close ∧ u = t ∨
        xs ≠ [] ∧ c = ',' ∧ u = Text.join ',' (xs.map print) ++ close :: t) := by
  cases xs with
  | nil => exact ⟨close, t, by simp [Text.join], .inl ⟨rfl, rfl, rfl⟩⟩
  | cons y xs =>
    refine ⟨',', _, ?_, .inr ⟨List.cons_ne_nil _ _, rfl, rfl⟩⟩
    rw [List.map_cons, Text.join_cons ',' _ (by simp), List.append_assoc, List.cons_append]

namespace ReadsBack

theorem items_read (h : ReadsBack item print R Good (EndsItem close)) (hcomma : close ≠ ',')
    (hws : isWs close = false) {xs : List β} (hxs : xs ≠ []) {n : Nat} (hn : xs.length ≤ n)
    (hgood : ∀ x ∈ xs, Good x) (t : Text) :
    ∃ ys, items item close n (Text.join ',' (xs.map print) ++ close :: t) = some (ys, t) ∧
      List.Forall₂ R xs ys := by
  induction xs generalizing n with
  | nil => exact absurd rfl hxs
  | cons x xs ih =>
    obtain ⟨n, rfl⟩ := Nat.exists_eq_add_of_le' (Nat.lt_of_lt_of_le (Nat.succ_pos _) hn)
    obtain ⟨hx, hrest⟩ := List.forall_mem_cons.mp hgood
    obtain ⟨c, u, htext, hc⟩ := join_cons_append print close x xs t
    rw [htext]
    obtain ⟨rfl, rfl, rfl⟩ | ⟨hne, rfl, rfl⟩ := hc
    · obtain ⟨y, hy, hR⟩ := h.read (t := c :: u) ⟨u, .inr rfl⟩ hx
      refine ⟨[y], ?_, .cons hR .nil⟩
      simp [items, hy, skip_cons hws, hcomma]
    · obtain ⟨y, hy, hR⟩ := h.read (t := ',' :: (Text.join ',' (xs.map print) ++ close :: t))
        ⟨_, .inl rfl⟩ hx
      obtain ⟨ys, hys, hall⟩ := ih hne (Nat.le_of_succ_le_succ hn) hrest
      refine ⟨y :: ys, ?_, .cons hR hall⟩
      simp [items, hy, skip_cons (c := ',') rfl, hys]

theorem first_of_items {n : Nat} {t u : Text} {y : α} {ys : List α}
    (h : items item close (n + 1) t = some (y :: ys, u)) :
    ∃ rest, item (skip t) = some (y, rest) := by
  rw [items] at h
  obtain ⟨⟨y', rest⟩, hy, h⟩ := Option.bind_eq_some_iff.mp h
  dsimp only at h
  split at h
  next => cases h
  next =>
    split_ifs at h
    · obtain ⟨r, -, h⟩ := Option.bind_eq_some_iff.mp h
      rw [← (List.cons.inj (Prod.mk.inj (Option.some.inj h)).1).1]
      exact ⟨rest, hy⟩
    · rw [← (List.cons.inj (Prod.mk.inj (Option.some.inj h)).1).1]
      exact ⟨rest, hy⟩

theorem items_good (h : ReadsBack item print R Good (EndsItem close)) (hcomma : close ≠ ',')
    (hws : isWs close = false) {xs : List β} (hxs : xs ≠ []) {n : Nat} {t u : Text} {ys : List α}
    (hread : items item close n (Text.join ',' (xs.map print) ++ close :: t) = some (ys, u))
    (hR : List.Forall₂ R xs ys) : (∀ x ∈ xs, Good x) ∧ u = t := by
  induction xs generalizing n ys with
  | nil => exact absurd rfl hxs
  | cons x xs ih =>
    obtain ⟨c, w, htext, hc⟩ := join_cons_append print close x xs t
    rw [htext] at hread
    cases n with
    | zero => cases hread
    | succ n =>
      cases hR with
      | @cons _ y _ ys hx hall =>
        have hends : EndsItem close (c :: w) := by
          obtain ⟨-, rfl, -⟩ | ⟨-, rfl, -⟩ := hc
          · exact ⟨w, .inr rfl⟩
          · exact ⟨w, .inl rfl⟩
        obtain ⟨rest, hy⟩ := first_of_items hread
        obtain ⟨hgood, rfl⟩ := h.good hends hy hx
        rw [items, hy] at hread
        obtain ⟨rfl, rfl, rfl⟩ | ⟨hne, rfl, rfl⟩ := hc
        · simp only [Option.bind_eq_bind, Option.bind_some, skip_cons hws, if_neg hcomma,
            if_true] at hread
          obtain ⟨-, rfl⟩ := Prod.mk.inj (Option.some.inj hread)
          exact ⟨List.forall_mem_cons.mpr ⟨hgood, by simp⟩, rfl⟩
        · simp only [Option.bind_eq_bind, Option.bind_some, skip_cons (c := ',') rfl,
            if_true] at hread
          obtain ⟨⟨ys', u'⟩, hys, heq⟩ := Option.bind_eq_some_iff.mp hread
          obtain ⟨hlist, rfl⟩ := Prod.mk.inj (Option.some.inj heq)
          obtain ⟨-, rfl⟩ := List.cons.inj hlist
          obtain ⟨hrest, hu⟩ := ih hne hys hall
          exact ⟨List.forall_mem_cons.mpr ⟨hgood, hrest⟩, hu⟩

theorem container (opening : Char) (h : ReadsBack item print R Good (EndsItem close))
    (hcomma : close ≠ ',') (hopening : isWs opening = false) (hws : isWs close = false)
    (hhead : ∀ x t, ∃ c u, print x ++ t = c :: u ∧ isWs c = false ∧ c ≠ close) :
    ReadsBack (Json.container opening close item)
      (fun xs => opening :: (Text.join ',' (xs.map print) ++ [close])) (List.Forall₂ R)
      (fun xs => ∀ x ∈ xs, Good x) fun _ => True := by
  have htext : ∀ (xs : List β) (t : Text),
      skip (opening :: (Text.join ',' (xs.map print) ++ [close]) ++ t) =
        opening :: (Text.join ',' (xs.map print) ++ close :: t) := by
    intro xs t
    rw [List.cons_append, List.append_assoc, skip_cons hopening]
    rfl
  have hempty : ∀ t,
      Json.container opening close item (opening :: (close :: t)) = some ([], t) := by
    intro t
    simp [Json.container, skip_cons hws]
  have hitems : ∀ xs : List β, xs ≠ [] → ∀ t,
      Json.container opening close item
          (opening :: (Text.join ',' (xs.map print) ++ close :: t)) =
        items item close (Text.join ',' (xs.map print) ++ close :: t).length
          (Text.join ',' (xs.map print) ++ close :: t) := by
    intro xs hxs t
    obtain ⟨x, xs, rfl⟩ := List.exists_cons_of_ne_nil hxs
    obtain ⟨c, u, heq, -⟩ := join_cons_append print close x xs t
    obtain ⟨d, v, hd, hdws, hne⟩ := hhead x (c :: u)
    rw [Json.container, if_pos rfl, if_neg]
    rw [heq, hd, skip_cons hdws]
    exact fun hsome => hne (Option.some.inj hsome)
  refine ⟨fun {xs t} _ hgood => ?_, fun {xs t ys u} _ hread hR => ?_⟩
  · rw [htext]
    by_cases hxs : xs = []
    · subst hxs
      exact ⟨[], hempty t, .nil⟩
    · rw [hitems xs hxs]
      refine h.items_read hcomma hws hxs ?_ hgood t
      have := Text.length_le_join ',' (xs.map print)
      rw [List.length_map] at this
      simp only [List.length_append, List.length_cons]
      omega
  · rw [htext] at hread
    by_cases hxs : xs = []
    · subst hxs
      obtain ⟨-, rfl⟩ := Prod.mk.inj (Option.some.inj ((hempty t).symm.trans hread))
      exact ⟨by simp, rfl⟩
    · rw [hitems xs hxs] at hread
      exact h.items_good hcomma hws hxs hread hR

theorem member (h : ReadsBack item print R Good Ends) :
    ReadsBack (memberOf item) (fun x : Text × β => '"' :: (x.1 ++ '"' :: ':' :: print x.2))
      (fun x y => y.1 = x.1 ∧ R x.2 y.2) (fun x => (∀ c ∈ x.1, Plain c) ∧ Good x.2) Ends := by
  have htext : ∀ (k : Text) (v : β) (t : Text),
      skip ('"' :: (k ++ '"' :: ':' :: print v) ++ t) =
        '"' :: (k ++ '"' :: (':' :: (print v ++ t))) := by
    intro k v t
    rw [List.cons_append, skip_cons rfl, List.append_assoc]
    rfl
  refine ⟨fun {x t} ht hgood => ?_, fun {x t y u} ht hread hR => ?_⟩
  · obtain ⟨k, v⟩ := x
    obtain ⟨y, hy, hR⟩ := h.read ht hgood.2
    refine ⟨(k, y), ?_, rfl, hR⟩
    rw [htext]
    simp only [memberOf, string, scan_plain hgood.1, Option.bind_eq_bind, Option.bind_some,
      skip_cons (c := ':') rfl, hy]
    rfl
  · obtain ⟨k, v⟩ := x
    obtain ⟨k', y⟩ := y
    obtain ⟨hkey, hR⟩ := hR
    obtain rfl : k' = k := hkey
    rw [htext] at hread
    simp only [memberOf, string, Option.bind_eq_bind] at hread
    obtain ⟨⟨k, rest⟩, hscan, hread⟩ := Option.bind_eq_some_iff.mp hread
    have hkey : k = k' := by
      dsimp only at hread
      split at hread
      next =>
        obtain ⟨r, -, heq⟩ := Option.bind_eq_some_iff.mp hread
        exact (Prod.mk.inj (Prod.mk.inj (Option.some.inj heq)).1).1
      next => cases hread
    subst hkey
    obtain ⟨hplain, rfl⟩ := plain_of_scan hscan
    simp only [skip_cons (c := ':') rfl] at hread
    obtain ⟨⟨y', u'⟩, hy, heq⟩ := Option.bind_eq_some_iff.mp hread
    obtain ⟨hpair, rfl⟩ := Prod.mk.inj (Option.some.inj heq)
    obtain ⟨-, rfl⟩ := Prod.mk.inj hpair
    obtain ⟨hgood, hu⟩ := h.good ht hy hR
    exact ⟨⟨hplain, hgood⟩, hu⟩

end ReadsBack

theorem value_printed {lexeme : Text} (h : PrintsNumber lexeme)
    (hclose : close = ']' ∨ close = '\x7d') (n : Nat) {t : Text} (ht : EndsItem close t) :
    value (n + 1) (skip (lexeme ++ t)) = some (.scalar (.number lexeme), t) := by
  rw [h.skip, h.value n (.of_ends hclose ht)]

theorem readsBack_number {print : β → Text} (h : ∀ x, PrintsNumber (print x)) {close : Char}
    (hclose : close = ']' ∨ close = '\x7d') (n : Nat) : ReadsBack (value (n + 1)) print
    (fun x v => v = .scalar (.number (print x))) (fun _ => True) (EndsItem close) where
  read {x t} ht _ := ⟨_, value_printed (h x) hclose n ht, rfl⟩
  good {x t v u} ht hread _ := by
    rw [value_printed (h x) hclose n ht] at hread
    exact ⟨trivial, (Prod.mk.inj (Option.some.inj hread)).2.symm⟩

theorem readsBack_string (n : Nat) : ReadsBack (value (n + 1)) (fun t : Text => '"' :: (t ++ ['"']))
    (fun t v => v = .scalar (.string t)) (fun t => ∀ c ∈ t, Plain c) Ends where
  read {t u} _ hgood := by
    refine ⟨.scalar (.string t), ?_, rfl⟩
    rw [List.cons_append, List.append_assoc, skip_cons rfl, value_quote, List.singleton_append,
      scan_plain hgood]
    rfl
  good {t u v w} _ hread hv := by
    rw [List.cons_append, List.append_assoc, skip_cons rfl, value_quote,
      List.singleton_append] at hread
    obtain ⟨⟨t', w'⟩, hscan, heq⟩ := Option.map_eq_some_iff.mp hread
    obtain ⟨rfl, rfl⟩ := Prod.mk.inj heq
    obtain rfl := Scalar.string.inj (Value.scalar.inj hv)
    exact plain_of_scan hscan

theorem ReadsBack.array {n : Nat} {print : β → Text} {R : β → Value → Prop} {Good : β → Prop}
    (h : ReadsBack (value n) print R Good (EndsItem ']'))
    (hhead : ∀ x t, ∃ c u, print x ++ t = c :: u ∧ isWs c = false ∧ c ≠ ']') :
    ReadsBack (value (n + 1)) (fun xs => '[' :: (Text.join ',' (xs.map print) ++ [']']))
      (fun xs v => ∃ vs, v = .array vs ∧ List.Forall₂ R xs vs) (fun xs => ∀ x ∈ xs, Good x)
      fun _ => True where
  read {xs t} ht hgood := by
    obtain ⟨vs, hread, hvs⟩ := (h.container '[' (by decide) rfl rfl hhead).read ht hgood
    refine ⟨.array vs, ?_, vs, rfl, hvs⟩
    rw [List.cons_append, skip_cons rfl] at hread ⊢
    rw [value_array, hread]
    rfl
  good {xs t v u} ht hread hv := by
    obtain ⟨vs, rfl, hvs⟩ := hv
    rw [List.cons_append, skip_cons rfl, value_array] at hread
    obtain ⟨⟨vs', u'⟩, hitems, heq⟩ := Option.map_eq_some_iff.mp hread
    obtain ⟨hvs', rfl⟩ := Prod.mk.inj heq
    obtain rfl := Value.array.inj hvs'
    refine (h.container '[' (by decide) rfl rfl hhead).good (t := t) ht ?_ hvs
    rw [List.cons_append, skip_cons rfl]
    exact hitems

theorem forall₂_eq_map {f : β → α} {xs : List β} {ys : List α} :
    List.Forall₂ (fun x y => y = f x) xs ys ↔ ys = xs.map f := by
  constructor
  · intro h
    induction h with
    | nil => rfl
    | cons h _ ih => rw [h, ih, List.map_cons]
  · rintro rfl
    exact List.forall₂_map_right_iff.mpr (List.forall₂_same.mpr fun _ _ => rfl)

theorem readsBack_ofInts (n : Nat) : ReadsBack (value (n + 2))
    (fun is : List Int => '[' :: (Text.join ',' (is.map Text.ofInt) ++ [']']))
    (fun is v => v = .array (is.map fun i => .scalar (.number (Text.ofInt i))))
    (fun _ => True) fun _ => True := by
  have hhead : ∀ (i : Int) (t : Text),
      ∃ c u, Text.ofInt i ++ t = c :: u ∧ isWs c = false ∧ c ≠ ']' :=
    fun i t => by
      obtain ⟨c, cs, hcs, hc⟩ := Text.ofInt_head i
      exact ⟨c, cs ++ t, by rw [hcs, List.cons_append], isWs_of_ofInt_head hc,
        Text.ne_of_ofInt_head hc rfl (by decide)⟩
  have harray := (readsBack_number printsNumber_ofInt (.inl rfl) n).array hhead
  constructor
  · intro is t ht _
    obtain ⟨v, hread, vs, rfl, hvs⟩ := harray.read (x := is) ht fun _ _ => trivial
    exact ⟨_, hread, congrArg Value.array (forall₂_eq_map.mp hvs)⟩
  · intro is t v u ht hread hv
    exact ⟨trivial, (harray.good ht hread ⟨_, hv, forall₂_eq_map.mpr rfl⟩).2⟩

theorem ReadsBack.ends {item : Text → Option (α × Text)} {print : β → Text} {R : β → α → Prop}
    {Good : β → Prop} (h : ReadsBack item print R Good fun _ => True) (Ends : Text → Prop) :
    ReadsBack item print R Good Ends :=
  ⟨fun _ => h.read trivial, fun _ => h.good trivial⟩

theorem ReadsBack.parsed {print : β → Text} {R : β → Value → Prop} {Good : β → Prop} {n : Nat}
    (h : ReadsBack (value n) print R Good fun _ => True) {x : β} {rest : Text}
    (hprint : print x = '[' :: rest) (hn : n = rest.length + 2) (hgood : Good x) :
    ∃ v, parse (print x) = some v ∧ R x v := by
  subst hn
  obtain ⟨v, hread, hv⟩ := h.read (t := []) trivial hgood
  rw [List.append_nil, hprint, skip_cons rfl] at hread
  rw [hprint]
  exact ⟨v, whole_eq rfl hread, hv⟩

theorem value_of_parse {c : Char} {t : Text} {v : Value} (hc : isWs c = false)
    (h : parse (c :: t) = some v) : ∃ u, value (t.length + 2) (c :: t) = some (v, u) := by
  rw [parse, whole, skip_cons hc] at h
  obtain ⟨⟨v', u⟩, hread, heq⟩ := Option.bind_eq_some_iff.mp h
  dsimp only at heq
  split at heq
  next =>
    obtain rfl := Option.some.inj heq
    exact ⟨u, hread⟩
  next => cases heq

theorem ReadsBack.good_of_parse {print : β → Text} {R : β → Value → Prop} {Good : β → Prop}
    {n : Nat} (h : ReadsBack (value n) print R Good fun _ => True) {x : β} {rest : Text}
    (hprint : print x = '[' :: rest) (hn : n = rest.length + 2) {v : Value}
    (hparse : parse (print x) = some v) (hv : R x v) : Good x := by
  subst hn
  rw [hprint] at hparse
  obtain ⟨u, hread⟩ := value_of_parse rfl hparse
  have hread' : value (rest.length + 2) (skip (print x ++ [])) = some (v, u) := by
    rw [List.append_nil, hprint, skip_cons rfl]
    exact hread
  exact (h.good trivial hread' hv).1

theorem parse_ofInts (is : List Int) :
    parse ('[' :: (Text.join ',' (is.map Text.ofInt) ++ [']'])) =
      some (.array (is.map fun i => .scalar (.number (Text.ofInt i)))) := by
  obtain ⟨v, hparse, rfl⟩ := (readsBack_ofInts _).parsed (x := is) rfl rfl trivial
  exact hparse

theorem parse_ofInts_ofInts (iss : List (List Int)) :
    parse ('[' :: (Text.join ',' (iss.map fun is =>
        '[' :: (Text.join ',' (is.map Text.ofInt) ++ [']'])) ++ [']'])) =
      some (.array (iss.map fun is => .array (is.map fun i =>
        .scalar (.number (Text.ofInt i))))) := by
  have harray := fun n => ((readsBack_ofInts n).ends (EndsItem ']')).array
    fun is t => ⟨'[', _, rfl, rfl, by decide⟩
  obtain ⟨v, hparse, vs, rfl, hvs⟩ := (harray _).parsed (x := iss) rfl
    (by rw [List.length_append]; rfl) fun _ _ => trivial
  rw [hparse, forall₂_eq_map.mp hvs]

theorem parse_strings_iff {ts : List Text} :
    parse ('[' :: (Text.join ',' (ts.map fun t => '"' :: (t ++ ['"'])) ++ [']'])) =
        some (.array (ts.map fun t => .scalar (.string t))) ↔
      ∀ t ∈ ts, ∀ c ∈ t, Plain c := by
  have harray := fun n => ReadsBack.array (@readsBack_string (EndsItem ']') n)
    fun t u => ⟨'"', _, rfl, rfl, by decide⟩
  constructor
  · exact fun hparse =>
      (harray _).good_of_parse (x := ts) rfl rfl hparse ⟨_, rfl, forall₂_eq_map.mpr rfl⟩
  · intro h
    obtain ⟨v, hparse, vs, rfl, hvs⟩ := (harray _).parsed (x := ts) rfl rfl h
    rw [hparse, forall₂_eq_map.mp hvs]

theorem parse_members_iff {print : β → Text} {f : β → Value} {Good : β → Prop}
    (h : ∀ n, ReadsBack (value (n + 1)) print (fun x v => v = f x) Good (EndsItem '\x7d'))
    (members : List (Text × β)) (hkeys : ∀ m ∈ members, ∀ c ∈ m.1, Plain c) :
    parse ('\x7b' ::
      (Text.join ',' (members.map fun m => '"' :: (m.1 ++ '"' :: ':' :: print m.2)) ++
        ['\x7d'])) = some (.object (members.map fun m => (m.1, f m.2))) ↔
      ∀ m ∈ members, Good m.2 := by
  have hobject := (h
    (Text.join ',' (members.map fun m => '"' :: (m.1 ++ '"' :: ':' :: print m.2)) ++
      ['\x7d']).length).member.container '\x7b' (by decide) rfl rfl
    fun m t => ⟨'"', _, rfl, rfl, by decide⟩
  have hvalues : ∀ values : List (Text × Value),
      List.Forall₂ (fun m v => v.1 = m.1 ∧ v.2 = f m.2) members values ↔
        values = members.map fun m => (m.1, f m.2) := by
    intro values
    rw [← forall₂_eq_map]
    simp only [Prod.ext_iff]
  constructor
  · intro hparse
    obtain ⟨rest, hread⟩ := value_of_parse rfl hparse
    rw [value_object] at hread
    obtain ⟨⟨values, u⟩, hitems, hpair⟩ := Option.map_eq_some_iff.mp hread
    obtain rfl := Value.object.inj (Prod.mk.inj hpair).1
    have hgood := (hobject.good (t := []) trivial (by
      rw [List.append_nil, skip_cons rfl]
      exact hitems) ((hvalues _).mpr rfl)).1
    exact fun m hm => (hgood m hm).2
  · intro hgood
    obtain ⟨values, hread, hall⟩ := hobject.read (x := members) (t := []) trivial
      fun m hm => ⟨hkeys m hm, hgood m hm⟩
    rw [List.append_nil, skip_cons rfl] at hread
    refine whole_eq rfl ?_
    rw [value_object, List.length_cons, hread, (hvalues values).mp hall]
    rfl

theorem parse_numbers {print : β → Text} (h : ∀ x, PrintsNumber (print x))
    (members : List (Text × β)) (hkeys : ∀ m ∈ members, ∀ c ∈ m.1, Plain c) :
    parse ('\x7b' ::
      (Text.join ',' (members.map fun m => '"' :: (m.1 ++ '"' :: ':' :: print m.2)) ++
      ['\x7d'])) = some (.object (members.map fun m => (m.1, .scalar (.number (print m.2))))) :=
  (parse_members_iff (readsBack_number h (.inr rfl)) members hkeys).mpr fun _ _ => trivial

theorem parse_first_member {k t : Text} {members : List (Text × Value)} (hk : ∀ c ∈ k, Plain c)
    (h : parse ('\x7b' :: '"' :: (k ++ '"' :: ':' :: t)) = some (.object members)) :
    ∃ n x rest members', members = (k, x) :: members' ∧
      value (n + 1) (skip t) = some (x, rest) := by
  obtain ⟨u, hread⟩ := value_of_parse rfl h
  rw [value_object] at hread
  obtain ⟨⟨members', u'⟩, hitems, hpair⟩ := Option.map_eq_some_iff.mp hread
  obtain rfl := Value.object.inj (Prod.mk.inj hpair).1
  rw [Json.container, if_pos rfl, skip_cons rfl, if_neg (by simp), List.length_cons] at hitems
  obtain ⟨y, ys, rfl⟩ := List.exists_cons_of_ne_nil (items_ne_nil hitems)
  obtain ⟨rest, hmember⟩ := ReadsBack.first_of_items hitems
  rw [skip_cons rfl, memberOf, string, scan_plain hk] at hmember
  simp only [Option.bind_eq_bind, Option.bind_some, skip_cons (c := ':') rfl] at hmember
  obtain ⟨⟨x, rest'⟩, hx, heq⟩ := Option.bind_eq_some_iff.mp hmember
  obtain ⟨rfl, rfl⟩ := Prod.mk.inj (Option.some.inj heq)
  exact ⟨_, x, rest', ys, rfl, hx⟩

end Printers

end Json
