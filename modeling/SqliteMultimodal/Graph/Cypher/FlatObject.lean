import Mathlib.Data.List.DropRight
import SqliteMultimodal.Graph.Cypher.PropertyBytes
import SqliteMultimodal.Lib.JsonReading

namespace SqliteMultimodal.Graph.Cypher.FlatObject

open Except

section Pieces

def isWord (c : Char) : Bool := !Text.isSpace c && c ≠ ',' && c ≠ '\x7d'

def spaceOf (t : Text) : Text := t.takeWhile Text.isSpace

structure Member where
  /-- The white space of the member, from its colon up to the next member. -/
  spaces : Text
  /-- The name as it is written. -/
  name : Text
  value : Text
  /-- Whether a comma follows. -/
  comma : Bool
  deriving DecidableEq

structure Pieces where
  /-- The white space around the opening brace. -/
  spaces : Text
  members : List Member
  /-- What stands after the closing brace. -/
  rest : Text
  deriving DecidableEq

def value : Text → Option (Text × Text)
  | '"' :: t => (untilQuote false t).map fun r => (quoted r.1, r.2)
  | t => some (t.takeWhile isWord, t.dropWhile isWord)

def ending (t : Text) : Option (Bool × Text × Text) :=
  match skipSpace t with
  | ',' :: u => some (true, spaceOf t ++ spaceOf u, skipSpace u)
  | '\x7d' :: u => some (false, spaceOf t, u)
  | _ => none

def member : Text → Option (Member × Text)
  | '"' :: t => do
    let (name, t) ← untilQuote false t
    match skipSpace t with
    | ':' :: u =>
      let (z, v) ← value (skipSpace u)
      let (comma, spaces, w) ← ending v
      return (⟨spaceOf t ++ spaceOf u ++ spaces, name, z, comma⟩, w)
    | _ => none
  | _ => none

def members : Nat → Text → Option (List Member × Text)
  | 0, _ => none
  | n + 1, t =>
    if t.head? = some '\x7d' then some ([], t.tail)
    else do
      let (m, t) ← member t
      if m.comma then (members n t).map fun r => (m :: r.1, r.2) else return ([m], t)

def pieces (zJson : Text) : Option Pieces :=
  match skipSpace zJson with
  | '\x7b' :: t =>
    let p := skipSpace t
    (members (p.length + 1) p).map fun r => ⟨spaceOf zJson ++ spaceOf t, r.1, r.2⟩
  | _ => none

end Pieces

section Forms

def looseNumber (z : Text) : Bool :=
  let (sign, t) := signOf z
  (sign ≠ [] || t.takeWhile Char.isDigit ≠ []) &&
    match t.dropWhile Char.isDigit with
    | [] => true
    | '.' :: t => t.all Char.isDigit
    | _ => false

def literals : List Text := ["true".toList, "false".toList, "null".toList]

def looseValue (z : Text) : Bool := z.head? = some '"' || z ∈ literals || looseNumber z

def readsAll {α : Type} (read : Text → Option (α × Text)) (z : Text) : Bool :=
  (read z).any fun r => r.2 = []

def Loose (w : Pieces) : Prop := ∀ m ∈ w.members, looseValue m.value = true

def IsMember (m : Member) : Prop :=
  m.spaces.all Json.isWs = true ∧ readsAll Json.string (quoted m.name) = true ∧
    readsAll Json.scalar m.value = true

instance IsMember.decidable (m : Member) : Decidable (IsMember m) :=
  inferInstanceAs (Decidable (_ ∧ _))

instance Loose.decidable (w : Pieces) : Decidable (Loose w) :=
  inferInstanceAs (Decidable (∀ m ∈ w.members, looseValue m.value = true))

def endsInComma (ms : List Member) : Bool := ms.getLast?.any Member.comma

structure IsObject (w : Pieces) : Prop where
  spaces : w.spaces.all Json.isWs = true
  members : ∀ m ∈ w.members, IsMember m
  comma : endsInComma w.members = false
  rest : w.rest.all Json.isWs = true

structure Plain (w : Pieces) : Prop where
  loose : Loose w
  object : IsObject w
  names : ∀ m ∈ w.members, ∀ c ∈ m.name, Json.Plain c

end Forms

section Words

variable (atof : Text → ℚ) {t u z : Text}

theorem isWord_of_isDigit {c : Char} (hc : c.isDigit = true) : isWord c = true := by
  simp [isWord, Text.isSpace_of_isDigit hc, Text.ne_of_isDigit hc (d := ',') rfl,
    Text.ne_of_isDigit hc (d := '\x7d') rfl]

theorem isWord_of_mem {c : Char} (hc : c ∈ Json.scalarChars) : isWord c = true := by
  have hall : Json.scalarChars.all isWord = true := rfl
  exact List.all_eq_true.mp hall c hc

theorem endsWord_dropWhile (t : Text) : Json.EndsWord (t.dropWhile isWord) := by
  intro c hc
  have hword : isWord c = false := by
    have hnot := List.head?_dropWhile_not isWord t
    rwa [hc] at hnot
  constructor
  · cases hdigit : c.isDigit with
    | true => exact (isWord_of_isDigit hdigit).symm.trans hword
    | false => rfl
  · intro hmem
    exact Bool.false_ne_true (hword.symm.trans (isWord_of_mem hmem))

theorem signOf_append (hu : Json.EndsWord u) (t : Text) :
    signOf (t ++ u) = ((signOf t).1, (signOf t).2 ++ u) := by
  cases t with
  | nil =>
    obtain rfl | ⟨c, v, rfl, -, hc⟩ := hu.cases
    · rfl
    · rw [List.nil_append, signOf]
      · rfl
      · rintro w heq
        rw [(List.cons.inj heq).1] at hc
        exact absurd hc (by decide)
      · rintro w heq
        rw [(List.cons.inj heq).1] at hc
        exact absurd hc (by decide)
  | cons d t =>
    rw [List.cons_append]
    unfold signOf
    split
    next heq =>
      obtain ⟨rfl, rfl⟩ := List.cons.inj heq
      rfl
    next heq =>
      obtain ⟨rfl, rfl⟩ := List.cons.inj heq
      rfl
    next hplus hminus =>
      split
      next heq => exact absurd (by rw [(List.cons.inj heq).1]) (hplus _)
      next heq => exact absurd (by rw [(List.cons.inj heq).1]) (hminus _)
      next => rfl

theorem jsonNumber_append (hu : Json.EndsWord u) (t : Text) : jsonNumber atof (t ++ u) =
    ((jsonNumber atof t).1, (jsonNumber atof t).2 ++ u) := by
  obtain ⟨htake, hdrop⟩ := hu.span (signOf t).2
  simp only [jsonNumber, signOf_append hu, htake, hdrop]
  cases hrest : (signOf t).2.dropWhile Char.isDigit with
  | nil =>
    obtain rfl | ⟨c, v, rfl, -, hc⟩ := hu.cases
    · rfl
    · rw [List.nil_append]
      split
      next heq =>
        rw [(List.cons.inj heq).1] at hc
        exact absurd hc (by decide)
      next => rfl
  | cons c v =>
    by_cases hpoint : c = '.'
    · subst hpoint
      obtain ⟨htake', hdrop'⟩ := hu.span v
      simp only [List.cons_append, htake', hdrop']
    · rw [List.cons_append]
      split
      next heq => exact absurd (List.cons.inj heq).1 hpoint
      next =>
        split
        next heq => exact absurd (List.cons.inj heq).1 hpoint
        next => rfl

theorem jsonValue_other {c : Char} (hquote : c ≠ '"') (h : ∀ k ∈ literals, ¬k <+: c :: t) :
    jsonValue atof (c :: t) =
      if c.isDigit ∨ c = '-' ∨ c = '+' then .ok (jsonNumber atof (c :: t)) else .error .format := by
  unfold jsonValue
  split
  next heq => exact absurd (List.cons.inj heq).1 hquote
  next u heq => exact absurd ⟨u, heq.symm⟩ (h "true".toList (by decide))
  next u heq => exact absurd ⟨u, heq.symm⟩ (h "false".toList (by decide))
  next u heq => exact absurd ⟨u, heq.symm⟩ (h "null".toList (by decide))
  next heq =>
    obtain ⟨rfl, rfl⟩ := List.cons.inj heq
    rfl
  next heq => cases heq

theorem jsonValue_append (hu : Json.EndsWord u) (hz : z.head? ≠ some '"') :
    jsonValue atof (z ++ u) = (jsonValue atof z).map fun r => (r.1, r.2 ++ u) := by
  by_cases hliteral : ∃ k ∈ literals, k <+: z ++ u
  · obtain ⟨k, hk, v, hv⟩ := hliteral
    have hchars : literals.all (·.all (· ∈ Json.scalarChars)) = true := rfl
    have hmem := List.all_eq_true.mp (List.all_eq_true.mp hchars k hk)
    obtain ⟨w, rfl, rfl⟩ := hu.literal (fun c hc => of_decide_eq_true (hmem c hc)) hv.symm
    simp only [literals, List.mem_cons, List.not_mem_nil, or_false] at hk
    obtain rfl | rfl | rfl := hk
    · rfl
    · rfl
    · rfl
  have hother : ∀ k ∈ literals, ¬k <+: z ++ u := fun k hk h => hliteral ⟨k, hk, h⟩
  cases z with
  | nil =>
    obtain rfl | ⟨d, x, rfl, hdigit, hd⟩ := hu.cases
    · rfl
    · rw [List.nil_append] at hother ⊢
      rw [jsonValue_other atof _ hother, if_neg]
      · rfl
      · rintro (h | rfl | rfl)
        · exact Bool.false_ne_true (hdigit.symm.trans h)
        · exact hd (by decide)
        · exact hd (by decide)
      · rintro rfl
        exact hd (by decide)
  | cons c z =>
    have hquote : c ≠ '"' := fun heq => hz (by rw [heq]; rfl)
    have hleft : ∀ k ∈ literals, ¬k <+: c :: z := fun k hk h =>
      hother k hk (h.trans (List.prefix_append _ _))
    rw [List.cons_append] at hother ⊢
    rw [jsonValue_other atof hquote hother, jsonValue_other atof hquote hleft]
    split
    next =>
      rw [← List.cons_append, jsonNumber_append atof hu]
      rfl
    next => rfl

theorem looseNumber_iff (c : Char) (t : Text) : looseNumber (c :: t) = true ↔
    (c.isDigit = true ∨ c = '-' ∨ c = '+') ∧ (jsonNumber atof (c :: t)).2 = [] := by
  have hstart : ((signOf (c :: t)).1 ≠ [] ∨ (signOf (c :: t)).2.takeWhile Char.isDigit ≠ []) ↔
      (c.isDigit = true ∨ c = '-' ∨ c = '+') := by
    unfold signOf
    split
    next heq => simp [(List.cons.inj heq).1]
    next heq => simp [(List.cons.inj heq).1]
    next hminus hplus =>
      have hc : c ≠ '-' ∧ c ≠ '+' :=
        ⟨fun heq => hminus t (by rw [heq]), fun heq => hplus t (by rw [heq])⟩
      simp [hc]
  rw [looseNumber, Bool.and_eq_true, Bool.or_eq_true, decide_eq_true_eq, decide_eq_true_eq]
  refine and_congr hstart ?_
  simp only [jsonNumber]
  cases hrest : (signOf (c :: t)).2.dropWhile Char.isDigit with
  | nil => simp
  | cons d v =>
    by_cases hpoint : d = '.'
    · subst hpoint
      simp
    · split
      next heq => cases heq
      next heq => exact absurd (List.cons.inj heq).1 hpoint
      next =>
        split
        next heq => exact absurd (List.cons.inj heq).1 hpoint
        next => simp

theorem jsonValue_all (hz : z.head? ≠ some '"') :
    (∃ v, jsonValue atof z = .ok (v, [])) ↔ looseValue z = true := by
  by_cases hliteral : ∃ k ∈ literals, k <+: z
  · obtain ⟨k, hk, u, rfl⟩ := hliteral
    simp only [literals, List.mem_cons, List.not_mem_nil, or_false] at hk
    cases u with
    | nil =>
      obtain rfl | rfl | rfl := hk
      · exact ⟨fun _ => rfl, fun _ => ⟨_, rfl⟩⟩
      · exact ⟨fun _ => rfl, fun _ => ⟨_, rfl⟩⟩
      · exact ⟨fun _ => rfl, fun _ => ⟨_, rfl⟩⟩
    | cons c u =>
      obtain rfl | rfl | rfl := hk
      · exact ⟨fun ⟨_, h⟩ => (by cases h), fun h => (by cases h)⟩
      · exact ⟨fun ⟨_, h⟩ => (by cases h), fun h => (by cases h)⟩
      · exact ⟨fun ⟨_, h⟩ => (by cases h), fun h => (by cases h)⟩
  have hother : ∀ k ∈ literals, ¬k <+: z := fun k hk h => hliteral ⟨k, hk, h⟩
  have hmem : z ∉ literals := fun h => hother z h (List.prefix_refl z)
  cases z with
  | nil => simp [jsonValue, looseValue, literals, looseNumber, signOf]
  | cons c t =>
    have hquote : c ≠ '"' := fun heq => hz (by rw [heq]; rfl)
    have hloose : looseValue (c :: t) = looseNumber (c :: t) := by
      simp [looseValue, hquote, hmem]
    rw [hloose, looseNumber_iff atof, jsonValue_other atof hquote hother]
    split
    next h =>
      constructor
      · rintro ⟨v, heq⟩
        exact ⟨h, congrArg Prod.snd (Except.ok.inj heq)⟩
      · rintro ⟨-, hrest⟩
        exact ⟨_, congrArg Except.ok (Prod.ext rfl hrest)⟩
    next h => simp [h]

def Closes (skip : Text → Text) (u : Text) : Prop :=
  ∃ c w, skip u = c :: w ∧ (c = ',' ∨ c = '\x7d')

theorem eq_nil_of_closes {skip : Text → Text}
    (hskip : ∀ c t, isWord c = true → skip (c :: t) = c :: t) (hz : ∀ c ∈ z, isWord c = true)
    (hu : Closes skip (z ++ u)) : z = [] := by
  cases z with
  | nil => rfl
  | cons c z =>
    have hc := hz c List.mem_cons_self
    obtain ⟨d, w, hw, hd⟩ := hu
    rw [List.cons_append, hskip c _ hc] at hw
    obtain ⟨rfl, -⟩ := List.cons.inj hw
    obtain rfl | rfl := hd
    · cases hc
    · cases hc

theorem skipSpace_word {c : Char} (hc : isWord c = true) (t : Text) :
    skipSpace (c :: t) = c :: t := by
  apply skipSpace_cons
  simp only [isWord, Bool.and_eq_true, Bool.not_eq_true'] at hc
  exact hc.1.1

theorem value_word {c : Char} (hc : c ≠ '"') (t : Text) : value (c :: t) =
    some ((c :: t).takeWhile isWord, (c :: t).dropWhile isWord) := by
  rw [value]
  rintro u heq
  exact hc (List.cons.inj heq).1

theorem mem_takeWhile_isWord {c : Char} (h : c ∈ t.takeWhile isWord) : isWord c = true :=
  List.mem_takeWhile_imp h

theorem value_of_ne_quote (hquote : t.head? ≠ some '"') :
    value t = some (t.takeWhile isWord, t.dropWhile isWord) ∧
      (t.takeWhile isWord).head? ≠ some '"' := by
  constructor
  · cases t with
    | nil => rfl
    | cons c t => exact value_word (fun heq => hquote (by rw [heq]; rfl)) t
  · intro h
    obtain ⟨w, hw⟩ := List.head?_eq_some_iff.mp h
    refine hquote ?_
    rw [← List.takeWhile_append_dropWhile (p := isWord) (l := t), hw]
    rfl

theorem jsonValue_iff (hu : Closes skipSpace u) : (∃ v, jsonValue atof t = .ok (v, u)) ↔
    ∃ z, value t = some (z, u) ∧ looseValue z = true := by
  by_cases hquote : t.head? = some '"'
  · obtain ⟨s, rfl⟩ := List.head?_eq_some_iff.mp hquote
    constructor
    · rintro ⟨v, h⟩
      simp only [jsonValue, bind_eq_ok, ofOption_eq_ok] at h
      obtain ⟨⟨raw, w⟩, hraw, heq⟩ := h
      obtain ⟨-, rfl⟩ := Prod.mk.inj (pure_eq_ok.mp heq)
      exact ⟨quoted raw, by rw [value, hraw]; rfl, rfl⟩
    · rintro ⟨z, h, -⟩
      obtain ⟨⟨raw, w⟩, hraw, heq⟩ := Option.map_eq_some_iff.mp h
      obtain ⟨-, rfl⟩ := Prod.mk.inj heq
      exact ⟨.string (some raw), by simp [jsonValue, hraw, ofOption]⟩
  · obtain ⟨hvalue, hz⟩ := value_of_ne_quote hquote
    have hread := jsonValue_append atof (endsWord_dropWhile t) hz
    rw [List.takeWhile_append_dropWhile] at hread
    rw [hvalue, hread]
    constructor
    · rintro ⟨v, h⟩
      cases hall : jsonValue atof (t.takeWhile isWord) with
      | error e =>
        rw [hall] at h
        cases h
      | ok r =>
        rw [hall] at h
        obtain ⟨rfl, rfl⟩ := Prod.mk.inj (Except.ok.inj h)
        have hnil := eq_nil_of_closes (fun _ t hc => skipSpace_word hc t)
          (fun c hc => mem_takeWhile_isWord ((Bytes.jsonValue_suffix hall).subset hc)) hu
        refine ⟨_, by rw [hnil]; rfl, (jsonValue_all atof hz).mp ⟨r.1, ?_⟩⟩
        rw [hall, ← hnil]
    · rintro ⟨z, heq, hloose⟩
      obtain ⟨rfl, rfl⟩ := Prod.mk.inj (Option.some.inj heq)
      obtain ⟨v, hv⟩ := (jsonValue_all atof hz).mpr hloose
      exact ⟨v, by rw [hv]; rfl⟩

end Words

section Steps

variable {atof : Text → ℚ} {t u rest : Text} {n : Nat}

theorem ending_cases (u : Text) :
    (∃ w, skipSpace u = ',' :: w ∧ ending u = some (true, spaceOf u ++ spaceOf w, skipSpace w)) ∨
    (∃ w, skipSpace u = '\x7d' :: w ∧ ending u = some (false, spaceOf u, w)) ∨
    ending u = none ∧ ∀ c w, skipSpace u = c :: w → c ≠ ',' ∧ c ≠ '\x7d' := by
  unfold ending
  split
  next w hw => exact .inl ⟨w, hw, rfl⟩
  next w hw => exact .inr (.inl ⟨w, hw, rfl⟩)
  next hcomma hbrace =>
    refine .inr (.inr ⟨rfl, fun c w hw => ⟨?_, ?_⟩⟩)
    · rintro rfl
      exact hcomma w hw
    · rintro rfl
      exact hbrace w hw

theorem closes_iff : Closes skipSpace u ↔ ∃ e, ending u = some e := by
  obtain ⟨w, hw, he⟩ | ⟨w, hw, he⟩ | ⟨he, hnot⟩ := ending_cases u
  · exact ⟨fun _ => ⟨_, he⟩, fun _ => ⟨_, w, hw, .inl rfl⟩⟩
  · exact ⟨fun _ => ⟨_, he⟩, fun _ => ⟨_, w, hw, .inr rfl⟩⟩
  · rw [he]
    constructor
    · rintro ⟨c, w, hw, hc⟩
      exact absurd hc (not_or.mpr (hnot c w hw))
    · rintro ⟨e, h⟩
      cases h

theorem member_eq_some {m : Member} : member t = some (m, rest) ↔ ∃ s u v w spaces, t = '"' :: s ∧
    untilQuote false s = some (m.name, u) ∧ skipSpace u = ':' :: v ∧
    value (skipSpace v) = some (m.value, w) ∧ ending w = some (m.comma, spaces, rest) ∧
    m.spaces = spaceOf u ++ spaceOf v ++ spaces := by
  constructor
  · intro h
    unfold member at h
    split at h
    next s =>
      obtain ⟨⟨name, u⟩, hname, h⟩ := Option.bind_eq_some_iff.mp h
      dsimp only at h
      split at h
      next v hv =>
        obtain ⟨⟨z, w⟩, hz, h⟩ := Option.bind_eq_some_iff.mp h
        obtain ⟨⟨comma, spaces, x⟩, hend, h⟩ := Option.bind_eq_some_iff.mp h
        obtain ⟨rfl, rfl⟩ := Prod.mk.inj (Option.some.inj h)
        exact ⟨s, u, v, w, spaces, rfl, hname, hv, hz, hend, rfl⟩
      next => cases h
    next => cases h
  · rintro ⟨s, u, v, w, spaces, rfl, hname, hv, hz, hend, hspaces⟩
    simp only [member, hname, hv, hz, hend, Option.bind_eq_bind, Option.bind_some]
    rw [← hspaces]
    rfl

theorem jsonPair_eq_ok {k : Text} {x : CypherValue} : jsonPair atof t = .ok ((k, x), rest) ↔
    ∃ s u v, t = '"' :: s ∧ untilQuote false s = some (k, u) ∧ skipSpace u = ':' :: v ∧
      jsonValue atof (skipSpace v) = .ok (x, rest) := by
  constructor
  · intro h
    unfold jsonPair at h
    split at h
    next s =>
      simp only [bind_eq_ok, ofOption_eq_ok] at h
      obtain ⟨⟨key, u⟩, hkey, h⟩ := h
      dsimp only at h
      split at h
      next v hv =>
        obtain ⟨⟨value, w⟩, hvalue, h⟩ := bind_eq_ok.mp h
        obtain ⟨heq, rfl⟩ := Prod.mk.inj (pure_eq_ok.mp h)
        obtain ⟨rfl, rfl⟩ := Prod.mk.inj heq
        exact ⟨s, u, v, rfl, hkey, hv, hvalue⟩
      next => cases h
    next => cases h
  · rintro ⟨s, u, v, rfl, hkey, hv, hvalue⟩
    simp only [jsonPair, hkey, ofOption, ok_bind, hv, hvalue]
    rfl

theorem members_eq_some {ms : List Member} : members (n + 1) t = some (ms, rest) ↔
    t.head? = some '\x7d' ∧ ms = [] ∧ rest = t.tail ∨
    t.head? ≠ some '\x7d' ∧ ∃ m u, member t = some (m, u) ∧
      (m.comma = true ∧ (∃ ms', members n u = some (ms', rest) ∧ ms = m :: ms') ∨
        m.comma = false ∧ ms = [m] ∧ rest = u) := by
  rw [members]
  split
  next hbrace =>
    simp only [hbrace, Option.some.injEq, Prod.mk.injEq, true_and, ne_eq, not_true_eq_false,
      false_and, or_false, eq_comm]
  next hbrace =>
    simp only [hbrace, false_and, false_or, ne_eq, not_false_eq_true, true_and,
      Option.bind_eq_bind, Option.bind_eq_some_iff, Prod.exists]
    apply exists_congr
    intro m
    apply exists_congr
    intro u
    apply and_congr_right
    rintro -
    cases m.comma with
    | true =>
      simp only [if_true, Option.map_eq_some_iff, Prod.exists, Prod.mk.injEq, true_and,
        Bool.true_eq_false, false_and, or_false]
      constructor
      · rintro ⟨ms', rest', h, rfl, rfl⟩
        exact ⟨ms', h, rfl⟩
      · rintro ⟨ms', h, rfl⟩
        exact ⟨ms', rest, h, rfl, rfl⟩
    | false => simp [eq_comm]

theorem jsonPairs_eq_ok {acc pairs : List (Text × CypherValue)} :
    jsonPairs atof (n + 1) t acc = .ok pairs ↔
    t.head? = some '\x7d' ∧ pairs = acc ∨
    t.head? ≠ some '\x7d' ∧ ∃ x u e, jsonPair atof (skipSpace t) = .ok (x, u) ∧
      ending u = some e ∧ (e.1 = true ∧ jsonPairs atof n e.2.2 (acc ++ [x]) = .ok pairs ∨
        e.1 = false ∧ pairs = acc ++ [x]) := by
  rw [jsonPairs]
  cases t with
  | nil =>
    constructor
    · intro h
      cases h
    · rintro (⟨h, -⟩ | ⟨-, x, u, e, h, -⟩)
      · cases h
      · cases h
  | cons c t =>
    simp only [List.head?_cons, Option.some_inj, ne_eq]
    split
    next hbrace =>
      constructor
      · intro h
        exact .inl ⟨hbrace, (pure_eq_ok.mp h).symm⟩
      · rintro (⟨-, rfl⟩ | ⟨h, -⟩)
        · rfl
        · exact absurd hbrace h
    next hbrace =>
      rw [bind_eq_ok]
      constructor
      · rintro ⟨⟨x, u⟩, hpair, h⟩
        refine .inr ⟨hbrace, x, u, ?_⟩
        dsimp only at h
        obtain ⟨w, hw, he⟩ | ⟨w, hw, he⟩ | ⟨he, hnot⟩ := ending_cases u
        · rw [hw] at h
          exact ⟨_, hpair, he, .inl ⟨rfl, h⟩⟩
        · rw [hw] at h
          exact ⟨_, hpair, he, .inr ⟨rfl, (pure_eq_ok.mp h).symm⟩⟩
        · split at h
          next => cases h
          next c w hw =>
            rw [if_neg (hnot c w hw).1, if_neg (hnot c w hw).2] at h
            cases h
      · rintro (⟨h, -⟩ | ⟨-, x, u, e, hpair, he, h⟩)
        · exact absurd h hbrace
        · refine ⟨(x, u), hpair, ?_⟩
          obtain ⟨w, hw, he'⟩ | ⟨w, hw, he'⟩ | ⟨he', -⟩ := ending_cases u
          · obtain rfl := Option.some.inj (he.symm.trans he')
            obtain ⟨-, h⟩ | ⟨h, -⟩ := h
            · dsimp only
              rw [hw]
              exact h
            · cases h
          · obtain rfl := Option.some.inj (he.symm.trans he')
            obtain ⟨h, -⟩ | ⟨-, rfl⟩ := h
            · cases h
            · dsimp only
              rw [hw]
              rfl
          · cases he.symm.trans he'

end Steps

section Code

variable {atof : Text → ℚ} {t rest : Text} {n : Nat}

theorem skipSpace_ending {e : Bool × Text × Text} (he : ending t = some e) (hcomma : e.1 = true) :
    skipSpace e.2.2 = e.2.2 := by
  obtain ⟨w, -, he'⟩ | ⟨w, -, he'⟩ | ⟨he', -⟩ := ending_cases t
  · obtain rfl := Option.some.inj (he.symm.trans he')
    exact List.dropWhile_idempotent _ _
  · obtain rfl := Option.some.inj (he.symm.trans he')
    cases hcomma
  · cases he.symm.trans he'

theorem member_of_jsonPair {k : Text} {x : CypherValue} {u : Text} {e : Bool × Text × Text}
    (h : jsonPair atof t = .ok ((k, x), u)) (he : ending u = some e) :
    ∃ m, member t = some (m, e.2.2) ∧ m.name = k ∧ m.comma = e.1 ∧ looseValue m.value = true := by
  obtain ⟨s, v, w, rfl, hk, hw, hx⟩ := jsonPair_eq_ok.mp h
  obtain ⟨z, hz, hloose⟩ := (jsonValue_iff atof (closes_iff.mpr ⟨e, he⟩)).mp ⟨x, hx⟩
  refine ⟨⟨spaceOf v ++ spaceOf w ++ e.2.1, k, z, e.1⟩, ?_, rfl, rfl, hloose⟩
  exact member_eq_some.mpr ⟨s, v, w, u, e.2.1, rfl, hk, hw, hz, he, rfl⟩

variable (atof) in
theorem jsonPair_of_member {m : Member} (h : member t = some (m, rest))
    (hloose : looseValue m.value = true) :
    ∃ x u spaces, jsonPair atof t = .ok ((m.name, x), u) ∧
      ending u = some (m.comma, spaces, rest) := by
  obtain ⟨s, v, w, u, spaces, rfl, hk, hw, hz, he, -⟩ := member_eq_some.mp h
  obtain ⟨x, hx⟩ := (jsonValue_iff atof (closes_iff.mpr ⟨_, he⟩)).mpr ⟨_, hz, hloose⟩
  exact ⟨x, u, spaces, jsonPair_eq_ok.mpr ⟨s, v, w, rfl, hk, hw, hx⟩, he⟩

theorem members_of_jsonPairs {acc pairs : List (Text × CypherValue)} (ht : skipSpace t = t)
    (h : jsonPairs atof n t acc = .ok pairs) :
    ∃ ms rest, members n t = some (ms, rest) ∧ (∀ m ∈ ms, looseValue m.value = true) ∧
      pairs.map Prod.fst = acc.map Prod.fst ++ ms.map Member.name := by
  induction n generalizing t acc with
  | zero => cases h
  | succ n ih =>
    obtain ⟨hbrace, rfl⟩ | ⟨hbrace, x, u, e, hpair, he, h⟩ := jsonPairs_eq_ok.mp h
    · exact ⟨[], _, members_eq_some.mpr (.inl ⟨hbrace, rfl, rfl⟩), by simp, by simp⟩
    rw [ht] at hpair
    obtain ⟨m, hm, hname, hcomma, hloose⟩ := member_of_jsonPair hpair he
    obtain ⟨htrue, h⟩ | ⟨hfalse, rfl⟩ := h
    · obtain ⟨ms, rest, hms, hall, hnames⟩ := ih (skipSpace_ending he htrue) h
      refine ⟨m :: ms, rest, members_eq_some.mpr (.inr ⟨hbrace, m, _, hm, .inl
        ⟨hcomma.trans htrue, ms, hms, rfl⟩⟩), List.forall_mem_cons.mpr ⟨hloose, hall⟩, ?_⟩
      simp [hnames, hname]
    · refine ⟨[m], _, members_eq_some.mpr (.inr ⟨hbrace, m, _, hm, .inr
        ⟨hcomma.trans hfalse, rfl, rfl⟩⟩), by simpa using hloose, ?_⟩
      simp [hname]

variable (atof) in
theorem jsonPairs_of_members {ms : List Member} (ht : skipSpace t = t)
    (h : members n t = some (ms, rest)) (hloose : ∀ m ∈ ms, looseValue m.value = true)
    (acc : List (Text × CypherValue)) :
    ∃ pairs, jsonPairs atof n t acc = .ok pairs ∧
      pairs.map Prod.fst = acc.map Prod.fst ++ ms.map Member.name := by
  induction n generalizing t acc ms with
  | zero => cases h
  | succ n ih =>
    obtain ⟨hbrace, rfl, rfl⟩ | ⟨hbrace, m, u, hm, h⟩ := members_eq_some.mp h
    · exact ⟨acc, jsonPairs_eq_ok.mpr (.inl ⟨hbrace, rfl⟩), by simp⟩
    obtain ⟨hcomma, ms, hms, rfl⟩ | ⟨hcomma, rfl, rfl⟩ := h
    · obtain ⟨hm', hms'⟩ := List.forall_mem_cons.mp hloose
      obtain ⟨x, v, spaces, hpair, he⟩ := jsonPair_of_member atof hm hm'
      obtain ⟨pairs, hpairs, hnames⟩ := ih (skipSpace_ending he hcomma) hms hms'
        (acc ++ [(m.name, x)])
      refine ⟨pairs, jsonPairs_eq_ok.mpr (.inr ⟨hbrace, _, v, _, by rw [ht]; exact hpair, he,
        .inl ⟨hcomma, hpairs⟩⟩), ?_⟩
      simp [hnames]
    · obtain ⟨x, v, spaces, hpair, he⟩ := jsonPair_of_member atof hm
        (hloose m List.mem_cons_self)
      refine ⟨acc ++ [(m.name, x)], jsonPairs_eq_ok.mpr (.inr ⟨hbrace, _, v, _,
        by rw [ht]; exact hpair, he, .inr ⟨hcomma, rfl⟩⟩), ?_⟩
      simp

def mapNames : Except ResultCode CypherValue → Option (List Text)
  | .ok (.map pairs) => some (pairs.map Prod.fst)
  | _ => none

theorem parse_brace {zJson : Text} (ht : skipSpace zJson = '\x7b' :: t) :
    cypherParseJsonProperties atof zJson = (do
      let pairs ← jsonPairs atof ((skipSpace t).length + 1) (skipSpace t) []
      return .map pairs) := by
  rw [cypherParseJsonProperties, ht, if_neg (by simp)]
  rfl

theorem pieces_brace {zJson : Text} (ht : skipSpace zJson = '\x7b' :: t) : pieces zJson =
    (members ((skipSpace t).length + 1) (skipSpace t)).map
      fun r => ⟨spaceOf zJson ++ spaceOf t, r.1, r.2⟩ := by
  rw [pieces, ht]
  rfl

variable (atof) in
theorem mapNames_iff (zJson : Text) (ks : List Text) :
    mapNames (cypherParseJsonProperties atof zJson) = some ks ↔
      ∃ w, pieces zJson = some w ∧ Loose w ∧ ks = w.members.map Member.name := by
  by_cases hbrace : ∃ t, skipSpace zJson = '\x7b' :: t
  · obtain ⟨t, ht⟩ := hbrace
    have hspace : skipSpace (skipSpace t) = skipSpace t := List.dropWhile_idempotent _ _
    rw [parse_brace ht, pieces_brace ht]
    constructor
    · intro h
      cases hpairs : jsonPairs atof ((skipSpace t).length + 1) (skipSpace t) [] with
      | error e =>
        rw [hpairs] at h
        cases h
      | ok pairs =>
        rw [hpairs] at h
        obtain ⟨ms, rest, hms, hloose, hnames⟩ := members_of_jsonPairs hspace hpairs
        exact ⟨⟨spaceOf zJson ++ spaceOf t, ms, rest⟩, by rw [hms]; rfl, hloose,
          (Option.some.inj h).symm.trans hnames⟩
    · rintro ⟨w, hw, hloose, rfl⟩
      obtain ⟨r, hms, rfl⟩ := Option.map_eq_some_iff.mp hw
      obtain ⟨pairs, hpairs, hnames⟩ := jsonPairs_of_members atof hspace hms hloose []
      rw [hpairs]
      exact congrArg some hnames
  · have hnone : ∀ t, skipSpace zJson ≠ '\x7b' :: t := fun t ht => hbrace ⟨t, ht⟩
    rw [cypherParseJsonProperties, pieces]
    constructor
    · intro h
      split at h
      next => cases h
      next =>
        split at h
        next heq => exact absurd heq (hnone _)
        next => cases h
    · rintro ⟨w, hw, -⟩
      split at hw
      next heq => exact absurd heq (hnone _)
      next => cases hw

end Code

end SqliteMultimodal.Graph.Cypher.FlatObject
