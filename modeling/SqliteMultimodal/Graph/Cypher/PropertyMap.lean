import SqliteMultimodal.Graph.Value
import SqliteMultimodal.Lib.Except

namespace SqliteMultimodal.Graph.Cypher

open Except

section Code

/-- The text up to the next quote, and the text after it.  `skipped` is set right after a backslash:
the character there is passed over. -/
def untilQuote (skipped : Bool) : Text → Option (Text × Text)
  | [] => none
  | c :: t =>
    if c = '"' ∧ skipped = false then some ([], t)
    else (untilQuote (!skipped && c = '\\') t).map fun r => (c :: r.1, r.2)

def skipSpace (t : Text) : Text := t.dropWhile Text.isSpace

variable (atof : Text → ℚ)

def signOf : Text → Text × Text
  | '-' :: t => (['-'], t)
  | '+' :: t => (['+'], t)
  | t => ([], t)

def jsonNumber (t : Text) : CypherValue × Text :=
  let (sign, t) := signOf t
  let digits := t.takeWhile Char.isDigit
  match t.dropWhile Char.isDigit with
  | '.' :: t =>
    (.float (atof (sign ++ digits ++ '.' :: t.takeWhile Char.isDigit)), t.dropWhile Char.isDigit)
  | t => (.integer (Text.atoll (sign ++ digits)), t)

def jsonValue : Text → Except ResultCode (CypherValue × Text)
  | '"' :: t => do
    let (z, t) ← ofOption .format (untilQuote false t)
    return (.string (some z), t)
  | 't' :: 'r' :: 'u' :: 'e' :: t => return (.boolean true, t)
  | 'f' :: 'a' :: 'l' :: 's' :: 'e' :: t => return (.boolean false, t)
  | 'n' :: 'u' :: 'l' :: 'l' :: t => return (.null, t)
  | c :: t =>
    if c.isDigit ∨ c = '-' ∨ c = '+' then return jsonNumber atof (c :: t) else .error .format
  | [] => .error .format

def jsonPair : Text → Except ResultCode ((Text × CypherValue) × Text)
  | '"' :: t => do
    let (key, t) ← ofOption .format (untilQuote false t)
    match skipSpace t with
    | ':' :: t => do
      let (value, t) ← jsonValue atof (skipSpace t)
      return ((key, value), t)
    | _ => .error .format
  | _ => .error .format

def jsonPairs : Nat → Text → List (Text × CypherValue) →
    Except ResultCode (List (Text × CypherValue))
  | 0, _, _ => .error .format
  | n + 1, t, pairs =>
    match t.head? with
    | none => .error .format
    | some c =>
      if c = '\x7d' then return pairs
      else do
        let (pair, t) ← jsonPair atof (skipSpace t)
        match skipSpace t with
        | [] => .error .format
        | c :: t =>
          if c = ',' then jsonPairs n (skipSpace t) (pairs ++ [pair])
          else if c = '\x7d' then return pairs ++ [pair]
          else .error .format

/-- A pair takes a character at least, so the length of the text is fuel enough.  What stands after
the closing brace is not looked at. -/
def cypherParseJsonProperties (zJson : Text) : Except ResultCode CypherValue :=
  let p := skipSpace zJson
  if p = [] ∨ p = "null".toList then return .null
  else
    match p with
    | '\x7b' :: p => do
      let p := skipSpace p
      return .map (← jsonPairs atof (p.length + 1) p [])
    | _ => .error .format

end Code

section Strings

def EscapesClosed (skipped : Bool) : Text → Prop
  | [] => skipped = false
  | c :: t => (skipped = false → c ≠ '"') ∧ EscapesClosed (!skipped && c = '\\') t

instance EscapesClosed.decidable (skipped : Bool) (t : Text) :
    Decidable (EscapesClosed skipped t) := by
  induction t generalizing skipped with
  | nil => exact inferInstanceAs (Decidable (skipped = false))
  | cons c t ih => exact inferInstanceAs (Decidable (_ ∧ _))

def escapedChars : Text := ['"', '\\', '\n', '\r', '\t']

variable {skipped : Bool} {k : Text}

theorem untilQuote_of_closed (h : EscapesClosed skipped k) (t : Text) :
    untilQuote skipped (k ++ '"' :: t) = some (k, t) := by
  induction k generalizing skipped with
  | nil =>
    obtain rfl : skipped = false := h
    rfl
  | cons c k ih =>
    obtain ⟨hc, hk⟩ := h
    rw [List.cons_append, untilQuote, if_neg fun h => hc h.2 h.1, ih hk]
    rfl

theorem closed_of_untilQuote {t u : Text} (h : untilQuote skipped (k ++ '"' :: t) = some (k, u)) :
    EscapesClosed skipped k := by
  induction k generalizing skipped with
  | nil =>
    rw [List.nil_append, untilQuote] at h
    by_cases hs : skipped = false
    · exact hs
    · rw [if_neg fun h => hs h.2] at h
      obtain ⟨r, -, hr⟩ := Option.map_eq_some_iff.mp h
      exact absurd (Prod.mk.inj hr).1 (List.cons_ne_nil _ _)
  | cons c k ih =>
    rw [List.cons_append, untilQuote] at h
    split at h
    · exact absurd (Prod.mk.inj (Option.some.inj h)).1.symm (List.cons_ne_nil _ _)
    next hquote =>
      obtain ⟨⟨k', u'⟩, hr, heq⟩ := Option.map_eq_some_iff.mp h
      obtain ⟨hk, rfl⟩ := Prod.mk.inj heq
      obtain rfl := (List.cons.inj hk).2
      exact ⟨fun hs hc => hquote ⟨hc, hs⟩, ih hr⟩

theorem append_of_untilQuote {t u : Text} (h : untilQuote skipped t = some (k, u)) :
    t = k ++ '"' :: u := by
  induction t generalizing skipped k with
  | nil => cases h
  | cons c t ih =>
    rw [untilQuote] at h
    split at h
    next hquote =>
      obtain ⟨rfl, rfl⟩ := Prod.mk.inj (Option.some.inj h)
      rw [hquote.1]
      rfl
    next =>
      obtain ⟨⟨k', u'⟩, hr, heq⟩ := Option.map_eq_some_iff.mp h
      obtain ⟨rfl, rfl⟩ := Prod.mk.inj heq
      rw [ih hr]
      rfl

theorem jsonEscape_cons (c : Char) (z : Text) :
    c ∉ escapedChars ∧ jsonEscape (c :: z) = c :: jsonEscape z ∨
      c ∈ escapedChars ∧ ∃ d, jsonEscape (c :: z) = '\\' :: d :: jsonEscape z := by
  simp only [jsonEscape, List.flatMap_cons, escapedChars, List.mem_cons, List.not_mem_nil, or_false]
  split_ifs with hquote hslash hnewline hreturn htab
  · exact .inr ⟨.inl hquote, _, rfl⟩
  · exact .inr ⟨.inr (.inl hslash), _, rfl⟩
  · exact .inr ⟨.inr (.inr (.inl hnewline)), _, rfl⟩
  · exact .inr ⟨.inr (.inr (.inr (.inl hreturn))), _, rfl⟩
  · exact .inr ⟨.inr (.inr (.inr (.inr htab))), _, rfl⟩
  · exact .inl ⟨by simp [hquote, hslash, hnewline, hreturn, htab], rfl⟩

theorem closed_jsonEscape (z : Text) : EscapesClosed false (jsonEscape z) := by
  induction z with
  | nil => rfl
  | cons c z ih =>
    obtain ⟨hc, hz⟩ | ⟨-, d, hz⟩ := jsonEscape_cons c z
    · have hquote : c ≠ '"' := by
        rintro rfl
        exact hc (by decide)
      have hslash : c ≠ '\\' := by
        rintro rfl
        exact hc (by decide)
      rw [hz]
      exact ⟨fun _ => hquote, by simpa [hslash] using ih⟩
    · rw [hz]
      exact ⟨fun _ => by decide, by simp, ih⟩

theorem length_le_jsonEscape (z : Text) : z.length ≤ (jsonEscape z).length := by
  induction z with
  | nil => exact Nat.zero_le _
  | cons c z ih =>
    obtain ⟨-, hz⟩ | ⟨-, d, hz⟩ := jsonEscape_cons c z
    · rw [hz]
      exact Nat.succ_le_succ ih
    · rw [hz]
      exact Nat.succ_le_succ (Nat.le_succ_of_le ih)

theorem jsonEscape_eq_self {z : Text} : jsonEscape z = z ↔ ∀ c ∈ z, c ∉ escapedChars := by
  induction z with
  | nil => exact ⟨fun _ => by simp, fun _ => rfl⟩
  | cons c z ih =>
    obtain ⟨hc, hz⟩ | ⟨hc, d, hz⟩ := jsonEscape_cons c z
    · rw [hz, List.cons.injEq, List.forall_mem_cons, ih]
      simp [hc]
    · have hlen := length_le_jsonEscape z
      refine ⟨fun heq => ?_, fun h => absurd hc (h c List.mem_cons_self)⟩
      have hcons := congrArg List.length (hz.symm.trans heq)
      simp only [List.length_cons] at hcons
      omega

end Strings

section Values

variable (host : Host) (atof : Text → ℚ)

def Flat : CypherValue → Prop
  | .null => True
  | .boolean _ => True
  | .integer i => -9223372036854775808 ≤ i ∧ i < 9223372036854775808
  | .string z => z.isSome = true
  | _ => False

instance Flat.decidable : (v : CypherValue) → Decidable (Flat v)
  | .null => isTrue trivial
  | .boolean _ => isTrue trivial
  | .integer _ => inferInstanceAs (Decidable (_ ∧ _))
  | .string z => inferInstanceAs (Decidable (z.isSome = true))
  | .float _ | .node _ | .relationship _ | .path | .list _ | .map _ => isFalse id

/-- The value that is read where `v` has been written. -/
def readBack : CypherValue → CypherValue
  | .string z => .string (some (jsonEscape (z.getD [])))
  | v => v

def ValueKept : CypherValue → Prop
  | .string z => ∀ c ∈ z.getD [], c ∉ escapedChars
  | _ => True

instance ValueKept.decidable : (v : CypherValue) → Decidable (ValueKept v)
  | .string z => List.decidableBAll (· ∉ escapedChars) (z.getD [])
  | .null | .boolean _ | .integer _ | .float _ | .node _ | .relationship _ | .path | .list _
  | .map _ => isTrue trivial

theorem readBack_eq_self {v : CypherValue} (h : Flat v) : readBack v = v ↔ ValueKept v := by
  cases v with
  | string z =>
    obtain ⟨z, rfl⟩ := Option.isSome_iff_exists.mp h
    simp only [readBack, ValueKept, Option.getD_some, CypherValue.string.injEq, Option.some.injEq,
      jsonEscape_eq_self]
  | _ => simp [readBack, ValueKept]

def Follows : Text → Prop
  | ',' :: _ => True
  | '\x7d' :: _ => True
  | _ => False

theorem Follows.cases {t : Text} (h : Follows t) : ∃ c u, t = c :: u ∧ (c = ',' ∨ c = '\x7d') := by
  unfold Follows at h
  split at h
  next u => exact ⟨_, u, rfl, .inl rfl⟩
  next u => exact ⟨_, u, rfl, .inr rfl⟩
  next => exact h.elim

theorem Follows.digits {t : Text} (h : Follows t) :
    t.takeWhile Char.isDigit = [] ∧ t.dropWhile Char.isDigit = t := by
  obtain ⟨c, u, rfl, rfl | rfl⟩ := h.cases
  · exact ⟨rfl, rfl⟩
  · exact ⟨rfl, rfl⟩

theorem jsonNumber_digits {sign digits t rest : Text} (hsign : signOf rest = (sign, digits ++ t))
    (hdigits : ∀ c ∈ digits, c.isDigit = true) (ht : Follows t) :
    jsonNumber atof rest = (.integer (Text.atoll (sign ++ digits)), t) := by
  have htake : (digits ++ t).takeWhile Char.isDigit = digits := by
    rw [List.takeWhile_append_of_pos hdigits, ht.digits.1, List.append_nil]
  have hdrop : (digits ++ t).dropWhile Char.isDigit = t := by
    rw [List.dropWhile_append_of_pos hdigits, ht.digits.2]
  simp only [jsonNumber, hsign, htake, hdrop]
  obtain ⟨c, u, rfl, rfl | rfl⟩ := ht.cases
  · rfl
  · rfl

theorem signOf_digits {c : Char} (hc : c.isDigit = true) (t : Text) :
    signOf (c :: t) = ([], c :: t) := by
  unfold signOf
  split
  next heq => exact absurd (List.cons.inj heq).1 (Text.ne_of_isDigit hc rfl)
  next heq => exact absurd (List.cons.inj heq).1 (Text.ne_of_isDigit hc rfl)
  next => rfl

theorem jsonNumber_ofInt (i : Int) {t : Text} (ht : Follows t) :
    jsonNumber atof (Text.ofInt i ++ t) = (.integer i, t) := by
  have hdigits : ∀ n : Nat, ∀ c ∈ Nat.toDigits 10 n, c.isDigit = true :=
    fun n c hc => Text.isDigit_of_mem_toDigits hc
  cases i with
  | ofNat n =>
    obtain ⟨c, cs, hcs⟩ := List.exists_cons_of_ne_nil (Nat.toDigits_ne_nil (n := n) (b := 10))
    have hsign : signOf (Nat.toDigits 10 n ++ t) = ([], Nat.toDigits 10 n ++ t) := by
      rw [hcs]
      exact signOf_digits (hdigits n c (hcs ▸ List.mem_cons_self)) _
    have h := jsonNumber_digits atof hsign (hdigits n) ht
    rw [List.nil_append] at h
    exact h.trans (by rw [← Text.atoll_ofInt (.ofNat n)]; rfl)
  | negSucc n =>
    have h := jsonNumber_digits atof
      (show signOf (Text.ofInt (.negSucc n) ++ t) = (['-'], _) from rfl) (hdigits (n + 1)) ht
    exact h.trans (by rw [← Text.atoll_ofInt (.negSucc n)]; rfl)

theorem jsonValue_number {c : Char} (hc : c.isDigit = true ∨ c = '-') (t : Text) :
    jsonValue atof (c :: t) = .ok (jsonNumber atof (c :: t)) := by
  have hne : ∀ d : Char, d.isDigit = false → d ≠ '-' → c ≠ d :=
    fun _ => Text.ne_of_ofInt_head hc
  unfold jsonValue
  split
  next heq => exact absurd (List.cons.inj heq).1 (hne _ rfl (by decide))
  next heq => exact absurd (List.cons.inj heq).1 (hne _ rfl (by decide))
  next heq => exact absurd (List.cons.inj heq).1 (hne _ rfl (by decide))
  next heq => exact absurd (List.cons.inj heq).1 (hne _ rfl (by decide))
  next c' t' _ _ _ _ heq =>
    obtain ⟨rfl, rfl⟩ := List.cons.inj heq
    rw [if_pos (by tauto)]
    rfl
  next heq => exact absurd heq (List.cons_ne_nil _ _)

theorem jsonValue_toJson {v : CypherValue} (hv : Flat v) {t : Text} (ht : Follows t) :
    jsonValue atof (cypherValueToJson host v ++ t) = .ok (readBack v, t) := by
  cases v with
  | null => rfl
  | boolean b =>
    cases b with
    | true => rfl
    | false => rfl
  | integer i =>
    have hnumber := jsonNumber_ofInt atof i ht
    obtain ⟨c, cs, hcs, hc⟩ := Text.ofInt_head i
    rw [cypherValueToJson, hcs, List.cons_append, jsonValue_number atof hc, ← List.cons_append,
      ← hcs, hnumber]
    rfl
  | string z =>
    have hread := untilQuote_of_closed (closed_jsonEscape (z.getD [])) t
    simp only [cypherValueToJson, quoted, List.cons_append, List.append_assoc, List.nil_append,
      jsonValue, hread]
    rfl
  | _ => exact hv.elim

theorem toJson_head {v : CypherValue} (hv : Flat v) :
    ∃ c t, cypherValueToJson host v = c :: t ∧ Text.isSpace c = false := by
  cases v with
  | null => exact ⟨'n', _, rfl, rfl⟩
  | boolean b =>
    cases b with
    | true => exact ⟨'t', _, rfl, rfl⟩
    | false => exact ⟨'f', _, rfl, rfl⟩
  | integer i =>
    obtain ⟨c, t, hct, hc⟩ := Text.ofInt_head i
    refine ⟨c, t, hct, ?_⟩
    obtain hc | rfl := hc
    · exact Text.isSpace_of_isDigit hc
    · rfl
  | string z => exact ⟨'"', _, rfl, rfl⟩
  | _ => exact hv.elim

theorem skipSpace_cons {c : Char} (hc : Text.isSpace c = false) (t : Text) :
    skipSpace (c :: t) = c :: t :=
  List.dropWhile_cons_of_neg (by simp [hc])

end Values

section Pairs

variable (host : Host) (atof : Text → ℚ) {k : Text} {v : CypherValue} {t : Text}

def pairText (x : Text × CypherValue) : Text := quoted x.1 ++ ':' :: cypherValueToJson host x.2

theorem mapToJson_eq_map (pairs : List (Text × CypherValue)) :
    mapToJson host pairs = pairs.map (pairText host) := by
  induction pairs with
  | nil => rfl
  | cons x pairs ih =>
    rw [mapToJson, ih]
    rfl

theorem pairText_append (k : Text) (v : CypherValue) (t : Text) : pairText host (k, v) ++ t =
    '"' :: (k ++ '"' :: (':' :: (cypherValueToJson host v ++ t))) := by
  simp [pairText, quoted]

theorem jsonPair_pairText (hk : EscapesClosed false k) (hv : Flat v) (ht : Follows t) :
    jsonPair atof (pairText host (k, v) ++ t) = .ok ((k, readBack v), t) := by
  have hread := untilQuote_of_closed hk (':' :: (cypherValueToJson host v ++ t))
  have hvalue := jsonValue_toJson host atof hv ht
  obtain ⟨c, u, hcu, hc⟩ := toJson_head host hv
  rw [hcu, List.cons_append] at hread hvalue
  rw [pairText_append, hcu, List.cons_append]
  simp only [jsonPair, hread, ofOption, ok_bind, skipSpace_cons (c := ':') rfl, skipSpace_cons hc,
    hvalue]
  rfl

theorem closed_of_jsonPair {v' : CypherValue} {u : Text}
    (h : jsonPair atof (pairText host (k, v) ++ t) = .ok ((k, v'), u)) : EscapesClosed false k := by
  rw [pairText_append] at h
  simp only [jsonPair, bind_eq_ok, ofOption_eq_ok] at h
  obtain ⟨⟨k', rest⟩, hread, h⟩ := h
  split at h
  next =>
    simp only [bind_eq_ok, pure_eq_ok, Prod.mk.injEq] at h
    obtain ⟨_, -, ⟨rfl, -⟩, -⟩ := h
    exact closed_of_untilQuote hread
  next => cases h

theorem jsonPairs_extends {n : Nat} {acc pairs : List (Text × CypherValue)}
    (h : jsonPairs atof n t acc = .ok pairs) : acc <+: pairs := by
  induction n generalizing t acc with
  | zero => cases h
  | succ n ih =>
    rw [jsonPairs] at h
    split at h
    next => cases h
    next c _ =>
      split at h
      next =>
        obtain rfl := pure_eq_ok.mp h
        exact List.prefix_refl _
      next =>
        simp only [bind_eq_ok] at h
        obtain ⟨⟨pair, rest⟩, -, h⟩ := h
        split at h
        next => cases h
        next =>
          split_ifs at h
          · exact (List.prefix_append _ _).trans (ih h)
          · obtain rfl := pure_eq_ok.mp h
            exact List.prefix_append _ _

theorem jsonPairs_succ (n : Nat) (k : Text) (v : CypherValue) (t : Text)
    (acc : List (Text × CypherValue)) :
    jsonPairs atof (n + 1) (pairText host (k, v) ++ t) acc = (do
      let (pair, t) ← jsonPair atof (pairText host (k, v) ++ t)
      match skipSpace t with
      | [] => .error .format
      | c :: t =>
        if c = ',' then jsonPairs atof n (skipSpace t) (acc ++ [pair])
        else if c = '\x7d' then return acc ++ [pair]
        else .error .format) := by
  rw [pairText_append, jsonPairs, skipSpace_cons (c := '"') rfl]
  rfl

theorem jsonPair_of_jsonPairs {n : Nat} {acc pairs : List (Text × CypherValue)}
    (h : jsonPairs atof (n + 1) (pairText host (k, v) ++ t) acc = .ok pairs) :
    ∃ pair rest, jsonPair atof (pairText host (k, v) ++ t) = .ok (pair, rest) ∧
      acc ++ [pair] <+: pairs := by
  rw [jsonPairs_succ] at h
  obtain ⟨⟨pair, rest⟩, hpair, h⟩ := bind_eq_ok.mp h
  refine ⟨pair, rest, hpair, ?_⟩
  dsimp only at h
  split at h
  next => cases h
  next =>
    split_ifs at h
    · exact jsonPairs_extends atof h
    · obtain rfl := pure_eq_ok.mp h
      exact List.prefix_refl _

def PairKept (x : Text × CypherValue) : Prop := EscapesClosed false x.1 ∧ ValueKept x.2

instance PairKept.decidable (x : Text × CypherValue) : Decidable (PairKept x) :=
  inferInstanceAs (Decidable (_ ∧ _))

def mapText (pairs : List (Text × CypherValue)) : Text :=
  Text.join ',' (pairs.map (pairText host)) ++ ['\x7d']

theorem mapText_cons (x : Text × CypherValue) (pairs : List (Text × CypherValue)) :
    ∃ c t, mapText host (x :: pairs) = pairText host x ++ c :: t ∧
      (pairs = [] ∧ c = '\x7d' ∨ pairs ≠ [] ∧ c = ',' ∧ t = mapText host pairs) := by
  cases pairs with
  | nil => exact ⟨'\x7d', [], by simp [mapText, Text.join], .inl ⟨rfl, rfl⟩⟩
  | cons y pairs =>
    refine ⟨',', _, ?_, .inr ⟨List.cons_ne_nil _ _, rfl, rfl⟩⟩
    rw [mapText, List.map_cons, Text.join_cons ',' _ (by simp), List.append_assoc, List.cons_append]
    rfl

theorem skipSpace_mapText {pairs : List (Text × CypherValue)} (h : pairs ≠ []) :
    skipSpace (mapText host pairs) = mapText host pairs := by
  obtain ⟨x, pairs, rfl⟩ := List.exists_cons_of_ne_nil h
  obtain ⟨c, t, heq, -⟩ := mapText_cons host x pairs
  rw [heq, pairText_append]
  exact skipSpace_cons rfl _

theorem jsonPairs_mapText {pairs : List (Text × CypherValue)} {n : Nat}
    (acc : List (Text × CypherValue)) (hne : pairs ≠ [])
    (hn : pairs.length ≤ n) (hflat : ∀ x ∈ pairs, Flat x.2) :
    jsonPairs atof n (mapText host pairs) acc = .ok (acc ++ pairs) ↔ ∀ x ∈ pairs, PairKept x := by
  induction pairs generalizing n acc with
  | nil => exact absurd rfl hne
  | cons x pairs ih =>
    obtain ⟨k, v⟩ := x
    obtain ⟨n, rfl⟩ := Nat.exists_eq_add_of_le' (Nat.lt_of_lt_of_le (Nat.succ_pos _) hn)
    obtain ⟨hv, hrest⟩ := List.forall_mem_cons.mp hflat
    obtain ⟨c, t, htext, hc⟩ := mapText_cons host (k, v) pairs
    have hfollows : Follows (c :: t) := by
      obtain ⟨-, rfl⟩ | ⟨-, rfl, -⟩ := hc
      · trivial
      · trivial
    have hloop : EscapesClosed false k →
        jsonPairs atof (n + 1) (pairText host (k, v) ++ c :: t) acc =
          if pairs = [] then .ok (acc ++ [(k, readBack v)])
          else jsonPairs atof n (mapText host pairs) (acc ++ [(k, readBack v)]) := by
      intro hk
      rw [jsonPairs_succ, jsonPair_pairText host atof hk hv hfollows, ok_bind]
      obtain ⟨rfl, rfl⟩ | ⟨hpairs, rfl, rfl⟩ := hc
      · rw [if_pos rfl]
        rfl
      · rw [if_neg hpairs]
        exact congrArg (jsonPairs atof n · _) (skipSpace_mapText host hpairs)
    rw [htext, List.forall_mem_cons]
    constructor
    · intro h
      obtain ⟨⟨k', v'⟩, rest, hpair, hpre⟩ := jsonPair_of_jsonPairs host atof h
      rw [List.prefix_append_right_inj, List.cons_prefix_cons] at hpre
      obtain ⟨rfl, rfl⟩ := Prod.mk.inj hpre.1
      have hk := closed_of_jsonPair host atof hpair
      have hread := jsonPair_pairText host atof hk hv hfollows
      have hvalue := (Prod.mk.inj (Prod.mk.inj (Except.ok.inj (hread.symm.trans hpair))).1).2
      refine ⟨⟨hk, (readBack_eq_self hv).mp hvalue⟩, ?_⟩
      rw [hloop hk, hvalue] at h
      split at h
      next hnil =>
        rw [hnil]
        exact fun x hx => absurd hx List.not_mem_nil
      next hpairs =>
        rw [List.append_cons acc _ pairs] at h
        exact (ih _ hpairs (Nat.le_of_succ_le_succ hn) hrest).mp h
    · rintro ⟨⟨hk, hvalue⟩, hall⟩
      rw [hloop hk, (readBack_eq_self hv).mpr hvalue]
      split
      next hnil => rw [hnil]
      next hpairs =>
        rw [List.append_cons acc _ pairs]
        exact (ih _ hpairs (Nat.le_of_succ_le_succ hn) hrest).mpr hall

end Pairs

/-- A flat map is read back if and only if each of its pairs is. -/
theorem cypherParseJsonProperties_iff (host : Host) (atof : Text → ℚ)
    {pairs : List (Text × CypherValue)} (hflat : ∀ x ∈ pairs, Flat x.2) :
    cypherParseJsonProperties atof (cypherValueToJson host (.map pairs)) = .ok (.map pairs) ↔
      ∀ x ∈ pairs, PairKept x := by
  have htext : cypherValueToJson host (.map pairs) = '\x7b' :: mapText host pairs := by
    rw [cypherValueToJson, mapToJson_eq_map]
    rfl
  have hparse : cypherParseJsonProperties atof ('\x7b' :: mapText host pairs) = (do
      let p := skipSpace (mapText host pairs)
      return .map (← jsonPairs atof (p.length + 1) p [])) := by
    rw [cypherParseJsonProperties, skipSpace_cons rfl, if_neg (by simp)]
    rfl
  rw [htext, hparse]
  by_cases hne : pairs = []
  · subst hne
    exact ⟨fun _ x hx => absurd hx List.not_mem_nil, fun _ => rfl⟩
  · have hlen : pairs.length ≤ (mapText host pairs).length + 1 := by
      have := Text.length_le_join ',' (pairs.map (pairText host))
      rw [List.length_map] at this
      rw [mapText, List.length_append]
      omega
    rw [skipSpace_mapText host hne, ← jsonPairs_mapText host atof [] hne hlen hflat]
    constructor
    · intro h
      obtain ⟨pairs', hpairs, heq⟩ := bind_eq_ok.mp h
      obtain rfl := CypherValue.map.inj (pure_eq_ok.mp heq)
      exact hpairs
    · intro h
      simp only [List.nil_append] at h
      simp only [h, ok_bind]
      rfl

section Sample

def plainHost : Host where
  g _ := []
  g6 _ := []
  g15 _ := []
  jsonSet _ _ _ := none
  jsonExtract _ _ := none
  jsonAppend _ _ := none
  labelIs _ _ _ := none
  propertyIs _ _ _ := none
  pastedUpdate _ _ nodes := nodes

def person : List (Text × CypherValue) :=
  [("name".toList, .string "Ada".toList), ("age".toList, .integer (-36)), ("known".toList, .null)]

theorem person_kept :
    cypherParseJsonProperties (fun _ => 0) (cypherValueToJson plainHost (.map person)) =
      .ok (.map person) :=
  (cypherParseJsonProperties_iff plainHost (fun _ => 0) (by decide)).mpr (by decide)

theorem line_break_changed :
    cypherParseJsonProperties (fun _ => 0)
        (cypherValueToJson plainHost (.map [("a".toList, .string (some ['\n']))])) ≠
      .ok (.map [("a".toList, .string (some ['\n']))]) := by
  have h : cypherParseJsonProperties (fun _ => 0)
        (cypherValueToJson plainHost (.map [("a".toList, .string (some ['\n']))])) =
      .ok (.map [("a".toList, .string (some ['\\', 'n']))]) := rfl
  rw [h]
  simp

end Sample

end SqliteMultimodal.Graph.Cypher
