import SqliteMultimodal.Graph.Cypher.PropertyMap
import SqliteMultimodal.Lib.CString

namespace SqliteMultimodal.Graph.Cypher.Bytes

open CString Except

section Code

variable (atof : Text → ℚ) (zJson : Text)

abbrev Run (α : Type) : Type := ExceptT ResultCode Option α

def skip (p : Nat) : Option Nat := advance zJson Text.isSpace (zJson.length + 1) p

def quoteFrom : Nat → Nat → Option Nat
  | 0, _ => none
  | n + 1, p => do
    let c ← byte zJson p
    if c = '"' ∨ c = '\x00' then return p
    else
      let p := if c = '\\' then p + 1 else p
      let d ← byte zJson p
      quoteFrom n (if d = '\x00' then p else p + 1)

def stringFrom (p : Nat) : Run (Text × Nat) := do
  let q ← quoteFrom zJson (zJson.length + 1) p
  let c ← byte zJson q
  if c = '"' then return (slice zJson p q, q + 1) else throw .format

def numberFrom (p : Nat) : Option (CypherValue × Nat) := do
  let c ← byte zJson p
  let digits := if c = '-' ∨ c = '+' then p + 1 else p
  let q ← advance zJson Char.isDigit (zJson.length + 1) digits
  let c ← byte zJson q
  if c = '.' then
    let r ← advance zJson Char.isDigit (zJson.length + 1) (q + 1)
    return (.float (atof (slice zJson p r)), r)
  else return (.integer (Text.atoll (slice zJson p q)), q)

def valueFrom (p : Nat) : Run (CypherValue × Nat) := do
  let c ← byte zJson p
  if c = '"' then
    let (z, q) ← stringFrom zJson (p + 1)
    return (.string (some z), q)
  else if c.isDigit ∨ c = '-' ∨ c = '+' then numberFrom atof zJson p
  else if ← starts zJson "true".toList p then return (.boolean true, p + 4)
  else if ← starts zJson "false".toList p then return (.boolean false, p + 5)
  else if ← starts zJson "null".toList p then return (.null, p + 4)
  else throw .format

def pairFrom (p : Nat) : Run ((Text × CypherValue) × Nat) := do
  let c ← byte zJson p
  if c = '"' then
    let (key, p) ← stringFrom zJson (p + 1)
    let p ← skip zJson p
    let c ← byte zJson p
    if c = ':' then
      let p ← skip zJson (p + 1)
      let (value, p) ← valueFrom atof zJson p
      return ((key, value), p)
    else throw .format
  else throw .format

def pairsFrom : Nat → Nat → List (Text × CypherValue) → Run (List (Text × CypherValue))
  | 0, _, _ => (none : Option _)
  | n + 1, p, pairs => do
    let c ← byte zJson p
    if c = '\x00' then throw .format
    else if c = '\x7d' then return pairs
    else
      let p ← skip zJson p
      let (pair, p) ← pairFrom atof zJson p
      let p ← skip zJson p
      let c ← byte zJson p
      if c = ',' then
        let p ← skip zJson (p + 1)
        pairsFrom n p (pairs ++ [pair])
      else if c = '\x7d' then pairsFrom n p (pairs ++ [pair])
      else throw .format

def cypherParseJsonProperties : Run CypherValue := do
  let p ← skip zJson 0
  let c ← byte zJson p
  if c = '\x00' then return .null
  else if ← starts zJson ("null".toList ++ ['\x00']) p then return .null
  else if c = '\x7b' then
    let p ← skip zJson (p + 1)
    let c ← byte zJson p
    if c = '\x7d' then return .map []
    else
      let pairs ← pairsFrom atof zJson (zJson.length + 1) p []
      return .map pairs
  else throw .format

end Code

section Agreement

variable {atof : Text → ℚ} {zJson : Text} {p : Nat} {t : Text}

theorem skip_eq (h : At zJson p t) :
    ∃ q, skip zJson p = some q ∧ At zJson q (skipSpace t) := by
  have hlen := h.length
  exact ⟨_, h.advance rfl (by omega), h.afterAdvance _⟩

theorem headD_eq_nul (hz : '\x00' ∉ zJson) (h : At zJson p t) :
    t.headD '\x00' = '\x00' ↔ t = [] := by
  cases t with
  | nil => simp
  | cons c t =>
    have hmem : c ∈ zJson := List.mem_of_mem_drop (h.drop ▸ List.mem_cons_self)
    have hc : c ≠ '\x00' := by
      rintro rfl
      exact hz hmem
    simp [hc]

theorem cons_of_headD {c : Char} (hc : c ≠ '\x00') (h : t.headD '\x00' = c) : ∃ u, t = c :: u := by
  cases t with
  | nil => exact absurd h.symm hc
  | cons d u => exact ⟨u, by rw [← h, List.headD_cons]⟩

theorem untilQuote_plain {c : Char} (hquote : c ≠ '"') (hslash : c ≠ '\\') (t : Text) :
    untilQuote false (c :: t) = (untilQuote false t).map fun r => (c :: r.1, r.2) := by
  simp [untilQuote, hquote, hslash]

theorem untilQuote_escaped (d : Char) (t : Text) : untilQuote false ('\\' :: d :: t) =
    (untilQuote false t).map fun r => ('\\' :: d :: r.1, r.2) := by
  simp [untilQuote, Function.comp_def]

def StopsAt (zJson : Text) (p : Nat) (t : Text) (q : Nat) : Prop :=
  match untilQuote false t with
  | none => At zJson q []
  | some (raw, u) => q = p + raw.length ∧ At zJson q ('"' :: u)

theorem StopsAt.plain {c : Char} {q : Nat} (hquote : c ≠ '"') (hslash : c ≠ '\\')
    (h : StopsAt zJson (p + 1) t q) : StopsAt zJson p (c :: t) q := by
  rw [StopsAt, untilQuote_plain hquote hslash]
  unfold StopsAt at h
  cases hraw : untilQuote false t with
  | none =>
    rw [hraw] at h
    exact h
  | some r =>
    rw [hraw] at h
    exact ⟨h.1.trans (by simp only [List.length_cons]; omega), h.2⟩

theorem StopsAt.escaped {d : Char} {q : Nat} (h : StopsAt zJson (p + 2) t q) :
    StopsAt zJson p ('\\' :: d :: t) q := by
  rw [StopsAt, untilQuote_escaped]
  unfold StopsAt at h
  cases hraw : untilQuote false t with
  | none =>
    rw [hraw] at h
    exact h
  | some r =>
    rw [hraw] at h
    exact ⟨h.1.trans (by simp only [List.length_cons]; omega), h.2⟩

theorem quoteFrom_eq (hz : '\x00' ∉ zJson) {n : Nat} (h : At zJson p t) (hn : t.length < n) :
    ∃ q, quoteFrom zJson n p = some q ∧ StopsAt zJson p t q := by
  induction n generalizing p t with
  | zero => exact absurd hn (Nat.not_lt_zero _)
  | succ n ih =>
    simp only [quoteFrom, h.byte, Option.bind_eq_bind, Option.bind_some]
    cases t with
    | nil => exact ⟨p, rfl, h⟩
    | cons c t =>
      have hnul := headD_eq_nul hz h
      rw [List.headD_cons] at hnul ⊢
      have hc : c ≠ '\x00' := fun heq => List.cons_ne_nil c t (hnul.mp heq)
      by_cases hquote : c = '"'
      · subst hquote
        exact ⟨p, rfl, rfl, h⟩
      rw [if_neg (not_or.mpr ⟨hquote, hc⟩)]
      by_cases hslash : c = '\\'
      · subst hslash
        rw [if_pos rfl, h.cons.byte, Option.bind_some]
        cases t with
        | nil =>
          obtain ⟨q, hq, hstop⟩ := ih h.cons (Nat.lt_of_succ_lt_succ hn)
          exact ⟨q, hq, hstop⟩
        | cons d t =>
          have hd : d ≠ '\x00' := fun heq =>
            List.cons_ne_nil d t ((headD_eq_nul hz h.cons).mp heq)
          obtain ⟨q, hq, hstop⟩ := ih h.cons.cons (by simp only [List.length_cons] at hn; omega)
          exact ⟨q, by rw [List.headD_cons, if_neg hd]; exact hq, hstop.escaped⟩
      · obtain ⟨q, hq, hstop⟩ := ih h.cons (Nat.lt_of_succ_lt_succ hn)
        rw [if_neg hslash, h.byte, Option.bind_some, List.headD_cons, if_neg hc]
        exact ⟨q, hq, hstop.plain hquote hslash⟩

def Left (zJson : Text) {α : Type} (x : α × Nat) (y : α × Text) : Prop :=
  x.1 = y.1 ∧ At zJson x.2 y.2

theorem stringFrom_agrees (hz : '\x00' ∉ zJson) (h : At zJson p t) :
    Agrees (Left zJson) (stringFrom zJson p) (ofOption .format (untilQuote false t)) := by
  have hlen := h.length
  obtain ⟨q, hq, hstop⟩ := quoteFrom_eq hz h (n := zJson.length + 1) (by omega)
  unfold StopsAt at hstop
  rw [stringFrom, hq, liftM_some_bind]
  cases hraw : untilQuote false t with
  | none =>
    rw [hraw] at hstop
    rw [hstop.byte, liftM_some_bind, if_neg (by simp)]
    exact .error _
  | some r =>
    obtain ⟨raw, u⟩ := r
    rw [hraw] at hstop
    obtain ⟨rfl, hq⟩ := hstop
    rw [hq.byte, liftM_some_bind, List.headD_cons, if_pos rfl]
    rw [append_of_untilQuote hraw] at h
    exact .ok ⟨h.slice_append, hq.cons⟩

theorem signOf_eq (t : Text) : t = (signOf t).1 ++ (signOf t).2 ∧
    (if t.headD '\x00' = '-' ∨ t.headD '\x00' = '+' then p + 1 else p) =
      p + (signOf t).1.length := by
  unfold signOf
  split
  next => exact ⟨rfl, rfl⟩
  next => exact ⟨rfl, rfl⟩
  next hminus hplus =>
    refine ⟨rfl, if_neg ?_⟩
    cases t with
    | nil => decide
    | cons c t =>
      rintro (heq | heq)
      · exact hminus t (by rw [← heq]; rfl)
      · exact hplus t (by rw [← heq]; rfl)

variable (atof) in
theorem numberFrom_eq (h : At zJson p t) : ∃ q, numberFrom atof zJson p =
    some ((jsonNumber atof t).1, q) ∧ At zJson q (jsonNumber atof t).2 := by
  obtain ⟨hsign, hplace⟩ := signOf_eq (p := p) t
  have hdigits : At zJson (p + (signOf t).1.length) (signOf t).2 := by
    apply At.append
    rwa [← hsign]
  have hlen := hdigits.length
  have hafter := hdigits.afterAdvance Char.isDigit
  have hadvance := hdigits.advance (q := Char.isDigit) rfl (n := zJson.length + 1) (by omega)
  simp only [numberFrom, h.byte, Option.bind_eq_bind, Option.bind_some, hplace, hadvance,
    hafter.byte]
  generalize hs : signOf t = s at *
  obtain ⟨sign, u⟩ := s
  dsimp only at *
  have hwhole : t = (sign ++ u.takeWhile Char.isDigit) ++ u.dropWhile Char.isDigit := by
    rw [List.append_assoc, List.takeWhile_append_dropWhile, ← hsign]
  simp only [jsonNumber, hs]
  by_cases hpoint : (u.dropWhile Char.isDigit).headD '\x00' = '.'
  · obtain ⟨v, hrest⟩ := cons_of_headD (by decide) hpoint
    rw [hrest] at hafter hwhole
    have hplaces := hafter.cons.length
    have hfraction := hafter.cons.advance (q := Char.isDigit) rfl (n := zJson.length + 1) (by omega)
    have hend := hafter.cons.afterAdvance Char.isDigit
    have hlexeme : slice zJson p (p + sign.length + (u.takeWhile Char.isDigit).length + 1 +
        (v.takeWhile Char.isDigit).length) =
        sign ++ u.takeWhile Char.isDigit ++ '.' :: v.takeWhile Char.isDigit := by
      have hstart : At zJson p ((sign ++ u.takeWhile Char.isDigit ++
          '.' :: v.takeWhile Char.isDigit) ++ v.dropWhile Char.isDigit) := by
        rw [List.append_assoc, List.cons_append, List.takeWhile_append_dropWhile, ← hwhole]
        exact h
      rw [← hstart.slice_append]
      simp only [List.length_append, List.length_cons]
      congr 1
      omega
    rw [if_pos hpoint, hfraction, hrest]
    refine ⟨_, ?_, hend⟩
    rw [Option.bind_some, hlexeme]
    rfl
  · have hlexeme : slice zJson p (p + sign.length + (u.takeWhile Char.isDigit).length) =
        sign ++ u.takeWhile Char.isDigit := by
      rw [hwhole] at h
      rw [← h.slice_append, List.length_append, Nat.add_assoc]
    rw [if_neg hpoint, hlexeme]
    split
    next v hrest =>
      rw [hrest] at hpoint
      exact absurd rfl hpoint
    next => exact ⟨_, rfl, hafter⟩

theorem starts_eq_false (h : At zJson p t) {k : Text} (hk : '\x00' ∉ k)
    (hne : ∀ u, t ≠ k ++ u) : starts zJson k p = some false := by
  rw [h.starts k hk, Option.some_inj, Bool.eq_false_iff]
  intro hstart
  obtain ⟨u, hu⟩ := List.isPrefixOf_iff_prefix.mp hstart
  exact hne u hu.symm

theorem valueFrom_agrees (hz : '\x00' ∉ zJson) (h : At zJson p t) :
    Agrees (Left zJson) (valueFrom atof zJson p) (jsonValue atof t) := by
  unfold jsonValue
  split
  next t =>
    rw [valueFrom, h.byte, liftM_some_bind, List.headD_cons, if_pos rfl]
    refine (stringFrom_agrees hz h.cons).bind ?_
    rintro ⟨z, q⟩ ⟨z', u⟩ - ⟨rfl, hq⟩
    exact .ok ⟨rfl, hq⟩
  next t =>
    rw [valueFrom, h.byte, liftM_some_bind, List.headD_cons, if_neg (by decide),
      if_neg (by decide), h.starts _ (by decide)]
    exact .ok ⟨rfl, h.append (k := "true".toList)⟩
  next t =>
    rw [valueFrom, h.byte, liftM_some_bind, List.headD_cons, if_neg (by decide),
      if_neg (by decide), h.starts _ (by decide), h.starts _ (by decide)]
    exact .ok ⟨rfl, h.append (k := "false".toList)⟩
  next t =>
    rw [valueFrom, h.byte, liftM_some_bind, List.headD_cons, if_neg (by decide),
      if_neg (by decide), h.starts _ (by decide), h.starts _ (by decide), h.starts _ (by decide)]
    exact .ok ⟨rfl, h.append (k := "null".toList)⟩
  next c t hquote htrue hfalse hnull =>
    rw [valueFrom, h.byte, liftM_some_bind, List.headD_cons, if_neg hquote]
    split
    next =>
      obtain ⟨q, hq, hrest⟩ := numberFrom_eq atof h
      rw [hq]
      exact .ok ⟨rfl, hrest⟩
    next =>
      have htrue' : ∀ u, c :: t ≠ "true".toList ++ u := fun u heq =>
        htrue u (List.cons.inj heq).1 (List.cons.inj heq).2
      have hfalse' : ∀ u, c :: t ≠ "false".toList ++ u := fun u heq =>
        hfalse u (List.cons.inj heq).1 (List.cons.inj heq).2
      have hnull' : ∀ u, c :: t ≠ "null".toList ++ u := fun u heq =>
        hnull u (List.cons.inj heq).1 (List.cons.inj heq).2
      rw [starts_eq_false h (by decide) fun u => htrue' u,
        starts_eq_false h (by decide) fun u => hfalse' u,
        starts_eq_false h (by decide) fun u => hnull' u]
      exact .error _
  next =>
    rw [valueFrom, h.byte, liftM_some_bind, List.headD_nil, if_neg (by decide),
      if_neg (by decide), h.starts _ (by decide), h.starts _ (by decide), h.starts _ (by decide)]
    exact .error _

theorem pairFrom_agrees (hz : '\x00' ∉ zJson) (h : At zJson p t) :
    Agrees (Left zJson) (pairFrom atof zJson p) (jsonPair atof t) := by
  unfold jsonPair
  split
  next t =>
    rw [pairFrom, h.byte, liftM_some_bind, List.headD_cons, if_pos rfl]
    refine (stringFrom_agrees hz h.cons).bind ?_
    rintro ⟨key, q⟩ ⟨key', u⟩ - ⟨rfl, hq⟩
    obtain ⟨r, hr, hspace⟩ := skip_eq hq
    dsimp only
    rw [hr, liftM_some_bind, hspace.byte, liftM_some_bind]
    split
    next hcolon =>
      obtain ⟨v, hv⟩ := cons_of_headD (by decide) hcolon
      rw [hv] at hspace ⊢
      obtain ⟨r', hr', hvalue⟩ := skip_eq hspace.cons
      rw [hr', liftM_some_bind]
      refine (valueFrom_agrees hz hvalue).bind ?_
      rintro ⟨value, q'⟩ ⟨value', w⟩ - ⟨rfl, hq'⟩
      exact .ok ⟨rfl, hq'⟩
    next hcolon =>
      split
      next hv =>
        rw [hv] at hcolon
        exact absurd rfl hcolon
      next => exact .error _
  next hquote =>
    rw [pairFrom, h.byte, liftM_some_bind, if_neg]
    · exact .error _
    · intro heq
      obtain ⟨u, hu⟩ := cons_of_headD (by decide) heq
      exact hquote u hu

variable (atof) in
theorem jsonNumber_suffix (t : Text) : (jsonNumber atof t).2 <:+ t := by
  have hsign : (signOf t).2 <:+ t := ⟨_, (signOf_eq (p := 0) t).1.symm⟩
  have hrest := (List.dropWhile_suffix Char.isDigit).trans hsign
  simp only [jsonNumber]
  split
  next v hv =>
    rw [hv] at hrest
    exact (List.dropWhile_suffix _).trans ((List.suffix_cons _ v).trans hrest)
  next => exact hrest

theorem jsonValue_suffix {v : CypherValue} {u : Text} (h : jsonValue atof t = .ok (v, u)) :
    u <:+ t := by
  unfold jsonValue at h
  split at h
  next =>
    simp only [bind_eq_ok, ofOption_eq_ok] at h
    obtain ⟨⟨z, w⟩, hread, heq⟩ := h
    obtain ⟨-, rfl⟩ := Prod.mk.inj (pure_eq_ok.mp heq)
    rw [append_of_untilQuote hread]
    exact ⟨'"' :: z ++ ['"'], by simp⟩
  next t =>
    obtain ⟨-, rfl⟩ := Prod.mk.inj (pure_eq_ok.mp h)
    exact ⟨"true".toList, rfl⟩
  next t =>
    obtain ⟨-, rfl⟩ := Prod.mk.inj (pure_eq_ok.mp h)
    exact ⟨"false".toList, rfl⟩
  next t =>
    obtain ⟨-, rfl⟩ := Prod.mk.inj (pure_eq_ok.mp h)
    exact ⟨"null".toList, rfl⟩
  next c t _ _ _ _ =>
    split_ifs at h
    have hnumber := jsonNumber_suffix atof (c :: t)
    rwa [pure_eq_ok.mp h] at hnumber
  next => cases h

theorem jsonPair_length {pair : Text × CypherValue} {u : Text}
    (h : jsonPair atof t = .ok (pair, u)) : u.length < t.length := by
  unfold jsonPair at h
  split at h
  next t =>
    simp only [bind_eq_ok, ofOption_eq_ok] at h
    obtain ⟨⟨key, v⟩, hread, h⟩ := h
    dsimp only at h
    split at h
    next w hw =>
      simp only [bind_eq_ok] at h
      obtain ⟨⟨value, x⟩, hvalue, heq⟩ := h
      obtain ⟨-, rfl⟩ := Prod.mk.inj (pure_eq_ok.mp heq)
      have hkey : v <:+ t := ⟨key ++ ['"'], by rw [append_of_untilQuote hread]; simp⟩
      have hcolon : w <:+ v := (List.suffix_cons ':' w).trans (hw ▸ List.dropWhile_suffix _)
      have hrest := (jsonValue_suffix hvalue).trans (List.dropWhile_suffix _)
      exact Nat.lt_succ_of_le ((hrest.trans hcolon).trans hkey).length_le
    next => cases h
  next => cases h

variable (atof) in
theorem pairsFrom_agrees (hz : '\x00' ∉ zJson) {n m : Nat} (h : At zJson p t) (hn : t.length < n)
    (hm : t.length < m) (acc : List (Text × CypherValue)) :
    Agrees Eq (pairsFrom atof zJson n p acc) (jsonPairs atof m t acc) := by
  induction n generalizing m p t acc with
  | zero => exact absurd hn (Nat.not_lt_zero _)
  | succ n ih =>
    obtain ⟨m, rfl⟩ := Nat.exists_eq_succ_of_ne_zero (Nat.ne_of_gt (Nat.zero_lt_of_lt hm))
    rw [pairsFrom, h.byte, liftM_some_bind, jsonPairs]
    cases t with
    | nil => exact .error _
    | cons c t =>
      have hnul : c ≠ '\x00' := fun heq => List.cons_ne_nil c t ((headD_eq_nul hz h).mp heq)
      rw [List.headD_cons, if_neg hnul]
      dsimp only [List.head?_cons]
      split
      next => exact .ok rfl
      next =>
        obtain ⟨q, hq, hspace⟩ := skip_eq h
        rw [hq, liftM_some_bind]
        refine (pairFrom_agrees hz hspace).bind ?_
        rintro ⟨pair, r⟩ ⟨pair', u⟩ hpair ⟨rfl, hr⟩
        have hlen := Nat.lt_of_lt_of_le (jsonPair_length hpair)
          (List.dropWhile_suffix Text.isSpace).length_le
        obtain ⟨r', hr', hafter⟩ := skip_eq hr
        have hle : (skipSpace u).length ≤ u.length := (List.dropWhile_suffix _).length_le
        dsimp only
        rw [hr', liftM_some_bind, hafter.byte, liftM_some_bind]
        cases hw : skipSpace u with
        | nil =>
          rw [hw] at hafter
          exact .error _
        | cons d w =>
          rw [hw] at hafter hle
          have hw : w.length < (c :: t).length :=
            Nat.lt_of_succ_le (Nat.le_trans hle (Nat.le_of_lt hlen))
          rw [List.headD_cons]
          dsimp only
          split
          next =>
            obtain ⟨r'', hr'', hnext⟩ := skip_eq hafter.cons
            have hle' : (skipSpace w).length ≤ w.length := (List.dropWhile_suffix _).length_le
            rw [hr'', liftM_some_bind]
            exact ih hnext (by omega) (by omega) _
          next =>
            split
            next hbrace =>
              subst hbrace
              obtain ⟨k, rfl⟩ : ∃ k, n = k + 1 := ⟨n - 1, by omega⟩
              rw [pairsFrom, hafter.byte, liftM_some_bind]
              exact .ok rfl
            next => exact .error _

theorem cypherParseJsonProperties_eq (atof : Text → ℚ) {zJson : Text} (hz : '\x00' ∉ zJson) :
    (cypherParseJsonProperties atof zJson).run =
      some (Cypher.cypherParseJsonProperties atof zJson) := by
  apply Agrees.eq
  obtain ⟨p, hp, hspace⟩ := skip_eq (.start zJson)
  have hnul : '\x00' ∉ skipSpace zJson := fun hmem => hz ((List.dropWhile_suffix _).subset hmem)
  rw [cypherParseJsonProperties, Cypher.cypherParseJsonProperties, hp, liftM_some_bind, hspace.byte,
    liftM_some_bind]
  cases ht : skipSpace zJson with
  | nil => exact .ok rfl
  | cons c t =>
    rw [ht] at hspace hnul
    have hc : c ≠ '\x00' := fun heq => hnul (heq ▸ List.mem_cons_self)
    rw [List.headD_cons, if_neg hc, hspace.startsNul hnul _ (by decide), liftM_some_bind]
    by_cases hnull : c :: t = "null".toList
    · rw [if_pos (decide_eq_true hnull), if_pos (.inr hnull)]
      exact .ok rfl
    rw [if_neg fun h => hnull (of_decide_eq_true h),
      if_neg (not_or.mpr ⟨List.cons_ne_nil c t, hnull⟩)]
    by_cases hbrace : c = '\x7b'
    · subst hbrace
      obtain ⟨q, hq, hnext⟩ := skip_eq hspace.cons
      have hlen := hnext.length
      rw [if_pos rfl, hq, liftM_some_bind, hnext.byte, liftM_some_bind]
      have hpairs := pairsFrom_agrees atof hz hnext (n := zJson.length + 1)
        (by omega) (Nat.lt_succ_self _) []
      split
      next hend =>
        obtain ⟨u, hu⟩ := cons_of_headD (by decide) hend
        simp only [hu]
        exact .ok rfl
      next =>
        refine hpairs.bind ?_
        rintro pairs _ - rfl
        exact .ok rfl
    · rw [if_neg hbrace]
      split
      next heq => exact absurd (List.cons.inj heq).1 hbrace
      next => exact .error _

end Agreement

end SqliteMultimodal.Graph.Cypher.Bytes
