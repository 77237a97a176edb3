import SqliteMultimodal.Lib.Text

namespace Json

def isWs (c : Char) : Bool := c = ' ' || c = '\t' || c = '\n' || c = '\r'

def skip (t : Text) : Text := t.dropWhile isWs

section Strings

def hexDigit (c : Char) : Option Nat :=
  if c.isDigit then some (c.toNat - 48)
  else if 'a' ≤ c ∧ c ≤ 'f' then some (c.toNat - 87)
  else if 'A' ≤ c ∧ c ≤ 'F' then some (c.toNat - 55)
  else none

def utf8 (n : Nat) : Text :=
  (if n < 0x80 then [n]
    else if n < 0x800 then [0xC0 + n / 64, 0x80 + n % 64]
    else if n < 0x10000 then [0xE0 + n / 4096, 0x80 + n / 64 % 64, 0x80 + n % 64]
    else [0xF0 + n / 262144, 0x80 + n / 4096 % 64, 0x80 + n / 64 % 64, 0x80 + n % 64]).map
      Char.ofNat

def escaped : Char → Option Char
  | '"' => some '"'
  | '\\' => some '\\'
  | '/' => some '/'
  | 'b' => some '\x08'
  | 'f' => some '\x0c'
  | 'n' => some '\n'
  | 'r' => some '\r'
  | 't' => some '\t'
  | _ => none

inductive Mode
  | plain
  | escape
  | hex (left acc : Nat)
  deriving DecidableEq

def alone (high : Option Nat) : Text := (high.map utf8).getD []

def isHigh (n : Nat) : Bool := 0xD800 ≤ n && n < 0xDC00

def isLow (n : Nat) : Bool := 0xDC00 ≤ n && n < 0xE000

def scan (high : Option Nat) (mode : Mode) : Text → Option (Text × Text)
  | [] => none
  | c :: t =>
    match mode with
    | .plain =>
      if c = '"' then some (alone high, t)
      else if c = '\\' then scan high .escape t
      else if c.toNat < 0x20 then none
      else (scan none .plain t).map fun r => (alone high ++ c :: r.1, r.2)
    | .escape =>
      if c = 'u' then scan high (.hex 3 0) t
      else (escaped c).bind fun d =>
        (scan none .plain t).map fun r => (alone high ++ d :: r.1, r.2)
    | .hex left acc => (hexDigit c).bind fun digit =>
      let unit := acc * 16 + digit
      match left with
      | left + 1 => scan high (.hex left unit) t
      | 0 =>
        match high with
        | some h =>
          if isLow unit then
            (scan none .plain t).map fun r =>
              (utf8 (0x10000 + (h - 0xD800) * 0x400 + (unit - 0xDC00)) ++ r.1, r.2)
          else if isHigh unit then (scan (some unit) .plain t).map fun r => (utf8 h ++ r.1, r.2)
          else (scan none .plain t).map fun r => (utf8 h ++ utf8 unit ++ r.1, r.2)
        | none =>
          if isHigh unit then scan (some unit) .plain t
          else (scan none .plain t).map fun r => (utf8 unit ++ r.1, r.2)

def string : Text → Option (Text × Text)
  | '"' :: t => scan none .plain t
  | _ => none

end Strings

section Scalars

inductive Scalar
  | null
  | bool (b : Bool)
  /-- A number is kept as it is written. -/
  | number (lexeme : Text)
  | string (value : Text)
  deriving DecidableEq, Repr

def Scalar.text : Scalar → Option Text
  | string value => some value
  | _ => none

def digits (t : Text) : Option (Text × Text) :=
  if t.takeWhile Char.isDigit = [] then none
  else some (t.takeWhile Char.isDigit, t.dropWhile Char.isDigit)

def sign (t : Text) : Text × Text :=
  match t with
  | '-' :: t => (['-'], t)
  | t => ([], t)

def integer : Text → Option (Text × Text)
  | '0' :: t => some (['0'], t)
  | t => digits t

def fraction : Text → Option (Text × Text)
  | '.' :: t => (digits t).map fun r => ('.' :: r.1, r.2)
  | t => some ([], t)

def exponentSign : Text → Text × Text
  | '+' :: t => (['+'], t)
  | '-' :: t => (['-'], t)
  | t => ([], t)

def exponent : Text → Option (Text × Text)
  | [] => some ([], [])
  | c :: t =>
    if c = 'e' ∨ c = 'E' then
      (digits (exponentSign t).2).map fun r => (c :: (exponentSign t).1 ++ r.1, r.2)
    else some ([], c :: t)

def number (t : Text) : Option (Text × Text) := do
  let (s, t) := sign t
  let (i, t) ← integer t
  let (f, t) ← fraction t
  let (e, t) ← exponent t
  return (s ++ i ++ f ++ e, t)

def scalar : Text → Option (Scalar × Text)
  | '"' :: t => (scan none .plain t).map fun r => (.string r.1, r.2)
  | 'n' :: 'u' :: 'l' :: 'l' :: t => some (.null, t)
  | 't' :: 'r' :: 'u' :: 'e' :: t => some (.bool true, t)
  | 'f' :: 'a' :: 'l' :: 's' :: 'e' :: t => some (.bool false, t)
  | t => (number t).map fun r => (.number r.1, r.2)

end Scalars

section Containers

variable {α : Type}

def items (item : Text → Option (α × Text)) (close : Char) : Nat → Text → Option (List α × Text)
  | 0, _ => none
  | n + 1, t => do
    let (x, t) ← item (skip t)
    match skip t with
    | [] => none
    | c :: t =>
      if c = ',' then
        let (xs, t) ← items item close n t
        return (x :: xs, t)
      else if c = close then return ([x], t)
      else none

def container (opening close : Char) (item : Text → Option (α × Text)) :
    Text → Option (List α × Text)
  | [] => none
  | c :: t =>
    if c = opening then
      if (skip t).head? = some close then some ([], (skip t).tail) else items item close t.length t
    else none

def member (t : Text) : Option ((Text × Scalar) × Text) := do
  let (key, t) ← string t
  match skip t with
  | ':' :: t =>
    let (value, t) ← scalar (skip t)
    return ((key, value), t)
  | _ => none

def whole (read : Text → Option (α × Text)) (t : Text) : Option α := do
  let (x, t) ← read (skip t)
  if skip t = [] then return x else none

def stringArray : Text → Option (List Text) := whole (container '[' ']' string)

def object : Text → Option (List (Text × Scalar)) := whole (container '\x7b' '\x7d' member)

variable {item : Text → Option (α × Text)} {opening close : Char}

theorem items_ne_nil {n : Nat} {t rest : Text} {xs : List α}
    (h : items item close n t = some (xs, rest)) : xs ≠ [] := by
  cases n with
  | zero => exact absurd h (Option.some_ne_none _).symm
  | succ n =>
    simp only [items, Option.bind_eq_bind, Option.bind_eq_some_iff] at h
    obtain ⟨x, -, h⟩ := h
    split at h
    next => exact absurd h (Option.some_ne_none _).symm
    next =>
      split at h
      next =>
        obtain ⟨y, -, h⟩ := Option.bind_eq_some_iff.mp h
        rw [← (Prod.mk.inj (Option.some.inj h)).1]
        exact List.cons_ne_nil _ _
      next =>
        split at h
        next =>
          rw [← (Prod.mk.inj (Option.some.inj h)).1]
          exact List.cons_ne_nil _ _
        next => exact absurd h (Option.some_ne_none _).symm

theorem whole_container_nil {t : Text} (h : whole (container opening close item) t = some []) :
    ∃ u v, skip t = opening :: u ∧ skip u = close :: v ∧ skip v = [] := by
  simp only [whole, Option.bind_eq_bind, Option.bind_eq_some_iff, Prod.exists] at h
  obtain ⟨xs, rest, hcontainer, hwhole⟩ := h
  split at hwhole
  next hnil =>
    obtain rfl := Option.some.inj hwhole
    cases ht : skip t with
    | nil =>
      rw [ht] at hcontainer
      exact absurd hcontainer (Option.some_ne_none _).symm
    | cons c u =>
      rw [ht, container] at hcontainer
      split at hcontainer
      next hopening =>
        split at hcontainer
        next hclose =>
          obtain ⟨v, hv⟩ := List.head?_eq_some_iff.mp hclose
          refine ⟨u, v, by rw [hopening], hv, ?_⟩
          rwa [← (Prod.mk.inj (Option.some.inj hcontainer)).2, hv] at hnil
        next => exact absurd rfl (items_ne_nil hcontainer)
      next => exact absurd hcontainer (Option.some_ne_none _).symm
  next => exact absurd hwhole (Option.some_ne_none _).symm

end Containers

section Print

def Plain (c : Char) : Prop := c ≠ '"' ∧ c ≠ '\\' ∧ 0x20 ≤ c.toNat

instance Plain.decidable (c : Char) : Decidable (Plain c) :=
  inferInstanceAs (Decidable (c ≠ '"' ∧ c ≠ '\\' ∧ 0x20 ≤ c.toNat))

theorem skip_cons {c : Char} (hc : isWs c = false) (t : Text) : skip (c :: t) = c :: t :=
  List.dropWhile_cons_of_neg (by simp [hc])

theorem scan_plain {l : Text} (hl : ∀ c ∈ l, Plain c) (t : Text) :
    scan none .plain (l ++ '"' :: t) = some (l, t) := by
  induction l with
  | nil => rfl
  | cons c l ih =>
    obtain ⟨hquote, hslash, hcontrol⟩ := hl c List.mem_cons_self
    rw [List.cons_append, scan, if_neg hquote, if_neg hslash, if_neg (Nat.not_lt.mpr hcontrol),
      ih fun d hd => hl d (List.mem_cons_of_mem c hd)]
    rfl

variable {α : Type} {item : Text → Option (α × Text)} {print : α → Text} {opening close : Char}

theorem items_join (hcomma : close ≠ ',') (hws : isWs close = false) {xs : List α}
    (hitem : ∀ x ∈ xs, ∀ t, item (skip (print x ++ t)) = some (x, t)) (hxs : xs ≠ []) {n : Nat}
    (hn : xs.length ≤ n) (t : Text) :
    items item close n (Text.join ',' (xs.map print) ++ close :: t) = some (xs, t) := by
  induction xs generalizing n with
  | nil => exact absurd rfl hxs
  | cons x xs ih =>
    obtain ⟨n, rfl⟩ := Nat.exists_eq_succ_of_ne_zero (Nat.ne_of_gt (Nat.lt_of_lt_of_le
      (Nat.succ_pos xs.length) hn))
    have hx := hitem x List.mem_cons_self
    by_cases h : xs = []
    · subst h
      simp [items, Text.join, hx, skip_cons hws, hcomma]
    · have hrest := ih (fun y hy => hitem y (List.mem_cons_of_mem x hy)) h (Nat.le_of_succ_le_succ hn)
      rw [List.map_cons, Text.join_cons ',' (print x) (by simp [h]), List.append_assoc,
        List.cons_append]
      simp [items, hx, skip_cons (c := ',') rfl, hrest]

theorem container_join (hcomma : close ≠ ',') (hws : isWs close = false) {xs : List α}
    (hitem : ∀ x ∈ xs, ∀ t, item (skip (print x ++ t)) = some (x, t))
    (hhead : ∀ x ∈ xs, ∀ t, (skip (print x ++ t)).head? ≠ some close) (t : Text) :
    container opening close item (opening :: (Text.join ',' (xs.map print) ++ close :: t)) =
      some (xs, t) := by
  rw [container, if_pos rfl]
  cases xs with
  | nil => simp [Text.join, skip_cons hws]
  | cons x xs =>
    have hstart : ∃ u, Text.join ',' ((x :: xs).map print) ++ close :: t = print x ++ u := by
      by_cases h : xs = []
      · subst h
        exact ⟨close :: t, by simp [Text.join]⟩
      · rw [List.map_cons, Text.join_cons ',' (print x) (by simp [h]), List.append_assoc]
        exact ⟨_, rfl⟩
    rw [if_neg (by
      obtain ⟨u, hu⟩ := hstart
      rw [hu]
      exact hhead x List.mem_cons_self u)]
    refine items_join hcomma hws hitem (List.cons_ne_nil x xs) ?_ t
    have hlen := Text.length_le_join ',' ((x :: xs).map print)
    simp only [List.length_map, List.length_append, List.length_cons] at hlen ⊢
    omega

theorem whole_eq {read : Text → Option (α × Text)} {c : Char} {t : Text} {x : α}
    (hc : isWs c = false) (h : read (c :: t) = some (x, [])) : whole read (c :: t) = some x := by
  rw [whole, skip_cons hc, h]
  rfl

end Print

end Json
