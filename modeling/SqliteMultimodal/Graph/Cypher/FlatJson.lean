import SqliteMultimodal.Graph.Cypher.FlatObject

namespace SqliteMultimodal.Graph.Cypher.FlatObject

section Objects

open Json (scan)

variable {t u rest : Text} {n : Nat}

theorem untilQuote_of_scan {high : Option Nat} {mode : Json.Mode} {v r : Text}
    (h : scan high mode t = some (v, r)) : ∃ raw, untilQuote mode.isEscape t = some (raw, r) ∧
      ∀ u, scan high mode (raw ++ '"' :: u) = some (v, u) := by
  induction t generalizing high mode v with
  | nil => cases h
  | cons c t ih =>
    obtain ⟨rfl, rfl, rfl, rfl⟩ | ⟨hquote, high', mode', out, hmode, hstep⟩ := Json.scan_step h
    · exact ⟨[], rfl, fun u => rfl⟩
    · rw [hstep] at h
      obtain ⟨⟨v', r'⟩, hread, heq⟩ := Option.map_eq_some_iff.mp h
      obtain ⟨rfl, rfl⟩ := Prod.mk.inj heq
      obtain ⟨raw, hraw, hall⟩ := ih hread
      refine ⟨c :: raw, ?_, fun u => ?_⟩
      · rw [untilQuote, if_neg hquote, ← hmode, hraw]
        rfl
      · rw [List.cons_append, hstep, hall]
        rfl

theorem string_iff {v : Text} : scan none .plain t = some (v, rest) ↔ ∃ raw,
    untilQuote false t = some (raw, rest) ∧ Json.string (quoted raw) = some (v, []) := by
  have hstring : ∀ raw, Json.string (quoted raw) = scan none .plain (raw ++ ['"']) := fun _ => rfl
  constructor
  · intro h
    obtain ⟨raw, hraw, hall⟩ := untilQuote_of_scan h
    exact ⟨raw, hraw, hall []⟩
  · rintro ⟨raw, hraw, h⟩
    obtain ⟨raw', hraw', hall⟩ := untilQuote_of_scan h
    obtain rfl := List.append_cancel_right (append_of_untilQuote hraw')
    rw [append_of_untilQuote hraw]
    exact hall rest

theorem isSpace_of_isWs {c : Char} (hc : Json.isWs c = true) : Text.isSpace c = true := by
  simp only [Json.isWs, Bool.or_eq_true, decide_eq_true_eq] at hc
  obtain ((rfl | rfl) | rfl) | rfl := hc
  · rfl
  · rfl
  · rfl
  · rfl

theorem skip_word {c : Char} (hc : isWord c = true) (t : Text) : Json.skip (c :: t) = c :: t := by
  apply Json.skip_cons
  cases hws : Json.isWs c with
  | false => rfl
  | true =>
    rw [isWord, isSpace_of_isWs hws] at hc
    cases hc

theorem scalar_iff {x : Json.Scalar} (hu : Closes Json.skip u) : Json.scalar t = some (x, u) ↔
    ∃ z, value t = some (z, u) ∧ Json.scalar z = some (x, []) := by
  by_cases hquote : t.head? = some '"'
  · obtain ⟨s, rfl⟩ := List.head?_eq_some_iff.mp hquote
    constructor
    · intro h
      obtain ⟨⟨v, w⟩, hread, heq⟩ := Option.map_eq_some_iff.mp h
      obtain ⟨rfl, rfl⟩ := Prod.mk.inj heq
      obtain ⟨raw, hraw, hall⟩ := string_iff.mp hread
      refine ⟨quoted raw, by rw [value, hraw]; rfl, ?_⟩
      exact Option.map_eq_some_iff.mpr ⟨_, hall, rfl⟩
    · rintro ⟨z, h, hz⟩
      obtain ⟨⟨raw, w⟩, hraw, heq⟩ := Option.map_eq_some_iff.mp h
      obtain ⟨rfl, rfl⟩ := Prod.mk.inj heq
      obtain ⟨⟨v, w'⟩, hread, heq'⟩ := Option.map_eq_some_iff.mp hz
      obtain ⟨rfl, rfl⟩ := Prod.mk.inj heq'
      exact Option.map_eq_some_iff.mpr ⟨_, string_iff.mpr ⟨raw, hraw, hread⟩, rfl⟩
  · obtain ⟨hvalue, hz⟩ := value_of_ne_quote hquote
    have hread := Json.stopsBefore_scalar (endsWord_dropWhile t) hz
    rw [List.takeWhile_append_dropWhile] at hread
    rw [hvalue, hread]
    constructor
    · intro h
      obtain ⟨⟨y, r⟩, hall, heq⟩ := Option.map_eq_some_iff.mp h
      obtain ⟨rfl, rfl⟩ := Prod.mk.inj heq
      have hnil := eq_nil_of_closes (fun _ t hc => skip_word hc t)
        (fun c hc => mem_takeWhile_isWord ((Json.scalar_suffix hz hall).subset hc)) hu
      subst hnil
      exact ⟨_, rfl, hall⟩
    · rintro ⟨z, heq, hall⟩
      obtain ⟨rfl, rfl⟩ := Prod.mk.inj (Option.some.inj heq)
      rw [hall]
      rfl

theorem skip_iff {β : Type} {f : Text → Option β} {b : β}
    (hf : ∀ c w, Text.isSpace c = true → Json.isWs c = false → f (c :: w) = none) :
    f (Json.skip u) = some b ↔ f (skipSpace u) = some b ∧ (spaceOf u).all Json.isWs = true := by
  induction u with
  | nil => simp [Json.skip, skipSpace, spaceOf]
  | cons c u ih =>
    cases hws : Json.isWs c with
    | true =>
      have hspace := isSpace_of_isWs hws
      simpa [Json.skip, skipSpace, spaceOf, hws, hspace] using ih
    | false =>
      rw [Json.skip_cons hws]
      cases hspace : Text.isSpace c with
      | true => simp [spaceOf, hws, hspace, hf c u hspace hws]
      | false => simp [skipSpace, spaceOf, hspace]

theorem skip_eq_cons {c : Char} {w : Text} (hc : Text.isSpace c = false) : Json.skip u = c :: w ↔
    skipSpace u = c :: w ∧ (spaceOf u).all Json.isWs = true := by
  have hf : ∀ d v, Text.isSpace d = true → Json.isWs d = false →
      (if d :: v = c :: w then some () else none) = none := by
    intro d v hd _
    rw [if_neg]
    rintro heq
    obtain ⟨rfl, -⟩ := List.cons.inj heq
    exact Bool.false_ne_true (hc.symm.trans hd)
  simpa using skip_iff (u := u) (b := ()) (f := fun t => if t = c :: w then some () else none) hf

theorem scalar_space {c : Char} (hspace : Text.isSpace c = true) (t : Text) :
    Json.scalar (c :: t) = none := by
  have hne : ∀ d : Char, Text.isSpace d = false → c ≠ d := by
    rintro d hd rfl
    exact Bool.false_ne_true (hd.symm.trans hspace)
  have hdigit : c.isDigit = false := by
    cases h : c.isDigit with
    | true => exact ((Text.isSpace_of_isDigit h).symm.trans hspace).symm
    | false => rfl
  exact Json.scalar_eq_none (hne _ rfl) (hne _ rfl) (hne _ rfl) (hne _ rfl) (hne _ rfl) hdigit t

theorem jsonMember_eq_some {k : Text} {x : Json.Scalar} : Json.member t = some ((k, x), rest) ↔
    ∃ s u v, t = '"' :: s ∧ scan none .plain s = some (k, u) ∧ Json.skip u = ':' :: v ∧
      Json.scalar (Json.skip v) = some (x, rest) := by
  constructor
  · intro h
    obtain ⟨⟨key, u⟩, hkey, h⟩ := Option.bind_eq_some_iff.mp h
    dsimp only at h
    split at h
    next v hv =>
      obtain ⟨⟨value, w⟩, hvalue, h⟩ := Option.bind_eq_some_iff.mp h
      obtain ⟨heq, rfl⟩ := Prod.mk.inj (Option.some.inj h)
      obtain ⟨rfl, rfl⟩ := Prod.mk.inj heq
      unfold Json.string at hkey
      split at hkey
      next s => exact ⟨s, u, v, rfl, hkey, hv, hvalue⟩
      next => cases hkey
    next => cases h
  · rintro ⟨s, u, v, rfl, hkey, hv, hvalue⟩
    have hstring : Json.string ('"' :: s) = some (k, u) := hkey
    simp only [Json.member, hstring, Option.bind_eq_bind, Option.bind_some, hv, hvalue]
    rfl

theorem items_succ {xs : List (Text × Json.Scalar)} :
    Json.items Json.member '\x7d' (n + 1) t = some (xs, rest) ↔
    ∃ x u, Json.member (Json.skip t) = some (x, u) ∧
      ((∃ w ys, Json.skip u = ',' :: w ∧ Json.items Json.member '\x7d' n w = some (ys, rest) ∧
        xs = x :: ys) ∨ Json.skip u = '\x7d' :: rest ∧ xs = [x]) := by
  rw [Json.items]
  constructor
  · intro h
    obtain ⟨⟨x, u⟩, hx, h⟩ := Option.bind_eq_some_iff.mp h
    refine ⟨x, u, hx, ?_⟩
    dsimp only at h
    split at h
    next => cases h
    next c w hw =>
      split_ifs at h with hcomma hbrace
      · obtain ⟨⟨ys, r⟩, hys, heq⟩ := Option.bind_eq_some_iff.mp h
        obtain ⟨rfl, rfl⟩ := Prod.mk.inj (Option.some.inj heq)
        exact .inl ⟨w, ys, by rw [hw, hcomma], hys, rfl⟩
      · obtain ⟨rfl, rfl⟩ := Prod.mk.inj (Option.some.inj h)
        exact .inr ⟨by rw [hw, hbrace], rfl⟩
  · rintro ⟨x, u, hx, ⟨w, ys, hw, hys, rfl⟩ | ⟨hw, rfl⟩⟩
    · simp only [hx, Option.bind_eq_bind, Option.bind_some, hw, if_true, hys]
      rfl
    · simp only [hx, Option.bind_eq_bind, Option.bind_some, hw]
      rfl

def NameOf (m : Member) (k : Text) : Prop := Json.string (quoted m.name) = some (k, [])

theorem readsAll_of {α : Type} {read : Text → Option (α × Text)} {z : Text} {x : α}
    (h : read z = some (x, [])) : readsAll read z = true := by
  rw [readsAll, h]
  rfl

theorem eq_some_of_readsAll {α : Type} {read : Text → Option (α × Text)} {z : Text}
    (h : readsAll read z = true) : ∃ x, read z = some (x, []) := by
  unfold readsAll at h
  cases hread : read z with
  | none =>
    rw [hread] at h
    cases h
  | some r =>
    rw [hread] at h
    exact ⟨r.1, congrArg some (Prod.ext rfl (of_decide_eq_true h))⟩

theorem member_of_json {k : Text} {x : Json.Scalar} {c : Char} {w : Text}
    (h : Json.member t = some ((k, x), u)) (hw : Json.skip u = c :: w) (hc : c = ',' ∨ c = '\x7d')
    (hnext : c = ',' → (spaceOf w).all Json.isWs = true) :
    ∃ m, member t = some (m, if c = ',' then skipSpace w else w) ∧ IsMember m ∧ NameOf m k ∧
      (m.comma = true ↔ c = ',') := by
  obtain ⟨s, v, y, rfl, hk, hy, hx⟩ := jsonMember_eq_some.mp h
  obtain ⟨raw, hraw, hname⟩ := string_iff.mp hk
  obtain ⟨hcolon, hspace⟩ := (skip_eq_cons rfl).mp hy
  obtain ⟨hx, hspace'⟩ := (skip_iff fun c w h _ => scalar_space h w).mp hx
  obtain ⟨z, hz, hall⟩ := (scalar_iff ⟨c, w, hw, hc⟩).mp hx
  have hspaceless : Text.isSpace c = false := by
    obtain rfl | rfl := hc
    · rfl
    · rfl
  obtain ⟨hend, hspace''⟩ := (skip_eq_cons hspaceless).mp hw
  obtain rfl | rfl := hc
  · have he : ending u = some (true, spaceOf u ++ spaceOf w, skipSpace w) := by
      rw [ending, hend]
      rfl
    refine ⟨⟨_, raw, z, true⟩, member_eq_some.mpr ⟨s, v, y, u, _, rfl, hraw, hcolon, hz, he, rfl⟩,
      ⟨?_, readsAll_of hname, readsAll_of hall⟩, hname, by simp⟩
    simp only [List.all_append, hspace, hspace', hspace'', hnext rfl, Bool.and_self]
  · have he : ending u = some (false, spaceOf u, w) := by
      rw [ending, hend]
      rfl
    refine ⟨⟨_, raw, z, false⟩, member_eq_some.mpr ⟨s, v, y, u, _, rfl, hraw, hcolon, hz, he, rfl⟩,
      ⟨?_, readsAll_of hname, readsAll_of hall⟩, hname, by simp⟩
    simp only [List.all_append, hspace, hspace', hspace'', Bool.and_self]

theorem json_of_member {m : Member} (h : member t = some (m, rest)) (hm : IsMember m) :
    ∃ k x u c w, Json.member t = some ((k, x), u) ∧ NameOf m k ∧ Json.skip u = c :: w ∧
      (m.comma = true ∧ c = ',' ∧ rest = skipSpace w ∧ (spaceOf w).all Json.isWs = true ∨
        m.comma = false ∧ c = '\x7d' ∧ rest = w) := by
  obtain ⟨s, v, y, u, spaces, rfl, hraw, hcolon, hz, he, hspaces⟩ := member_eq_some.mp h
  obtain ⟨hall, hname, hvalue⟩ := hm
  obtain ⟨k, hk⟩ := eq_some_of_readsAll hname
  obtain ⟨x, hx⟩ := eq_some_of_readsAll hvalue
  rw [hspaces, List.all_append, List.all_append, Bool.and_eq_true, Bool.and_eq_true] at hall
  obtain ⟨⟨hv, hy⟩, hu⟩ := hall
  have hread : Closes Json.skip u → Json.member ('"' :: s) = some ((k, x), u) := fun hclose =>
    jsonMember_eq_some.mpr ⟨s, v, y, rfl, string_iff.mpr ⟨_, hraw, hk⟩,
      (skip_eq_cons rfl).mpr ⟨hcolon, hv⟩,
      (skip_iff fun c w h _ => scalar_space h w).mpr ⟨(scalar_iff hclose).mpr ⟨_, hz, hx⟩, hy⟩⟩
  obtain ⟨w, hw, he'⟩ | ⟨w, hw, he'⟩ | ⟨he', -⟩ := ending_cases u
  · obtain ⟨hcomma, heq⟩ := Prod.mk.inj (Option.some.inj (he.symm.trans he'))
    obtain ⟨rfl, rfl⟩ := Prod.mk.inj heq
    rw [List.all_append, Bool.and_eq_true] at hu
    have hskip := (skip_eq_cons (c := ',') rfl).mpr ⟨hw, hu.1⟩
    exact ⟨k, x, u, ',', w, hread ⟨_, _, hskip, .inl rfl⟩, hk, hskip,
      .inl ⟨hcomma, rfl, rfl, hu.2⟩⟩
  · obtain ⟨hcomma, heq⟩ := Prod.mk.inj (Option.some.inj (he.symm.trans he'))
    obtain ⟨rfl, rfl⟩ := Prod.mk.inj heq
    have hskip := (skip_eq_cons (c := '\x7d') rfl).mpr ⟨hw, hu⟩
    exact ⟨k, x, u, '\x7d', _, hread ⟨_, _, hskip, .inr rfl⟩, hk, hskip,
      .inr ⟨hcomma, rfl, rfl⟩⟩
  · cases he.symm.trans he'

theorem value_suffix {z : Text} (h : value t = some (z, rest)) : rest <:+ t := by
  by_cases hquote : t.head? = some '"'
  · obtain ⟨s, rfl⟩ := List.head?_eq_some_iff.mp hquote
    obtain ⟨⟨raw, w⟩, hraw, heq⟩ := Option.map_eq_some_iff.mp h
    obtain ⟨-, rfl⟩ := Prod.mk.inj heq
    rw [append_of_untilQuote hraw]
    exact ⟨'"' :: raw ++ ['"'], by simp⟩
  · obtain ⟨-, rfl⟩ := Prod.mk.inj (Option.some.inj (h.symm.trans (value_of_ne_quote hquote).1))
    exact List.dropWhile_suffix _

theorem ending_suffix {e : Bool × Text × Text} (h : ending t = some e) : e.2.2 <:+ t := by
  obtain ⟨w, hw, he⟩ | ⟨w, hw, he⟩ | ⟨he, -⟩ := ending_cases t
  · obtain rfl := Option.some.inj (h.symm.trans he)
    have hskip : skipSpace t <:+ t := List.dropWhile_suffix _
    rw [hw] at hskip
    exact ((List.dropWhile_suffix _).trans (List.suffix_cons _ w)).trans hskip
  · obtain rfl := Option.some.inj (h.symm.trans he)
    have hskip : skipSpace t <:+ t := List.dropWhile_suffix _
    rw [hw] at hskip
    exact (List.suffix_cons _ w).trans hskip
  · cases h.symm.trans he

theorem member_length {m : Member} (h : member t = some (m, rest)) : rest.length < t.length := by
  obtain ⟨s, u, v, w, spaces, rfl, hname, hcolon, hz, he, -⟩ := member_eq_some.mp h
  have hskip : skipSpace u <:+ u := List.dropWhile_suffix _
  rw [hcolon] at hskip
  have hafter : u <:+ s := ⟨m.name ++ ['"'], by rw [append_of_untilQuote hname]; simp⟩
  have hvalue := (ending_suffix he).trans ((value_suffix hz).trans (List.dropWhile_suffix _))
  exact Nat.lt_succ_of_le
    (((hvalue.trans (List.suffix_cons _ v)).trans hskip).trans hafter).length_le

theorem jsonMember_skip {x : (Text × Json.Scalar) × Text} : Json.member (Json.skip t) = some x ↔
    Json.member (skipSpace t) = some x ∧ (spaceOf t).all Json.isWs = true := by
  apply skip_iff
  intro c w hspace _
  have hc : c ≠ '"' := by
    rintro rfl
    cases hspace
  have hstring : Json.string (c :: w) = none := by
    unfold Json.string
    split
    next heq => exact absurd (List.cons.inj heq).1 hc
    next => rfl
  rw [Json.member, hstring]
  rfl

theorem space_of_items {xs : List (Text × Json.Scalar)}
    (h : Json.items Json.member '\x7d' n t = some (xs, rest)) :
    (spaceOf t).all Json.isWs = true := by
  cases n with
  | zero => cases h
  | succ n =>
    obtain ⟨x, u, hx, -⟩ := items_succ.mp h
    exact (jsonMember_skip.mp hx).2

theorem members_of_items {k : Nat} {xs : List (Text × Json.Scalar)}
    (h : Json.items Json.member '\x7d' n t = some (xs, rest)) (hk : (skipSpace t).length < k) :
    ∃ ms, members k (skipSpace t) = some (ms, rest) ∧ (∀ m ∈ ms, IsMember m) ∧
      endsInComma ms = false ∧ ms ≠ [] ∧ List.Forall₂ NameOf ms (xs.map Prod.fst) := by
  induction n generalizing t k xs with
  | zero => cases h
  | succ n ih =>
    obtain ⟨k, rfl⟩ := Nat.exists_eq_succ_of_ne_zero (Nat.ne_of_gt (Nat.zero_lt_of_lt hk))
    obtain ⟨⟨key, x⟩, u, hx, h⟩ := items_succ.mp h
    have hread := (jsonMember_skip.mp hx).1
    have hbrace : (skipSpace t).head? ≠ some '\x7d' := by
      obtain ⟨s, -, -, hs, -⟩ := jsonMember_eq_some.mp hread
      rw [hs]
      simp
    obtain ⟨w, ys, hw, hys, rfl⟩ | ⟨hw, rfl⟩ := h
    · obtain ⟨m, hm, hmember, hname, hcomma⟩ := member_of_json hread hw (.inl rfl)
        fun _ => space_of_items hys
      rw [if_pos rfl] at hm
      obtain ⟨ms, hms, hall, hend, hne, hnames⟩ := ih hys
        (Nat.lt_of_lt_of_le (member_length hm) (Nat.le_of_lt_succ hk))
      refine ⟨m :: ms, members_eq_some.mpr (.inr ⟨hbrace, m, _, hm, .inl
        ⟨hcomma.mpr rfl, ms, hms, rfl⟩⟩), List.forall_mem_cons.mpr ⟨hmember, hall⟩, ?_,
        List.cons_ne_nil m ms, .cons hname hnames⟩
      rw [endsInComma, List.getLast?_cons_of_ne_nil hne]
      exact hend
    · obtain ⟨m, hm, hmember, hname, hcomma⟩ := member_of_json hread hw (.inr rfl)
        fun h => absurd h (by decide)
      have hfalse : m.comma = false :=
        Bool.eq_false_iff.mpr fun h => absurd (hcomma.mp h) (by decide)
      rw [if_neg (by decide)] at hm
      refine ⟨[m], members_eq_some.mpr (.inr ⟨hbrace, m, _, hm, .inr ⟨hfalse, rfl, rfl⟩⟩),
        by simpa using hmember, hfalse, List.cons_ne_nil m [], .cons hname .nil⟩

theorem items_of_members {k : Nat} {ms : List Member}
    (h : members k (skipSpace t) = some (ms, rest)) (hspace : (spaceOf t).all Json.isWs = true)
    (hall : ∀ m ∈ ms, IsMember m) (hend : endsInComma ms = false) (hne : ms ≠ [])
    (hn : (skipSpace t).length ≤ n) :
    ∃ xs, Json.items Json.member '\x7d' n t = some (xs, rest) ∧
      List.Forall₂ NameOf ms (xs.map Prod.fst) := by
  induction k generalizing t n ms with
  | zero => cases h
  | succ k ih =>
    obtain ⟨-, rfl, -⟩ | ⟨-, m, u, hm, h⟩ := members_eq_some.mp h
    · exact absurd rfl hne
    have hlen := member_length hm
    obtain ⟨n, rfl⟩ := Nat.exists_eq_succ_of_ne_zero
      (Nat.ne_of_gt (Nat.lt_of_lt_of_le (Nat.zero_lt_of_lt hlen) hn))
    obtain ⟨hcomma, ms, hms, rfl⟩ | ⟨hcomma, rfl, rfl⟩ := h
    · obtain ⟨hm', hms'⟩ := List.forall_mem_cons.mp hall
      obtain ⟨key, x, v, c, w, hread, hname, hw, hc⟩ := json_of_member hm hm'
      obtain ⟨-, rfl, rfl, hnext⟩ | ⟨hfalse, -⟩ := hc
      · have hne' : ms ≠ [] := by
          rintro rfl
          exact Bool.false_ne_true (hend.symm.trans hcomma)
        rw [endsInComma, List.getLast?_cons_of_ne_nil hne'] at hend
        obtain ⟨ys, hys, hnames⟩ := ih hms hnext hms' hend hne'
          (Nat.le_of_lt_succ (Nat.lt_of_lt_of_le hlen hn))
        exact ⟨(key, x) :: ys, items_succ.mpr ⟨_, v, jsonMember_skip.mpr ⟨hread, hspace⟩, .inl
          ⟨w, ys, hw, hys, rfl⟩⟩, .cons hname hnames⟩
      · exact absurd (hfalse.symm.trans hcomma) Bool.false_ne_true
    · have hm' := hall m List.mem_cons_self
      obtain ⟨key, x, v, c, w, hread, hname, hw, hc⟩ := json_of_member hm hm'
      obtain ⟨htrue, -⟩ | ⟨-, rfl, rfl⟩ := hc
      · exact absurd (hcomma.symm.trans htrue) Bool.false_ne_true
      · exact ⟨[(key, x)], items_succ.mpr ⟨_, v, jsonMember_skip.mpr ⟨hread, hspace⟩, .inr
          ⟨hw, rfl⟩⟩, .cons hname .nil⟩

theorem head_of_items {xs : List (Text × Json.Scalar)}
    (h : Json.items Json.member '\x7d' n t = some (xs, rest)) :
    (Json.skip t).head? ≠ some '\x7d' := by
  cases n with
  | zero => cases h
  | succ n =>
    obtain ⟨⟨k, x⟩, u, hx, -⟩ := items_succ.mp h
    obtain ⟨s, -, -, hs, -⟩ := jsonMember_eq_some.mp hx
    rw [hs]
    simp

theorem nameOf_unique : Relator.RightUnique NameOf := by
  intro m k k' h h'
  exact (Prod.mk.inj (Option.some.inj (h.symm.trans h'))).1

theorem skip_eq_nil : Json.skip t = [] ↔ t.all Json.isWs = true := by
  rw [Json.skip, List.dropWhile_eq_nil_iff, List.all_eq_true]

theorem container_eq_some {xs : List (Text × Json.Scalar)} :
    Json.container '\x7b' '\x7d' Json.member t = some (xs, rest) ↔ ∃ u, t = '\x7b' :: u ∧
      (Json.skip u = '\x7d' :: rest ∧ xs = [] ∨
        (Json.skip u).head? ≠ some '\x7d' ∧
          Json.items Json.member '\x7d' u.length u = some (xs, rest)) := by
  cases t with
  | nil => simp [Json.container]
  | cons c u =>
    rw [Json.container]
    by_cases hc : c = '\x7b'
    · subst hc
      rw [if_pos rfl]
      by_cases hbrace : (Json.skip u).head? = some '\x7d'
      · obtain ⟨v, hv⟩ := List.head?_eq_some_iff.mp hbrace
        simp [hv, eq_comm, and_comm]
      · have hne : Json.skip u ≠ '\x7d' :: rest := fun h => hbrace (by rw [h]; rfl)
        simp [hbrace, hne]
    · simp [hc]

theorem object_eq_some {zJson : Text} {xs : List (Text × Json.Scalar)} :
    Json.object zJson = some xs ↔ ∃ t rest, Json.skip zJson = '\x7b' :: t ∧
      rest.all Json.isWs = true ∧ (Json.skip t = '\x7d' :: rest ∧ xs = [] ∨
        (Json.skip t).head? ≠ some '\x7d' ∧
          Json.items Json.member '\x7d' t.length t = some (xs, rest)) := by
  rw [Json.object, Json.whole]
  constructor
  · intro h
    obtain ⟨⟨ys, rest⟩, hread, h⟩ := Option.bind_eq_some_iff.mp h
    obtain ⟨t, ht, hmembers⟩ := container_eq_some.mp hread
    dsimp only at h
    split at h
    next hnil =>
      obtain rfl := Option.some.inj h
      exact ⟨t, rest, ht, skip_eq_nil.mp hnil, hmembers⟩
    next => cases h
  · rintro ⟨t, rest, ht, hrest, hmembers⟩
    rw [container_eq_some.mpr ⟨t, ht, hmembers⟩]
    exact if_pos (skip_eq_nil.mpr hrest)

theorem object_iff (zJson : Text) (ks : List Text) :
    (Json.object zJson).map (·.map Prod.fst) = some ks ↔
      ∃ w, pieces zJson = some w ∧ IsObject w ∧ List.Forall₂ NameOf w.members ks := by
  rw [Option.map_eq_some_iff]
  constructor
  · rintro ⟨xs, h, rfl⟩
    obtain ⟨t, rest, ht, hrest, hmembers⟩ := object_eq_some.mp h
    obtain ⟨ht, hspace⟩ := (skip_eq_cons rfl).mp ht
    rw [pieces_brace ht]
    obtain ⟨hbrace, rfl⟩ | ⟨-, hitems⟩ := hmembers
    · obtain ⟨hbrace, hspace'⟩ := (skip_eq_cons rfl).mp hbrace
      have hnone : members ((skipSpace t).length + 1) (skipSpace t) = some ([], rest) :=
        members_eq_some.mpr (.inl ⟨by rw [hbrace]; rfl, rfl, by rw [hbrace]; rfl⟩)
      refine ⟨⟨_, [], rest⟩, by rw [hnone]; rfl, ⟨?_, fun m hm => absurd hm List.not_mem_nil, rfl,
        hrest⟩, .nil⟩
      rw [List.all_append, hspace, hspace']
      rfl
    · obtain ⟨ms, hms, hall, hend, -, hnames⟩ := members_of_items hitems (Nat.lt_succ_self _)
      refine ⟨⟨_, ms, rest⟩, by rw [hms]; rfl, ⟨?_, hall, hend, hrest⟩, hnames⟩
      rw [List.all_append, hspace, space_of_items hitems]
      rfl
  · rintro ⟨w, hw, hobject, hnames⟩
    obtain ⟨t, ht⟩ : ∃ t, skipSpace zJson = '\x7b' :: t := by
      unfold pieces at hw
      split at hw
      next t ht => exact ⟨t, ht⟩
      next => cases hw
    rw [pieces_brace ht] at hw
    obtain ⟨⟨ms, rest⟩, hms, rfl⟩ := Option.map_eq_some_iff.mp hw
    have hspaces := hobject.spaces
    rw [List.all_append, Bool.and_eq_true] at hspaces
    have hskip := (skip_eq_cons (c := '\x7b') rfl).mpr ⟨ht, hspaces.1⟩
    by_cases hne : ms = []
    · subst hne
      cases hnames
      obtain ⟨hbrace, -, hrest⟩ | ⟨-, m, u, -, h⟩ := members_eq_some.mp hms
      · obtain ⟨v, hv⟩ := List.head?_eq_some_iff.mp hbrace
        rw [hv, List.tail_cons] at hrest
        subst hrest
        exact ⟨[], object_eq_some.mpr ⟨t, rest, hskip, hobject.rest, .inl
          ⟨(skip_eq_cons rfl).mpr ⟨hv, hspaces.2⟩, rfl⟩⟩, rfl⟩
      · obtain ⟨-, ms', -, heq⟩ | ⟨-, heq, -⟩ := h
        · cases heq
        · cases heq
    · obtain ⟨xs, hxs, hnames'⟩ := items_of_members hms hspaces.2 hobject.members hobject.comma hne
        (List.dropWhile_suffix _).length_le
      have heq : xs.map Prod.fst = ks := List.right_unique_forall₂' nameOf_unique hnames' hnames
      refine ⟨xs, object_eq_some.mpr ⟨t, rest, hskip, hobject.rest, .inr ⟨?_, hxs⟩⟩, heq⟩
      exact head_of_items hxs

end Objects

def ParsesObjects (atof : Text → ℚ) (zJson : Text) : Prop :=
  ∃ answer, (Bytes.cypherParseJsonProperties atof zJson).run = some answer ∧
    mapNames answer = (Json.object zJson).map (·.map Prod.fst)

def Unambiguous (zJson : Text) : Prop :=
  ∀ w, pieces zJson = some w → (Loose w → Plain w) ∧ (IsObject w → Plain w)

theorem forall₂_names {ms : List Member} (h : ∀ m ∈ ms, NameOf m m.name) :
    List.Forall₂ NameOf ms (ms.map Member.name) := by
  induction ms with
  | nil => exact .nil
  | cons m ms ih =>
    obtain ⟨hm, hms⟩ := List.forall_mem_cons.mp h
    exact .cons hm (ih hms)

theorem exists_names {ms : List Member} (h : ∀ m ∈ ms, IsMember m) :
    ∃ ks, List.Forall₂ NameOf ms ks := by
  induction ms with
  | nil => exact ⟨[], .nil⟩
  | cons m ms ih =>
    obtain ⟨hm, hms⟩ := List.forall_mem_cons.mp h
    obtain ⟨k, hk⟩ := eq_some_of_readsAll hm.2.1
    obtain ⟨ks, hks⟩ := ih hms
    exact ⟨k :: ks, .cons hk hks⟩

theorem nameOf_of_plain {m : Member} (h : ∀ c ∈ m.name, Json.Plain c) : NameOf m m.name :=
  Json.scan_plain h []

theorem plain_of_names {w : Pieces} (hloose : Loose w) (hobject : IsObject w)
    (h : List.Forall₂ NameOf w.members (w.members.map Member.name)) : Plain w := by
  refine ⟨hloose, hobject, ?_⟩
  intro m hm
  rw [List.forall₂_map_right_iff, List.forall₂_same] at h
  exact (Json.plain_of_scan (h m hm)).1

theorem cypherParseJsonProperties_objects_iff (atof : Text → ℚ) {zJson : Text}
    (hz : '\x00' ∉ zJson) : ParsesObjects atof zJson ↔ Unambiguous zJson := by
  have hcode := mapNames_iff atof zJson
  have hjson := object_iff zJson
  have hrun := Bytes.cypherParseJsonProperties_eq atof hz
  have hanswer : ParsesObjects atof zJson ↔ mapNames (cypherParseJsonProperties atof zJson) =
      (Json.object zJson).map (·.map Prod.fst) := by
    constructor
    · rintro ⟨answer, h, hnames⟩
      obtain rfl := Option.some.inj (hrun.symm.trans h)
      exact hnames
    · exact fun h => ⟨_, hrun, h⟩
  rw [hanswer]
  constructor
  · intro heq w hw
    constructor
    · intro hloose
      obtain ⟨w', hw', hobject, hnames⟩ := (hjson _).mp
        (heq.symm.trans ((hcode _).mpr ⟨w, hw, hloose, rfl⟩))
      obtain rfl := Option.some.inj (hw.symm.trans hw')
      exact plain_of_names hloose hobject hnames
    · intro hobject
      obtain ⟨ks, hks⟩ := exists_names hobject.members
      have hnames := (hjson _).mpr ⟨w, hw, hobject, hks⟩
      obtain ⟨w', hw', hloose, rfl⟩ := (hcode _).mp (heq.trans hnames)
      obtain rfl := Option.some.inj (hw.symm.trans hw')
      exact plain_of_names hloose hobject hks
  · intro h
    apply Option.ext
    intro ks
    rw [hcode, hjson]
    constructor
    · rintro ⟨w, hw, hloose, rfl⟩
      have hplain := (h w hw).1 hloose
      exact ⟨w, hw, hplain.object, forall₂_names fun m hm => nameOf_of_plain (hplain.names m hm)⟩
    · rintro ⟨w, hw, hobject, hnames⟩
      have hplain := (h w hw).2 hobject
      refine ⟨w, hw, hplain.loose, ?_⟩
      exact List.right_unique_forall₂' nameOf_unique hnames
        (forall₂_names fun m hm => nameOf_of_plain (hplain.names m hm))

def personText : Text := "\x7b\"name\": \"Ada\", \"age\": 36\x7d".toList

def personPieces : Pieces where
  spaces := []
  members := [⟨[' ', ' '], "name".toList, "\"Ada\"".toList, true⟩,
    ⟨[' '], "age".toList, "36".toList, false⟩]
  rest := []

theorem pieces_personText : pieces personText = some personPieces := by decide +kernel

theorem plain_personPieces : Plain personPieces where
  loose := by decide +kernel
  object := ⟨rfl, by decide +kernel, rfl, rfl⟩
  names := by
    intro m hm
    obtain rfl | hm := List.mem_cons.mp hm
    · exact (Json.plain_of_scan (n := "name".toList) (t := []) (u := []) rfl).1
    · obtain rfl := List.mem_singleton.mp hm
      exact (Json.plain_of_scan (n := "age".toList) (t := []) (u := []) rfl).1

theorem unambiguous_personText : Unambiguous personText := by
  intro w hw
  obtain rfl := Option.some.inj (pieces_personText.symm.trans hw)
  exact ⟨fun _ => plain_personPieces, fun _ => plain_personPieces⟩

theorem cypherParseJsonProperties_objects_iff_person : ParsesObjects (fun _ => 0) personText :=
  (cypherParseJsonProperties_objects_iff (fun _ => 0) (by decide)).mpr unambiguous_personText

theorem not_objects_exponent : ¬ParsesObjects (fun _ => 0) "\x7b\"a\":1e+20\x7d".toList := by
  rintro ⟨answer, hrun, hnames⟩
  have hz : '\x00' ∉ "\x7b\"a\":1e+20\x7d".toList := by decide
  have hparse := hrun.symm.trans (Bytes.cypherParseJsonProperties_eq (fun _ => 0) hz)
  obtain rfl := Option.some.inj hparse
  have hcode : mapNames (cypherParseJsonProperties (fun _ => 0)
      "\x7b\"a\":1e+20\x7d".toList) = none := by decide +kernel
  have hjson : (Json.object "\x7b\"a\":1e+20\x7d".toList).isSome = true := by decide +kernel
  rw [hcode] at hnames
  rw [Option.map_eq_none_iff.mp hnames.symm] at hjson
  cases hjson

end SqliteMultimodal.Graph.Cypher.FlatObject
