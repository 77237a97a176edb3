import Mathlib.Data.List.Basic
import Mathlib.Data.List.TakeWhile

abbrev Text := List Char

namespace Text

def ofInt : Int → Text
  | .ofNat n => Nat.toDigits 10 n
  | .negSucc n => '-' :: Nat.toDigits 10 (n + 1)

def isSpace (c : Char) : Bool := c.isWhitespace || c = '\x0b' || c = '\x0c'

def leading (t : Text) : Nat := Nat.ofDigitChars 10 (t.takeWhile Char.isDigit) 0

def atoll (t : Text) : Int :=
  match t.dropWhile isSpace with
  | '-' :: t => -leading t
  | '+' :: t => leading t
  | t => leading t

theorem ne_of_isDigit {c d : Char} (hc : c.isDigit = true) (hd : d.isDigit = false) : c ≠ d := by
  rintro rfl
  exact Bool.false_ne_true (hd.symm.trans hc)

theorem isDigit_of_mem_toDigits {n : Nat} {c : Char} (h : c ∈ Nat.toDigits 10 n) :
    c.isDigit = true :=
  Nat.isDigit_of_mem_toDigits (by decide) (by decide) h

theorem toDigits_head {n : Nat} (hn : 0 < n) : ∃ c cs, Nat.toDigits 10 n = c :: cs ∧ c ≠ '0' := by
  induction n using Nat.strongRecOn with
  | ind n ih =>
    rcases Nat.lt_or_ge n 10 with hlt | hge
    · have hne : ∀ d < 10, 0 < d → d.digitChar ≠ '0' := by decide
      exact ⟨n.digitChar, [], Nat.toDigits_of_lt_base hlt, hne n hlt hn⟩
    · obtain ⟨c, cs, hcs, hc⟩ := ih (n / 10) (by omega) (by omega)
      refine ⟨c, cs ++ [(n % 10).digitChar], ?_, hc⟩
      rw [Nat.toDigits_of_base_le (by decide) hge, hcs]
      rfl

def spaces : List Char := [' ', '\t', '\r', '\n', '\x0b', '\x0c']

theorem isSpace_eq_false {c : Char} (h : ∀ d ∈ spaces, c ≠ d) : isSpace c = false := by
  simp only [spaces, List.forall_mem_cons] at h
  simp only [isSpace, Char.isWhitespace, Bool.or_eq_false_iff, decide_eq_false_iff_not]
  exact ⟨⟨⟨⟨⟨h.1, h.2.1⟩, h.2.2.1⟩, h.2.2.2.1⟩, h.2.2.2.2.1⟩, h.2.2.2.2.2.1⟩

theorem isSpace_of_isDigit {c : Char} (h : c.isDigit = true) : isSpace c = false := by
  have hall : spaces.all (fun d => !d.isDigit) = true := rfl
  apply isSpace_eq_false
  intro d hd
  exact ne_of_isDigit h (by simpa using List.all_eq_true.mp hall d hd)

theorem leading_toDigits (n : Nat) : leading (Nat.toDigits 10 n) = n := by
  have htake : (Nat.toDigits 10 n).takeWhile Char.isDigit = Nat.toDigits 10 n :=
    List.takeWhile_eq_self_iff.mpr fun c hc => isDigit_of_mem_toDigits hc
  rw [leading, htake, Nat.ofDigitChars_toDigits (by decide) (by decide)]

theorem atoll_of_isDigit {c : Char} (hc : c.isDigit = true) (t : Text) :
    atoll (c :: t) = leading (c :: t) := by
  rw [atoll, List.dropWhile_cons_of_neg (by simp [isSpace_of_isDigit hc])]
  split
  next heq => exact absurd (List.cons.inj heq).1 (ne_of_isDigit hc rfl)
  next heq => exact absurd (List.cons.inj heq).1 (ne_of_isDigit hc rfl)
  next => rfl

theorem isAlpha_of_toLower {a : Char} (h : a.toLower.isAlpha = true) : a.isAlpha = true := by
  by_cases hu : a.isUpper = true
  · change (a.isUpper || a.isLower) = true
    rw [hu, Bool.true_or]
  · have heq : a.toLower = a := by
      unfold Char.toLower
      exact dif_neg fun hupper => hu (decide_eq_true hupper)
    rwa [heq] at h

theorem ne_of_isAlpha {c d : Char} (hc : c.isAlpha = true) (hd : d.isAlpha = false) : c ≠ d := by
  rintro rfl
  exact Bool.false_ne_true (hd.symm.trans hc)

theorem eq_of_toLower {q b : Char} (hq : q.isAlpha = false) (h : q.toLower = b.toLower) :
    b = q := by
  have hlower : ∀ c : Char, c.isUpper = false → c.toLower = c := by
    intro c hc
    unfold Char.toLower
    exact dif_neg fun hupper => Bool.false_ne_true (hc.symm.trans (decide_eq_true hupper))
  obtain ⟨hqu, hql⟩ := Bool.or_eq_false_iff.mp hq
  rw [hlower q hqu] at h
  cases hb : b.isUpper with
  | false => rw [h, hlower b hb]
  | true =>
    have hlow : b.toLower.isLower = true := by
      have hupper : b.val ≥ 'A'.val ∧ b.val ≤ 'Z'.val := of_decide_eq_true hb
      have hval : b.toLower.val = b.val + ('a'.val - 'A'.val) := by
        unfold Char.toLower
        rw [dif_pos hupper]
      simp only [ge_iff_le, UInt32.le_iff_toNat_le] at hupper
      change (decide (b.toLower.val ≥ 'a'.val) && decide (b.toLower.val ≤ 'z'.val)) = true
      simp only [hval, ge_iff_le, Bool.and_eq_true, decide_eq_true_eq, UInt32.le_iff_toNat_le,
        UInt32.toNat_add]
      simp at hupper ⊢
      omega
    rw [← h, hql] at hlow
    cases hlow

theorem isSpace_of_isAlpha {c : Char} (h : c.isAlpha = true) : isSpace c = false := by
  have hall : spaces.all (fun d => !d.isAlpha) = true := rfl
  apply isSpace_eq_false
  intro d hd
  exact ne_of_isAlpha h (by simpa using List.all_eq_true.mp hall d hd)

theorem isDigit_of_isAlpha {c : Char} (h : c.isAlpha = true) : c.isDigit = false := by
  change (decide (c.val ≥ 'A'.val ∧ c.val ≤ 'Z'.val) ||
    (decide (c.val ≥ 'a'.val) && decide (c.val ≤ 'z'.val))) = true at h
  simp only [Bool.or_eq_true, Bool.and_eq_true, decide_eq_true_eq, ge_iff_le,
    UInt32.le_iff_toNat_le] at h
  simp only [Char.isDigit, ge_iff_le, UInt32.le_iff_toNat_le, decide_eq_false_iff_not,
    Bool.and_eq_false_iff]
  simp at *
  omega

theorem atoll_of_isAlpha {c : Char} (hc : c.isAlpha = true) (t : Text) : atoll (c :: t) = 0 := by
  rw [atoll, List.dropWhile_cons_of_neg (by simp [isSpace_of_isAlpha hc])]
  split
  next heq => exact absurd (List.cons.inj heq).1 (ne_of_isAlpha hc rfl)
  next heq => exact absurd (List.cons.inj heq).1 (ne_of_isAlpha hc rfl)
  next =>
    rw [leading, List.takeWhile_cons_of_neg (by simp [isDigit_of_isAlpha hc])]
    rfl

theorem atoll_ofInt (n : Int) : atoll (ofInt n) = n := by
  cases n with
  | negSucc n =>
    show -(leading (Nat.toDigits 10 (n + 1)) : Int) = _
    rw [leading_toDigits]
    rfl
  | ofNat n =>
    obtain ⟨c, cs, hcs⟩ := List.exists_cons_of_ne_nil (Nat.toDigits_ne_nil (n := n) (b := 10))
    have hc : c.isDigit = true := isDigit_of_mem_toDigits (hcs ▸ List.mem_cons_self)
    rw [ofInt, hcs, atoll_of_isDigit hc, ← hcs, leading_toDigits]
    rfl

theorem ofInt_injective {i j : Int} (h : ofInt i = ofInt j) : i = j := by
  rw [← atoll_ofInt i, h, atoll_ofInt]

theorem not_mem_ofInt {c : Char} (hc : c.isDigit = false) (hminus : c ≠ '-') (n : Int) :
    c ∉ ofInt n := by
  intro h
  cases n with
  | ofNat n => exact ne_of_isDigit (isDigit_of_mem_toDigits h) hc rfl
  | negSucc n =>
    obtain rfl | h := List.mem_cons.mp h
    · exact hminus rfl
    · exact ne_of_isDigit (isDigit_of_mem_toDigits h) hc rfl

theorem ofInt_ne_nil (n : Int) : ofInt n ≠ [] := by
  cases n with
  | ofNat n => exact Nat.toDigits_ne_nil
  | negSucc n => exact List.cons_ne_nil _ _

theorem ofInt_head (i : Int) : ∃ c t, ofInt i = c :: t ∧ (c.isDigit = true ∨ c = '-') := by
  cases i with
  | ofNat n =>
    obtain ⟨c, cs, hcs⟩ := List.exists_cons_of_ne_nil (Nat.toDigits_ne_nil (n := n) (b := 10))
    exact ⟨c, cs, hcs, .inl (isDigit_of_mem_toDigits (hcs ▸ List.mem_cons_self))⟩
  | negSucc n => exact ⟨'-', _, rfl, .inr rfl⟩

theorem ne_of_ofInt_head {c d : Char} (hc : c.isDigit = true ∨ c = '-') (hd : d.isDigit = false)
    (hminus : d ≠ '-') : c ≠ d := by
  obtain hc | rfl := hc
  · exact ne_of_isDigit hc hd
  · exact Ne.symm hminus

def tokens (sep : Char) (t : Text) : List Text := (t.splitOn sep).filter (· ≠ [])

def join (sep : Char) (ts : List Text) : Text := [sep].intercalate ts

theorem tokens_join {sep : Char} {ts : List Text} (hsep : ∀ t ∈ ts, sep ∉ t)
    (hne : ∀ t ∈ ts, t ≠ []) : tokens sep (join sep ts) = ts := by
  cases ts with
  | nil => rfl
  | cons t ts =>
    rw [tokens, join, List.splitOn_intercalate sep hsep (List.cons_ne_nil t ts)]
    exact List.filter_eq_self.mpr fun t ht => decide_eq_true (hne t ht)

theorem join_cons (sep : Char) (t : Text) {ts : List Text} (hts : ts ≠ []) :
    join sep (t :: ts) = t ++ sep :: join sep ts := by
  rw [join, List.intercalate_cons_of_ne_nil hts, List.append_assoc]
  rfl

theorem join_cons_flatMap (sep : Char) (t : Text) (ts : List Text) :
    join sep (t :: ts) = t ++ ts.flatMap (sep :: ·) := by
  induction ts generalizing t with
  | nil => simp [join]
  | cons u ts ih =>
    rw [join_cons sep t (List.cons_ne_nil u ts), ih, List.flatMap_cons]
    rfl

theorem foldl_zipIdx {α : Type} (sep : Char) (print : α → Text) (xs : List α) (t : Text) :
    xs.zipIdx.foldl (fun t x => if x.2 = 0 then t ++ print x.1 else t ++ [sep] ++ print x.1) t =
      t ++ join sep (xs.map print) := by
  have hrest : ∀ (xs : List α) (t : Text) (n : Nat), 0 < n →
      (xs.zipIdx n).foldl
        (fun t x => if x.2 = 0 then t ++ print x.1 else t ++ [sep] ++ print x.1) t =
      t ++ xs.flatMap fun x => sep :: print x := by
    intro xs
    induction xs with
    | nil => exact fun t _ _ => (List.append_nil t).symm
    | cons x xs ih =>
      intro t n hn
      rw [List.zipIdx_cons, List.foldl_cons, if_neg hn.ne', ih _ _ (Nat.succ_pos n),
        List.flatMap_cons]
      simp only [List.append_assoc, List.singleton_append]
  cases xs with
  | nil => exact (List.append_nil t).symm
  | cons x xs =>
    rw [List.zipIdx_cons, List.foldl_cons, if_pos rfl, hrest xs _ _ (Nat.succ_pos 0),
      List.map_cons, join_cons_flatMap, List.flatMap_map, List.append_assoc]

theorem join_append (sep : Char) {ts us : List Text} (hts : ts ≠ []) (hus : us ≠ []) :
    join sep (ts ++ us) = join sep ts ++ sep :: join sep us := by
  induction ts with
  | nil => exact absurd rfl hts
  | cons t ts ih =>
    by_cases h : ts = []
    · subst h
      rw [List.singleton_append, join_cons sep t hus]
      simp [join]
    · rw [List.cons_append, join_cons sep t (by simp [h]), ih h, join_cons sep t h,
        List.append_assoc, List.cons_append]

theorem length_le_join (sep : Char) (ts : List Text) : ts.length ≤ (join sep ts).length + 1 := by
  induction ts with
  | nil => exact Nat.zero_le _
  | cons t ts ih =>
    by_cases h : ts = []
    · subst h
      exact Nat.le_add_left _ _
    · rw [join_cons sep t h, List.length_cons, List.length_append, List.length_cons]
      omega

section Hash

def signedByte (c : Char) : Int := if c.toNat < 128 then c.toNat else c.toNat - 256

def djb2 (t : Text) : Nat :=
  t.foldl (fun hash c => ((hash * 33 + signedByte c) % 4294967296).toNat) 5381

end Hash

def strcmp : Text → Text → Int
  | [], [] => 0
  | [], _ :: _ => -1
  | _ :: _, [] => 1
  | a :: s, b :: t => if a = b then strcmp s t else if a.toNat < b.toNat then -1 else 1

theorem strcmp_eq_zero {s t : Text} : strcmp s t = 0 ↔ s = t := by
  induction s generalizing t with
  | nil => cases t <;> simp [strcmp]
  | cons a s ih =>
    cases t with
    | nil => simp [strcmp]
    | cons b t =>
      rw [strcmp, List.cons.injEq]
      by_cases h : a = b
      · rw [if_pos h, ih]
        simp [h]
      · rw [if_neg h]
        split <;> simp [h]

section Like

def isContinuation (c : Char) : Bool := 128 ≤ c.toNat && c.toNat < 192

def afterChar : Text → Text
  | [] => []
  | c :: t => if 192 ≤ c.toNat then t.dropWhile isContinuation else t

def anyRest (p : Text → Bool) : Bool → Text → Bool
  | _, [] => p []
  | inside, c :: t =>
    if inside && isContinuation c then anyRest p true t
    else p (c :: t) || anyRest p (192 ≤ c.toNat) t

def like : Text → Text → Bool
  | [], t => t = []
  | a :: p, t =>
    if a = '%' then anyRest (like p) false t
    else match t with
      | [] => false
      | b :: t =>
        if a = '_' then like p (afterChar (b :: t)) else a.toLower = b.toLower && like p t

theorem anyRest_iff {p : Text → Bool} (hp : ∀ c t, p (c :: t) = true → isContinuation c = false)
    {inside : Bool} {t : Text} : anyRest p inside t = true ↔ ∃ u, u <:+ t ∧ p u = true := by
  induction t generalizing inside with
  | nil => simp [anyRest]
  | cons c t ih =>
    have hsuffix : (∃ u, u <:+ c :: t ∧ p u = true) ↔
        p (c :: t) = true ∨ ∃ u, u <:+ t ∧ p u = true := by
      simp only [List.suffix_cons_iff, or_and_right, exists_or, exists_eq_left]
    rw [hsuffix, anyRest]
    by_cases hinside : (inside && isContinuation c) = true
    · rw [if_pos hinside, ih, or_iff_right]
      intro h
      rw [hp c t h, Bool.and_false] at hinside
      exact Bool.false_ne_true hinside
    · rw [if_neg hinside, Bool.or_eq_true, ih]

theorem like_percent (p t : Text) : like ('%' :: p) t = anyRest (like p) false t := by
  cases t with
  | nil => rfl
  | cons c t => rfl

theorem like_nil_iff {t : Text} : like [] t = true ↔ t = [] := decide_eq_true_iff

theorem like_all (t : Text) : like ['%'] t = true := by
  rw [like_percent, anyRest_iff]
  · exact ⟨[], List.nil_suffix, rfl⟩
  · intro c t h
    cases h

theorem afterChar_append {q : Char} (hq : isContinuation q = false) (c : Char) (w u : Text) :
    afterChar (c :: (w ++ q :: u)) = afterChar (c :: w) ++ q :: u := by
  rw [afterChar, afterChar]
  split
  next =>
    rw [List.dropWhile_append, List.dropWhile_cons_of_neg (by simp [hq])]
    split
    next h => rw [List.isEmpty_iff.mp h, List.nil_append]
    next => rfl
  next => rfl

theorem afterChar_eq_append {q c : Char} {t w u : Text} (h : afterChar (c :: t) = w ++ q :: u) :
    ∃ v, t = v ++ q :: u ∧ afterChar (c :: v) = w := by
  rw [afterChar] at h
  split at h
  next hlead =>
    have ht : t = t.takeWhile isContinuation ++ (w ++ q :: u) := by
      rw [← h, List.takeWhile_append_dropWhile]
    have hw : w.dropWhile isContinuation = w := by
      cases w with
      | nil => rfl
      | cons d w =>
        have hd := List.head?_dropWhile_not isContinuation t
        rw [h] at hd
        exact List.dropWhile_cons_of_neg (by simpa using hd)
    refine ⟨t.takeWhile isContinuation ++ w, by rw [List.append_assoc, ← ht], ?_⟩
    rw [afterChar, if_pos hlead,
      List.dropWhile_append_of_pos fun d hd => (List.mem_takeWhile_imp hd), hw]
  next hlead => exact ⟨w, h, if_neg hlead⟩

theorem like_append {l p : Text} {q : Char} (hpercent : q ≠ '%') (hunder : q ≠ '_')
    (hq : isContinuation q = false) (hself : ∀ b : Char, q.toLower = b.toLower → b = q)
    (hl : '%' ∉ l) {t : Text} :
    like (l ++ q :: p) t = true ↔ ∃ w u, t = w ++ q :: u ∧ like l w = true ∧ like p u = true := by
  induction l generalizing t with
  | nil =>
    cases t with
    | nil => simp [like, hpercent]
    | cons b t =>
      rw [List.nil_append, like, if_neg hpercent, if_neg hunder, Bool.and_eq_true,
        decide_eq_true_eq]
      constructor
      · rintro ⟨hb, h⟩
        exact ⟨[], t, by rw [hself b hb]; rfl, rfl, h⟩
      · rintro ⟨w, u, ht, hw, h⟩
        obtain rfl := like_nil_iff.mp hw
        obtain ⟨rfl, rfl⟩ := List.cons.inj ht
        exact ⟨rfl, h⟩
  | cons a l ih =>
    have ha : a ≠ '%' := fun heq => hl (heq ▸ List.mem_cons_self)
    have ih := fun t => @ih (fun h => hl (List.mem_cons_of_mem a h)) t
    have hnil : like (a :: l) [] = false := if_neg ha
    cases t with
    | nil =>
      rw [List.cons_append, like, if_neg ha]
      refine iff_of_false Bool.false_ne_true ?_
      rintro ⟨w, u, ht, -⟩
      exact List.append_ne_nil_of_right_ne_nil w (List.cons_ne_nil q u) ht.symm
    | cons b t =>
      have hcut : (∃ w u, b :: t = w ++ q :: u ∧ like (a :: l) w = true ∧ like p u = true) ↔
          ∃ w u, t = w ++ q :: u ∧ like (a :: l) (b :: w) = true ∧ like p u = true := by
        constructor
        · rintro ⟨w, u, ht, hw, hu⟩
          cases w with
          | nil =>
            rw [hnil] at hw
            cases hw
          | cons d w =>
            obtain ⟨rfl, rfl⟩ := List.cons.inj ht
            exact ⟨w, u, rfl, hw, hu⟩
        · rintro ⟨w, u, rfl, hw, hu⟩
          exact ⟨b :: w, u, rfl, hw, hu⟩
      rw [hcut, List.cons_append, like, if_neg ha]
      simp only [like, if_neg ha]
      split
      next =>
        rw [ih]
        constructor
        · rintro ⟨w, u, ht, hw, hu⟩
          obtain ⟨v, rfl, rfl⟩ := afterChar_eq_append ht
          exact ⟨v, u, rfl, hw, hu⟩
        · rintro ⟨w, u, rfl, hw, hu⟩
          exact ⟨afterChar (b :: w), u, afterChar_append hq b w u, hw, hu⟩
      next =>
        simp only [Bool.and_eq_true, ih, decide_eq_true_eq]
        constructor
        · rintro ⟨hab, w, u, ht, hw, hu⟩
          exact ⟨w, u, ht, ⟨hab, hw⟩, hu⟩
        · rintro ⟨w, u, ht, ⟨hab, hw⟩, hu⟩
          exact ⟨hab, w, u, ht, hw, hu⟩

theorem like_between {l : Text} {q : Char} (hpercent : q ≠ '%') (hunder : q ≠ '_')
    (hq : isContinuation q = false) (halpha : q.isAlpha = false) (hl : '%' ∉ l) {t : Text} :
    like ('%' :: q :: (l ++ [q, '%'])) t = true ↔ ∃ w, q :: w ++ [q] <:+: t ∧ like l w = true := by
  have hself : ∀ b : Char, q.toLower = b.toLower → b = q := fun b => eq_of_toLower halpha
  have hfirst : ∀ p u, like (q :: p) u = true ↔ ∃ v, u = q :: v ∧ like p v = true := by
    intro p u
    rw [← List.nil_append (q :: p), like_append hpercent hunder hq hself List.not_mem_nil]
    constructor
    · rintro ⟨w, v, rfl, hw, hv⟩
      exact ⟨v, by rw [like_nil_iff.mp hw]; rfl, hv⟩
    · rintro ⟨v, rfl, hv⟩
      exact ⟨[], v, rfl, rfl, hv⟩
  rw [like_percent, anyRest_iff]
  · constructor
    · rintro ⟨u, ⟨before, rfl⟩, hu⟩
      obtain ⟨v, rfl, hv⟩ := (hfirst _ _).mp hu
      obtain ⟨w, after, rfl, hw, -⟩ := (like_append hpercent hunder hq hself hl).mp hv
      exact ⟨w, ⟨before, after, by simp⟩, hw⟩
    · rintro ⟨w, ⟨before, after, rfl⟩, hw⟩
      refine ⟨q :: (w ++ q :: after), ⟨before, by simp⟩, (hfirst _ _).mpr ⟨_, rfl, ?_⟩⟩
      exact (like_append hpercent hunder hq hself hl).mpr ⟨w, after, rfl, hw, like_all after⟩
  · intro c t h
    obtain ⟨v, hv, -⟩ := (hfirst _ _).mp h
    rwa [(List.cons.inj hv).1]

end Like

section Search

def strstr (needle : Text) : Text → Option Text
  | [] => if needle = [] then some [] else none
  | c :: t => if needle.isPrefixOf (c :: t) then some (c :: t) else strstr needle t

theorem strstr_isSome {needle t : Text} : (strstr needle t).isSome ↔ needle <:+: t := by
  induction t with
  | nil =>
    rw [strstr, List.infix_nil]
    by_cases h : needle = [] <;> simp [h]
  | cons c t ih =>
    rw [strstr, List.infix_cons_iff, ← ih]
    by_cases h : needle <+: c :: t
    · rw [if_pos (List.isPrefixOf_iff_prefix.mpr h)]
      simp [h]
    · rw [if_neg (fun hp => h (List.isPrefixOf_iff_prefix.mp hp))]
      simp [h]

theorem strstr_suffix {needle t u : Text} (h : strstr needle t = some u) : u <:+ t := by
  induction t with
  | nil =>
    unfold strstr at h
    split at h
    · obtain rfl := Option.some.inj h
      exact List.suffix_refl _
    · exact absurd h (Option.some_ne_none u).symm
  | cons c t ih =>
    unfold strstr at h
    split at h
    · obtain rfl := Option.some.inj h
      exact List.suffix_refl _
    · exact (ih h).trans (List.suffix_cons c t)

def inner (sep : Char) (t : Text) : List Text := (t.splitOn sep).tail.dropLast

theorem infix_iff_mem_inner {sep : Char} {l : Text} (hl : sep ∉ l) (t : Text) :
    sep :: l ++ [sep] <:+: t ↔ l ∈ inner sep t := by
  constructor
  · rintro ⟨before, after, rfl⟩
    have hsplit : (before ++ (sep :: l ++ [sep]) ++ after).splitOn sep =
        before.splitOn sep ++ (l :: after.splitOn sep) := by
      simp only [List.append_assoc, List.cons_append, List.nil_append]
      rw [List.splitOn_append_cons_self, List.splitOn_append_cons_self_of_not_mem hl]
    rw [inner, hsplit, List.tail_append_of_ne_nil (List.splitOn_ne_nil sep before),
      List.dropLast_append_of_ne_nil (List.cons_ne_nil _ _),
      List.dropLast_cons_of_ne_nil (List.splitOn_ne_nil sep after)]
    exact List.mem_append_right _ List.mem_cons_self
  · intro hmem
    have hjoin : join sep (t.splitOn sep) = t := List.intercalate_splitOn sep
    cases hpieces : t.splitOn sep with
    | nil => exact absurd hpieces (List.splitOn_ne_nil sep t)
    | cons first rest =>
      rw [inner, hpieces, List.tail_cons] at hmem
      have hrest : rest ≠ [] := by
        rintro rfl
        exact absurd hmem List.not_mem_nil
      obtain ⟨xs, ys, hxs⟩ := List.append_of_mem hmem
      obtain ⟨last, hlast⟩ : ∃ last, rest = rest.dropLast ++ [last] :=
        ⟨_, (List.dropLast_append_getLast hrest).symm⟩
      have hall : first :: rest = (first :: xs) ++ ([l] ++ (ys ++ [last])) := by
        rw [hlast, hxs]
        simp
      rw [hpieces, hall, join_append sep (List.cons_ne_nil _ _) (by simp),
        join_append sep (List.cons_ne_nil _ _) (by simp)] at hjoin
      refine ⟨join sep (first :: xs), join sep (ys ++ [last]), Eq.trans ?_ hjoin⟩
      simp [join]

end Search

section Sql

def quote : Char := '\x27'

def escape (t : Text) : Text := t.flatMap fun c => if c = quote then [quote, quote] else [c]

def literal : Text → Option Text
  | [] => some []
  | [c] => if c = quote then none else some [c]
  | c :: d :: t =>
    if c = quote then
      if d = quote then (literal t).map (quote :: ·) else none
    else (literal (d :: t)).map (c :: ·)

def literalBody : Text → Option (Text × Text)
  | [] => none
  | [c] => if c = quote then some ([], []) else none
  | c :: d :: t =>
    if c = quote then
      if d = quote then (literalBody t).map fun r => (quote :: r.1, r.2) else some ([], d :: t)
    else (literalBody (d :: t)).map fun r => (c :: r.1, r.2)

def readLiteral : Text → Option (Text × Text)
  | [] => none
  | c :: t => if c = quote then literalBody t else none

theorem escape_append (t u : Text) : escape (t ++ u) = escape t ++ escape u := List.flatMap_append

theorem escape_cons {c : Char} (hc : c ≠ quote) (t : Text) : escape (c :: t) = c :: escape t := by
  rw [escape, List.flatMap_cons, if_neg hc]
  rfl

theorem escape_join {sep : Char} (hsep : sep ≠ quote) (ts : List Text) :
    escape (join sep ts) = join sep (ts.map escape) := by
  induction ts with
  | nil => rfl
  | cons t ts ih =>
    cases ts with
    | nil => simp [join]
    | cons u ts =>
      simp only [join, List.map_cons, List.intercalate_cons_cons] at ih ⊢
      rw [escape_append, escape_append, ih, escape_cons hsep]
      rfl

theorem literal_cons {c : Char} (hc : c ≠ quote) (t : Text) :
    literal (c :: t) = (literal t).map (c :: ·) := by
  cases t with
  | nil =>
    show (if c = quote then none else some [c]) = _
    rw [if_neg hc]
    rfl
  | cons d t => rw [literal, if_neg hc]

theorem literal_escape (t : Text) : literal (escape t) = some t := by
  induction t with
  | nil => rfl
  | cons c t ih =>
    by_cases hc : c = quote
    · rw [hc]
      show (if quote = quote then
        if quote = quote then (literal (escape t)).map (quote :: ·) else none else _) = _
      rw [if_pos rfl, if_pos rfl, ih]
      rfl
    · rw [escape_cons hc, literal_cons hc, ih]
      rfl

theorem literal_of_not_mem {t : Text} (h : quote ∉ t) : literal t = some t := by
  induction t with
  | nil => rfl
  | cons c t ih =>
    obtain ⟨hc, ht⟩ := not_or.mp (mt List.mem_cons.mpr h)
    rw [literal_cons (Ne.symm hc), ih ht]
    rfl

theorem length_literal {t u : Text} (h : literal t = some u) :
    t.length = u.length + u.count quote := by
  fun_induction literal t generalizing u with
  | case1 =>
    cases h
    rfl
  | case2 => cases h
  | case3 c hc =>
    cases h
    rw [List.count_eq_zero_of_not_mem (by simpa using Ne.symm hc)]
    rfl
  | case4 t ih =>
    obtain ⟨v, hv, rfl⟩ := Option.map_eq_some_iff.mp h
    rw [List.count_cons_self, List.length_cons, List.length_cons, List.length_cons, ih hv]
    omega
  | case5 d t hd => cases h
  | case6 c d t hc ih =>
    obtain ⟨v, hv, rfl⟩ := Option.map_eq_some_iff.mp h
    rw [List.count_cons_of_ne hc, List.length_cons, ih hv, List.length_cons]
    omega

theorem literal_eq_self {t : Text} : literal t = some t ↔ quote ∉ t := by
  refine ⟨fun h hmem => ?_, literal_of_not_mem⟩
  have hlength := length_literal h
  have hcount := List.count_pos_iff.mpr hmem
  omega

theorem literalBody_cons {c : Char} (hc : c ≠ quote) (t : Text) :
    literalBody (c :: t) = (literalBody t).map fun r => (c :: r.1, r.2) := by
  cases t with
  | nil =>
    show (if c = quote then some ([], []) else none) = _
    rw [if_neg hc]
    rfl
  | cons d t => rw [literalBody, if_neg hc]

theorem literalBody_quote {t : Text} (ht : t.head? ≠ some quote) :
    literalBody (quote :: t) = some ([], t) := by
  cases t with
  | nil => rfl
  | cons d t =>
    have hd : d ≠ quote := fun h => ht (congrArg some h)
    rw [literalBody, if_pos rfl, if_neg hd]

theorem readLiteral_escape (t : Text) {u : Text} (hu : u.head? ≠ some quote) :
    readLiteral (quote :: (escape t ++ quote :: u)) = some (t, u) := by
  rw [readLiteral, if_pos rfl]
  induction t with
  | nil => exact literalBody_quote hu
  | cons c t ih =>
    by_cases hc : c = quote
    · rw [hc]
      show literalBody (quote :: quote :: (escape t ++ quote :: u)) = _
      rw [literalBody, if_pos rfl, if_pos rfl, ih]
      rfl
    · rw [escape_cons hc, List.cons_append, literalBody_cons hc, ih]
      rfl

end Sql

end Text
