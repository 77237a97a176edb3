import SqliteMultimodal.Lib.Except
import SqliteMultimodal.Vec.Elements.Defs

universe u

namespace SqliteMultimodal.Vec.Elements

open Text Except

section Grammar

variable (N : Numerals)

def Blank (t : Text) : Prop := ∀ c ∈ t, c.isWhitespace = true

inductive Items : Text → List Text → Prop
  | last {a w b} (ha : Blank a) (hw : N.isNumeral w = true) (hb : Blank b) :
    Items (a ++ (w ++ b)) [w]
  | cons {a w b t ws} (ha : Blank a) (hw : N.isNumeral w = true) (hb : Blank b)
    (ht : Items t ws) : Items (a ++ (w ++ (b ++ ',' :: t))) (w :: ws)

def Strict (s : Text) (ws : List Text) : Prop :=
  ∃ a t b, Blank a ∧ Items N t ws ∧ Blank b ∧ s = a ++ '[' :: (t ++ ']' :: b)

inductive Run : Text → List Text → Prop
  | ended : Run [] []
  | closed (t) : Run (']' :: t) []
  | item {a w seps rest ws} (ha : Spaces a)
    (hw : Longest N.isNumeral (w ++ (seps ++ rest)) w)
    (hseps : ∀ c ∈ seps, isSeparator c = true) (hhead : ∀ c ∈ rest.head?, isSeparator c = false)
    (hrest : Run rest ws) : Run (a ++ (w ++ (seps ++ rest))) (w :: ws)

def Loose (s : Text) (ws : List Text) : Prop :=
  ∃ a t, Blank a ∧ Run N t ws ∧ ws ≠ [] ∧ s = a ++ '[' :: t

end Grammar

section Accepted

variable {α : Type u} (R : ElementReader α)

def Converts : List Text → List α → Prop := List.Forall₂ fun w x => R.convert w = .ok x

variable {R} {N : Numerals}

theorem Run.closed_of_head {t : Text} (h : t.head? = some ']') : Run N t [] := by
  cases t with
  | nil => cases h
  | cons c t =>
    obtain rfl := Option.some.inj h
    exact .closed t

theorem read_bracket (t : Text) : N.read (']' :: t) = none := by
  cases h : N.read (']' :: t) with
  | none => rfl
  | some r =>
    obtain ⟨w, rest⟩ := r
    obtain ⟨a, ha, heq, hlongest⟩ := read_spec h
    cases a with
    | cons c a =>
      obtain ⟨rfl, -⟩ := List.cons.inj heq
      exact absurd (ha ']' List.mem_cons_self) (by decide)
    | nil =>
      obtain ⟨c, cs, rfl⟩ := List.exists_cons_of_ne_nil (N.ne_nil w hlongest.2.1)
      obtain ⟨rfl, -⟩ := List.cons.inj heq
      exact absurd (N.chars _ hlongest.2.1 ']' List.mem_cons_self) (by decide)

theorem head_dropWhile (t : Text) :
    ∀ c ∈ (t.dropWhile isSeparator).head?, isSeparator c = false := by
  intro c hc
  have hhead := List.head?_dropWhile_not isSeparator t
  rw [Option.mem_def.mp hc] at hhead
  simpa using hhead

theorem dropWhile_seps {seps rest : Text} (hseps : ∀ c ∈ seps, isSeparator c = true)
    (hhead : ∀ c ∈ rest.head?, isSeparator c = false) :
    (seps ++ rest).dropWhile isSeparator = rest := by
  rw [List.dropWhile_append_of_pos hseps]
  cases rest with
  | nil => rfl
  | cons c rest => rw [List.dropWhile_cons_of_neg (by simp [hhead c rfl])]

theorem Run.eq_nil {t : Text} {ws : List Text} (h : Run N t ws) (ht : t.head? = some ']') :
    ws = [] := by
  cases h with
  | ended => cases ht
  | closed => rfl
  | item ha hw =>
    have hread := read_of_longest ha hw
    obtain ⟨u, hu⟩ := List.head?_eq_some_iff.mp ht
    rw [hu, read_bracket] at hread
    cases hread

theorem parseElements_nil (k : Nat) (x : List α) : parseElements R k x [] = .ok x := by
  cases k <;> rfl

theorem parseElements_item {k : Nat} {x : List α} {t rest w : Text} (ht : t ≠ [])
    (hread : R.numerals.read t = some (w, rest)) :
    parseElements R (k + 1) x t = R.convert w >>= fun res =>
      if (rest.dropWhile isSeparator).head? = some ']' then .ok (x ++ [res])
      else parseElements R k (x ++ [res]) (rest.dropWhile isSeparator) := by
  rw [parseElements, if_neg ht, hread]

theorem parseElements_closed {k : Nat} {x y : List α} {t : Text} (ht : t ≠ [])
    (hread : R.numerals.read t = none) :
    parseElements R (k + 1) x t = .ok y ↔ t.head? = some ']' ∧ x = y := by
  rw [parseElements, if_neg ht, hread]
  by_cases hhead : t.head? = some ']'
  · simp [hhead]
  · simp [hhead]

theorem parseElements_run {k : Nat} {x y : List α} {t : Text} (hk : t.length ≤ k)
    (h : parseElements R k x t = .ok y) :
    ∃ ws xs, Run R.numerals t ws ∧ Converts R ws xs ∧ y = x ++ xs := by
  induction k generalizing x t with
  | zero =>
    obtain rfl := List.length_eq_zero_iff.mp (Nat.le_zero.mp hk)
    cases h
    exact ⟨[], [], .ended, .nil, (List.append_nil _).symm⟩
  | succ k ih =>
    by_cases ht : t = []
    · subst ht
      cases h
      exact ⟨[], [], .ended, .nil, (List.append_nil _).symm⟩
    · cases hread : R.numerals.read t with
      | none =>
        obtain ⟨hhead, rfl⟩ := (parseElements_closed ht hread).mp h
        exact ⟨[], [], .closed_of_head hhead, .nil, (List.append_nil _).symm⟩
      | some r =>
        obtain ⟨w, rest⟩ := r
        rw [parseElements_item ht hread, bind_eq_ok] at h
        obtain ⟨v, hv, h⟩ := h
        obtain ⟨a, ha, rfl, hlongest⟩ := read_spec hread
        have hsplit := List.takeWhile_append_dropWhile (p := isSeparator) (l := rest)
        have hitem : ∀ ws, Run R.numerals (rest.dropWhile isSeparator) ws →
            Run R.numerals (a ++ (w ++ rest)) (w :: ws) := fun ws hws => by
          rw [← hsplit] at hlongest ⊢
          exact .item ha hlongest (fun c hc => List.mem_takeWhile_imp hc) (head_dropWhile rest) hws
        split at h
        next hhead =>
          cases h
          exact ⟨[w], [v], hitem [] (.closed_of_head hhead), .cons hv .nil, rfl⟩
        next =>
          have hlt : (rest.dropWhile isSeparator).length ≤ k := by
            have hle := (List.dropWhile_suffix isSeparator (l := rest)).length_le
            have hpos := List.length_pos_of_ne_nil (R.numerals.ne_nil w hlongest.2.1)
            simp only [List.length_append] at hk
            omega
          obtain ⟨ws, xs, hrun, hconverts, rfl⟩ := ih hlt h
          exact ⟨w :: ws, v :: xs, hitem ws hrun, .cons hv hconverts, by simp⟩

theorem parseElements_of_run {k : Nat} {x xs : List α} {t : Text} {ws : List Text}
    (hk : t.length ≤ k) (hrun : Run R.numerals t ws) (hconverts : Converts R ws xs) :
    parseElements R k x t = .ok (x ++ xs) := by
  induction hrun generalizing k x xs with
  | ended =>
    cases hconverts
    rw [parseElements_nil, List.append_nil]
  | closed t =>
    obtain ⟨k, rfl⟩ := Nat.exists_eq_add_of_lt (Nat.lt_of_lt_of_le (Nat.succ_pos _) hk)
    cases hconverts
    rw [Nat.zero_add, (parseElements_closed (List.cons_ne_nil _ _) (read_bracket t)).mpr ⟨rfl, rfl⟩,
      List.append_nil]
  | @item a w seps rest ws ha hw hseps hhead hrest ih =>
    obtain ⟨c, cs, hc⟩ := List.exists_cons_of_ne_nil (R.numerals.ne_nil w hw.2.1)
    have hpos : 0 < (a ++ (w ++ (seps ++ rest))).length := by
      simp only [hc, List.length_append, List.length_cons]
      omega
    obtain ⟨k, rfl⟩ := Nat.exists_eq_add_of_lt (Nat.lt_of_lt_of_le hpos hk)
    have hlt : rest.length ≤ 0 + k := by
      simp only [List.length_append, hc, List.length_cons] at hk
      omega
    cases hconverts with
    | @cons _ v _ xs hv hconverts =>
      rw [parseElements_item (List.ne_nil_of_length_pos hpos) (read_of_longest ha hw), hv, ok_bind,
        dropWhile_seps hseps hhead]
      split
      next hclosed =>
        obtain rfl := hrest.eq_nil hclosed
        cases hconverts
        rfl
      next => rw [ih hlt hconverts, List.append_assoc, List.singleton_append]

theorem parseArray_iff {s : Text} {xs : List α} :
    parseArray R s = .ok xs ↔ ∃ ws, Loose R.numerals s ws ∧ Converts R ws xs := by
  unfold parseArray
  constructor
  · intro h
    split at h
    next => cases h
    next =>
      split at h
      next => cases h
      next c t hdrop =>
        split at h
        next hc =>
          subst hc
          obtain ⟨x, hx, h⟩ := bind_eq_ok.mp h
          obtain ⟨ws, xs', hrun, hconverts, rfl⟩ := parseElements_run le_rfl hx
          split at h
          next hpos =>
            cases h
            refine ⟨ws, ⟨s.takeWhile Char.isWhitespace, t, fun c hc => List.mem_takeWhile_imp hc,
              hrun, ?_, ?_⟩, hconverts⟩
            · rintro rfl
              cases hconverts
              exact absurd hpos (Nat.lt_irrefl 0)
            · rw [← hdrop, List.takeWhile_append_dropWhile]
          next => cases h
        next => cases h
  · rintro ⟨ws, ⟨a, t, ha, hrun, hws, rfl⟩, hconverts⟩
    have hdrop : (a ++ '[' :: t).dropWhile Char.isWhitespace = '[' :: t := by
      rw [List.dropWhile_append_of_pos ha]
      rfl
    have hpos : 0 < xs.length := by
      rw [← hconverts.length_eq]
      exact List.length_pos_of_ne_nil hws
    rw [if_neg (by simp), hdrop]
    simp only [if_true]
    rw [parseElements_of_run le_rfl hrun hconverts, ok_bind, List.nil_append, if_pos hpos]

theorem Loose.unique {s : Text} {ws us : List Text} (h : Loose N s ws) (h' : Loose N s us) :
    ws = us := by
  have hwords (vs : List Text) : Converts (⟨N, Except.ok⟩ : ElementReader Text) vs vs :=
    List.forall₂_same.mpr fun _ _ => rfl
  have hws := parseArray_iff.mpr ⟨ws, h, hwords ws⟩
  have hus := parseArray_iff.mpr ⟨us, h', hwords us⟩
  exact Except.ok.inj (hws.symm.trans hus)

end Accepted

section Strict

variable {N : Numerals} {a t b : Text} {ws : List Text}

theorem blank_nil : Blank [] := fun _ h => by cases h

theorem Blank.spaces (h : Blank a) : Spaces a := fun c hc => by
  simp [isSpace, h c hc]

theorem isSeparator_of_isNumeralChar {c : Char} (h : isNumeralChar c = true) :
    isSeparator c = false := by
  have hspace := isSpace_of_isNumeralChar h
  simp only [isSpace, Bool.or_eq_false_iff] at hspace
  rw [isSeparator, hspace.1.1, Bool.false_or, decide_eq_false_iff_not]
  rintro rfl
  cases h

theorem isNumeralChar_of_isWhitespace {c : Char} (h : c.isWhitespace = true) :
    isNumeralChar c = false := by
  cases hc : isNumeralChar c with
  | false => rfl
  | true =>
    have hspace := isSpace_of_isNumeralChar hc
    simp [isSpace, h] at hspace

theorem head_blank {d : Char} (hb : Blank b) (hd : isNumeralChar d = false) (u : Text) :
    ∀ c ∈ (b ++ d :: u).head?, isNumeralChar c = false := by
  cases b with
  | nil => simpa using hd
  | cons c b => simpa using isNumeralChar_of_isWhitespace (hb c List.mem_cons_self)

theorem head_numeral {w : Text} (hw : N.isNumeral w = true) (u : Text) :
    ∀ c ∈ (w ++ u).head?, isSeparator c = false := by
  obtain ⟨c, cs, rfl⟩ := List.exists_cons_of_ne_nil (N.ne_nil w hw)
  simpa using isSeparator_of_isNumeralChar (N.chars _ hw c List.mem_cons_self)

theorem Blank.separators (h : Blank a) : ∀ c ∈ a, isSeparator c = true := fun c hc => by
  simp [isSeparator, h c hc]

theorem Items.run (h : Items N t ws) (k : Text) :
    ∃ a u, Blank a ∧ t = a ++ u ∧ (∀ c ∈ (u ++ ']' :: k).head?, isSeparator c = false) ∧
      Run N (u ++ ']' :: k) ws := by
  induction h with
  | @last a w b ha hw hb =>
    refine ⟨a, w ++ b, ha, rfl, ?_, ?_⟩
    · rw [List.append_assoc]
      exact head_numeral hw _
    · have hlongest := longest_of_head hw (head_blank (d := ']') hb rfl k)
      rw [List.append_assoc]
      refine .item (a := []) blank_nil.spaces hlongest hb.separators ?_ (.closed k)
      simp [isSeparator]
  | @cons a w b t ws ha hw hb ht ih =>
    obtain ⟨a', u, ha', rfl, hhead, hrun⟩ := ih
    refine ⟨a, w ++ (b ++ ',' :: (a' ++ u)), ha, rfl, ?_, ?_⟩
    · rw [List.append_assoc]
      exact head_numeral hw _
    · have hlongest := longest_of_head hw
        (head_blank (d := ',') hb rfl (a' ++ (u ++ ']' :: k)))
      have hseps : ∀ c ∈ b ++ ',' :: a', isSeparator c = true :=
        List.forall_mem_append.mpr
          ⟨hb.separators, List.forall_mem_cons.mpr ⟨rfl, ha'.separators⟩⟩
      have happend : w ++ (b ++ ',' :: (a' ++ u)) ++ ']' :: k =
          w ++ ((b ++ ',' :: a') ++ (u ++ ']' :: k)) := by simp
      have happend' : b ++ ',' :: (a' ++ (u ++ ']' :: k)) =
          (b ++ ',' :: a') ++ (u ++ ']' :: k) := by simp
      rw [happend'] at hlongest
      rw [happend]
      exact .item (a := []) blank_nil.spaces hlongest hseps hhead hrun

theorem Items.ne_nil (h : Items N t ws) : ws ≠ [] := by
  cases h <;> exact List.cons_ne_nil _ _

theorem Run.blank (h : Run N t ws) (hws : ws ≠ []) (ha : Blank a) : Run N (a ++ t) ws := by
  cases h with
  | ended => exact absurd rfl hws
  | closed => exact absurd rfl hws
  | @item a' w seps rest ws ha' hw hseps hhead hrest =>
    rw [← List.append_assoc]
    exact .item (List.forall_mem_append.mpr ⟨ha.spaces, ha'⟩) hw hseps hhead hrest

theorem Strict.loose {s : Text} (h : Strict N s ws) : Loose N s ws := by
  obtain ⟨a, t, b, ha, hitems, -, rfl⟩ := h
  obtain ⟨a', u, ha', rfl, -, hrun⟩ := hitems.run b
  refine ⟨a, a' ++ (u ++ ']' :: b), ha, hrun.blank hitems.ne_nil ha', hitems.ne_nil, ?_⟩
  rw [List.append_assoc]

end Strict

section Exact

variable {α : Type u} (R : ElementReader α) (s : Text)

def ParsesExactly : Prop :=
  ∀ xs, parseArray R s = .ok xs ↔ ∃ ws, Strict R.numerals s ws ∧ Converts R ws xs

def NoLooseArray : Prop :=
  ∀ ws xs, Loose R.numerals s ws → Converts R ws xs → Strict R.numerals s ws

variable {R s}

theorem parsesExactly_iff : ParsesExactly R s ↔ NoLooseArray R s := by
  constructor
  · intro h ws xs hloose hconverts
    obtain ⟨us, hstrict, -⟩ := (h xs).mp (parseArray_iff.mpr ⟨ws, hloose, hconverts⟩)
    exact hloose.unique hstrict.loose ▸ hstrict
  · intro h xs
    rw [parseArray_iff]
    constructor
    · rintro ⟨ws, hloose, hconverts⟩
      exact ⟨ws, h ws xs hloose hconverts, hconverts⟩
    · rintro ⟨ws, hstrict, hconverts⟩
      exact ⟨ws, hstrict.loose, hconverts⟩

end Exact

section Vectors

variable {F : Type u} (floats : Floats F)

def FloatOf (number : Text) (x : F) : Prop := floats.ofText number = some x

def Int8Of (number : Text) (x : BitVec 8) : Prop :=
  -128 ≤ integerOf number ∧ integerOf number ≤ 127 ∧ x = BitVec.ofInt 8 (integerOf number)

theorem convert_float {number : Text} {x : F} :
    (floatReader floats).convert number = .ok x ↔ FloatOf floats number x := by
  simp only [floatReader, FloatOf]
  cases floats.ofText number with
  | none => simp
  | some y => simp

theorem convert_int8 {number : Text} {x : BitVec 8} :
    int8Reader.convert number = .ok x ↔ Int8Of number x := by
  simp only [int8Reader, Int8Of]
  generalize integerOf number = n
  split
  next h =>
    constructor
    · intro h'
      cases h'
    · rintro ⟨h₁, h₂, -⟩
      omega
  next =>
    split
    next h =>
      constructor
      · intro h'
        cases h'
      · rintro ⟨h₁, h₂, -⟩
        omega
    next h =>
      rw [Except.ok.injEq]
      constructor
      · rintro rfl
        exact ⟨by omega, by omega, rfl⟩
      · rintro ⟨-, -, rfl⟩
        rfl

def VectorsExact (s : Text) : Prop :=
  (∀ xs, fvecFromValue floats (.text s) = .ok xs ↔
    ∃ ws, Strict doubles s ws ∧ List.Forall₂ (FloatOf floats) ws xs) ∧
  ∀ xs, int8VecFromValue (.text s) = .ok xs ↔
    ∃ ws, Strict integers s ws ∧ List.Forall₂ Int8Of ws xs

/-- The text is a JSON array where it is an array of numbers with any separators or none, or with
another end. -/
theorem vectorsExact_iff (s : Text) : VectorsExact floats s ↔
    (∀ ws xs, Loose doubles s ws → List.Forall₂ (FloatOf floats) ws xs → Strict doubles s ws) ∧
      ∀ ws xs, Loose integers s ws → List.Forall₂ Int8Of ws xs → Strict integers s ws := by
  have hfloat : Converts (floatReader floats) = List.Forall₂ (FloatOf floats) :=
    congrArg List.Forall₂ (funext₂ fun _ _ => propext (convert_float floats))
  have hint8 : Converts int8Reader = List.Forall₂ Int8Of :=
    congrArg List.Forall₂ (funext₂ fun _ _ => propext convert_int8)
  have hfvec := parsesExactly_iff (R := floatReader floats) (s := s)
  have hint8vec := parsesExactly_iff (R := int8Reader) (s := s)
  simp only [ParsesExactly, NoLooseArray, hfloat] at hfvec
  simp only [ParsesExactly, NoLooseArray, hint8] at hint8vec
  exact and_congr hfvec hint8vec

def wholeFloats : Floats Int where
  ofText number := some (integerOf number)
  ofBits bits := bits.toInt
  isnan _ := false
  positive x := 0 < x
  format := ofInt

theorem Strict.bracket_mem {N : Numerals} {s : Text} {ws : List Text} (h : Strict N s ws) :
    ']' ∈ s := by
  obtain ⟨a, t, b, -, -, -, rfl⟩ := h
  simp

theorem unclosed_array : ¬∀ s, VectorsExact wholeFloats s := by
  intro h
  have hparse : int8VecFromValue (.text "[1 2".toList) = .ok [1#8, 2#8] := rfl
  obtain ⟨ws, hstrict, -⟩ := ((h "[1 2".toList).2 _).mp hparse
  exact absurd hstrict.bracket_mem (by decide)

end Vectors

section RoundTrip

variable {F : Type u} (floats : Floats F)

theorem foldl_separated (f : Nat → Text) (n : Nat) :
    (List.range (n + 1)).foldl (fun str i => (if i ≠ 0 then str ++ [','] else str) ++ f i) ['['] =
      '[' :: join ',' ((List.range (n + 1)).map f) := by
  induction n with
  | zero => simp [List.range_succ, join]
  | succ n ih =>
    rw [List.range_succ, List.foldl_append, ih, List.map_append,
      join_append ',' (by simp) (by simp)]
    simp [join]

theorem vecToJson_eq (vector : Vector F) (h : vector.dimensions ≠ 0) :
    vecToJson floats vector = '[' ::
      (join ',' ((List.range vector.dimensions).map (appendElement floats vector)) ++ [']']) := by
  obtain ⟨n, hn⟩ := Nat.exists_eq_succ_of_ne_zero h
  rw [vecToJson, hn, foldl_separated]
  rfl

theorem items_join {N : Numerals} {ws : List Text} (hws : ∀ w ∈ ws, N.isNumeral w = true)
    (hne : ws ≠ []) : Items N (join ',' ws) ws := by
  induction ws with
  | nil => exact absurd rfl hne
  | cons w ws ih =>
    have hw := hws w List.mem_cons_self
    by_cases h : ws = []
    · subst h
      have hjoin : join ',' [w] = [] ++ (w ++ []) := by simp [join]
      rw [hjoin]
      exact .last blank_nil hw blank_nil
    · rw [join_cons ',' w h]
      exact .cons (a := []) (b := []) blank_nil hw blank_nil
        (ih (fun u hu => hws u (List.mem_cons_of_mem w hu)) h)

/-- What is shown of an int8 vector is read as that vector. -/
theorem int8_round_trip (v : List (BitVec 8)) (hv : v ≠ []) :
    int8VecFromValue (.text (vecToJson floats (.int8 v))) = .ok v := by
  have hdim : (Vector.int8 v : Vector F).dimensions ≠ 0 :=
    Nat.ne_of_gt (List.length_pos_of_ne_nil hv)
  have hmap : (List.range v.length).map (appendElement floats (.int8 v)) =
      v.map fun x => ofInt x.toInt := by
    refine List.ext_getElem (by simp) fun i hi hi' => ?_
    have hi : i < v.length := by simpa using hi'
    simp [appendElement, hi]
  refine parseArray_iff.mpr ⟨v.map fun x => ofInt x.toInt, Strict.loose ?_, ?_⟩
  · refine ⟨[], join ',' (v.map fun x => ofInt x.toInt), [], blank_nil, items_join ?_ ?_,
      blank_nil, ?_⟩
    · intro w hw
      obtain ⟨x, -, rfl⟩ := List.mem_map.mp hw
      exact isInteger_ofInt x.toInt
    · simpa using hv
    · rw [vecToJson_eq floats _ hdim, ← hmap]
      rfl
  · refine List.forall₂_map_left_iff.mpr (List.forall₂_same.mpr fun x _ => convert_int8.mpr ?_)
    have hlt := BitVec.toInt_lt (x := x)
    have hle := BitVec.le_toInt (x := x)
    rw [Int8Of, integerOf_ofInt, BitVec.ofInt_toInt]
    exact ⟨by simpa using hle, by simp at hlt; omega, rfl⟩

theorem int8_round_trip_extremes :
    int8VecFromValue (.text (vecToJson wholeFloats (.int8 [128#8, 0#8, 127#8]))) =
      .ok [128#8, 0#8, 127#8] :=
  int8_round_trip wholeFloats _ (by decide)

end RoundTrip

end SqliteMultimodal.Vec.Elements
