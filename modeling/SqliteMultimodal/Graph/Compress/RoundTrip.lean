import SqliteMultimodal.Graph.Compress.Dictionary

namespace SqliteMultimodal.Graph.Compress

section Pairs

inductive Pairs : Text → Prop
  | last {v : Text} (hv : '"' ∉ v) : Pairs (v ++ ['"', '\x7d'])
  | pair {v t : Text} (hv : '"' ∉ v) (ht : Pairs t) : Pairs (v ++ '"' :: '"' :: t)

namespace Pairs

variable {c : Char} {t rest : Text}

theorem ne_nil (h : Pairs t) : t ≠ [] := by
  cases h <;> simp

theorem tail (h : Pairs (c :: t)) (hc : c ≠ '"') : Pairs t := by
  generalize ht : c :: t = s at h
  cases h with
  | @last v hv =>
    cases v with
    | nil => exact absurd (List.cons.inj ht).1 hc
    | cons d v =>
      rw [(List.cons.inj ht).2]
      exact .last (List.not_mem_of_not_mem_cons hv)
  | @pair v u hv hu =>
    cases v with
    | nil => exact absurd (List.cons.inj ht).1 hc
    | cons d v =>
      rw [(List.cons.inj ht).2]
      exact .pair (List.not_mem_of_not_mem_cons hv) hu

theorem string (h : Pairs t) {x : Text} (hread : Json.string t = some (x, rest)) : Pairs rest := by
  cases h with
  | @last v hv =>
    cases v with
    | nil => simp [Json.string, Json.scan] at hread
    | cons d v =>
      rw [List.cons_append, Json.string] at hread
      · exact absurd hread (Option.some_ne_none _).symm
      · rintro u heq
        exact hv (by rw [(List.cons.inj heq).1]; exact List.mem_cons_self)
  | @pair v u hv hu =>
    cases v with
    | nil =>
      simp only [List.nil_append, Json.string, Json.scan, if_true, Option.some.injEq,
        Prod.mk.injEq] at hread
      rwa [← hread.2]
    | cons d v =>
      rw [List.cons_append, Json.string] at hread
      · exact absurd hread (Option.some_ne_none _).symm
      · rintro u heq
        exact hv (by rw [(List.cons.inj heq).1]; exact List.mem_cons_self)

theorem dropWhile (h : Pairs t) {p : Char → Bool} (hp : p '"' = false) : Pairs (t.dropWhile p) := by
  induction t with
  | nil => exact absurd rfl h.ne_nil
  | cons c t ih =>
    rw [List.dropWhile_cons]
    split
    next hc =>
      refine ih (h.tail ?_)
      rintro rfl
      rw [hp] at hc
      exact Bool.false_ne_true hc
    next => exact h

theorem skip (h : Pairs t) : Pairs (Json.skip t) := h.dropWhile rfl

section Number

variable {x : Text}

theorem digits (h : Pairs t) (hread : Json.digits t = some (x, rest)) : Pairs rest := by
  unfold Json.digits at hread
  split at hread
  next => exact absurd hread (Option.some_ne_none _).symm
  next =>
    rw [← (Prod.mk.inj (Option.some.inj hread)).2]
    exact h.dropWhile rfl

theorem sign (h : Pairs t) : Pairs (Json.sign t).2 := by
  unfold Json.sign
  split
  next => exact h.tail (by decide)
  next => exact h

theorem integer (h : Pairs t) (hread : Json.integer t = some (x, rest)) : Pairs rest := by
  unfold Json.integer at hread
  split at hread
  next =>
    rw [← (Prod.mk.inj (Option.some.inj hread)).2]
    exact h.tail (by decide)
  next => exact h.digits hread

theorem fraction (h : Pairs t) (hread : Json.fraction t = some (x, rest)) : Pairs rest := by
  unfold Json.fraction at hread
  split at hread
  next =>
    obtain ⟨r, hdigits, heq⟩ := Option.map_eq_some_iff.mp hread
    rw [← (Prod.mk.inj heq).2]
    exact (h.tail (by decide)).digits hdigits
  next =>
    rw [← (Prod.mk.inj (Option.some.inj hread)).2]
    exact h

theorem exponentSign (h : Pairs t) : Pairs (Json.exponentSign t).2 := by
  unfold Json.exponentSign
  split
  next => exact h.tail (by decide)
  next => exact h.tail (by decide)
  next => exact h

theorem exponent (h : Pairs t) (hread : Json.exponent t = some (x, rest)) : Pairs rest := by
  unfold Json.exponent at hread
  split at hread
  next => exact absurd rfl h.ne_nil
  next c t =>
    split at hread
    next hc =>
      have hquote : c ≠ '"' := by
        rintro rfl
        exact absurd hc (by decide)
      obtain ⟨r, hdigits, heq⟩ := Option.map_eq_some_iff.mp hread
      rw [← (Prod.mk.inj heq).2]
      exact (h.tail hquote).exponentSign.digits hdigits
    next =>
      rw [← (Prod.mk.inj (Option.some.inj hread)).2]
      exact h

theorem number (h : Pairs t) (hread : Json.number t = some (x, rest)) : Pairs rest := by
  simp only [Json.number, Option.bind_eq_bind, Option.bind_eq_some_iff, Option.pure_def,
    Option.some.injEq, Prod.mk.injEq, Prod.exists] at hread
  obtain ⟨i, t₁, hinteger, f, t₂, hfraction, e, t₃, hexponent, -, rfl⟩ := hread
  exact ((h.sign.integer hinteger).fraction hfraction).exponent hexponent

end Number

theorem scalar (h : Pairs t) {x : Json.Scalar} (hread : Json.scalar t = some (x, rest)) :
    Pairs rest := by
  unfold Json.scalar at hread
  split at hread
  next u =>
    obtain ⟨r, hscan, heq⟩ := Option.map_eq_some_iff.mp hread
    rw [← (Prod.mk.inj heq).2]
    exact h.string (x := r.1) hscan
  next =>
    rw [← (Prod.mk.inj (Option.some.inj hread)).2]
    exact (((h.tail (by decide)).tail (by decide)).tail (by decide)).tail (by decide)
  next =>
    rw [← (Prod.mk.inj (Option.some.inj hread)).2]
    exact (((h.tail (by decide)).tail (by decide)).tail (by decide)).tail (by decide)
  next =>
    rw [← (Prod.mk.inj (Option.some.inj hread)).2]
    exact ((((h.tail (by decide)).tail (by decide)).tail (by decide)).tail (by decide)).tail
      (by decide)
  next =>
    obtain ⟨r, hnumber, heq⟩ := Option.map_eq_some_iff.mp hread
    rw [← (Prod.mk.inj heq).2]
    exact h.number (x := r.1) hnumber

theorem value (h : Pairs t) {x : Json.Scalar} {u : Text} (hcolon : Json.skip t = ':' :: u)
    (hread : Json.scalar (Json.skip u) = some (x, rest)) : Pairs rest := by
  have hskip := h.skip
  rw [hcolon] at hskip
  exact (hskip.tail (by decide)).skip.scalar hread

theorem member (h : Pairs t) {x : Text × Json.Scalar} (hread : Json.member t = some (x, rest)) :
    Pairs rest := by
  simp only [Json.member, Option.bind_eq_bind, Option.bind_eq_some_iff, Prod.exists] at hread
  obtain ⟨key, u, hkey, hread⟩ := hread
  split at hread
  next heq =>
    simp only [Option.bind_eq_some_iff, Option.pure_def, Option.some.injEq, Prod.mk.injEq,
      Prod.exists] at hread
    obtain ⟨v, w, hvalue, -, rfl⟩ := hread
    exact (h.string hkey).value heq hvalue
  next => exact absurd hread (Option.some_ne_none _).symm

theorem items {n : Nat} {xs : List (Text × Json.Scalar)}
    (hmember : ∀ x u, Json.member (Json.skip t) = some (x, u) → Pairs u)
    (hread : Json.items Json.member '\x7d' n t = some (xs, rest)) : Pairs rest := by
  induction n generalizing t xs with
  | zero => exact absurd hread (Option.some_ne_none _).symm
  | succ n ih =>
    simp only [Json.items, Option.bind_eq_bind, Option.bind_eq_some_iff, Prod.exists] at hread
    obtain ⟨key, value, u, hx, hread⟩ := hread
    have hu := (hmember _ u hx).skip
    split at hread
    next => exact absurd hread (Option.some_ne_none _).symm
    next c v heq =>
      rw [heq] at hu
      split at hread
      next hcomma =>
        have hv := hu.tail (by rw [hcomma]; decide)
        simp only [Option.bind_eq_some_iff, Option.pure_def, Option.some.injEq, Prod.mk.injEq,
          Prod.exists] at hread
        obtain ⟨ys, w, hrest, -, rfl⟩ := hread
        exact ih (fun x u hx => hv.skip.member hx) hrest
      next =>
        split at hread
        next hclose =>
          rw [← (Prod.mk.inj (Option.some.inj hread)).2]
          exact hu.tail (by rw [hclose]; decide)
        next => exact absurd hread (Option.some_ne_none _).symm

end Pairs

theorem rest_of_map {o : Option (Text × Text)} {f : Text → Text} {x rest : Text}
    (h : (o.map fun r => (f r.1, r.2)) = some (x, rest)) : ∃ y, o = some (y, rest) := by
  obtain ⟨⟨y, u⟩, ho, heq⟩ := Option.map_eq_some_iff.mp h
  rw [← (Prod.mk.inj heq).2]
  exact ⟨y, ho⟩

theorem scan_to_quote {v w x rest : Text} (hv : '"' ∉ v) {high : Option Nat} {mode : Json.Mode}
    (hread : Json.scan high mode (v ++ '"' :: w) = some (x, rest)) :
    rest = w ∨ ∃ y, Json.scan none .plain w = some (y, rest) := by
  induction v generalizing high mode x with
  | nil =>
    cases mode with
    | plain =>
      rw [List.nil_append, Json.scan, if_pos rfl] at hread
      exact Or.inl (Prod.mk.inj (Option.some.inj hread)).2.symm
    | escape => exact Or.inr (rest_of_map (f := fun y => Json.alone high ++ '"' :: y) hread)
    | hex left acc => exact absurd hread (Option.some_ne_none _).symm
  | cons c v ih =>
    obtain ⟨hc, hv⟩ := not_or.mp (List.mem_cons.not.mp hv)
    rw [List.cons_append] at hread
    cases mode with
    | plain =>
      rw [Json.scan, if_neg (Ne.symm hc)] at hread
      split at hread
      next => exact ih hv hread
      next =>
        split at hread
        next => exact absurd hread (Option.some_ne_none _).symm
        next =>
          obtain ⟨y, hy⟩ := rest_of_map (f := fun y => Json.alone high ++ c :: y) hread
          exact ih hv hy
    | escape =>
      rw [Json.scan] at hread
      split at hread
      next => exact ih hv hread
      next =>
        obtain ⟨d, -, hread⟩ := Option.bind_eq_some_iff.mp hread
        obtain ⟨y, hy⟩ := rest_of_map (f := fun y => Json.alone high ++ d :: y) hread
        exact ih hv hy
    | hex left acc =>
      rw [Json.scan] at hread
      obtain ⟨digit, -, hread⟩ := Option.bind_eq_some_iff.mp hread
      cases left with
      | succ left => exact ih hv hread
      | zero =>
        cases high with
        | none =>
          simp only at hread
          split at hread
          next => exact ih hv hread
          next => exact (rest_of_map hread).elim fun y => ih hv
        | some h =>
          simp only at hread
          split at hread
          next => exact (rest_of_map hread).elim fun y => ih hv
          next =>
            split at hread
            next => exact (rest_of_map hread).elim fun y => ih hv
            next => exact (rest_of_map hread).elim fun y => ih hv

theorem pairs_of_values {v : Text} (hv : '"' ∉ v) {vs : List Text} (hvs : ∀ v ∈ vs, '"' ∉ v) :
    Pairs (v ++ '"' :: (vs.flatMap quoted ++ ['\x7d'])) := by
  induction vs generalizing v with
  | nil => exact .last hv
  | cons u vs ih =>
    obtain ⟨hu, hvs⟩ := List.forall_mem_cons.mp hvs
    have h := Pairs.pair hv (ih hu hvs)
    simpa [quoted] using h

theorem member_values {v : Text} (hv : '"' ∉ v) {vs : List Text} (hvs : ∀ v ∈ vs, '"' ∉ v)
    {x : Text × Json.Scalar} {rest : Text}
    (hread : Json.member ('"' :: (v ++ '"' :: (vs.flatMap quoted ++ ['\x7d']))) = some (x, rest)) :
    Pairs rest := by
  simp only [Json.member, Option.bind_eq_bind, Option.bind_eq_some_iff, Prod.exists] at hread
  obtain ⟨key, u, hkey, hread⟩ := hread
  split at hread
  next w hcolon =>
    simp only [Option.bind_eq_some_iff, Option.pure_def, Option.some.injEq, Prod.mk.injEq,
      Prod.exists] at hread
    obtain ⟨value, rest', hvalue, -, rfl⟩ := hread
    have hpairs : Pairs u := by
      obtain rfl | ⟨y, hy⟩ := scan_to_quote hv hkey
      · cases vs with
        | nil =>
          rw [List.flatMap_nil, List.nil_append, Json.skip_cons rfl] at hcolon
          exact absurd (List.cons.inj hcolon).1 (by decide)
        | cons v₂ vs =>
          rw [List.flatMap_cons, quoted, List.append_assoc, List.append_assoc, List.cons_append,
            Json.skip_cons rfl] at hcolon
          exact absurd (List.cons.inj hcolon).1 (by decide)
      · cases vs with
        | nil => exact absurd hy (Option.some_ne_none _).symm
        | cons v₂ vs =>
          obtain ⟨hv₂, hvs⟩ := List.forall_mem_cons.mp hvs
          have htext : (v₂ :: vs).flatMap quoted ++ ['\x7d'] =
              '"' :: (v₂ ++ '"' :: (vs.flatMap quoted ++ ['\x7d'])) := by
            simp [quoted]
          rw [htext, Json.scan, if_pos rfl] at hy
          rw [← (Prod.mk.inj (Option.some.inj hy)).2]
          exact pairs_of_values hv₂ hvs
    exact hpairs.value hcolon hvalue
  next => exact absurd hread (Option.some_ne_none _).symm

theorem object_values {vs : List Text} (hvs : ∀ v ∈ vs, '"' ∉ v) {ms : List (Text × Json.Scalar)}
    (hread : Json.object ('\x7b' :: vs.flatMap quoted ++ ['\x7d']) = some ms) : vs = [] := by
  cases vs with
  | nil => rfl
  | cons v vs =>
    obtain ⟨hv, hvs⟩ := List.forall_mem_cons.mp hvs
    have htext : '\x7b' :: (v :: vs).flatMap quoted ++ ['\x7d'] =
        '\x7b' :: '"' :: (v ++ '"' :: (vs.flatMap quoted ++ ['\x7d'])) := by
      simp [quoted]
    have hrest : ∃ rest, Pairs rest ∧ Json.skip rest = [] := by
      simp only [Json.object, Json.whole, htext, Option.bind_eq_bind, Option.bind_eq_some_iff,
        Prod.exists] at hread
      obtain ⟨xs, rest, hcontainer, hread⟩ := hread
      split at hread
      next hnil =>
        rw [Json.skip_cons rfl, Json.container, if_pos rfl, Json.skip_cons rfl, if_neg (by simp)]
          at hcontainer
        refine ⟨rest, Pairs.items (fun x u hmember => ?_) hcontainer, hnil⟩
        rw [Json.skip_cons rfl] at hmember
        exact member_values hv hvs hmember
      next => exact absurd hread (Option.some_ne_none _).symm
    obtain ⟨rest, hpairs, hnil⟩ := hrest
    exact absurd hnil hpairs.skip.ne_nil

end Pairs

section Dictionary

def QuoteFree (d : StringDictionary) : Prop :=
  ∃ names added, Holds names added d ∧ ∀ s ∈ added, '"' ∉ s

variable {d : StringDictionary}

theorem QuoteFree.dictGetString (h : QuoteFree d) {dictId : Int} {v : Text}
    (hv : d.dictGetString dictId = some v) : '"' ∉ v := by
  obtain ⟨names, added, hholds, hadded⟩ := h
  rw [Holds.dictGetString_eq] at hv
  split at hv
  next => exact absurd hv (Option.some_ne_none _).symm
  next =>
    obtain ⟨e, he, rfl⟩ := Option.map_eq_some_iff.mp hv
    have hmem := hholds.zValue_mem (List.mem_of_find?_eq_some he)
    exact hadded _ ((hholds.mem_names _).mp hmem)

theorem QuoteFree.dictAddString (h : QuoteFree d) {v : Text} (hv : '"' ∉ v) :
    QuoteFree (d.dictAddString v).2 := by
  obtain ⟨names, added, hholds, hadded⟩ := h
  obtain ⟨new, hnew, -, -⟩ := hholds.dictAddString v
  refine ⟨_, _, hnew, fun s hs => ?_⟩
  obtain hs | hs := List.mem_append.mp hs
  · exact hadded s hs
  · rwa [List.mem_singleton.mp hs]

theorem QuoteFree.compressValue (h : QuoteFree d) (bufSize : Nat) (compressed : Text) {v : Text}
    (hv : '"' ∉ v) : QuoteFree (compressValue bufSize d compressed v).2 := by
  unfold Compress.compressValue
  split
  next =>
    simp only
    split
    next => exact h.dictAddString hv
    next => exact h.dictAddString hv
  next => exact h

theorem QuoteFree.compressLoop (h : QuoteFree d) (bufSize : Nat) (compressed : Text)
    {value : Option Text} (hvalue : ∀ v ∈ value, '"' ∉ v) (p : Text) :
    QuoteFree (compressLoop bufSize d compressed value p).2 := by
  induction p generalizing d compressed value with
  | nil =>
    unfold Compress.compressLoop
    split
    next => exact h
    next => split <;> exact h
  | cons c p ih =>
    unfold Compress.compressLoop
    cases value with
    | none =>
      refine ih h compressed fun v hv => ?_
      split at hv
      next =>
        rw [← Option.some.inj hv]
        exact List.not_mem_nil
      next => exact absurd hv (Option.not_mem_none v)
    | some value =>
      have hquote := hvalue value rfl
      simp only
      split
      next hc =>
        refine ih h compressed fun v hv => ?_
        rw [← Option.some.inj hv, List.mem_append, List.mem_singleton]
        exact not_or.mpr ⟨hquote, Ne.symm hc⟩
      next =>
        have hd := h.compressValue bufSize compressed hquote
        split
        next heq =>
          rw [heq] at hd
          exact hd
        next heq =>
          rw [heq] at hd
          exact ih hd _ fun v hv => absurd hv (Option.not_mem_none v)

theorem Reachable.quoteFree (h : Reachable d) : QuoteFree d := by
  induction h with
  | init initialBuckets =>
    exact ⟨[], [], Holds.init initialBuckets, fun s hs => absurd hs List.not_mem_nil⟩
  | compress _ zProperties ih =>
    exact ih.compressLoop _ _ (fun v hv => absurd hv (Option.not_mem_none v)) zProperties

end Dictionary

section Texts

variable {d d' : StringDictionary} {bufSize : Nat} {p z out : Text}

theorem compressValue_extends {compressed value : Text}
    (h : compressValue bufSize d compressed value = (some z, d')) : compressed <+: z := by
  unfold compressValue at h
  split at h
  next =>
    simp only at h
    split at h
    next =>
      obtain ⟨h, -⟩ := Prod.mk.inj h
      split at h
      next => exact absurd h (Option.some_ne_none z).symm
      next => exact ⟨_, Option.some.inj h⟩
    next => exact ⟨[], by rw [List.append_nil]; exact Option.some.inj (Prod.mk.inj h).1⟩
  next =>
    obtain ⟨h, -⟩ := Prod.mk.inj h
    split at h
    next => exact absurd h (Option.some_ne_none z).symm
    next => exact ⟨_, Option.some.inj h⟩

theorem compressLoop_extends {compressed : Text} {value : Option Text}
    (h : compressLoop bufSize d compressed value p = (.text z, d')) : compressed <+: z := by
  induction p generalizing d compressed value with
  | nil =>
    unfold compressLoop at h
    split at h
    next => exact absurd (Prod.mk.inj h).1 (by simp)
    next =>
      split at h
      next => exact absurd (Prod.mk.inj h).1 (by simp)
      next => exact ⟨_, Result.text.inj (Prod.mk.inj h).1⟩
  | cons c p ih =>
    unfold compressLoop at h
    cases value with
    | none => exact ih h
    | some value =>
      simp only at h
      split at h
      next => exact ih h
      next =>
        split at h
        next => exact absurd (Prod.mk.inj h).1 (by simp)
        next heq => exact (compressValue_extends heq).trans (ih h)

theorem compressLoop_no_quote {compressed : Text} (hp : '"' ∉ p) :
    compressLoop bufSize d compressed none p =
      (if compressed.length + 2 ≥ bufSize then .null else .text (compressed ++ ['\x7d']), d) := by
  induction p with
  | nil =>
    rw [compressLoop, if_neg (by simp)]
    split <;> rfl
  | cons c p ih =>
    obtain ⟨hc, hp⟩ := not_or.mp (List.mem_cons.not.mp hp)
    rw [compressLoop, if_neg (Ne.symm hc)]
    exact ih hp

theorem decompressLoop_text (hd : QuoteFree d) {decompressed : Text}
    (h : decompressLoop bufSize d decompressed p = .text out) :
    ∃ vs : List Text, (∀ v ∈ vs, '"' ∉ v) ∧
      out = decompressed ++ vs.flatMap quoted ++ ['\x7d'] := by
  fun_induction decompressLoop bufSize d decompressed p with
  | case1 => exact absurd h (by simp)
  | case2 decompressed =>
    exact ⟨[], fun v hv => absurd hv List.not_mem_nil, by simpa using (Result.text.inj h).symm⟩
  | case3 => exact absurd h (by simp)
  | case4 _ _ _ _ _ _ ih => exact ih h
  | case5 => exact absurd h (by simp)
  | case6 decompressed _ _ _ _ value hvalue _ ih =>
    obtain ⟨vs, hvs, hout⟩ := ih h
    refine ⟨value :: vs, List.forall_mem_cons.mpr ⟨hd.dictGetString hvalue, hvs⟩, ?_⟩
    rw [hout, List.flatMap_cons, List.append_assoc decompressed]

theorem decompressed_text (hd : QuoteFree d)
    (hmark : (Text.strstr "_compressed".toList z).isSome)
    (h : graphDecompressProperties d z = .text out) :
    ∃ vs : List Text, (∀ v ∈ vs, '"' ∉ v) ∧ out = '\x7b' :: vs.flatMap quoted ++ ['\x7d'] := by
  rw [graphDecompressProperties, if_pos hmark] at h
  exact decompressLoop_text hd h

theorem decompressed_no_reference (hmark : (Text.strstr "_compressed".toList z).isSome)
    (hnone : Text.strstr "_dict".toList z = none) :
    graphDecompressProperties d z = .text "\x7b\x7d".toList := by
  rw [graphDecompressProperties, if_pos hmark, decompressLoop]
  split
  next =>
    rw [if_neg (by rw [List.length_singleton]; omega)]
    rfl
  next heq => exact absurd (hnone.symm.trans heq) (Option.some_ne_none _).symm

theorem not_mem_of_skip (h : '"' ∉ Json.skip p) : '"' ∉ p := by
  intro hmem
  rw [← List.takeWhile_append_dropWhile (p := Json.isWs) (l := p), List.mem_append] at hmem
  obtain hmem | hmem := hmem
  · exact absurd (List.mem_takeWhile_imp hmem) (by decide)
  · exact h hmem

theorem not_mem_of_object_nil (h : Json.object p = some []) : '"' ∉ p := by
  obtain ⟨u, v, hp, hu, hv⟩ := Json.whole_container_nil h
  refine not_mem_of_skip ?_
  rw [hp, List.mem_cons, not_or]
  refine ⟨by decide, not_mem_of_skip ?_⟩
  rw [hu, List.mem_cons, not_or]
  refine ⟨by decide, not_mem_of_skip ?_⟩
  rw [hv]
  exact List.not_mem_nil

end Texts

section RoundTrip

variable {d : StringDictionary} {p : Text}

theorem roundTrips_iff (hd : Reachable d) {ms : List (Text × Json.Scalar)}
    (hp : Json.object p = some ms) : RoundTrips d p ms ↔ ms = [] := by
  constructor
  · rintro ⟨z, d', hcompress, out, ms', hout, hread, hperm⟩
    have hd' : QuoteFree d' := by
      have h := (hd.compress p).quoteFree
      rwa [hcompress] at h
    have hmark : (Text.strstr "_compressed".toList z).isSome := by
      rw [Text.strstr_isSome]
      exact (show "_compressed".toList <:+: compressedPrefix from
        ⟨"\x7b\"".toList, "\":true,".toList, rfl⟩).trans (compressLoop_extends hcompress).isInfix
    obtain ⟨vs, hvs, rfl⟩ := decompressed_text hd' hmark hout
    obtain rfl := object_values hvs hread
    have hnil : ms' = [] := (Option.some.inj hread).symm
    rw [hnil] at hperm
    exact hperm.symm.eq_nil
  · rintro rfl
    have hcompress : graphCompressProperties d p = (.text (compressedPrefix ++ ['\x7d']), d) := by
      rw [graphCompressProperties, compressLoop_no_quote (not_mem_of_object_nil hp), if_neg]
      rw [show compressedPrefix.length = 20 from rfl]
      omega
    have hout := decompressed_no_reference (d := d) (z := compressedPrefix ++ ['\x7d']) (by decide)
      (by decide)
    exact ⟨_, _, hcompress, _, [], hout, rfl, List.Perm.refl []⟩

theorem unchanged_iff (hd : Reachable d) {ms : List (Text × Json.Scalar)}
    (hp : Json.object p = some ms) :
    graphDecompressProperties d p = .text p ↔ ¬"_compressed".toList <:+: p := by
  constructor
  · intro h hmark
    obtain ⟨vs, hvs, htext⟩ := decompressed_text hd.quoteFree (Text.strstr_isSome.mpr hmark) h
    rw [htext] at hp
    obtain rfl := object_values hvs hp
    rw [htext] at hmark
    exact absurd hmark.length_le (by decide)
  · intro hmark
    rw [graphDecompressProperties, if_neg (fun h => hmark (Text.strstr_isSome.mp h))]

/-- What comes back: of the objects only the empty one, of the texts that were never compressed
those without the mark. -/
theorem compression_is_lossy (hd : Reachable d) :
    (∀ p ms, Json.object p = some ms → (RoundTrips d p ms ↔ ms = [])) ∧
    (∀ t, ¬"_compressed".toList <:+: t → graphDecompressProperties d t = .text t) ∧
    ∀ t ms, Json.object t = some ms →
      (graphDecompressProperties d t = .text t ↔ ¬"_compressed".toList <:+: t) := by
  refine ⟨fun p ms => roundTrips_iff hd, fun t hmark => ?_, fun t ms => unchanged_iff hd⟩
  rw [graphDecompressProperties, if_neg (fun h => hmark (Text.strstr_isSome.mp h))]

def oneMember : Text := "\x7b\"a\":1\x7d".toList

theorem compression_is_lossy_one_member :
    RoundTrips (graphInitStringDictionary 1) oneMember [("a".toList, .number "1".toList)] ↔
      [("a".toList, Json.Scalar.number "1".toList)] = [] :=
  (compression_is_lossy (.init 1)).1 _ _ (by decide)

theorem one_member_lost :
    (graphCompressProperties (graphInitStringDictionary 1) oneMember).1 =
      .text "\x7b\"_compressed\":true,\"a\"\x7d".toList ∧
    graphDecompressProperties (graphInitStringDictionary 1)
      "\x7b\"_compressed\":true,\"a\"\x7d".toList = .text "\x7b\x7d".toList ∧
    ¬RoundTrips (graphInitStringDictionary 1) oneMember [("a".toList, .number "1".toList)] := by
  refine ⟨by decide, decompressed_no_reference (by decide) (by decide), fun h => ?_⟩
  exact absurd ((roundTrips_iff (.init 1) (by decide)).mp h) (List.cons_ne_nil _ _)

end RoundTrip

end SqliteMultimodal.Graph.Compress
