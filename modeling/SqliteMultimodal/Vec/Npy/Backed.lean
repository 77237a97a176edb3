import SqliteMultimodal.Vec.Npy.Defs

namespace SqliteMultimodal.Vec.Npy

open Except Storage

section Grammar

def NpyScanner.Next (s : NpyScanner) (type : NpyTokenType) (token : NpyToken) (s' : NpyScanner) :
    Prop :=
  npyScannerNext s = some (token, s') ∧ token.type = type

inductive Value (key : Text) : NpyScanner → Field → NpyScanner → Prop
  | descr {s value s'} (hkey : "'descr'".toList <+: key) (hvalue : s.Next .string value s')
    (htype : "'<f4'".toList <+: value.start) : Value key s .descr s'
  | fortranOrder {s value s'} (hkey : "'fortran_order'".toList <+: key)
    (hvalue : s.Next .false value s') : Value key s .fortranOrder s'
  | vector {s t₁ s₁ first s₂ t₃ s₃ t₄ s₄} (hkey : "'shape'".toList <+: key)
    (hlparen : s.Next .lparen t₁ s₁) (hfirst : s₁.Next .number first s₂)
    (hcomma : s₂.Next .comma t₃ s₃) (hrparen : s₃.Next .rparen t₄ s₄) :
    Value key s (.shape (if strtol first.start = 0 then 0 else 1) (strtol first.start)) s₄
  | matrix {s t₁ s₁ first s₂ t₃ s₃ second s₄ t₅ s₅} (hkey : "'shape'".toList <+: key)
    (hlparen : s.Next .lparen t₁ s₁) (hfirst : s₁.Next .number first s₂)
    (hcomma : s₂.Next .comma t₃ s₃) (hsecond : s₃.Next .number second s₄)
    (hrparen : s₄.Next .rparen t₅ s₅) :
    Value key s (.shape (strtol first.start) (strtol second.start)) s₅

inductive Entries : NpyScanner → List Field → Prop
  | nil {s t s'} (hrbrace : s.Next .rbrace t s') : Entries s []
  | cons {s key s₁ t₂ s₂ f s₃ t₄ s₄ fs} (hkey : s.Next .string key s₁)
    (hcolon : s₁.Next .colon t₂ s₂) (hvalue : Value key.start s₂ f s₃)
    (hcomma : s₃.Next .comma t₄ s₄) (hrest : Entries s₄ fs) : Entries s (f :: fs)

def Header (s : NpyScanner) (fs : List Field) : Prop :=
  ∃ token s', npyScannerNext s = some (token, s') ∧ Entries s' fs

end Grammar

section Accepted

variable {s s' : NpyScanner} {token : NpyToken} {type : NpyTokenType}

theorem expectToken_ok {message : String} :
    expectToken type message s = .ok (token, s') ↔ s.Next type token s' := by
  unfold expectToken NpyScanner.Next
  cases npyScannerNext s with
  | none => simp
  | some r =>
    obtain ⟨t, s₁⟩ := r
    by_cases h : t.type = type
    · simp only [if_pos h, Except.ok.injEq, Option.some.injEq, Prod.mk.injEq]
      constructor
      · rintro ⟨rfl, rfl⟩
        exact ⟨⟨rfl, rfl⟩, h⟩
      · exact fun h => h.1
    · simp only [if_neg h, reduceCtorEq, Option.some.injEq, Prod.mk.injEq, false_iff]
      rintro ⟨⟨rfl, rfl⟩, htype⟩
      exact h htype

theorem npyToken_pos {t : Text} {left length : Nat}
    (h : npyToken t (left + 1) = some (type, length)) :
    0 < length := by
  cases t with
  | nil => cases h
  | cons curr t =>
    simp only [npyToken, List.take_succ_cons] at h
    by_cases hdigit : curr.isDigit = true
    · rw [List.takeWhile_cons_of_pos hdigit] at h
      grind
    · grind

theorem NpyScanner.Next.left_lt (h : s.Next type token s') : s'.left < s.left := by
  obtain ⟨hnext, -⟩ := h
  unfold npyScannerNext at hnext
  have hle : (skipWhitespace s).left ≤ s.left := Nat.sub_le _ _
  generalize skipWhitespace s = ptr at *
  obtain ⟨rest, left⟩ := ptr
  cases left with
  | zero => cases hnext
  | succ left =>
    rw [if_neg (Nat.succ_ne_zero left)] at hnext
    obtain ⟨⟨t, length⟩, htoken, heq⟩ := Option.map_eq_some_iff.mp hnext
    have hpos := npyToken_pos htoken
    obtain ⟨-, rfl⟩ := Prod.mk.inj heq
    simp only [NpyScanner.advance] at *
    omega

theorem Value.left_lt {key : Text} {f : Field} (h : Value key s f s') : s'.left < s.left := by
  cases h with
  | descr _ hvalue => exact hvalue.left_lt
  | fortranOrder _ hvalue => exact hvalue.left_lt
  | vector _ hlparen hfirst hcomma hrparen =>
    exact hrparen.left_lt.trans (hcomma.left_lt.trans (hfirst.left_lt.trans hlparen.left_lt))
  | matrix _ hlparen hfirst hcomma hsecond hrparen =>
    exact hrparen.left_lt.trans (hsecond.left_lt.trans
      (hcomma.left_lt.trans (hfirst.left_lt.trans hlparen.left_lt)))

theorem parseDescr_ok {f : Field} : parseDescr s = .ok (f, s') ↔
    ∃ value, s.Next .string value s' ∧ "'<f4'".toList <+: value.start ∧ f = .descr := by
  simp only [parseDescr, bind_eq_ok, Prod.exists, expectToken_ok]
  constructor
  · rintro ⟨value, s₁, hvalue, h⟩
    split at h
    next htype =>
      cases h
      exact ⟨value, hvalue, htype, rfl⟩
    next => cases h
  · rintro ⟨value, hvalue, htype, rfl⟩
    exact ⟨value, s', hvalue, by rw [if_pos htype]; rfl⟩

theorem parseFortranOrder_ok {f : Field} : parseFortranOrder s = .ok (f, s') ↔
    ∃ value, s.Next .false value s' ∧ f = .fortranOrder := by
  simp only [parseFortranOrder, bind_eq_ok, Prod.exists, expectToken_ok]
  constructor
  · rintro ⟨value, s₁, hvalue, h⟩
    cases h
    exact ⟨value, hvalue, rfl⟩
  · rintro ⟨value, hvalue, rfl⟩
    exact ⟨value, s', hvalue, rfl⟩

theorem parseShape_ok {f : Field} : parseShape s = .ok (f, s') ↔
    ∃ t₁ s₁ first s₂ t₃ s₃, s.Next .lparen t₁ s₁ ∧ s₁.Next .number first s₂ ∧
      s₂.Next .comma t₃ s₃ ∧
      ((∃ t₄, s₃.Next .rparen t₄ s' ∧
          f = .shape (if strtol first.start = 0 then 0 else 1) (strtol first.start)) ∨
        ∃ second s₄ t₅, s₃.Next .number second s₄ ∧ s₄.Next .rparen t₅ s' ∧
          f = .shape (strtol first.start) (strtol second.start)) := by
  simp only [parseShape, bind_eq_ok, Prod.exists, expectToken_ok]
  constructor
  · rintro ⟨t₁, s₁, hlparen, first, s₂, hfirst, t₃, s₃, hcomma, h⟩
    refine ⟨t₁, s₁, first, s₂, t₃, s₃, hlparen, hfirst, hcomma, ?_⟩
    split at h
    next => cases h
    next token s₄ hnext =>
      split at h
      next htype =>
        obtain ⟨⟨t₅, s₅⟩, hrparen, h⟩ := bind_eq_ok.mp h
        cases h
        exact .inr ⟨token, s₄, t₅, ⟨hnext, htype⟩, expectToken_ok.mp hrparen, rfl⟩
      next =>
        split at h
        next htype =>
          cases h
          exact .inl ⟨token, ⟨hnext, htype⟩, rfl⟩
        next => cases h
  · rintro ⟨t₁, s₁, first, s₂, t₃, s₃, hlparen, hfirst, hcomma, h⟩
    refine ⟨t₁, s₁, hlparen, first, s₂, hfirst, t₃, s₃, hcomma, ?_⟩
    obtain ⟨t₄, ⟨hnext, htype⟩, rfl⟩ | ⟨second, s₄, t₅, ⟨hnext, htype⟩, hrparen, rfl⟩ := h
    · simp only [hnext, htype]
      rfl
    · simp only [hnext, htype, if_true]
      exact bind_eq_ok.mpr ⟨(t₅, s'), expectToken_ok.mpr hrparen, rfl⟩

theorem not_key {a b key : Text} (ha : a <+: key) (hab : ¬a <+: b) (hba : ¬b <+: a) :
    ¬b <+: key := fun hb =>
  (List.prefix_or_prefix_of_prefix ha hb).elim hab hba

theorem parseValue_ok {key : Text} {f : Field} :
    parseValue key s = .ok (f, s') ↔ Value key s f s' := by
  unfold parseValue
  constructor
  · intro h
    split at h
    next hkey =>
      obtain ⟨value, hvalue, htype, rfl⟩ := parseDescr_ok.mp h
      exact .descr hkey hvalue htype
    next =>
      split at h
      next hkey =>
        obtain ⟨value, hvalue, rfl⟩ := parseFortranOrder_ok.mp h
        exact .fortranOrder hkey hvalue
      next =>
        split at h
        next hkey =>
          obtain ⟨t₁, s₁, first, s₂, t₃, s₃, hlparen, hfirst, hcomma, h⟩ := parseShape_ok.mp h
          obtain ⟨t₄, hrparen, rfl⟩ | ⟨second, s₄, t₅, hsecond, hrparen, rfl⟩ := h
          · exact .vector hkey hlparen hfirst hcomma hrparen
          · exact .matrix hkey hlparen hfirst hcomma hsecond hrparen
        next => cases h
  · intro h
    cases h with
    | descr hkey hvalue htype =>
      rw [if_pos hkey, parseDescr_ok]
      exact ⟨_, hvalue, htype, rfl⟩
    | fortranOrder hkey hvalue =>
      rw [if_neg (not_key hkey (by decide) (by decide)), if_pos hkey, parseFortranOrder_ok]
      exact ⟨_, hvalue, rfl⟩
    | vector hkey hlparen hfirst hcomma hrparen =>
      rw [if_neg (not_key hkey (by decide) (by decide)),
        if_neg (not_key hkey (by decide) (by decide)), if_pos hkey, parseShape_ok]
      exact ⟨_, _, _, _, _, _, hlparen, hfirst, hcomma, .inl ⟨_, hrparen, rfl⟩⟩
    | matrix hkey hlparen hfirst hcomma hsecond hrparen =>
      rw [if_neg (not_key hkey (by decide) (by decide)),
        if_neg (not_key hkey (by decide) (by decide)), if_pos hkey, parseShape_ok]
      exact ⟨_, _, _, _, _, _, hlparen, hfirst, hcomma, .inr ⟨_, _, _, hsecond, hrparen, rfl⟩⟩

def NpyArray.assignAll (array : NpyArray) (fs : List Field) : NpyArray := fs.foldl assign array

theorem parseEntries_ok {k : Nat} {array result : NpyArray} (hk : s.left ≤ k) :
    parseEntries k array s = .ok result ↔ ∃ fs, Entries s fs ∧ result = array.assignAll fs := by
  constructor
  · intro h
    induction k generalizing s array with
    | zero => cases h
    | succ k ih =>
      rw [parseEntries] at h
      split at h
      next => cases h
      next key s₁ hnext =>
        split at h
        next htype =>
          cases h
          exact ⟨[], .nil ⟨hnext, htype⟩, rfl⟩
        next =>
          split at h
          next htype =>
            simp only [bind_eq_ok, Prod.exists, expectToken_ok, parseValue_ok] at h
            obtain ⟨t₂, s₂, hcolon, f, s₃, hvalue, t₄, s₄, hcomma, h⟩ := h
            have hkey : s.Next .string key s₁ := ⟨hnext, htype⟩
            have hlt := hcomma.left_lt.trans (hvalue.left_lt.trans
              (hcolon.left_lt.trans hkey.left_lt))
            obtain ⟨fs, hentries, rfl⟩ := ih (by omega) h
            exact ⟨f :: fs, .cons hkey hcolon hvalue hcomma hentries, rfl⟩
          next => cases h
  · rintro ⟨fs, hentries, rfl⟩
    induction hentries generalizing k array with
    | nil hrbrace =>
      obtain ⟨k, rfl⟩ := Nat.exists_eq_add_of_lt
        (Nat.lt_of_lt_of_le (Nat.zero_lt_of_lt hrbrace.left_lt) hk)
      rw [Nat.zero_add, parseEntries, hrbrace.1]
      simp only [hrbrace.2, if_true]
      rfl
    | @cons s key s₁ t₂ s₂ f s₃ t₄ s₄ fs hkey hcolon hvalue hcomma hrest ih =>
      have hlt := hcomma.left_lt.trans (hvalue.left_lt.trans (hcolon.left_lt.trans hkey.left_lt))
      obtain ⟨k, rfl⟩ := Nat.exists_eq_add_of_lt (Nat.lt_of_lt_of_le (Nat.zero_lt_of_lt hlt) hk)
      rw [Nat.zero_add, parseEntries, hkey.1]
      simp only [hkey.2, reduceCtorEq, if_false, if_true, bind_eq_ok, Prod.exists, expectToken_ok,
        parseValue_ok]
      exact ⟨t₂, s₂, hcolon, f, s₃, hvalue, t₄, s₄, hcomma, ih (by omega)⟩

theorem NpyScanner.Next.unique {type' : NpyTokenType} {token' : NpyToken} {s'' : NpyScanner}
    (h : s.Next type token s') (h' : s.Next type' token' s'') :
    type = type' ∧ token = token' ∧ s' = s'' := by
  obtain ⟨hnext, rfl⟩ := h
  obtain ⟨hnext', rfl⟩ := h'
  obtain ⟨rfl, rfl⟩ := Prod.mk.inj (Option.some.inj (hnext.symm.trans hnext'))
  exact ⟨rfl, rfl, rfl⟩

theorem Value.unique {key : Text} {f g : Field} {s'' : NpyScanner} (h : Value key s f s')
    (h' : Value key s g s'') : f = g ∧ s' = s'' :=
  Prod.mk.inj (Except.ok.inj ((parseValue_ok.mpr h).symm.trans (parseValue_ok.mpr h')))

theorem Entries.unique {fs gs : List Field} (h : Entries s fs) (h' : Entries s gs) : fs = gs := by
  induction h generalizing gs with
  | nil hrbrace =>
    cases h' with
    | nil => rfl
    | cons hkey => cases (hrbrace.unique hkey).1
  | cons hkey hcolon hvalue hcomma hrest ih =>
    cases h' with
    | nil hrbrace => cases (hkey.unique hrbrace).1
    | cons hkey' hcolon' hvalue' hcomma' hrest' =>
      obtain ⟨-, rfl, rfl⟩ := hkey.unique hkey'
      obtain ⟨-, rfl, rfl⟩ := hcolon.unique hcolon'
      obtain ⟨rfl, rfl⟩ := hvalue.unique hvalue'
      obtain ⟨-, rfl, rfl⟩ := hcomma.unique hcomma'
      rw [ih hrest']

theorem Entries.next {fs : List Field} (h : Entries s fs) :
    ∃ token s', npyScannerNext s = some (token, s') := by
  cases h with
  | nil hrbrace => exact ⟨_, _, hrbrace.1⟩
  | cons hkey => exact ⟨_, _, hkey.1⟩

theorem Header.unique {fs gs : List Field} (h : Header s fs) (h' : Header s gs) : fs = gs := by
  obtain ⟨token, s', hnext, hentries⟩ := h
  obtain ⟨token', s'', hnext', hentries'⟩ := h'
  obtain ⟨rfl, rfl⟩ := Prod.mk.inj (Option.some.inj (hnext.symm.trans hnext'))
  exact hentries.unique hentries'

theorem parseNpyHeader_ok {stale : Stale} {result : NpyArray} :
    parseNpyHeader stale s = .ok result ↔
      ∃ fs, Header s fs ∧ result = stale.array.assignAll fs := by
  unfold parseNpyHeader Header
  cases hnext : npyScannerNext s with
  | none =>
    constructor
    · intro h
      dsimp only at h
      split at h
      next =>
        obtain ⟨fs, hentries, -⟩ := (parseEntries_ok le_rfl).mp h
        obtain ⟨token, s', hnext'⟩ := hentries.next
        cases hnext.symm.trans hnext'
      next => cases h
    · rintro ⟨fs, ⟨token, s', hnone, -⟩, -⟩
      cases hnone
  | some r =>
    obtain ⟨token, s'⟩ := r
    refine (parseEntries_ok le_rfl).trans (exists_congr fun fs => and_congr_left fun _ => ?_)
    constructor
    · exact fun h => ⟨token, s', rfl, h⟩
    · rintro ⟨token', s'', heq, h⟩
      obtain ⟨rfl, rfl⟩ := Prod.mk.inj (Option.some.inj heq)
      exact h

end Accepted

section Buffer

variable (stale : Stale) (memory : Bytes) (buffer : Buffer)

def Buffer.Framed : Prop :=
  10 ≤ buffer.bytes.length ∧ buffer.bytes.take 6 = npyMagic ∧ 0 ≤ buffer.dataSize

def Shaped (fs : List Field) (numElements numDimensions : Nat) : Prop :=
  ∃ pre post, fs = pre ++ .shape numElements numDimensions :: post ∧
    ∀ n d, Field.shape n d ∉ post

def Backed : Prop :=
  ∀ pCur, parseNpyBuffer stale memory buffer = .ok pCur →
    (∃ fs, Header (buffer.header memory) fs ∧
      Shaped fs pCur.array.numElements pCur.array.numDimensions) ∧
    pCur.vector.length = pCur.array.numElements * pCur.array.numDimensions * 4 ∧
    ∀ iRowid, pCur.eof iRowid = false →
      (pCur.row iRowid).1 + (pCur.row iRowid).2 ≤ pCur.vector.length

variable {stale memory buffer}

theorem parseNpyBuffer_ok {pCur : NpyCursor} : parseNpyBuffer stale memory buffer = .ok pCur ↔
    buffer.Framed ∧ ∃ fs, Header (buffer.header memory) fs ∧
      (stale.array.assignAll fs).expectedDataSize = buffer.dataSize ∧
      pCur = ⟨stale.array.assignAll fs, buffer.vector⟩ := by
  simp only [parseNpyBuffer, Buffer.Framed, bind_eq_ok, require_eq_ok, parseNpyHeader_ok,
    pure_eq_ok]
  constructor
  · rintro ⟨-, hlength, -, hmagic, -, hsize, array, ⟨fs, hheader, rfl⟩, -, hexpected, rfl⟩
    exact ⟨⟨hlength, hmagic, hsize⟩, fs, hheader, hexpected, rfl⟩
  · rintro ⟨⟨hlength, hmagic, hsize⟩, fs, hheader, hexpected, rfl⟩
    exact ⟨⟨⟩, hlength, ⟨⟩, hmagic, ⟨⟩, hsize, _, ⟨fs, hheader, rfl⟩, ⟨⟩, hexpected, rfl⟩

theorem assignAll_of_not_mem {fs : List Field} (h : ∀ n d, Field.shape n d ∉ fs)
    (array : NpyArray) : (array.assignAll fs).numElements = array.numElements ∧
      (array.assignAll fs).numDimensions = array.numDimensions := by
  induction fs generalizing array with
  | nil => exact ⟨rfl, rfl⟩
  | cons f fs ih =>
    have hrest := ih (fun n d hmem => h n d (List.mem_cons_of_mem f hmem)) (array.assign f)
    cases f with
    | descr => exact hrest
    | fortranOrder => exact hrest
    | shape n d => exact absurd List.mem_cons_self (h n d)

theorem Shaped.assigned {fs : List Field} {n d : Nat} (h : Shaped fs n d) (array : NpyArray) :
    (array.assignAll fs).numElements = n ∧ (array.assignAll fs).numDimensions = d := by
  obtain ⟨pre, post, rfl, hpost⟩ := h
  have hassign : array.assignAll (pre ++ .shape n d :: post) =
      ((array.assignAll pre).assign (.shape n d)).assignAll post := List.foldl_append
  rw [hassign]
  exact assignAll_of_not_mem hpost _

theorem exists_shaped {fs : List Field} (h : ∃ n d, Field.shape n d ∈ fs) :
    ∃ n d, Shaped fs n d := by
  induction fs with
  | nil =>
    obtain ⟨n, d, h⟩ := h
    cases h
  | cons f fs ih =>
    by_cases hrest : ∃ n d, Field.shape n d ∈ fs
    · obtain ⟨n, d, pre, post, rfl, hpost⟩ := ih hrest
      exact ⟨n, d, f :: pre, post, rfl, hpost⟩
    · obtain ⟨n, d, h⟩ := h
      obtain rfl := (List.mem_cons.mp h).resolve_right fun hmem => hrest ⟨n, d, hmem⟩
      exact ⟨n, d, [], fs, rfl, fun n d hmem => hrest ⟨n, d, hmem⟩⟩

/-- Where the size that is computed for a header is that of the data, the header has a shape, and
the size is one of numbers below 2 ^ 32 if the type is known to be `float32`, else there is no
element. -/
def SizesTrue (stale : Stale) (memory : Bytes) (buffer : Buffer) : Prop :=
  ∀ fs, Header (buffer.header memory) fs →
    (stale.array.assignAll fs).expectedDataSize = buffer.dataSize →
      (∃ n d, Field.shape n d ∈ fs) ∧
        if (stale.array.assignAll fs).elementType = some .float32 then
          (stale.array.assignAll fs).numElements * (stale.array.assignAll fs).numDimensions * 4 <
            4294967296
        else (stale.array.assignAll fs).numElements * (stale.array.assignAll fs).numDimensions = 0

end Buffer

section Sizes

variable {array : NpyArray}

theorem expected_float (htype : array.elementType = some .float32)
    (hlt : array.numElements * array.numDimensions * 4 < 4294967296)
    (hnonneg : 0 ≤ array.expectedDataSize) :
    array.expectedDataSize = array.numElements * array.numDimensions * 4 := by
  have hmul : BitVec.ofNat 64 array.numElements * (BitVec.ofNat 64 array.numDimensions * 4) =
      BitVec.ofNat 64 (array.numElements * array.numDimensions * 4) := by
    have hfour : (4 : BitVec 64) = BitVec.ofNat 64 4 := rfl
    rw [hfour, ← BitVec.ofNat_mul, ← BitVec.ofNat_mul, Nat.mul_assoc]
  rw [NpyArray.expectedDataSize, htype, vectorByteSize, hmul, BitVec.toInt_eq_toNat_cond,
    BitVec.toNat_setWidth, BitVec.toNat_ofNat] at hnonneg ⊢
  have hcast : (array.numElements : Int) * array.numDimensions * 4 =
      (array.numElements * array.numDimensions * 4 : Nat) := by
    rw [Nat.cast_mul, Nat.cast_mul]
    rfl
  rw [hcast]
  generalize array.numElements * array.numDimensions * 4 = size at *
  split
  next => omega
  next hge =>
    rw [if_neg hge] at hnonneg
    omega

theorem expected_other (htype : array.elementType ≠ some .float32)
    (hlt : array.numElements * array.numDimensions < 2147483648) :
    0 ≤ array.expectedDataSize ∧
      array.expectedDataSize ≤ array.numElements * array.numDimensions := by
  have hle : (BitVec.ofNat 64 array.numElements *
      vectorByteSize array.elementType (BitVec.ofNat 64 array.numDimensions)).toNat ≤
        array.numElements * array.numDimensions := by
    rw [BitVec.toNat_mul]
    refine (Nat.mod_le _ _).trans (Nat.mul_le_mul ?_ ?_)
    · rw [BitVec.toNat_ofNat]
      exact Nat.mod_le _ _
    · have hdim : (BitVec.ofNat 64 array.numDimensions).toNat ≤ array.numDimensions := by
        rw [BitVec.toNat_ofNat]
        exact Nat.mod_le _ _
      match array.elementType, htype with
      | none, _ => exact Nat.zero_le _
      | some .int8, _ => exact hdim
      | some .bit, _ =>
        rw [vectorByteSize, BitVec.toNat_udiv]
        exact (Nat.div_le_self _ _).trans hdim
      | some .float32, htype => exact absurd rfl htype
  rw [NpyArray.expectedDataSize, toInt_setWidth (by omega)]
  omega

end Sizes

section Backed

variable {stale : Stale} {memory : Bytes} {buffer : Buffer}

theorem Buffer.length_vector (h : 0 ≤ buffer.dataSize) :
    (buffer.vector.length : Int) = buffer.dataSize := by
  unfold Buffer.dataSize at *
  simp only [Buffer.vector, List.length_drop]
  omega

theorem row_le {n d : Nat} {i : Nat} (h : i < n) : i * d * 4 + d * 4 ≤ n * d * 4 := by
  have hle := Nat.mul_le_mul_right d (Nat.succ_le_of_lt h)
  rw [Nat.succ_mul] at hle
  omega

/-- An accepted buffer is backed by its data if and only if the size that is computed for its
header is the size that the header states. -/
theorem backed_iff (stale : Stale) (memory : Bytes) (buffer : Buffer) :
    Backed stale memory buffer ↔ (buffer.Framed → SizesTrue stale memory buffer) := by
  constructor
  · intro h hframed fs hheader hexpected
    obtain ⟨⟨gs, hheader', hshaped⟩, hlength, -⟩ :=
      h _ (parseNpyBuffer_ok.mpr ⟨hframed, fs, hheader, hexpected, rfl⟩)
    obtain rfl := hheader.unique hheader'
    have hvector := Buffer.length_vector hframed.2.2
    have hlt := buffer.lt
    have hsize : buffer.dataSize ≤ buffer.bytes.length := by
      unfold Buffer.dataSize
      omega
    simp only at hlength
    generalize stale.array.assignAll fs = array at *
    obtain ⟨pre, post, rfl, -⟩ := hshaped
    refine ⟨⟨_, _, List.mem_append_right pre List.mem_cons_self⟩, ?_⟩
    split
    next => omega
    next htype =>
      obtain ⟨-, hle⟩ := expected_other htype (by omega)
      omega
  · intro h pCur hparse
    obtain ⟨hframed, fs, hheader, hexpected, rfl⟩ := parseNpyBuffer_ok.mp hparse
    obtain ⟨hshape, hcond⟩ := h hframed fs hheader hexpected
    obtain ⟨n, d, hshaped⟩ := exists_shaped hshape
    obtain ⟨hn, hd⟩ := hshaped.assigned stale.array
    have hvector := Buffer.length_vector hframed.2.2
    have hlength : buffer.vector.length = n * d * 4 := by
      have hnonneg := hframed.2.2
      rw [← hexpected] at hnonneg hvector
      rw [hn, hd] at hcond
      split at hcond
      next htype =>
        rw [expected_float htype (by rwa [hn, hd]) hnonneg, hn, hd] at hvector
        exact_mod_cast hvector
      next htype =>
        obtain ⟨-, hle⟩ := expected_other htype (by rw [hn, hd]; omega)
        rw [hn, hd] at hle
        have hzero : (n : Int) * d = 0 := by exact_mod_cast hcond
        omega
    refine ⟨⟨fs, hheader, by rwa [hn, hd]⟩, ?_, fun i hi => ?_⟩
    · rw [hn, hd]
      exact hlength
    · have hlt : i < n := by simpa [NpyCursor.eof, hn] using hi
      simp only [NpyCursor.row, hd, hlength]
      exact row_le hlt

def hugeHeader : Text :=
  "\x7b'descr': '<f4', 'fortran_order': False, 'shape': (1073741824, 1), \x7d".toList

def hugeBytes : Bytes :=
  npyMagic ++ [1#8, 0#8, 68#8, 0#8] ++ hugeHeader.map fun c => BitVec.ofNat 8 c.toNat

theorem hugeBytes_lt : hugeBytes.length < 2147483648 := by decide

def hugeBuffer : Buffer := ⟨hugeBytes, hugeBytes_lt⟩

def noArray : Stale := ⟨⟨none, 0, 0⟩, .number⟩

theorem parse_hugeBuffer : parseNpyBuffer noArray [] hugeBuffer =
    .ok ⟨⟨some .float32, 1073741824, 1⟩, []⟩ := by
  rfl

theorem hugeBuffer_not_backed : ¬∀ stale memory buffer, Backed stale memory buffer := by
  intro h
  have hlength := (h noArray [] hugeBuffer _ parse_hugeBuffer).2.1
  cases hlength

end Backed

end SqliteMultimodal.Vec.Npy
