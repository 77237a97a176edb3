import SqliteMultimodal.Lib.Blob
import SqliteMultimodal.Vec.BlobEntries
import SqliteMultimodal.Vec.Elements.Defs
import SqliteMultimodal.Vec.Npy.Backed

namespace SqliteMultimodal.Vec.Npy

open Except Storage

section Within

variable {t t' m : Text} {token : NpyToken} {type : NpyTokenType} {s' : NpyScanner}

/-- A scanner in front of `t`, the rest of the header; `m` is what memory holds behind it. -/
def within (t m : Text) : NpyScanner := ⟨t ++ m, t.length⟩

theorem drop_takeWhile (p : Char → Bool) (t : Text) :
    t.drop (t.takeWhile p).length = t.dropWhile p := by
  have hdrop := congrArg (List.drop (t.takeWhile p).length)
    (List.takeWhile_append_dropWhile (p := p) (l := t))
  rwa [List.drop_left, eq_comm] at hdrop

theorem advance_within {n : Nat} (h : n ≤ t.length) (m : Text) :
    (within t m).advance n = within (t.drop n) m := by
  rw [NpyScanner.advance, within, within, List.drop_append_of_le_length h, List.length_drop]

theorem skipWhitespace_within (t m : Text) :
    skipWhitespace (within t m) = within (t.dropWhile Char.isWhitespace) m := by
  have htake : (within t m).rest.take (within t m).left = t := List.take_left
  rw [skipWhitespace, htake, advance_within (List.takeWhile_prefix _).length_le, drop_takeWhile]

theorem head_drop_within {n : Nat} (h : n < t.length) (m : Text) :
    ((t ++ m).drop n).head? = (t.drop n).head? := by
  rw [List.drop_append_of_le_length h.le, List.head?_append_of_ne_nil]
  exact fun hnil => absurd (List.drop_eq_nil_iff.mp hnil) (by omega)

theorem prefix_within {w : Text} (h : w <+: t ++ m) (hle : w.length ≤ t.length) : w <+: t := by
  have htake := List.prefix_append t m
  exact List.prefix_of_prefix_length_le h htake hle

theorem npyToken_within {length : Nat} (hne : t ≠ [])
    (h : npyToken (t ++ m) t.length = some (type, length)) (hle : length ≤ t.length) (m' : Text) :
    npyToken (t ++ m') t.length = some (type, length) := by
  obtain ⟨curr, t, rfl⟩ := List.exists_cons_of_ne_nil hne
  simp only [List.cons_append, npyToken, List.length_cons, Nat.add_sub_cancel, List.take_left,
    List.take_succ_cons] at h ⊢
  by_cases hquote : curr = '\x27'
  · subst hquote
    simp only [Char.reduceEq, if_false, if_true] at h ⊢
    split at h
    next hhead =>
      obtain ⟨rfl, rfl⟩ := Prod.mk.inj (Option.some.inj h)
      have hlt : (t.takeWhile fun c => decide (c ≠ '\x27')).length < t.length := by
        rw [List.length_cons] at hle
        omega
      rw [head_drop_within hlt] at hhead ⊢
      rw [if_pos hhead]
    next => cases h
  by_cases hfalse : curr = 'F'
  · subst hfalse
    simp only [Char.reduceEq, if_false] at h ⊢
    split at h
    next hstarts =>
      obtain ⟨rfl, rfl⟩ := Prod.mk.inj (Option.some.inj h)
      have hwithin := prefix_within (t := 'F' :: t) hstarts hle
      exact if_pos (hwithin.trans (List.prefix_append _ m'))
    next => cases h
  · have hnot : ∀ u, ¬"False".toList <+: curr :: u := fun u hstarts =>
      hfalse (List.cons_prefix_cons.mp hstarts).1.symm
    simp only [if_neg hquote, if_neg (hnot _)] at h ⊢
    exact h

theorem npyToken_number {length : Nat}
    (h : npyToken (t ++ m) t.length = some (.number, length)) :
    length = (t.takeWhile Char.isDigit).length := by
  cases t with
  | nil =>
    cases m with
    | nil => cases h
    | cons curr m =>
      simp only [List.nil_append, npyToken, List.length_nil, List.take_zero] at h
      grind
  | cons curr t =>
    simp only [List.cons_append, npyToken, List.length_cons, List.take_left,
      List.take_succ_cons] at h
    grind

theorem npyToken_rbrace {u : Text} {left length : Nat}
    (h : npyToken u left = some (.rbrace, length)) : length = 1 := by
  cases u with
  | nil => cases h
  | cons curr u =>
    simp only [npyToken] at h
    grind

theorem npyToken_string {length : Nat}
    (h : npyToken (t ++ m) t.length = some (.string, length)) (hle : length ≤ t.length) :
    ∃ body rest, t = '\x27' :: (body ++ '\x27' :: rest) ∧ '\x27' ∉ body := by
  cases t with
  | nil =>
    cases m with
    | nil => cases h
    | cons curr m =>
      simp only [List.nil_append, npyToken, List.length_nil] at h hle
      grind
  | cons curr t =>
    simp only [List.cons_append, npyToken, List.length_cons, Nat.add_sub_cancel,
      List.take_left] at h
    by_cases hquote : curr = '\x27'
    · subst hquote
      simp only [Char.reduceEq, if_false, if_true] at h
      split at h
      next hhead =>
        obtain ⟨-, rfl⟩ := Prod.mk.inj (Option.some.inj h)
        have hlt : (t.takeWhile fun c => decide (c ≠ '\x27')).length < t.length := by
          rw [List.length_cons] at hle
          omega
        rw [head_drop_within hlt, drop_takeWhile] at hhead
        obtain ⟨rest, hrest⟩ := List.head?_eq_some_iff.mp hhead
        refine ⟨t.takeWhile fun c => decide (c ≠ '\x27'), rest, ?_, fun hmem => ?_⟩
        · rw [← hrest, List.takeWhile_append_dropWhile]
        · have hne := List.mem_takeWhile_imp hmem
          simp at hne
      next => cases h
    · grind

theorem takeWhile_unquoted {w u : Text} (hw : '\x27' ∉ w) :
    (w ++ '\x27' :: u).takeWhile (fun c => decide (c ≠ '\x27')) = w := by
  rw [List.takeWhile_append_of_pos, List.takeWhile_cons_of_neg (by simp), List.append_nil]
  rintro c hc
  exact decide_eq_true fun heq => hw (heq ▸ hc)

theorem quoted_within {body rest w u : Text} (hbody : '\x27' ∉ body) (hw : '\x27' ∉ w)
    (h : '\x27' :: (w ++ ['\x27']) <+: '\x27' :: (body ++ '\x27' :: rest) ++ u) : w = body := by
  obtain ⟨v, hv⟩ := h
  have htail : w ++ '\x27' :: v = body ++ '\x27' :: (rest ++ u) := by
    simpa using hv
  rw [← takeWhile_unquoted (u := v) hw, htail, takeWhile_unquoted hbody]

theorem next_within (hnext : npyScannerNext (within t m) = some (token, s'))
    (hend : 0 < s'.left ∨ token.type = .rbrace) :
    ∃ t₁ length, npyToken (t₁ ++ m) t₁.length = some (token.type, length) ∧
      (0 < s'.left → length < t₁.length) ∧ token.start = t₁ ++ m ∧
      s' = within (t₁.drop length) m ∧ ∀ m', npyScannerNext (within t m') =
        some (⟨token.type, t₁ ++ m'⟩, within (t₁.drop length) m') := by
  simp only [npyScannerNext, skipWhitespace_within] at hnext ⊢
  generalize t.dropWhile Char.isWhitespace = t₁ at hnext ⊢
  split at hnext
  next => cases hnext
  next hleft =>
    obtain ⟨⟨type, length⟩, htoken, heq⟩ := Option.map_eq_some_iff.mp hnext
    obtain ⟨rfl, rfl⟩ := Prod.mk.inj heq
    have hlt : 0 < ((within t₁ m).advance length).left → length < t₁.length :=
      fun hpos => Nat.lt_of_sub_pos hpos
    have hle : length ≤ t₁.length := by
      obtain hpos | rfl := hend
      · exact (hlt hpos).le
      · rw [npyToken_rbrace htoken]
        exact Nat.pos_of_ne_zero hleft
    have hne : t₁ ≠ [] := by
      rintro rfl
      exact hleft rfl
    refine ⟨t₁, length, htoken, hlt, rfl, advance_within hle m, fun m' => ?_⟩
    refine (if_neg hleft).trans ?_
    rw [← advance_within hle m']
    exact congrArg (Option.map _) (npyToken_within hne htoken hle m')

theorem quoted_prefix {length : Nat} (h : npyToken (t ++ m) t.length = some (.string, length))
    (hle : length ≤ t.length) {w : Text} (hw : '\x27' ∉ w)
    (hstarts : '\x27' :: (w ++ ['\x27']) <+: t ++ m) (m' : Text) :
    '\x27' :: (w ++ ['\x27']) <+: t ++ m' := by
  obtain ⟨body, rest, rfl, hbody⟩ := npyToken_string h hle
  obtain rfl := quoted_within hbody hw hstarts
  exact ⟨rest ++ m', by simp⟩

theorem strtol_within {length : Nat} (h : npyToken (t ++ m) t.length = some (.number, length))
    (hlt : length < t.length) (m' : Text) : strtol (t ++ m') = strtol (t ++ m) := by
  have hdigits : ∀ u, (t ++ u).takeWhile Char.isDigit = t.takeWhile Char.isDigit := fun u => by
    rw [List.takeWhile_append, if_neg]
    rw [← npyToken_number h]
    exact hlt.ne
  rw [strtol, strtol, Text.leading, Text.leading, hdigits, hdigits]

def SameQuoted (u u' : Text) : Prop :=
  ∀ w, '\x27' ∉ w → '\x27' :: (w ++ ['\x27']) <+: u → '\x27' :: (w ++ ['\x27']) <+: u'

theorem NpyScanner.Next.within (h : (within t m).Next type token s') (hpos : 0 < s'.left)
    (m' : Text) : ∃ token' t', s' = Npy.within t' m ∧
      (Npy.within t m').Next type token' (Npy.within t' m') ∧
      (type = .string → SameQuoted token.start token'.start) ∧
      (type = .number → strtol token'.start = strtol token.start) := by
  obtain ⟨hnext, rfl⟩ := h
  obtain ⟨t₁, length, htoken, hlt, hstart, hs', hall⟩ := next_within hnext (.inl hpos)
  refine ⟨_, _, hs', ⟨hall m', rfl⟩, fun htype => ?_, fun htype => ?_⟩
  · intro w hw hstarts
    rw [htype] at htoken
    exact quoted_prefix htoken (hlt hpos).le hw (hstart ▸ hstarts) m'
  · rw [htype] at htoken
    rw [hstart]
    exact strtol_within htoken (hlt hpos) m'

end Within

section Memory

variable {t m : Text} {s' : NpyScanner} {f : Field} {fs : List Field}

theorem Value.within {key key' : Text} (h : Value key (within t m) f s') (hpos : 0 < s'.left)
    (hkey : SameQuoted key key') (m' : Text) :
    ∃ t', s' = Npy.within t' m ∧ Value key' (Npy.within t m') f (Npy.within t' m') := by
  cases h with
  | descr hdescr hvalue htype =>
    obtain ⟨value, t', rfl, hvalue, hsame, -⟩ := hvalue.within hpos m'
    exact ⟨t', rfl, .descr (hkey "descr".toList (by decide) hdescr) hvalue
      (hsame rfl "<f4".toList (by decide) htype)⟩
  | fortranOrder horder hvalue =>
    obtain ⟨value, t', rfl, hvalue, -, -⟩ := hvalue.within hpos m'
    exact ⟨t', rfl, .fortranOrder (hkey "fortran_order".toList (by decide) horder) hvalue⟩
  | vector hshape hlparen hfirst hcomma hrparen =>
    have hpos₃ := hpos.trans hrparen.left_lt
    have hpos₂ := hpos₃.trans hcomma.left_lt
    have hpos₁ := hpos₂.trans hfirst.left_lt
    obtain ⟨_, t₁, rfl, hlparen, -, -⟩ := hlparen.within hpos₁ m'
    obtain ⟨first, t₂, rfl, hfirst, -, hnumber⟩ := hfirst.within hpos₂ m'
    obtain ⟨_, t₃, rfl, hcomma, -, -⟩ := hcomma.within hpos₃ m'
    obtain ⟨_, t₄, rfl, hrparen, -, -⟩ := hrparen.within hpos m'
    rw [← hnumber rfl]
    exact ⟨t₄, rfl, .vector (hkey "shape".toList (by decide) hshape) hlparen hfirst hcomma hrparen⟩
  | matrix hshape hlparen hfirst hcomma hsecond hrparen =>
    have hpos₄ := hpos.trans hrparen.left_lt
    have hpos₃ := hpos₄.trans hsecond.left_lt
    have hpos₂ := hpos₃.trans hcomma.left_lt
    have hpos₁ := hpos₂.trans hfirst.left_lt
    obtain ⟨_, t₁, rfl, hlparen, -, -⟩ := hlparen.within hpos₁ m'
    obtain ⟨first, t₂, rfl, hfirst, -, hnumber⟩ := hfirst.within hpos₂ m'
    obtain ⟨_, t₃, rfl, hcomma, -, -⟩ := hcomma.within hpos₃ m'
    obtain ⟨second, t₄, rfl, hsecond, -, hnumber'⟩ := hsecond.within hpos₄ m'
    obtain ⟨_, t₅, rfl, hrparen, -, -⟩ := hrparen.within hpos m'
    rw [← hnumber rfl, ← hnumber' rfl]
    exact ⟨t₅, rfl, .matrix (hkey "shape".toList (by decide) hshape) hlparen hfirst hcomma hsecond
      hrparen⟩

theorem Entries.left_pos {s : NpyScanner} (h : Entries s fs) : 0 < s.left := by
  cases h with
  | nil hrbrace => exact Nat.zero_lt_of_lt hrbrace.left_lt
  | cons hkey => exact Nat.zero_lt_of_lt hkey.left_lt

theorem Entries.within {s : NpyScanner} (h : Entries s fs) (hs : s = Npy.within t m) (m' : Text) :
    Entries (Npy.within t m') fs := by
  induction h generalizing t with
  | nil hrbrace =>
    subst hs
    obtain ⟨hnext, htype⟩ := hrbrace
    obtain ⟨t₁, length, -, -, -, -, hall⟩ := next_within hnext (.inr htype)
    exact .nil ⟨hall m', htype⟩
  | cons hkey hcolon hvalue hcomma hrest ih =>
    subst hs
    have hpos₄ := hrest.left_pos
    have hpos₃ := hpos₄.trans hcomma.left_lt
    have hpos₂ := hpos₃.trans hvalue.left_lt
    have hpos₁ := hpos₂.trans hcolon.left_lt
    obtain ⟨key, t₁, rfl, hkey, hsame, -⟩ := hkey.within hpos₁ m'
    obtain ⟨_, t₂, rfl, hcolon, -, -⟩ := hcolon.within hpos₂ m'
    obtain ⟨t₃, rfl, hvalue'⟩ := hvalue.within hpos₃ (hsame rfl) m'
    obtain ⟨_, t₄, rfl, hcomma, -, -⟩ := hcomma.within hpos₄ m'
    exact .cons hkey hcolon hvalue' hcomma (ih rfl)

theorem Header.within (h : Header (within t m) fs) (m' : Text) : Header (Npy.within t m') fs := by
  obtain ⟨token, s', hnext, hentries⟩ := h
  obtain ⟨t₁, length, -, -, -, rfl, hall⟩ := next_within hnext (.inl hentries.left_pos)
  exact ⟨_, _, hall m', hentries.within rfl m'⟩

end Memory

section Cursor

/-- A failure has a text, unless memory has run out. -/
inductive NpyError
  | message (text : String)
  | noMemory

/-- What an opened file has left, and the piece of it that is in memory. -/
structure NpyFile where
  rest : Bytes
  chunksBuffer : Bytes
  maxChunks : Nat
  currentChunkIndex : Nat
  currentChunkSize : Nat
  eof : Bool

inductive NpyInput
  | buffer (vector : Bytes)
  | file (file : NpyFile)

structure VecNpyEachCursor where
  iRowid : Nat
  array : NpyArray
  input : NpyInput

inductive ColumnResult
  | null
  | blob (bytes : Bytes) (subtype : Nat)
  | error (text : String)
  deriving DecidableEq

/-- The memory, the number of items and the rest of the file after a call for `n` items of `size`
bytes.  An item that is cut off is read, but not counted.  None if the memory is too small. -/
def fread (memory : Bytes) (size n : Nat) (rest : Bytes) : Option (Bytes × Nat × Bytes) :=
  let read := rest.take (size * n)
  if read.length ≤ memory.length then
    some (read ++ memory.drop read.length, read.length / size, rest.drop (size * n))
  else none

def NpyArray.vectorSize (array : NpyArray) : Nat :=
  (vectorByteSize array.elementType (BitVec.ofNat 64 array.numDimensions)).toNat

namespace VecNpyEachCursor

variable (pCur : VecNpyEachCursor)

def eof : Bool :=
  match pCur.input with
  | .buffer _ => pCur.array.numElements = 0 ∨ pCur.array.numElements ≤ pCur.iRowid
  | .file file => file.eof

/-- None if memory is written that is not the buffer's. -/
def next : Option VecNpyEachCursor :=
  let iRowid := pCur.iRowid + 1
  match pCur.input with
  | .buffer _ => some { pCur with iRowid }
  | .file file =>
    let currentChunkIndex := file.currentChunkIndex + 1
    if file.currentChunkSize ≤ currentChunkIndex then do
      let (chunksBuffer, currentChunkSize, rest) ←
        fread file.chunksBuffer pCur.array.vectorSize file.maxChunks file.rest
      let eof := file.eof || currentChunkSize = 0
      return ⟨iRowid, pCur.array, .file ⟨rest, chunksBuffer, file.maxChunks, 0, currentChunkSize,
        eof⟩⟩
    else some { pCur with iRowid, input := .file { file with currentChunkIndex } }

/-- The vector that starts at some place in the memory.  None if it is not all there. -/
def vector (memory : Bytes) (i subtype : Nat) : Option ColumnResult :=
  match pCur.array.elementType with
  | some .float32 =>
    let n := pCur.array.numDimensions
    (Blob.read memory (i * n * 4) (n * 4)).map fun bytes => .blob bytes subtype
  | some _ => some (.error "vec_npy_each only supports float32 vectors")
  | none => some .null

def column (i : Nat) : Option ColumnResult :=
  if i = 0 then
    match pCur.input with
    | .buffer vector =>
      pCur.vector vector pCur.iRowid (Elements.elementSubtype .float32)
    | .file file => pCur.vector file.chunksBuffer file.currentChunkIndex 0
  else some .null

/-- The rows of a scan: the rowids and the vectors.  None if one is not in memory. -/
def scan : Nat → VecNpyEachCursor → Option (List (Nat × ColumnResult))
  | 0, _ => some []
  | k + 1, pCur =>
    if pCur.eof then some []
    else do
      let result ← pCur.column 0
      let pCur' ← pCur.next
      let rows ← scan k pCur'
      return (pCur.iRowid, result) :: rows

end VecNpyEachCursor

end Cursor

section Filter

def fileHeaderLength (file : Bytes) : Nat := (file.getD 8 0).toNat + 256 * (file.getD 9 0).toNat

/-- How many bytes of the file come after the header, as an `int`. -/
def fileDataSize (file : Bytes) : Int :=
  (BitVec.ofInt 32 (file.length - (10 + fileHeaderLength file))).toInt

def fileData (file : Bytes) : Bytes := file.drop (10 + fileHeaderLength file)

/-- What the header of a file says.  `memory` is what is behind the memory that it is read into. -/
def parseNpyFileHeader (stale : Stale) (memory file : Bytes) : Except NpyError NpyArray := do
  let header := file.take 10
  require (header.length = 10) (.message "numpy array file too short")
  require (header.take 6 = npyMagic)
    (.message "numpy array file does not contain the 'magic' header")
  require (0 ≤ fileDataSize file) (.message "numpy array file header length is invalid")
  let headerX := (file.drop 10).take (fileHeaderLength file)
  require (headerX.length = fileHeaderLength file)
    (.message "numpy array file header length is invalid")
  let array ← (parseNpyHeader stale ⟨(headerX ++ memory).map fun b => Char.ofNat b.toNat,
    fileHeaderLength file⟩).mapError .message
  require (array.expectedDataSize = fileDataSize file)
    (.message ("numpy array file error: Expected a data size of " ++
      s!"{array.expectedDataSize}, found {fileDataSize file}"))
  return array

/-- The first piece of the file is read at once, into memory that holds `held`. -/
def parseNpyFile (stale : Stale) (memory : Bytes) (held : Nat → BitVec 8) (file : Bytes) :
    Except NpyError (Option VecNpyEachCursor) := do
  let array ← parseNpyFileHeader stale memory file
  let maxChunks := 1024
  let chunksBufferSize :=
    vectorByteSize array.elementType (BitVec.ofNat 64 array.numDimensions) * 1024
  require (chunksBufferSize = 0 ∨ BlobEntries.mallocs chunksBufferSize) .noMemory
  let chunksBuffer := (List.range (BlobEntries.toInt chunksBufferSize).toNat).map held
  return (fread chunksBuffer array.vectorSize maxChunks (fileData file)).map
    fun (chunksBuffer, currentChunkSize, rest) =>
      ⟨0, array, .file ⟨rest, chunksBuffer, maxChunks, 0, currentChunkSize,
        currentChunkSize = 0⟩⟩

/-- The argument of `vec_npy_each`: a file, if it can be opened, or a blob. -/
inductive NpyArgument
  | file (contents : Option Bytes)
  | buffer (buffer : Buffer)

def vecNpyEachFilter (stale : Stale) (memory : Bytes) (held : Nat → BitVec 8) :
    NpyArgument → Except NpyError (Option VecNpyEachCursor)
  | .file none => .error (.message "Could not open numpy file")
  | .file (some file) => parseNpyFile stale memory held file
  | .buffer buffer => do
    let pCur ← (parseNpyBuffer stale memory buffer).mapError .message
    return some ⟨0, pCur.array, .buffer pCur.vector⟩

end Filter

section Rows

def rowsFrom (iRowid subtype : Nat) (xs : List Bytes) : List (Nat × ColumnResult) :=
  (xs.zipIdx iRowid).map fun x => (x.2, .blob x.1 subtype)

structure Shows (subtype : Nat) (R : VecNpyEachCursor → List Bytes → Prop) : Prop where
  nil : ∀ {pCur}, R pCur [] → pCur.eof = true
  cons : ∀ {pCur x xs}, R pCur (x :: xs) → pCur.eof = false ∧
    pCur.column 0 = some (.blob x subtype) ∧
    ∃ pCur', pCur.next = some pCur' ∧ pCur'.iRowid = pCur.iRowid + 1 ∧ R pCur' xs

theorem Shows.scan {subtype : Nat} {R : VecNpyEachCursor → List Bytes → Prop}
    (h : Shows subtype R) {pCur : VecNpyEachCursor} {xs : List Bytes} (hR : R pCur xs) {k : Nat}
    (hk : xs.length ≤ k) : pCur.scan k = some (rowsFrom pCur.iRowid subtype xs) := by
  induction xs generalizing pCur k with
  | nil =>
    cases k with
    | zero => rfl
    | succ k => rw [VecNpyEachCursor.scan, if_pos (h.nil hR)]; rfl
  | cons x xs ih =>
    obtain ⟨k, rfl⟩ := Nat.exists_eq_add_of_lt (Nat.lt_of_lt_of_le (Nat.zero_lt_succ _) hk)
    obtain ⟨heof, hcolumn, pCur', hnext, hrowid, hR'⟩ := h.cons hR
    have hrest := ih hR' (k := k) (by simpa using hk)
    rw [Nat.zero_add, VecNpyEachCursor.scan, heof, hcolumn, hnext]
    simp only [Bool.false_eq_true, if_false, Option.bind_eq_bind, Option.bind_some, hrest, hrowid]
    rfl

end Rows

section File

variable {size n : Nat} {memory rest : Bytes}

theorem fread_spec (hsize : 0 < size) (hn : 0 < n) (hroom : size * n ≤ memory.length)
    (rest : Bytes) :
    ∃ memory' count rest', fread memory size n rest = some (memory', count, rest') ∧
      memory'.length = memory.length ∧ size * count ≤ memory'.length ∧
      Blob.items size (memory'.take (size * count)) ++ Blob.items size rest' =
        Blob.items size rest ∧ (count = 0 ↔ Blob.items size rest = []) := by
  have hle : (rest.take (size * n)).length ≤ memory.length :=
    (List.length_take_le _ _).trans hroom
  have hcount := Nat.mul_div_le (rest.take (size * n)).length size
  have hlen : (rest.take (size * n) ++ memory.drop (rest.take (size * n)).length).length =
      memory.length := by
    rw [List.length_append, List.length_drop]
    omega
  refine ⟨_, _, _, if_pos hle, hlen, hlen ▸ hcount.trans hle, ?_, ?_⟩
  · rw [List.take_append_of_le_length hcount, Blob.items_take_whole rfl]
    exact Blob.items_take_append_drop size n rest
  · rw [Blob.items_eq_nil_iff, List.length_take, Nat.div_eq_zero_iff, Nat.div_eq_zero_iff]
    have hsn : size ≤ size * n := Nat.le_mul_of_pos_right size hn
    omega

/-- The vectors that a file has left: those in memory from the current one on, and the rest. -/
structure NpyFile.Left (size : Nat) (file : NpyFile) (xs : List Bytes) : Prop where
  room : size * file.maxChunks ≤ file.chunksBuffer.length
  maxChunks_pos : 0 < file.maxChunks
  within : size * file.currentChunkSize ≤ file.chunksBuffer.length
  left : xs = (Blob.items size (file.chunksBuffer.take (size * file.currentChunkSize))).drop
    file.currentChunkIndex ++ Blob.items size file.rest
  eof_iff : file.eof = true ↔ xs = []
  index_lt : xs ≠ [] → file.currentChunkIndex < file.currentChunkSize

variable {file : NpyFile} {x : Bytes} {xs : List Bytes}

theorem NpyFile.Left.length_current (h : file.Left size xs) (hsize : 0 < size) :
    (Blob.items size (file.chunksBuffer.take (size * file.currentChunkSize))).length =
      file.currentChunkSize := by
  rw [Blob.length_items, List.length_take_of_le h.within, Nat.mul_div_cancel_left _ hsize]

theorem NpyFile.Left.uncons (h : file.Left size (x :: xs)) (hsize : 0 < size) :
    (Blob.items size (file.chunksBuffer.take (size * file.currentChunkSize)))[
      file.currentChunkIndex]? = some x ∧
      xs = (Blob.items size (file.chunksBuffer.take (size * file.currentChunkSize))).drop
        (file.currentChunkIndex + 1) ++ Blob.items size file.rest := by
  have hlt := h.index_lt (List.cons_ne_nil x xs)
  have hleft := h.left
  rw [← h.length_current hsize] at hlt
  rw [List.drop_eq_getElem_cons hlt, List.cons_append] at hleft
  obtain ⟨rfl, hxs⟩ := List.cons.inj hleft
  exact ⟨List.getElem?_eq_getElem hlt, hxs⟩

theorem NpyFile.Left.read (h : file.Left size (x :: xs)) (hsize : 0 < size) :
    Blob.read file.chunksBuffer (file.currentChunkIndex * size) size = some x :=
  Blob.read_of_take (Blob.read_of_items (h.uncons hsize).1)

theorem NpyFile.Left.next (h : file.Left size (x :: xs)) (hsize : 0 < size) {array : NpyArray}
    (harray : array.vectorSize = size) (iRowid : Nat) :
    ∃ file', VecNpyEachCursor.next ⟨iRowid, array, .file file⟩ =
      some ⟨iRowid + 1, array, .file file'⟩ ∧ file'.Left size xs := by
  have hlt := h.index_lt (List.cons_ne_nil x xs)
  have heof : file.eof = false := Bool.eq_false_iff.mpr fun heof =>
    List.cons_ne_nil x xs (h.eof_iff.mp heof)
  obtain ⟨-, hxs⟩ := h.uncons hsize
  have hlen := h.length_current hsize
  rw [VecNpyEachCursor.next]
  simp only [harray]
  by_cases hlast : file.currentChunkSize ≤ file.currentChunkIndex + 1
  · obtain ⟨chunksBuffer, count, rest, hfread, hbuffer, hcount, hitems, hzero⟩ :=
      fread_spec hsize h.maxChunks_pos h.room file.rest
    rw [List.drop_eq_nil_of_le (hlen.le.trans hlast), List.nil_append] at hxs
    rw [if_pos hlast, hfread]
    refine ⟨_, rfl, ⟨hbuffer ▸ h.room, h.maxChunks_pos, hcount, ?_, ?_, fun hne => ?_⟩⟩
    · rw [hxs, ← hitems]
      rfl
    · rw [heof, Bool.false_or, decide_eq_true_iff, hxs]
      exact hzero
    · exact Nat.pos_of_ne_zero fun h0 => hne (hxs.trans (hzero.mp h0))
  · rw [if_neg hlast]
    refine ⟨_, rfl, ⟨h.room, h.maxChunks_pos, h.within, hxs, ?_, fun _ => Nat.lt_of_not_le hlast⟩⟩
    have hne : xs ≠ [] := by
      rw [hxs]
      refine List.append_ne_nil_of_left_ne_nil (List.length_pos_iff.mp ?_) _
      rw [List.length_drop, hlen]
      exact Nat.sub_pos_of_lt (Nat.lt_of_not_le hlast)
    simp only [heof, Bool.false_eq_true, hne]

theorem NpyFile.Left.eof (h : file.Left size xs) : file.eof = decide (xs = []) := by
  rw [Bool.eq_iff_iff, decide_eq_true_iff]
  exact h.eof_iff

end File

section Scans

variable {array : NpyArray} {vector : Bytes}

theorem vectorSize_float (htype : array.elementType = some .float32)
    (hlt : array.numDimensions * 4 < 2 ^ 64) : array.vectorSize = array.numDimensions * 4 := by
  have hfour : (4 : BitVec 64) = BitVec.ofNat 64 4 := rfl
  rw [NpyArray.vectorSize, htype, vectorByteSize, hfour, ← BitVec.ofNat_mul, BitVec.toNat_ofNat,
    Nat.mod_eq_of_lt hlt]

def FileLeft (array : NpyArray) (pCur : VecNpyEachCursor) (xs : List Bytes) : Prop :=
  ∃ iRowid file, pCur = ⟨iRowid, array, .file file⟩ ∧ file.Left array.vectorSize xs

def BufferLeft (array : NpyArray) (vector : Bytes) (pCur : VecNpyEachCursor) (xs : List Bytes) :
    Prop :=
  ∃ iRowid, pCur = ⟨iRowid, array, .buffer vector⟩ ∧
    xs = (Blob.items (array.numDimensions * 4) vector).drop iRowid

theorem fileLeft_shows (htype : array.elementType = some .float32)
    (hpos : 0 < array.numDimensions) (hlt : array.numDimensions * 4 < 2 ^ 64) :
    Shows 0 (FileLeft array) where
  nil h := by
    obtain ⟨iRowid, file, rfl, hleft⟩ := h
    exact hleft.eof_iff.mpr rfl
  cons h := by
    obtain ⟨iRowid, file, rfl, hleft⟩ := h
    have hsize := vectorSize_float htype hlt
    have hsize_pos : 0 < array.vectorSize := by omega
    obtain ⟨file', hnext, hleft'⟩ := hleft.next hsize_pos rfl iRowid
    have hread := hleft.read hsize_pos
    refine ⟨hleft.eof.trans (decide_eq_false (List.cons_ne_nil _ _)), ?_, _, hnext, rfl, _, file',
      rfl, hleft'⟩
    rw [hsize, ← Nat.mul_assoc] at hread
    rw [VecNpyEachCursor.column, if_pos rfl]
    simp only [VecNpyEachCursor.vector, htype, hread, Option.map_some]

theorem bufferLeft_shows (htype : array.elementType = some .float32)
    (hpos : 0 < array.numDimensions)
    (hlength : vector.length = array.numElements * (array.numDimensions * 4)) :
    Shows (Elements.elementSubtype .float32) (BufferLeft array vector) where
  nil h := by
    obtain ⟨iRowid, rfl, hnil⟩ := h
    have hle := List.drop_eq_nil_iff.mp hnil.symm
    rw [Blob.length_items, hlength, Nat.mul_div_cancel _ (by omega)] at hle
    exact decide_eq_true (.inr hle)
  cons h := by
    obtain ⟨iRowid, rfl, hcons⟩ := h
    have hlen : (Blob.items (array.numDimensions * 4) vector).length = array.numElements := by
      rw [Blob.length_items, hlength, Nat.mul_div_cancel _ (by omega)]
    have hlt := Nat.lt_of_not_le fun hle => List.cons_ne_nil _ _
      (hcons.trans (List.drop_eq_nil_of_le hle))
    rw [List.drop_eq_getElem_cons hlt] at hcons
    obtain ⟨rfl, rfl⟩ := List.cons.inj hcons
    have hread := Blob.read_of_items (List.getElem?_eq_getElem hlt)
    rw [hlen] at hlt
    refine ⟨decide_eq_false (show ¬(array.numElements = 0 ∨ array.numElements ≤ iRowid) by omega),
      ?_, _, rfl, rfl, _, rfl, rfl⟩
    rw [← Nat.mul_assoc] at hread
    rw [VecNpyEachCursor.column, if_pos rfl]
    simp only [VecNpyEachCursor.vector, htype, hread, Option.map_some]

end Scans

section Accepted

variable {stale : Stale} {memory file : Bytes} {held : Nat → BitVec 8}
variable {array : NpyArray} {buffer : Buffer}

theorem parseNpyFile_left (held : Nat → BitVec 8)
    (hheader : parseNpyFileHeader stale memory file = .ok array)
    (htype : array.elementType = some .float32) (hpos : 0 < array.numDimensions)
    (hfits : array.numDimensions * 4096 < 2147483648) :
    ∃ pCur, vecNpyEachFilter stale memory held (.file (some file)) = .ok (some pCur) ∧
      pCur.iRowid = 0 ∧ FileLeft array pCur (Blob.items (array.numDimensions * 4) (fileData file)) := by
  have hsize := vectorSize_float htype (by omega)
  have hbytes : (vectorByteSize array.elementType (BitVec.ofNat 64 array.numDimensions) *
      1024).toNat = array.numDimensions * 4096 := by
    rw [BitVec.toNat_mul]
    change array.vectorSize * 1024 % 2 ^ 64 = _
    omega
  have hint : (BlobEntries.toInt (vectorByteSize array.elementType
      (BitVec.ofNat 64 array.numDimensions) * 1024)).toNat = array.numDimensions * 4096 := by
    rw [BlobEntries.toInt_of_lt (by omega), hbytes, Int.toNat_natCast]
  have hroom : array.vectorSize * 1024 ≤ ((List.range (BlobEntries.toInt (vectorByteSize
      array.elementType (BitVec.ofNat 64 array.numDimensions) * 1024)).toNat).map held).length := by
    rw [List.length_map, List.length_range, hint]
    omega
  obtain ⟨chunksBuffer, count, rest, hfread, hbuffer, hcount, hitems, hzero⟩ :=
    fread_spec (by omega) (by decide) hroom (fileData file)
  have hmallocs : BlobEntries.mallocs (vectorByteSize array.elementType
      (BitVec.ofNat 64 array.numDimensions) * 1024) = true := by
    rw [BlobEntries.mallocs, decide_eq_true_iff]
    omega
  refine ⟨⟨0, array, .file ⟨rest, chunksBuffer, 1024, 0, count, count = 0⟩⟩, ?_, rfl, _, _, rfl, ?_⟩
  · rw [vecNpyEachFilter, parseNpyFile, hheader, ok_bind]
    simp only [hmallocs, or_true, require, if_true, ok_bind]
    exact congrArg (fun x => Except.ok (Option.map _ x)) hfread
  · rw [hsize] at hitems hzero hroom hcount ⊢
    refine ⟨hbuffer ▸ hroom, Nat.zero_lt_succ _, hcount, hitems.symm, ?_, fun hne => ?_⟩
    · simp only [decide_eq_true_iff]
      exact hzero
    · exact Nat.pos_of_ne_zero fun h0 => hne (hzero.mp h0)

/-- An accepted file of floats is read to its end, whatever number of vectors the header states: a
scan shows the whole vectors that are there, and stays within the memory it has asked for. -/
theorem parseNpyFile_scan (held : Nat → BitVec 8)
    (hheader : parseNpyFileHeader stale memory file = .ok array)
    (htype : array.elementType = some .float32) (hpos : 0 < array.numDimensions)
    (hfits : array.numDimensions * 4096 < 2147483648) :
    ∃ pCur, vecNpyEachFilter stale memory held (.file (some file)) = .ok (some pCur) ∧
      ∀ k, (Blob.items (array.numDimensions * 4) (fileData file)).length ≤ k →
        pCur.scan k =
          some (rowsFrom 0 0 (Blob.items (array.numDimensions * 4) (fileData file))) := by
  obtain ⟨pCur, hfilter, hrowid, hleft⟩ := parseNpyFile_left held hheader htype hpos hfits
  refine ⟨pCur, hfilter, fun k hk => ?_⟩
  rw [(fileLeft_shows htype hpos (by omega)).scan hleft hk, hrowid]

theorem elementType_assignAll {fs : List Field} (h : Field.descr ∈ fs) (array : NpyArray) :
    (array.assignAll fs).elementType = some .float32 := by
  have hkeep : ∀ (gs : List Field) (array : NpyArray), array.elementType = some .float32 →
      (array.assignAll gs).elementType = some .float32 := fun gs => by
    induction gs with
    | nil => exact fun _ h => h
    | cons g gs ih =>
      intro array h
      refine ih (array.assign g) ?_
      cases g <;> first | rfl | exact h
  induction fs generalizing array with
  | nil => cases h
  | cons f fs ih =>
    obtain rfl | h := List.mem_cons.mp h
    · exact hkeep fs _ rfl
    · exact ih h (array.assign f)

theorem assignAll_complete {fs : List Field} (hdescr : Field.descr ∈ fs)
    (hshape : ∃ n d, Field.shape n d ∈ fs) (array array' : NpyArray) :
    array.assignAll fs = array'.assignAll fs := by
  obtain ⟨n, d, hshaped⟩ := exists_shaped hshape
  obtain ⟨hn, hd⟩ := hshaped.assigned array
  obtain ⟨hn', hd'⟩ := hshaped.assigned array'
  rw [NpyArray.mk.injEq]
  exact ⟨(elementType_assignAll hdescr array).trans (elementType_assignAll hdescr array').symm,
    hn.trans hn'.symm, hd.trans hd'.symm⟩

theorem Buffer.Framed.length_le (h : buffer.Framed) :
    10 + buffer.headerLength ≤ buffer.bytes.length := by
  have hsize := h.2.2
  rw [Buffer.dataSize] at hsize
  omega

theorem length_header (h : buffer.Framed) :
    ((buffer.bytes.drop 10).take buffer.headerLength).length = buffer.headerLength := by
  have hle := h.length_le
  rw [List.length_take, List.length_drop]
  omega

def headerText (buffer : Buffer) : Text :=
  ((buffer.bytes.drop 10).take buffer.headerLength).map fun b => Char.ofNat b.toNat

theorem within_headerText (h : buffer.Framed) (memory : Bytes) :
    (⟨((buffer.bytes.drop 10).take buffer.headerLength ++ memory).map fun b => Char.ofNat b.toNat,
      buffer.headerLength⟩ : NpyScanner) =
        within (headerText buffer) (memory.map fun b => Char.ofNat b.toNat) := by
  rw [within, headerText, List.map_append, List.length_map, length_header h]

theorem header_eq_within (h : buffer.Framed) (memory : Bytes) :
    buffer.header memory =
      within (headerText buffer) ((buffer.vector ++ memory).map fun b => Char.ofNat b.toNat) := by
  rw [← within_headerText h, Buffer.header, Buffer.vector, ← List.drop_drop, ← List.append_assoc,
    List.take_append_drop]

theorem parseNpyFileHeader_of_buffer {fs : List Field} (hframed : buffer.Framed)
    (hheader : Header (buffer.header memory) fs)
    (hexpected : (stale.array.assignAll fs).expectedDataSize = buffer.dataSize)
    (memory' : Bytes) :
    parseNpyFileHeader stale memory' buffer.bytes = .ok (stale.array.assignAll fs) := by
  have hlt := buffer.lt
  have hle := hframed.length_le
  have hsize : fileDataSize buffer.bytes = buffer.dataSize := by
    have hcast : (buffer.bytes.length : Int) - (10 + fileHeaderLength buffer.bytes) =
        (buffer.bytes.length - (10 + buffer.headerLength) : Nat) := by
      rw [Nat.cast_sub hle, Nat.cast_add]
      rfl
    rw [fileDataSize, hcast, BitVec.ofInt_natCast, BitVec.toInt_eq_toNat_of_lt, BitVec.toNat_ofNat]
    · rw [Nat.mod_eq_of_lt (by omega), Buffer.dataSize]
      omega
    · rw [BitVec.toNat_ofNat, Nat.mod_eq_of_lt (by omega)]
      omega
  have hfile := Header.within (header_eq_within hframed memory ▸ hheader)
    (memory'.map fun b => Char.ofNat b.toNat)
  rw [← within_headerText hframed] at hfile
  have hparse : parseNpyHeader stale
      ⟨((buffer.bytes.drop 10).take (fileHeaderLength buffer.bytes) ++ memory').map
        fun b => Char.ofNat b.toNat, fileHeaderLength buffer.bytes⟩ =
        .ok (stale.array.assignAll fs) := parseNpyHeader_ok.mpr ⟨fs, hfile, rfl⟩
  have hten : (buffer.bytes.take 10).length = 10 := List.length_take_of_le hframed.1
  have hmagic : (buffer.bytes.take 10).take 6 = npyMagic := by
    rw [List.take_take]
    exact hframed.2.1
  simp only [parseNpyFileHeader, bind_eq_ok, require_eq_ok, pure_eq_ok, hparse, hsize]
  exact ⟨⟨⟩, hten, ⟨⟩, hmagic, ⟨⟩, hframed.2.2, ⟨⟩, length_header hframed, _, rfl, ⟨⟩, hexpected,
    rfl⟩

/-- The same bytes, as a buffer and as a file, have the same rows, whatever memory held before: as
many vectors as the header states.  Those of a buffer are marked as vectors, those of a file not. -/
theorem scans_agree (stale' : Stale) (memory' : Bytes) (held' : Nat → BitVec 8) {fs : List Field}
    {pCur : VecNpyEachCursor}
    (hparse : vecNpyEachFilter stale memory held (.buffer buffer) = .ok (some pCur))
    (hheader : Header (buffer.header memory) fs) (hdescr : Field.descr ∈ fs)
    (hshape : ∃ n d, Field.shape n d ∈ fs) (hpos : 0 < pCur.array.numDimensions)
    (hfits : pCur.array.numDimensions * 4096 < 2147483648)
    (hsize : pCur.array.numElements * pCur.array.numDimensions * 4 < 4294967296) :
    ∃ pCur' xs, vecNpyEachFilter stale' memory' held' (.file (some buffer.bytes)) =
        .ok (some pCur') ∧ xs.length = pCur.array.numElements ∧
      ∀ k, xs.length ≤ k →
        pCur.scan k = some (rowsFrom 0 (Elements.elementSubtype .float32) xs) ∧
          pCur'.scan k = some (rowsFrom 0 0 xs) := by
  rw [vecNpyEachFilter, bind_eq_ok] at hparse
  obtain ⟨cursor, hcursor, heq⟩ := hparse
  obtain rfl := Option.some.inj (Except.ok.inj heq)
  obtain ⟨hframed, gs, hheader', hexpected, rfl⟩ := parseNpyBuffer_ok.mp (mapError_eq_ok.mp hcursor)
  obtain rfl := hheader.unique hheader'
  have htype := elementType_assignAll hdescr stale.array
  have hlength : buffer.vector.length = (stale.array.assignAll fs).numElements *
      ((stale.array.assignAll fs).numDimensions * 4) := by
    have hvector := Buffer.length_vector hframed.2.2
    have hnonneg := hframed.2.2
    rw [← hexpected] at hvector hnonneg
    rw [expected_float htype hsize hnonneg] at hvector
    rw [← Nat.mul_assoc]
    exact_mod_cast hvector
  have hxs : (Blob.items ((stale.array.assignAll fs).numDimensions * 4) buffer.vector).length =
      (stale.array.assignAll fs).numElements := by
    rw [Blob.length_items, hlength, Nat.mul_div_cancel _ (Nat.mul_pos hpos (Nat.zero_lt_succ 3))]
  have hsame := assignAll_complete hdescr hshape stale.array stale'.array
  have hfile := parseNpyFileHeader_of_buffer hframed hheader
    (hsame ▸ hexpected) memory'
  rw [← hsame] at hfile
  change (stale.array.assignAll fs).numDimensions * 4096 < 2147483648 at hfits
  obtain ⟨pCur', hfilter, hrowid, hleft⟩ := parseNpyFile_left held' hfile htype hpos hfits
  refine ⟨pCur', _, hfilter, hxs, fun k hk => ⟨?_, ?_⟩⟩
  · exact (bufferLeft_shows htype hpos hlength).scan ⟨0, rfl, rfl⟩ hk
  · refine ((fileLeft_shows htype hpos (by omega)).scan hleft hk).trans ?_
    rw [hrowid]
    rfl

end Accepted

section Sample

def sampleFile (shape : Text) (data : Bytes) : Bytes :=
  let header := "\x7b'descr': '<f4', 'fortran_order': False, 'shape': ".toList ++ shape ++
    ", \x7d".toList
  npyMagic ++ [1#8, 0#8, BitVec.ofNat 8 header.length, 0#8] ++
    (header.map fun c => BitVec.ofNat 8 c.toNat) ++ data

def sampleData : Bytes := (List.range 12).map (BitVec.ofNat 8)

def sampleLiar : Bytes := sampleFile "(1073741827, 1)".toList sampleData

theorem sampleLiar_header :
    parseNpyFileHeader noArray [] sampleLiar = .ok ⟨some .float32, 1073741827, 1⟩ := by
  rfl

theorem sample_scan : ∃ pCur, vecNpyEachFilter noArray [] (fun _ => 0) (.file (some sampleLiar)) =
      .ok (some pCur) ∧
    pCur.scan 10 = some [(0, .blob [0#8, 1#8, 2#8, 3#8] 0), (1, .blob [4#8, 5#8, 6#8, 7#8] 0),
      (2, .blob [8#8, 9#8, 10#8, 11#8] 0)] := by
  obtain ⟨pCur, hfilter, hscan⟩ := parseNpyFile_scan (fun _ => 0) sampleLiar_header rfl
    (Nat.zero_lt_succ 0) (by decide)
  exact ⟨pCur, hfilter, hscan 10 (by decide)⟩

def sampleBytes : Bytes := sampleFile "(3, 1)".toList sampleData

theorem sampleBytes_lt : sampleBytes.length < 2147483648 := by decide

def sampleBuffer : Buffer := ⟨sampleBytes, sampleBytes_lt⟩

theorem sampleBuffer_header :
    Header (sampleBuffer.header []) [.descr, .fortranOrder, .shape 3 1] := by
  refine ⟨_, _, rfl, ?_⟩
  refine .cons ⟨rfl, rfl⟩ ⟨rfl, rfl⟩ (parseValue_ok.mp rfl) ⟨rfl, rfl⟩ ?_
  refine .cons ⟨rfl, rfl⟩ ⟨rfl, rfl⟩ (parseValue_ok.mp rfl) ⟨rfl, rfl⟩ ?_
  refine .cons ⟨rfl, rfl⟩ ⟨rfl, rfl⟩ (parseValue_ok.mp rfl) ⟨rfl, rfl⟩ ?_
  exact .nil ⟨rfl, rfl⟩

theorem sample_agree : ∃ pCur' xs, vecNpyEachFilter noArray [0x7d#8] (fun _ => 1)
      (.file (some sampleBytes)) = .ok (some pCur') ∧ xs.length = 3 ∧
    pCur'.scan 3 = some (rowsFrom 0 0 xs) := by
  have hparse : vecNpyEachFilter noArray [] (fun _ => 0) (.buffer sampleBuffer) =
      .ok (some ⟨0, ⟨some .float32, 3, 1⟩, .buffer sampleData⟩) := rfl
  have hshape : Field.shape 3 1 ∈ [Field.descr, .fortranOrder, .shape 3 1] := by simp
  obtain ⟨pCur', xs, hfilter, hlength, hscan⟩ := scans_agree noArray [0x7d#8] (fun _ => 1) hparse
    sampleBuffer_header List.mem_cons_self ⟨3, 1, hshape⟩ (by decide) (by decide) (by decide)
  exact ⟨pCur', xs, hfilter, hlength, (hscan 3 hlength.le).2⟩

end Sample

end SqliteMultimodal.Vec.Npy
