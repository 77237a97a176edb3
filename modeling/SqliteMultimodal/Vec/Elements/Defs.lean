import SqliteMultimodal.Lib.Numerals
import SqliteMultimodal.Vec.Storage.Defs

universe u

namespace SqliteMultimodal.Vec.Elements

open Storage

/-- The single-precision numbers.  `ofText` is what a numeral is cast to, none if it is out of the
range of `strtod`; `format` is `%f`. -/
structure Floats (F : Type u) where
  ofText : Text → Option F
  ofBits : BitVec 32 → F
  isnan : F → Bool
  positive : F → Bool
  format : F → Text

inductive Vector (F : Type u)
  | float32 (elements : List F)
  | int8 (elements : List (BitVec 8))
  | bit (bits : Bitmap)

inductive Value
  | blob (bytes : List (BitVec 8))
  | text (source : Text)
  | other (type : SqlType)

def typeName : SqlType → String
  | .integer => "INTEGER"
  | .blob => "BLOB"
  | .text => "TEXT"
  | .float => "FLOAT"
  | .null => "NULL"

def zeroLength : String := "zero-length vectors are not supported."

section Json

variable {α : Type u}

structure ElementReader (α : Type u) where
  numerals : Text.Numerals
  convert : Text → Except String α

def isSeparator (c : Char) : Bool := c.isWhitespace || c = ','

/-- The elements from some offset on; `k` bounds the number of rounds. -/
def parseElements (R : ElementReader α) : Nat → List α → Text → Except String (List α)
  | 0, x, _ => .ok x
  | k + 1, x, t =>
    if t = [] then .ok x
    else
      match R.numerals.read t with
      | none => if t.head? = some ']' then .ok x else .error "JSON parsing error"
      | some (number, rest) => do
        let res ← R.convert number
        let rest := rest.dropWhile isSeparator
        if rest.head? = some ']' then .ok (x ++ [res]) else parseElements R k (x ++ [res]) rest

def parseArray (R : ElementReader α) (source : Text) : Except String (List α) :=
  if source = [] then .error zeroLength
  else
    match source.dropWhile Char.isWhitespace with
    | [] => .error "JSON array parsing error: Input does not start with '['"
    | c :: t =>
      if c = '[' then do
        let x ← parseElements R t.length [] t
        if 0 < x.length then .ok x else .error zeroLength
      else .error "JSON array parsing error: Input does not start with '['"

end Json

section FromValue

variable {F : Type u} (floats : Floats F)

def floatReader : ElementReader F where
  numerals := Text.doubles
  convert number :=
    match floats.ofText number with
    | some x => .ok x
    | none => .error "JSON parsing error"

def int8Reader : ElementReader (BitVec 8) where
  numerals := Text.integers
  convert number :=
    let result := Text.integerOf number
    if result < -9223372036854775808 ∨ 9223372036854775807 < result then
      .error "JSON parsing error"
    else if result < -128 ∨ 127 < result then
      .error "JSON parsing error: value out of range for int8"
    else .ok (BitVec.ofInt 8 result)

def floatsOf : List (BitVec 8) → List F
  | a :: b :: c :: d :: bytes => floats.ofBits (d ++ (c ++ (b ++ a))) :: floatsOf bytes
  | _ => []

def fvecFromValue : Value → Except String (List F)
  | .blob bytes =>
    if bytes.length = 0 then .error zeroLength
    else if bytes.length % 4 ≠ 0 then
      .error ("invalid float32 vector BLOB length. Must be divisible by 4, found " ++
        toString bytes.length)
    else .ok (floatsOf floats bytes)
  | .text source => parseArray (floatReader floats) source
  | .other type =>
    .error ("Input must have type BLOB (compact format) or TEXT (JSON), found " ++ typeName type)

def bitvecFromValue : Value → Except String Bitmap
  | .blob bytes => if bytes.length = 0 then .error zeroLength else .ok ⟨bytes⟩
  | .text _ | .other _ => .error "Unknown type for bitvector."

def int8VecFromValue : Value → Except String (List (BitVec 8))
  | .blob bytes => if bytes.length = 0 then .error zeroLength else .ok bytes
  | .text source => parseArray int8Reader source
  | .other _ => .error "Unknown type for int8 vector."

def jsonSubtype : Nat := 74

def elementSubtype : VectorElementType → Nat
  | .float32 => 223
  | .bit => 224
  | .int8 => 225

def vectorFromValue (subtype : Nat) (value : Value) : Except String (Vector F) :=
  if subtype = 0 ∨ subtype = elementSubtype .float32 ∨ subtype = jsonSubtype then
    (fvecFromValue floats value).map .float32
  else if subtype = elementSubtype .bit then (bitvecFromValue value).map .bit
  else if subtype = elementSubtype .int8 then (int8VecFromValue value).map .int8
  else .error ("Unknown subtype: " ++ toString subtype)

end FromValue

section Show

variable {F : Type u} (floats : Floats F)

inductive Element (F : Type u)
  | null
  | real (x : F)
  | integer (n : Int)

def Vector.dimensions : Vector F → Nat
  | .float32 elements => elements.length
  | .int8 elements => elements.length
  | .bit bits => bits.bytes.length * 8

/-- The text that `vec_to_json` appends for element `i`. -/
def appendElement : Vector F → Nat → Text
  | .float32 elements, i =>
    match elements[i]? with
    | none => []
    | some value => if floats.isnan value then "null".toList else floats.format value
  | .int8 elements, i => Text.ofInt (elements.getD i 0).toInt
  | .bit bits, i =>
    let b := (bits.byte (i / 8) >>> (i % 8)) &&& 1#8
    Text.ofInt b.toNat

def vecToJson (vector : Vector F) : Text :=
  (List.range vector.dimensions).foldl (fun str i =>
    (if i ≠ 0 then str ++ [','] else str) ++ appendElement floats vector i) ['['] ++ [']']

structure EachCursor (F : Type u) where
  iRowid : Nat
  vector : Vector F

def EachCursor.eof (pCur : EachCursor F) : Bool := pCur.vector.dimensions ≤ pCur.iRowid

def EachCursor.next (pCur : EachCursor F) : EachCursor F := { pCur with iRowid := pCur.iRowid + 1 }

/-- SQLite makes NULL of a result that is not a number. -/
def vecEachColumn (pCur : EachCursor F) : Element F :=
  match pCur.vector with
  | .float32 elements =>
    match elements[pCur.iRowid]? with
    | none => .null
    | some value => if floats.isnan value then .null else .real value
  | .bit bits =>
    let x := bits.byte (pCur.iRowid / 8)
    .integer (if 0 < (x &&& (128#8 >>> (pCur.iRowid % 8))).toNat then 1 else 0)
  | .int8 elements => .integer (elements.getD pCur.iRowid 0).toInt

/-- The rows of a scan, at most `k` of them. -/
def vecEachRows : Nat → EachCursor F → List (Nat × Element F)
  | 0, _ => []
  | k + 1, pCur =>
    if pCur.eof then [] else (pCur.iRowid, vecEachColumn floats pCur) :: vecEachRows k pCur.next

def vecEach (vector : Vector F) : List (Nat × Element F) :=
  vecEachRows floats vector.dimensions ⟨0, vector⟩

def quantizeElement {α : Type u} (positive : α → Bool) (out : Bitmap) (x : α × Nat) : Bitmap :=
  let res := (BitVec.ofBool (positive x.1)).setWidth 8
  ⟨out.bytes.set (x.2 / 8) (out.byte (x.2 / 8) ||| (res <<< (x.2 % 8)))⟩

def quantize {α : Type u} (positive : α → Bool) (elements : List α) : Bitmap :=
  elements.zipIdx.foldl (quantizeElement positive) (Bitmap.new elements.length)

def vecQuantizeBinary (vector : Vector F) : Except String Bitmap :=
  if vector.dimensions = 0 then .error "Zero length vectors are not supported."
  else if vector.dimensions % 8 ≠ 0 then
    .error "Binary quantization requires vectors with a length divisible by 8"
  else
    match vector with
    | .float32 elements => .ok (quantize floats.positive elements)
    | .int8 elements => .ok (quantize (fun x => 0 < x.toInt) elements)
    | .bit _ => .error "Can only binary quantize float or int8 vectors"

end Show

end SqliteMultimodal.Vec.Elements
