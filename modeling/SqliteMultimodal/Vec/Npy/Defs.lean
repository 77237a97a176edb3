import SqliteMultimodal.Lib.Except
import SqliteMultimodal.Lib.Text
import SqliteMultimodal.Vec.Storage.Defs

namespace SqliteMultimodal.Vec.Npy

open Except Storage

section Tokens

inductive NpyTokenType
  | identifier | number | lparen | rparen | lbrace | rbrace | colon | comma | string | false
  deriving DecidableEq

/-- `start` is the memory from the token on. -/
structure NpyToken where
  type : NpyTokenType
  start : Text

/-- The memory that has not been read, and how much of it lies in front of the end of the header. -/
structure NpyScanner where
  rest : Text
  left : Nat

def NpyScanner.advance (scanner : NpyScanner) (n : Nat) : NpyScanner :=
  ⟨scanner.rest.drop n, scanner.left - n⟩

def npyToken (t : Text) (left : Nat) : Option (NpyTokenType × Nat) :=
  match t with
  | [] => none
  | curr :: t =>
    if curr = '(' then some (.lparen, 1)
    else if curr = ')' then some (.rparen, 1)
    else if curr = '\x7b' then some (.lbrace, 1)
    else if curr = '\x7d' then some (.rbrace, 1)
    else if curr = ':' then some (.colon, 1)
    else if curr = ',' then some (.comma, 1)
    else if curr = '\x27' then
      let body := (t.take (left - 1)).takeWhile (· ≠ '\x27')
      if (t.drop body.length).head? = some '\x27' then some (.string, body.length + 2) else none
    else if "False".toList <+: curr :: t then some (.false, 5)
    else if curr.isDigit then
      some (.number, (((curr :: t).take left).takeWhile Char.isDigit).length)
    else none

def skipWhitespace (scanner : NpyScanner) : NpyScanner :=
  scanner.advance ((scanner.rest.take scanner.left).takeWhile Char.isWhitespace).length

def npyScannerNext (scanner : NpyScanner) : Option (NpyToken × NpyScanner) :=
  let ptr := skipWhitespace scanner
  if ptr.left = 0 then none
  else (npyToken ptr.rest ptr.left).map fun (type, length) => (⟨type, ptr.rest⟩, ptr.advance length)

end Tokens

section Header

def npyParseError : String := "Error parsing numpy array: "

def expectToken (type : NpyTokenType) (message : String) (scanner : NpyScanner) :
    Except String (NpyToken × NpyScanner) :=
  match npyScannerNext scanner with
  | none => .error (npyParseError ++ message)
  | some (token, scanner) =>
    if token.type = type then .ok (token, scanner) else .error (npyParseError ++ message)

/-- `strtol`, whose result is not negative. -/
def strtol (t : Text) : Nat := min (Text.leading t) 9223372036854775807

inductive Field
  | descr
  | fortranOrder
  | shape (numElements numDimensions : Nat)

def parseDescr (scanner : NpyScanner) : Except String (Field × NpyScanner) := do
  let (token, scanner) ← expectToken .string "expected a string value after 'descr' key" scanner
  if "'<f4'".toList <+: token.start then return (.descr, scanner)
  else throw (npyParseError ++ "Only '<f4' values are supported in sqlite-vec numpy functions")

def parseFortranOrder (scanner : NpyScanner) : Except String (Field × NpyScanner) := do
  let (_, scanner) ← expectToken .false
    "Only fortran_order = False is supported in sqlite-vec numpy functions" scanner
  return (.fortranOrder, scanner)

def parseShape (scanner : NpyScanner) : Except String (Field × NpyScanner) := do
  let (_, scanner) ← expectToken .lparen "Expected left parenthesis '(' after shape key" scanner
  let (token, scanner) ← expectToken .number "Expected an initial number in shape value" scanner
  let first := strtol token.start
  let (_, scanner) ← expectToken .comma "Expected comma after first shape value" scanner
  match npyScannerNext scanner with
  | none => throw (npyParseError ++ "unexpected header EOF while parsing shape")
  | some (token, scanner) =>
    if token.type = .number then
      let (_, scanner) ← expectToken .rparen "expected right parenthesis after shape value" scanner
      return (.shape first (strtol token.start), scanner)
    else if token.type = .rparen then return (.shape (if first = 0 then 0 else 1) first, scanner)
    else throw (npyParseError ++ "unknown type in shape value")

def parseValue (key : Text) (scanner : NpyScanner) : Except String (Field × NpyScanner) :=
  if "'descr'".toList <+: key then parseDescr scanner
  else if "'fortran_order'".toList <+: key then parseFortranOrder scanner
  else if "'shape'".toList <+: key then parseShape scanner
  else throw (npyParseError ++ "unknown key in numpy header")

/-- The variables that the header is read into; `elementType` may not be a type at all. -/
structure NpyArray where
  elementType : Option VectorElementType
  numElements : Nat
  numDimensions : Nat

def NpyArray.assign (array : NpyArray) : Field → NpyArray
  | .descr => { array with elementType := some .float32 }
  | .fortranOrder => array
  | .shape numElements numDimensions => { array with numElements, numDimensions }

def parseEntries : Nat → NpyArray → NpyScanner → Except String NpyArray
  | 0, _, _ => .error (npyParseError ++ "expected key in numpy header")
  | k + 1, array, scanner =>
    match npyScannerNext scanner with
    | none => .error (npyParseError ++ "expected key in numpy header")
    | some (key, scanner) =>
      if key.type = .rbrace then .ok array
      else if key.type = .string then do
        let (_, scanner) ← expectToken .colon "expected a ':' after key in numpy header" scanner
        let (field, scanner) ← parseValue key.start scanner
        let (_, scanner) ← expectToken .comma "unknown extra token after value" scanner
        parseEntries k (array.assign field) scanner
      else .error (npyParseError ++ "expected a string as key in numpy header")

structure Stale where
  array : NpyArray
  tokenType : NpyTokenType

def parseNpyHeader (stale : Stale) (scanner : NpyScanner) : Except String NpyArray :=
  match npyScannerNext scanner with
  | some (_, scanner) => parseEntries scanner.left stale.array scanner
  | none =>
    if stale.tokenType = .lbrace then parseEntries scanner.left stale.array scanner
    else .error (npyParseError ++ "numpy header did not start with '\x7b'")

end Header

section Buffer

/-- A buffer whose length is an `int`. -/
structure Buffer where
  bytes : Bytes
  lt : bytes.length < 2147483648

def npyMagic : Bytes := [0x93#8, 0x4e#8, 0x55#8, 0x4d#8, 0x50#8, 0x59#8]

def vectorByteSize (elementType : Option VectorElementType) (dimensions : BitVec 64) : BitVec 64 :=
  match elementType with
  | some .float32 => dimensions * 4
  | some .int8 => dimensions
  | some .bit => dimensions / 8
  | none => 0

/-- What the cursor of `vec_npy_each` holds. -/
structure NpyCursor where
  array : NpyArray
  vector : Bytes

namespace Buffer

variable (buffer : Buffer)

def headerLength : Nat := (buffer.bytes.getD 8 0).toNat + 256 * (buffer.bytes.getD 9 0).toNat

def dataSize : Int := buffer.bytes.length - (10 + buffer.headerLength)

def vector : Bytes := buffer.bytes.drop (10 + buffer.headerLength)

/-- The header, with the memory behind it: the rest of the buffer and what comes after. -/
def header (memory : Bytes) : NpyScanner :=
  ⟨(buffer.bytes.drop 10 ++ memory).map fun b => Char.ofNat b.toNat, buffer.headerLength⟩

end Buffer

def NpyArray.expectedDataSize (array : NpyArray) : Int :=
  (((BitVec.ofNat 64 array.numElements) *
    vectorByteSize array.elementType (BitVec.ofNat 64 array.numDimensions)).setWidth 32).toInt

def parseNpyBuffer (stale : Stale) (memory : Bytes) (buffer : Buffer) :
    Except String NpyCursor := do
  require (10 ≤ buffer.bytes.length) "numpy array too short"
  require (buffer.bytes.take 6 = npyMagic) "numpy array does not contain the 'magic' header"
  require (0 ≤ buffer.dataSize) "numpy array header length is invalid"
  let array ← parseNpyHeader stale (buffer.header memory)
  require (array.expectedDataSize = buffer.dataSize)
    ("numpy array error: Expected a data size of " ++
      s!"{array.expectedDataSize}, found {buffer.dataSize}")
  return ⟨array, buffer.vector⟩

def NpyCursor.row (pCur : NpyCursor) (iRowid : Nat) : Nat × Nat :=
  (iRowid * pCur.array.numDimensions * 4, pCur.array.numDimensions * 4)

def NpyCursor.eof (pCur : NpyCursor) (iRowid : Nat) : Bool := pCur.array.numElements ≤ iRowid

end Buffer

end SqliteMultimodal.Vec.Npy
