import Mathlib.Algebra.Order.Ring.Int
import Mathlib.Data.Rat.Defs
import Mathlib.Order.Lattice

universe u

namespace SqliteMultimodal.Vec

abbrev ResultCode := Int

def sqliteOk : ResultCode := 0
def sqliteError : ResultCode := 1
def sqliteNomem : ResultCode := 7
def sqliteFull : ResultCode := 13
def sqliteEmpty : ResultCode := 16
def sqliteConstraint : ResultCode := 19

abbrev Rowid := Int64

/-- The value a 64-bit rowid has after being passed through an `int` parameter. -/
def Rowid.throughInt (r : Rowid) : Rowid := r.toInt32.toInt64

abbrev Bytes := List (BitVec 8)

/-- A value as SQLite passes it.  Reals are exact rationals. -/
inductive SqlValue
  | null
  | integer (v : Int64)
  | real (v : ℚ)
  | text (v : Bytes)
  | blob (v : Bytes)
  deriving DecidableEq

inductive SqlType
  | null | integer | float | text | blob
  deriving DecidableEq

def SqlValue.type : SqlValue → SqlType
  | .null => .null
  | .integer _ => .integer
  | .real _ => .float
  | .text _ => .text
  | .blob _ => .blob

/-- The operator `=`, which nothing satisfies against NULL. -/
def SqlValue.eq : SqlValue → SqlValue → Bool
  | .integer a, .integer b => a = b
  | .integer a, .real b => (a.toInt : ℚ) = b
  | .real a, .integer b => a = (b.toInt : ℚ)
  | .real a, .real b => a = b
  | .text a, .text b => a = b
  | .blob a, .blob b => a = b
  | _, _ => false

/-- The sizes `vec0_init` accepts. -/
structure ChunkSize where
  val : Nat
  pos : 0 < val
  dvd : 8 ∣ val
  le : val ≤ 4096

def ChunkSize.least : ChunkSize := ⟨8, by decide, by decide, by decide⟩

structure RowidMap where
  rowids : List Rowid
  preFilter : Bool

/-- `bsearch` over an array that `qsort` has put in `cmp_i64` order. -/
def bsearch (key : Rowid) (sorted : List Rowid) : Bool := sorted.contains key

theorem toInt_setWidth {x : BitVec 64} (h : x.toNat < 2147483648) :
    (x.setWidth 32).toInt = x.toNat := by
  rw [BitVec.toInt_eq_toNat_cond, BitVec.toNat_setWidth]
  omega

def l2SqrFloat {α : Type u} [Zero α] [Add α] [Sub α] [Mul α] (sqrt : α → α) (a b : List α) : α :=
  sqrt ((a.zip b).foldl (fun res (x, y) => let t := x - y; res + t * t) 0)

end SqliteMultimodal.Vec
