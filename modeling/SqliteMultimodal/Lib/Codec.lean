import Mathlib.Data.List.Basic
import Mathlib.Data.Nat.ModEq

namespace Codec

abbrev Bytes := List (BitVec 8)

abbrev Reader := StateT Bytes Option

def Reads {β : Type} (r : Reader β) (bs : Bytes) (x : β) : Prop :=
  ∀ rest, r (bs ++ rest) = some (x, rest)

variable {β γ : Type}

theorem Reads.pure (x : β) : Reads (Pure.pure x) [] x := fun _ => rfl

theorem Reads.bind {r : Reader β} {f : β → Reader γ} {bs bs' : Bytes} {x : β} {y : γ}
    (hr : Reads r bs x) (hf : Reads (f x) bs' y) : Reads (r >>= f) (bs ++ bs') y := by
  intro rest
  have hbind : (r >>= f) (bs ++ bs' ++ rest) =
      (r (bs ++ bs' ++ rest)).bind fun p => f p.1 p.2 := rfl
  rw [hbind, List.append_assoc, hr, Option.bind_some, hf]

theorem Reads.map {r : Reader β} {bs : Bytes} {x : β} (hr : Reads r bs x) (f : β → γ) :
    Reads (r >>= fun x => Pure.pure (f x)) bs (f x) := by
  have h := hr.bind (f := fun x => Pure.pure (f x)) (Reads.pure (f x))
  rwa [List.append_nil] at h

theorem Reads.unique {r : Reader β} {bs : Bytes} {x y : β} (hx : Reads r bs x)
    (hy : Reads r bs y) : x = y :=
  (Prod.mk.inj (Option.some.inj ((hx []).symm.trans (hy [])))).1

structure Fixed (β : Type) where
  width : Nat
  encode : β → Bytes
  decode : Bytes → β
  length_encode : ∀ x, (encode x).length = width
  decode_encode : ∀ x, decode (encode x) = x

def Fixed.read (c : Fixed β) : Reader β := fun bs =>
  if c.width ≤ bs.length then some (c.decode (bs.take c.width), bs.drop c.width) else none

theorem Fixed.reads (c : Fixed β) (x : β) : Reads c.read (c.encode x) x := by
  intro rest
  have hlen := c.length_encode x
  rw [Fixed.read, if_pos (by rw [List.length_append]; omega), List.take_left' hlen,
    List.drop_left' hlen, c.decode_encode]

def many (r : Reader β) : Nat → Reader (List β)
  | 0 => pure []
  | n + 1 => do
    let x ← r
    let xs ← many r n
    return x :: xs

theorem Reads.many {r : Reader β} {write : β → Bytes} {xs : List β}
    (h : ∀ x ∈ xs, Reads r (write x) x) : Reads (many r xs.length) (xs.flatMap write) xs := by
  induction xs with
  | nil => exact .pure []
  | cons x xs ih =>
    rw [List.flatMap_cons]
    exact (h x List.mem_cons_self).bind
      ((ih fun y hy => h y (List.mem_cons_of_mem x hy)).map (x :: ·))

section LittleEndian

def natBytes : Nat → Nat → Bytes
  | 0, _ => []
  | w + 1, n => BitVec.ofNat 8 n :: natBytes w (n / 256)

def ofBytes (bs : Bytes) : Nat := bs.foldr (fun b n => b.toNat + 256 * n) 0

theorem length_natBytes (w n : Nat) : (natBytes w n).length = w := by
  induction w generalizing n with
  | zero => rfl
  | succ w ih => rw [natBytes, List.length_cons, ih]

theorem ofBytes_natBytes (w n : Nat) : ofBytes (natBytes w n) = n % 256 ^ w := by
  induction w generalizing n with
  | zero => rw [Nat.pow_zero, Nat.mod_one]; rfl
  | succ w ih =>
    have hcons : ofBytes (natBytes (w + 1) n) = n % 256 + 256 * ofBytes (natBytes w (n / 256)) := by
      rw [natBytes, ofBytes, List.foldr_cons, BitVec.toNat_ofNat]
      rfl
    rw [hcons, ih, Nat.pow_succ', Nat.mod_mul]

def byte : Fixed (BitVec 8) where
  width := 1
  encode b := [b]
  decode bs := bs.headD 0
  length_encode _ := rfl
  decode_encode _ := rfl

theorem reads_bytes (bs : Bytes) : Reads (many byte.read bs.length) bs bs := by
  have h : Reads (many byte.read bs.length) (bs.flatMap byte.encode) bs :=
    Reads.many fun b _ => byte.reads b
  rwa [show bs.flatMap byte.encode = bs from List.flatMap_singleton' bs] at h

def uint32 : Fixed UInt32 where
  width := 4
  encode x := natBytes 4 x.toNat
  decode bs := UInt32.ofNat (ofBytes bs)
  length_encode x := length_natBytes 4 x.toNat
  decode_encode x := by
    have hlt : x.toNat < 256 ^ 4 := x.toNat_lt
    rw [ofBytes_natBytes, Nat.mod_eq_of_lt hlt, UInt32.ofNat_toNat]

def int32 : Fixed Int32 where
  width := 4
  encode x := uint32.encode x.toUInt32
  decode bs := (uint32.decode bs).toInt32
  length_encode x := uint32.length_encode x.toUInt32
  decode_encode x := congrArg UInt32.toInt32 (uint32.decode_encode x.toUInt32)

def int64 : Fixed Int64 where
  width := 8
  encode x := natBytes 8 x.toUInt64.toNat
  decode bs := (UInt64.ofNat (ofBytes bs)).toInt64
  length_encode x := length_natBytes 8 x.toUInt64.toNat
  decode_encode x := by
    have hlt : x.toUInt64.toNat < 256 ^ 8 := x.toUInt64.toNat_lt
    rw [ofBytes_natBytes, Nat.mod_eq_of_lt hlt, UInt64.ofNat_toNat]
    rfl

def writeInt (x : Int) : Bytes := int32.encode (Int32.ofInt x)

def readInt : Reader Int := do
  let x ← int32.read
  return x.toInt

def writeNat (n : Nat) : Bytes := uint32.encode (UInt32.ofNat n)

def readNat : Reader Nat := do
  let x ← uint32.read
  return x.toNat

theorem reads_writeInt {x : Int} (h : -2 ^ 31 ≤ x) (h' : x < 2 ^ 31) :
    Reads readInt (writeInt x) x := by
  have hread := (int32.reads (Int32.ofInt x)).map Int32.toInt
  rwa [Int32.toInt_ofInt_of_le h h'] at hread

theorem reads_writeNat {n : Nat} (h : n < 2 ^ 32) : Reads readNat (writeNat n) n := by
  have hread := (uint32.reads (UInt32.ofNat n)).map UInt32.toNat
  rwa [UInt32.toNat_ofNat_of_lt' h] at hread

end LittleEndian

end Codec
