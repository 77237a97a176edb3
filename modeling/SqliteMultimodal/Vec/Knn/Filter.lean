import Mathlib.Algebra.Order.Ring.Unbundled.Rat
import SqliteMultimodal.Vec.ChunkScan.Defs
import SqliteMultimodal.Vec.Storage.Defs

namespace SqliteMultimodal.Vec

inductive CompareOp
  | eq | ne | gt | ge | lt | le
  deriving DecidableEq

def CompareOp.holds : CompareOp → Ordering → Bool
  | .eq, o => o == .eq
  | .ne, o => o != .eq
  | .gt, o => o == .gt
  | .ge, o => o != .lt
  | .lt, o => o == .lt
  | .le, o => o != .gt

/-- `memcmp`, and the shorter one first. -/
def cmpBytes : Bytes → Bytes → Ordering
  | [], [] => .eq
  | [], _ :: _ => .lt
  | _ :: _, [] => .gt
  | x :: xs, y :: ys => (compare x.toNat y.toNat).then (cmpBytes xs ys)

/-- The order of SQLite: numbers, texts, blobs.  Nothing is compared with NULL. -/
def SqlValue.cmp : SqlValue → SqlValue → Option Ordering
  | .null, _ => none
  | _, .null => none
  | .integer a, .integer b => some (compare a.toInt b.toInt)
  | .integer a, .real b => some (compare (a.toInt : ℚ) b)
  | .real a, .integer b => some (compare a (b.toInt : ℚ))
  | .real a, .real b => some (compare a b)
  | .text a, .text b => some (cmpBytes a b)
  | .blob a, .blob b => some (cmpBytes a b)
  | .integer _, _ => some .lt
  | .real _, _ => some .lt
  | .text _, .blob _ => some .lt
  | .text _, _ => some .gt
  | .blob _, _ => some .gt

def SqlValue.satisfies (a : SqlValue) (op : CompareOp) (b : SqlValue) : Bool :=
  (a.cmp b).any op.holds

/-- `sqlite3_value_int64`, `sqlite3_value_double` and `sqlite3_value_text`.  Values of another type
are converted by rules of SQLite that do not matter here. -/
structure Conversions where
  int64 : SqlValue → Int64
  double : SqlValue → ℚ
  text : SqlValue → Bytes
  int64_integer : ∀ v, int64 (.integer v) = v
  double_real : ∀ v, double (.real v) = v
  text_text : ∀ t, text (.text t) = t

namespace Knn

open Storage Except

inductive MetadataConstraint
  | compare (op : CompareOp) (value : SqlValue)
  | isIn (values : List SqlValue)

def strncmp : Bytes → Bytes → Nat → Ordering
  | _, _, 0 => .eq
  | a, b, n + 1 =>
    match Ord.compare (a.headD 0#8).toNat (b.headD 0#8).toNat with
    | .eq => if a.headD 0#8 = 0#8 then .eq else strncmp a.tail b.tail n
    | o => o

def booleanTest (op : CompareOp) (bit : Bool) (target : Int32) : Bool :=
  if (target ≠ 0 ∧ op = .eq) ∨ (target = 0 ∧ op = .ne) then bit else !bit

def integerTest (op : CompareOp) (x target : Int64) : Bool :=
  op.holds (Ord.compare x.toInt target.toInt)

def floatTest (op : CompareOp) (x target : ℚ) : Bool := op.holds (Ord.compare x target)

section Text

variable (view : Bytes) (full : Except ResultCode Bytes)

/-- `full` is the text from the overflow table. -/
def longText : Except ResultCode Bytes := do
  let s ← full
  require (viewLength view = s.length) sqliteError
  return s

def textEqual (nTarget : Nat) (sTarget : Bytes) : Except ResultCode Bool :=
  let nPrefix := viewLength view
  if nPrefix ≠ nTarget then return false
  else
    let cmpPrefix := strncmp (view.drop 4) sTarget (min nPrefix 12).toNat
    if nPrefix ≤ 12 then return cmpPrefix = .eq
    else if cmpPrefix ≠ .eq then return false
    else do
      let sFull ← longText view full
      return strncmp sFull sTarget sFull.length = .eq

def textRange (op : CompareOp) (target : Bytes) : Except ResultCode Bool :=
  let nPrefix := viewLength view
  let cmpPrefix := strncmp (view.drop 4) target (min (min nPrefix 12) target.length).toNat
  if nPrefix < 12 then
    return if cmpPrefix = .eq then op.holds (Ord.compare nPrefix target.length) else op.holds cmpPrefix
  else do
    let sFull ← longText view full
    return op.holds (strncmp sFull target sFull.length)

def textTest (op : CompareOp) (target : Bytes) : Except ResultCode Bool :=
  match op with
  | .eq => textEqual view full target.length target
  | .ne => do return !(← textEqual view full target.length target)
  | op => textRange view full op target

/-- The values are copied with `"%.*s"`, up to a zero byte. -/
def textIn : List Bytes → Except ResultCode Bool
  | [] => return false
  | target :: targets => do
    if ← textEqual view full target.length (target.takeWhile (· ≠ 0#8)) then return true
    else textIn targets

end Text

variable {α : Type} (conv : Conversions)

/-- The test of slot `i` of a metadata chunk. -/
def slotTest (s : Shadow α) (metadataIdx : Nat) (constraint : MetadataConstraint)
    (rowids : List Rowid) (i : Nat) : MetadataChunk → Except ResultCode Bool
  | .boolean bits =>
    match constraint with
    | .compare op value => return booleanTest op (bits.get i) (conv.int64 value).toInt32
    | .isIn _ => return false
  | .integer values =>
    match constraint with
    | .compare op value => return integerTest op (values.getD i 0) (conv.int64 value)
    | .isIn targets => return targets.any fun t => conv.int64 t = values.getD i 0
  | .float values =>
    match constraint with
    | .compare op value => return floatTest op (values.getD i 0) (conv.double value)
    | .isIn _ => return false
  | .text views =>
    let view := views.getD i []
    let full := ofOption sqliteError (s.metadataText.get (metadataIdx, rowids.getD i 0))
    match constraint with
    | .compare op value => textTest view full op (conv.text value)
    | .isIn targets => textIn view full (targets.map conv.text)

def MetadataChunk.fits (n : Nat) : MetadataChunk → Bool
  | .boolean bits => bits.bytes.length = n / 8
  | .integer values => values.length = n
  | .float values => values.length = n
  | .text views => views.length = n

/-- The texts are looked up by the rowids of a chunk whose number is passed through an `int`. -/
def filterRowids (s : Shadow α) (chunkId : Rowid) : MetadataChunk → Except ResultCode (List Rowid)
  | .text _ => do
    let c ← ofOption sqliteError (s.chunks.get chunkId.throughInt)
    return c.rowids
  | _ => return []

def vec0SetMetadataFilterBitmap (p : Vec0Vtab) (s : Shadow α) (metadataIdx : Nat)
    (constraint : MetadataConstraint) (chunkId : Rowid) : Except ResultCode Bitmap := do
  let n := p.chunkSize.val
  let chunk ← ofOption sqliteError (s.metadataChunks.get (metadataIdx, chunkId))
  require (MetadataChunk.fits n chunk = true) sqliteError
  let rowids ← filterRowids s chunkId chunk
  (List.range n).foldlM (fun b i => do
    return b.set i (← slotTest conv s metadataIdx constraint rowids i chunk)) (Bitmap.new n)

end Knn

end SqliteMultimodal.Vec

namespace SqliteMultimodal.Vec.Knn

open Storage Except

theorem get_foldlM_set {test : Nat → Except ResultCode Bool} {size n : Nat} {b : Bitmap}
    (hdvd : 8 ∣ size) (hn : n ≤ size)
    (h : (List.range n).foldlM (fun b i => do return b.set i (← test i)) (Bitmap.new size) =
      Except.ok b) :
    b.bytes.length = size / 8 ∧ ∀ j < n, test j = .ok (b.get j) := by
  induction n generalizing b with
  | zero =>
    obtain rfl := pure_eq_ok.mp h
    exact ⟨by simp [Bitmap.new], fun j hj => by omega⟩
  | succ n ih =>
    rw [List.range_succ, List.foldlM_append, bind_eq_ok] at h
    obtain ⟨b', hb', h⟩ := h
    simp only [List.foldlM_cons, List.foldlM_nil, bind_eq_ok, pure_eq_ok] at h
    obtain ⟨_, ⟨t, ht, rfl⟩, rfl⟩ := h
    obtain ⟨hlen, hget⟩ := ih (by omega) hb'
    refine ⟨by rw [Bitmap.length_set, hlen], fun j hj => ?_⟩
    rw [Bitmap.get_set _ _ _ _ (by omega)]
    split
    next heq => rw [heq, ht]
    next hne => exact hget j (by omega)

theorem foldlM_set_ok {test : Nat → Except ResultCode Bool} {n : Nat} (b : Bitmap)
    (h : ∀ j < n, ∃ t, test j = .ok t) :
    ∃ b', (List.range n).foldlM (fun b i => do return b.set i (← test i)) b = Except.ok b' := by
  induction n with
  | zero => exact ⟨b, rfl⟩
  | succ n ih =>
    obtain ⟨b', hb'⟩ := ih fun j hj => h j (by omega)
    obtain ⟨t, ht⟩ := h n (by omega)
    refine ⟨b'.set n t, ?_⟩
    rw [List.range_succ, List.foldlM_append, bind_eq_ok]
    refine ⟨b', hb', ?_⟩
    rw [List.foldlM_cons, ht]
    rfl

variable {α : Type} (conv : Conversions) {p : Vec0Vtab} {s : Shadow α} {metadataIdx : Nat}
  (constraint : MetadataConstraint) {chunkId : Rowid} {chunk : MetadataChunk} {rowids : List Rowid}

theorem filterBitmap_iff (expected : Nat → Option Bool)
    (hchunk : s.metadataChunks.get (metadataIdx, chunkId) = some chunk)
    (hfits : MetadataChunk.fits p.chunkSize.val chunk = true)
    (hrowids : filterRowids s chunkId chunk = .ok rowids) :
    (∃ b, vec0SetMetadataFilterBitmap conv p s metadataIdx constraint chunkId = .ok b ∧
        ∀ i < p.chunkSize.val, ∀ e, expected i = some e → b.get i = e) ↔
      ∀ i < p.chunkSize.val, ∃ t, slotTest conv s metadataIdx constraint rowids i chunk = .ok t ∧
        ∀ e, expected i = some e → t = e := by
  have hrun : ∀ b, vec0SetMetadataFilterBitmap conv p s metadataIdx constraint chunkId = .ok b ↔
      (List.range p.chunkSize.val).foldlM (fun b i => do
        return b.set i (← slotTest conv s metadataIdx constraint rowids i chunk))
          (Bitmap.new p.chunkSize.val) = .ok b := fun b => by
    simp only [vec0SetMetadataFilterBitmap, hchunk, hrowids, ofOption, require, hfits, if_true,
      ok_bind]
  constructor
  · rintro ⟨b, hb, hbits⟩ i hi
    exact ⟨b.get i, (get_foldlM_set p.chunkSize.dvd le_rfl ((hrun b).mp hb)).2 i hi, hbits i hi⟩
  · intro htests
    obtain ⟨b, hb⟩ := foldlM_set_ok (Bitmap.new p.chunkSize.val) fun j hj =>
      (htests j hj).imp fun _ ht => ht.1
    refine ⟨b, (hrun b).mpr hb, fun i hi e he => ?_⟩
    obtain ⟨t, ht, hte⟩ := htests i hi
    have hget := (get_foldlM_set p.chunkSize.dvd le_rfl hb).2 i hi
    rw [ht, Except.ok.injEq] at hget
    rw [← hget, hte e he]

end SqliteMultimodal.Vec.Knn
