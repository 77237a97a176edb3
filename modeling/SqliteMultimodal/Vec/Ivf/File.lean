import SqliteMultimodal.Lib.Codec
import SqliteMultimodal.Vec.Ivf.Shape

namespace SqliteMultimodal.Vec.Ivf

open Codec

/-- An `InvertedList` in memory: the arrays have `cap` places, the first `count` are in use. -/
structure ListImage (α : Type) where
  count : Int32
  cap : Int32
  rowids : List Rowid
  vecs : List α
  deriving DecidableEq

/-- An `IVF` in memory, but for the array `deleted`. -/
structure Image (α : Type) where
  nlist : Int32
  nprobe : Int32
  dim : Int32
  trained : Bool
  centroids : List α
  lists : List (ListImage α)
  trainSize : Int32
  trainCapacity : Int32
  trainVecs : List α
  trainRowids : List Rowid
  deriving DecidableEq

/-- A size that is an `int` of the C code. -/
def size (x : Int32) : Nat := x.toInt.toNat

variable {α : Type} (f32 : Fixed α)

def serializeFloats (n : Nat) (xs : List α) : Codec.Bytes := (xs.take n).flatMap f32.encode

def serializeRowids (n : Nat) (rowids : List Rowid) : Codec.Bytes :=
  (rowids.take n).flatMap int64.encode

def serializeBool (b : Bool) : Codec.Bytes := byte.encode (if b then 1 else 0)

def deserializeBool : Reader Bool := do
  let b ← byte.read
  return b ≠ 0

def serializeInvlist (dim : Int32) (l : ListImage α) : Codec.Bytes :=
  int32.encode l.count ++ (int32.encode l.cap ++ (serializeRowids (size l.cap) l.rowids ++
    serializeFloats f32 (size l.cap * size dim) l.vecs))

def deserializeInvlist (dim : Int32) : Reader (ListImage α) := do
  let count ← int32.read
  let cap ← int32.read
  let rowids ← many int64.read (size cap)
  let vecs ← many f32.read (size cap * size dim)
  return ⟨count, cap, rowids, vecs⟩

def serializeTrain (dim trainCapacity : Int32) (trainVecs : List α) (trainRowids : List Rowid) :
    Codec.Bytes :=
  if trainCapacity > 0 then
    serializeFloats f32 (size trainCapacity * size dim) trainVecs ++
      serializeRowids (size trainCapacity) trainRowids
  else []

def deserializeTrain (dim trainCapacity : Int32) : Reader (List α × List Rowid) :=
  if trainCapacity > 0 then do
    let trainVecs ← many f32.read (size trainCapacity * size dim)
    let trainRowids ← many int64.read (size trainCapacity)
    return (trainVecs, trainRowids)
  else return ([], [])

def serializeIvf (img : Image α) : Codec.Bytes :=
  int32.encode img.nlist ++ (int32.encode img.nprobe ++ (int32.encode img.dim ++
    (serializeBool img.trained ++
      (serializeFloats f32 (size img.nlist * size img.dim) img.centroids ++
        ((img.lists.take (size img.nlist)).flatMap (serializeInvlist f32 img.dim) ++
          (int32.encode img.trainSize ++ (int32.encode img.trainCapacity ++
            serializeTrain f32 img.dim img.trainCapacity img.trainVecs img.trainRowids)))))))

/-- Nothing is stored in `deleted`. -/
def deserializeIvf : Reader (Image α) := do
  let nlist ← int32.read
  let nprobe ← int32.read
  let dim ← int32.read
  let trained ← deserializeBool
  let centroids ← many f32.read (size nlist * size dim)
  let lists ← many (deserializeInvlist f32 dim) (size nlist)
  let trainSize ← int32.read
  let trainCapacity ← int32.read
  let train ← deserializeTrain f32 dim trainCapacity
  return ⟨nlist, nprobe, dim, trained, centroids, lists, trainSize, trainCapacity, train.1, train.2⟩

structure ListImage.Allocated (dim : Int32) (l : ListImage α) : Prop where
  rowids : l.rowids.length = size l.cap
  vecs : l.vecs.length = size l.cap * size dim

structure Image.Allocated (img : Image α) : Prop where
  centroids : img.centroids.length = size img.nlist * size img.dim
  lists : img.lists.length = size img.nlist
  invlist : ∀ l ∈ img.lists, l.Allocated img.dim
  trainVecs : img.trainVecs.length = size img.trainCapacity * size img.dim
  trainRowids : img.trainRowids.length = size img.trainCapacity

theorem reads_serializeFloats {n : Nat} {xs : List α} (h : xs.length = n) :
    Reads (many f32.read n) (serializeFloats f32 n xs) xs := by
  rw [serializeFloats, ← h, List.take_length]
  exact Reads.many fun x _ => f32.reads x

theorem reads_serializeRowids {n : Nat} {rowids : List Rowid} (h : rowids.length = n) :
    Reads (many int64.read n) (serializeRowids n rowids) rowids := by
  rw [serializeRowids, ← h, List.take_length]
  exact Reads.many fun x _ => int64.reads x

theorem reads_serializeBool (b : Bool) : Reads deserializeBool (serializeBool b) b := by
  have h := (byte.reads (if b then 1 else 0)).map fun x => decide (x ≠ 0)
  cases b with
  | false => exact h
  | true => exact h

theorem reads_serializeInvlist {dim : Int32} {l : ListImage α} (h : l.Allocated dim) :
    Reads (deserializeInvlist f32 dim) (serializeInvlist f32 dim l) l :=
  (int32.reads l.count).bind ((int32.reads l.cap).bind ((reads_serializeRowids h.rowids).bind
    ((reads_serializeFloats f32 h.vecs).map fun vecs => ListImage.mk l.count l.cap l.rowids vecs)))

theorem size_eq_zero {x : Int32} (h : ¬ x > 0) : size x = 0 := by
  have hle : ¬ (0 : Int32).toInt < x.toInt := fun hlt => h (Int32.lt_iff_toInt_lt.mpr hlt)
  exact Int.toNat_of_nonpos (Int.not_lt.mp hle)

theorem reads_serializeTrain {dim trainCapacity : Int32} {trainVecs : List α}
    {trainRowids : List Rowid} (hvecs : trainVecs.length = size trainCapacity * size dim)
    (hrowids : trainRowids.length = size trainCapacity) :
    Reads (deserializeTrain f32 dim trainCapacity)
      (serializeTrain f32 dim trainCapacity trainVecs trainRowids) (trainVecs, trainRowids) := by
  unfold deserializeTrain serializeTrain
  split
  next =>
    exact (reads_serializeFloats f32 hvecs).bind
      ((reads_serializeRowids hrowids).map fun rowids => (trainVecs, rowids))
  next hpos =>
    rw [size_eq_zero hpos] at hvecs hrowids
    rw [Nat.zero_mul] at hvecs
    rw [List.length_eq_zero_iff.mp hvecs, List.length_eq_zero_iff.mp hrowids]
    exact .pure _

theorem reads_serializeIvf {img : Image α} (h : img.Allocated) :
    Reads (deserializeIvf f32) (serializeIvf f32 img) img := by
  have hlists : Reads (many (deserializeInvlist f32 img.dim) (size img.nlist))
      ((img.lists.take (size img.nlist)).flatMap (serializeInvlist f32 img.dim)) img.lists := by
    rw [← h.lists, List.take_length]
    exact Reads.many fun l hl => reads_serializeInvlist f32 (h.invlist l hl)
  exact (int32.reads img.nlist).bind ((int32.reads img.nprobe).bind ((int32.reads img.dim).bind
    ((reads_serializeBool img.trained).bind ((reads_serializeFloats f32 h.centroids).bind
      (hlists.bind ((int32.reads img.trainSize).bind ((int32.reads img.trainCapacity).bind
        ((reads_serializeTrain f32 h.trainVecs h.trainRowids).map fun train =>
          Image.mk img.nlist img.nprobe img.dim img.trained img.centroids img.lists img.trainSize
            img.trainCapacity train.1 train.2))))))))

section Memory

/-- The first `n` vectors of a flat array. -/
def vectors (dim : Nat) : Nat → List α → List (List α)
  | 0, _ => []
  | n + 1, xs => xs.take dim :: vectors dim n (xs.drop dim)

def entriesOf (dim n : Nat) (rowids : List Rowid) (vecs : List α) : List (Entry α) :=
  (rowids.take n).zip (vectors dim n vecs)

def ListImage.invlist (dim : Int32) (l : ListImage α) : InvertedList α :=
  ⟨size l.cap, entriesOf (size dim) (size l.count) l.rowids l.vecs⟩

/-- The index that is in memory, with the array `deleted`.  The centroids are not set before the
training. -/
def Image.ivf (img : Image α) (deleted : List Bool) : IVF α where
  centroids := if img.trained then vectors (size img.dim) (size img.nlist) img.centroids else []
  lists := img.lists.map (·.invlist img.dim)
  nprobe := size img.nprobe
  trainCapacity := size img.trainCapacity
  train := entriesOf (size img.dim) (size img.trainSize) img.trainRowids img.trainVecs
  deleted := deleted
  trained := img.trained

end Memory

section Layout

variable [Field α] {dim nlist capacity : Nat} {ivf : IVF α}

/-- An array of `n` places. -/
def array {β : Type} [Zero β] (n : Nat) (xs : List β) : List β :=
  xs ++ List.replicate (n - xs.length) 0

def InvertedList.image (dim : Nat) (l : InvertedList α) : ListImage α where
  count := Int32.ofNat l.entries.length
  cap := Int32.ofNat l.cap
  rowids := array l.cap (l.entries.map Prod.fst)
  vecs := array (l.cap * dim) (l.entries.map Prod.snd).flatten

def IVF.image (dim : Nat) (ivf : IVF α) : Image α where
  nlist := Int32.ofNat ivf.lists.length
  nprobe := Int32.ofNat ivf.nprobe
  dim := Int32.ofNat dim
  trained := ivf.trained
  centroids := array (ivf.lists.length * dim) ivf.centroids.flatten
  lists := ivf.lists.map (·.image dim)
  trainSize := Int32.ofNat ivf.train.length
  trainCapacity := Int32.ofNat ivf.trainCapacity
  trainVecs := array (ivf.trainCapacity * dim) (ivf.train.map Prod.snd).flatten
  trainRowids := array ivf.trainCapacity (ivf.train.map Prod.fst)

/-- The numbers are in the range of `int`. -/
structure IVF.Fits (dim : Nat) (ivf : IVF α) : Prop where
  dim : dim < 2 ^ 31
  nlist : ivf.lists.length < 2 ^ 31
  nprobe : ivf.nprobe < 2 ^ 31
  trainCapacity : ivf.trainCapacity < 2 ^ 31
  cap : ∀ l ∈ ivf.lists, l.cap < 2 ^ 31

theorem size_ofNat {n : Nat} (h : n < 2 ^ 31) : size (Int32.ofNat n) = n := by
  rw [size, Int32.toInt_ofNat_of_lt h, Int.toNat_natCast]

theorem length_array {β : Type} [Zero β] {n : Nat} {xs : List β} (h : xs.length ≤ n) :
    (array n xs).length = n := by
  rw [array, List.length_append, List.length_replicate, Nat.add_sub_cancel' h]

omit [Field α] in
theorem length_flatten {vs : List (List α)} (h : ∀ v ∈ vs, v.length = dim) :
    vs.flatten.length = vs.length * dim := by
  induction vs with
  | nil => rw [List.length_nil, Nat.zero_mul]; rfl
  | cons v vs ih =>
    rw [List.flatten_cons, List.length_append, h v List.mem_cons_self,
      ih fun w hw => h w (List.mem_cons_of_mem v hw), List.length_cons, Nat.succ_mul, Nat.add_comm]

omit [Field α] in
theorem vectors_flatten {vs : List (List α)} (h : ∀ v ∈ vs, v.length = dim) (rest : List α) :
    vectors dim vs.length (vs.flatten ++ rest) = vs := by
  induction vs with
  | nil => rfl
  | cons v vs ih =>
    have hv := h v List.mem_cons_self
    rw [List.length_cons, vectors, List.flatten_cons, List.append_assoc, List.take_left' hv,
      List.drop_left' hv, ih fun w hw => h w (List.mem_cons_of_mem v hw)]

theorem entriesOf_array {es : List (Entry α)} (h : ∀ e ∈ es, e.2.length = dim) (n m : Nat) :
    entriesOf dim es.length (array n (es.map Prod.fst)) (array m (es.map Prod.snd).flatten) = es := by
  have hvecs : ∀ v ∈ es.map Prod.snd, v.length = dim := fun v hv => by
    obtain ⟨e, he, rfl⟩ := List.mem_map.mp hv
    exact h e he
  have hvectors := vectors_flatten hvecs (List.replicate (m - (es.map Prod.snd).flatten.length) 0)
  rw [List.length_map] at hvectors
  rw [entriesOf, array, array, hvectors, List.take_left' (List.length_map _)]
  exact (List.zip_of_prod rfl rfl).symm

omit [Field α] in
theorem length_flatten_snd_le {es : List (Entry α)} (h : ∀ e ∈ es, e.2.length = dim) {n : Nat}
    (hn : es.length ≤ n) : (es.map Prod.snd).flatten.length ≤ n * dim := by
  have hvecs : ∀ v ∈ es.map Prod.snd, v.length = dim := fun v hv => by
    obtain ⟨e, he, rfl⟩ := List.mem_map.mp hv
    exact h e he
  rw [length_flatten hvecs, List.length_map]
  exact Nat.mul_le_mul_right dim hn

theorem IVF.Shaped.allocated_image (h : ivf.Shaped dim nlist capacity) (hfits : ivf.Fits dim) :
    (ivf.image dim).Allocated where
  centroids := by
    rw [IVF.image, size_ofNat hfits.nlist, size_ofNat hfits.dim]
    refine length_array ?_
    rw [length_flatten h.centroid]
    refine Nat.mul_le_mul_right dim ?_
    cases htrained : ivf.trained with
    | true => rw [h.centroids htrained, h.lists]
    | false => rw [h.unset htrained]; exact Nat.zero_le _
  lists := by rw [IVF.image, size_ofNat hfits.nlist, List.length_map]
  invlist := by
    intro x hx
    obtain ⟨l, hl, rfl⟩ := List.mem_map.mp hx
    obtain ⟨-, hroom, hvecs⟩ := h.invlist l hl
    constructor
    · rw [InvertedList.image, size_ofNat (hfits.cap l hl)]
      exact length_array ((List.length_map _).trans_le hroom)
    · rw [InvertedList.image, IVF.image, size_ofNat (hfits.cap l hl), size_ofNat hfits.dim]
      exact length_array (length_flatten_snd_le hvecs hroom)
  trainVecs := by
    rw [IVF.image, size_ofNat hfits.trainCapacity, size_ofNat hfits.dim]
    exact length_array (length_flatten_snd_le h.train (h.trainCapacity ▸ h.room))
  trainRowids := by
    rw [IVF.image, size_ofNat hfits.trainCapacity]
    exact length_array ((List.length_map _).trans_le (h.trainCapacity ▸ h.room))

theorem IVF.Shaped.ivf_image (h : ivf.Shaped dim nlist capacity) (hfits : ivf.Fits dim) :
    (ivf.image dim).ivf ivf.deleted = ivf := by
  have hcentroids : (if ivf.trained then
      vectors dim ivf.lists.length (array (ivf.lists.length * dim) ivf.centroids.flatten)
      else []) = ivf.centroids := by
    cases htrained : ivf.trained with
    | true =>
      rw [if_pos rfl, h.lists, ← h.centroids htrained]
      exact vectors_flatten h.centroid _
    | false => rw [if_neg Bool.false_ne_true, h.unset htrained]
  have hlists : (ivf.lists.map (·.image dim)).map (·.invlist (Int32.ofNat dim)) = ivf.lists := by
    rw [List.map_map]
    refine (List.map_congr_left fun l hl => ?_).trans (List.map_id _)
    obtain ⟨-, hroom, hvecs⟩ := h.invlist l hl
    have hcap := hfits.cap l hl
    rw [Function.comp_apply, InvertedList.image, ListImage.invlist, size_ofNat hcap,
      size_ofNat hfits.dim, size_ofNat (Nat.lt_of_le_of_lt hroom hcap), entriesOf_array hvecs]
    rfl
  have htrain : ivf.train.length < 2 ^ 31 :=
    Nat.lt_of_le_of_lt (h.trainCapacity ▸ h.room) hfits.trainCapacity
  rw [IVF.image, Image.ivf]
  dsimp only
  rw [size_ofNat hfits.nlist, size_ofNat hfits.nprobe, size_ofNat hfits.trainCapacity,
    size_ofNat hfits.dim, size_ofNat htrain, hcentroids, hlists, entriesOf_array h.train]

end Layout

end SqliteMultimodal.Vec.Ivf
