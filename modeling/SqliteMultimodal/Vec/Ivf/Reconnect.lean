import Mathlib.Algebra.Field.ZMod
import SqliteMultimodal.Vec.Ivf.File

namespace SqliteMultimodal.Vec.Ivf

open Codec

variable {α : Type} (f32 : Fixed α)

structure Agrees (ivf ivf' : IVF α) : Prop where
  nprobe : ivf'.nprobe = ivf.nprobe
  trained : ivf'.trained = ivf.trained
  centroids : ivf'.centroids = ivf.centroids
  lists : ivf'.lists = ivf.lists
  trainCapacity : ivf'.trainCapacity = ivf.trainCapacity
  train : ivf'.train = ivf.train
  deleted : ∀ i < ivf.train.length, ivf'.deleted.getD i false = ivf.deleted.getD i false

section Code

variable [LinearOrder α] [Field α] [Inhabited α] (distfunc : List α → List α → α)
  (rand : Nat → Nat) (farAway : α)

/-- The index is read back whole, whatever the memory holds at the address that is left in
`deleted`, and answers every further run as the one that was written. -/
def Survives (img : Image α) (deleted : List Bool) : Prop :=
  ∃ img', deserializeIvf f32 (serializeIvf f32 img) = some (img', []) ∧
    img'.nlist = img.nlist ∧ img'.dim = img.dim ∧
    ∀ deleted' : List Bool, deleted'.length = size img.trainCapacity →
      Agrees (img.ivf deleted) (img'.ivf deleted') ∧
      ∀ ops : List (Op α), (∀ op ∈ ops, op.Sized (size img.dim)) →
        (img'.ivf deleted').outcomes distfunc rand farAway ops =
          (img.ivf deleted).outcomes distfunc rand farAway ops

section Trained

def IVF.withMarks (marks : List Bool) (ivf : IVF α) : IVF α := { ivf with deleted := marks }

variable {ivf : IVF α} (h : ivf.trained = true) (marks : List Bool)
include h

omit [Inhabited α] in
theorem ivfInsert_withMarks (e : Entry α) :
    ivfInsert distfunc rand (ivf.withMarks marks) e =
      (ivfInsert distfunc rand ivf e).map (·.withMarks marks) id := by
  have h' : (ivf.withMarks marks).trained = true := h
  rw [ivfInsert, ivfInsert, if_pos h, if_pos h']
  rfl

omit [LinearOrder α] [Field α] [Inhabited α] in
theorem ivfDeleteVector_withMarks (rowid : Rowid) :
    ivfDeleteVector (ivf.withMarks marks) rowid =
      (ivfDeleteVector ivf rowid).map (·.withMarks marks) id := by
  have h' : (ivf.withMarks marks).trained = true := h
  have hlists : (ivf.withMarks marks).lists = ivf.lists := rfl
  rw [ivfDeleteVector, ivfDeleteVector, if_neg (by simp [h']), if_neg (by simp [h]), hlists]
  cases find ivf.lists rowid with
  | none => rfl
  | some place => rfl

omit [Field α] [Inhabited α] in
theorem ivfUpdateVectorReinsert_withMarks (rowid : Rowid) (vec : List α) :
    ivfUpdateVectorReinsert distfunc farAway (ivf.withMarks marks) rowid vec =
      (ivfUpdateVectorReinsert distfunc farAway ivf rowid vec).map (·.withMarks marks) id := by
  have h' : (ivf.withMarks marks).trained = true := h
  rw [ivfUpdateVectorReinsert, ivfUpdateVectorReinsert, if_neg (by simp [h']), if_neg (by simp [h]),
    ivfDeleteVector_withMarks h marks rowid]
  obtain ⟨ivf', oldList⟩ := ivfDeleteVector ivf rowid
  dsimp only [Prod.map, id]
  have hlists : (ivf'.withMarks marks).lists = ivf'.lists := rfl
  have hcentroids : (ivf'.withMarks marks).centroids = ivf'.centroids := rfl
  rw [hlists, hcentroids]
  split
  next => rfl
  next =>
    cases ivf'.lists[nearestFrom distfunc vec 0 (0, farAway) ivf'.centroids]? with
    | none => rfl
    | some lst =>
      dsimp only
      split
      next => rfl
      next => rfl

theorem step_withMarks (op : Op α) :
    (ivf.withMarks marks).step distfunc rand farAway op =
      (ivf.step distfunc rand farAway op).map (·.withMarks marks) id := by
  cases op with
  | insert e => rw [IVF.step, ivfInsert_withMarks distfunc rand h marks]; rfl
  | delete rowid => rw [IVF.step, ivfDeleteVector_withMarks h marks]; rfl
  | update rowid vec =>
    rw [IVF.step, ivfUpdateVectorReinsert_withMarks distfunc farAway h marks]
    rfl
  | search query topk nprobe map => rfl

theorem outcomes_withMarks (ops : List (Op α)) :
    (ivf.withMarks marks).outcomes distfunc rand farAway ops =
      ivf.outcomes distfunc rand farAway ops := by
  induction ops generalizing ivf with
  | nil => rfl
  | cons op ops ih =>
    obtain ⟨lists, hframe⟩ := step_frame distfunc rand farAway h op
    have htrained : (ivf.step distfunc rand farAway op).1.trained = true := by rw [hframe, h]
    rw [IVF.outcomes, IVF.outcomes, step_withMarks distfunc rand farAway h marks op]
    exact congrArg _ (ih htrained)

end Trained

section Untrained

variable {ivf : IVF α}

omit [LinearOrder α] [Field α] [Inhabited α] in
theorem validVecs_eq_nil_iff :
    validVecs ivf = [] ↔ ∀ i < ivf.train.length, ivf.deleted.getD i false = true := by
  simp only [validVecs, List.map_eq_nil_iff, List.filter_eq_nil_iff,
    List.mem_zipIdx_iff_getElem?, Bool.not_eq_true', Bool.not_eq_false]
  constructor
  · intro h i hi
    exact h (ivf.train[i], i) (List.getElem?_eq_getElem hi)
  · intro h x hget
    exact h x.2 (List.getElem?_eq_some_iff.mp hget).1

def trainCode (capacity : Nat) (deleted : List Bool) : ResultCode :=
  if ∀ i < capacity, deleted.getD i false = true then sqliteError else sqliteOk

omit [Inhabited α] in
theorem ivfTrainAndFlush_code :
    (ivfTrainAndFlush distfunc rand ivf).2 = trainCode ivf.train.length ivf.deleted := by
  have hvalid : (validVecs ivf).length = 0 ↔
      ∀ i < ivf.train.length, ivf.deleted.getD i false = true :=
    List.length_eq_zero_iff.trans validVecs_eq_nil_iff
  unfold ivfTrainAndFlush ivfTrainKmeans trainCode
  dsimp only
  by_cases h : (validVecs ivf).length = 0
  · rw [if_pos h, if_pos (hvalid.mp h)]
  · rw [if_neg h, if_neg fun hall => h (hvalid.mpr hall)]

theorem outcomes_fill (h : ivf.trained = false) {es : List (Entry α)} (hes : es ≠ [])
    (hlen : ivf.train.length + es.length = ivf.trainCapacity) :
    (ivf.outcomes distfunc rand farAway (es.map .insert)).getLast? =
      some (.code (trainCode ivf.trainCapacity ivf.deleted)) := by
  induction es generalizing ivf with
  | nil => exact absurd rfl hes
  | cons e es ih =>
    rw [List.length_cons] at hlen
    rw [List.map_cons, IVF.outcomes, IVF.step, ivfInsert_untrained distfunc rand h e,
      if_neg (by omega)]
    cases es with
    | nil =>
      have hfull : ivf.train.length + 1 = ivf.trainCapacity := hlen
      have hcode := @ivfTrainAndFlush_code _ _ _ distfunc rand { ivf with train := ivf.train ++ [e] }
      dsimp only at hcode
      rw [List.length_append, List.length_singleton, hfull] at hcode
      rw [if_pos (by omega)]
      exact congrArg (fun rc => some (Outcome.code rc)) hcode
    | cons e' es =>
      rw [List.length_cons] at hlen ih
      rw [if_neg (by omega)]
      have hlen' : (ivf.train ++ [e]).length + (es.length + 1) = ivf.trainCapacity := by
        rw [List.length_append, List.length_singleton]
        omega
      have htail := @ih { ivf with train := ivf.train ++ [e] } h (List.cons_ne_nil e' es) hlen'
      rw [List.map_cons, IVF.outcomes] at htail ⊢
      rw [List.getLast?_cons_cons]
      exact htail

end Untrained

section Reconnect

variable {dim nlist nprobe capacity : Nat} {img : Image α} {deleted : List Bool}

omit [LinearOrder α] [Field α] [Inhabited α] in
theorem deserializeIvf_serializeIvf (h : img.Allocated) :
    deserializeIvf f32 (serializeIvf f32 img) = some (img, []) := by
  have hreads := reads_serializeIvf f32 h []
  rwa [List.append_nil] at hreads

theorem survives_of_trained (h : img.Allocated)
    (hreach : Reachable distfunc rand farAway dim nlist nprobe capacity (img.ivf deleted))
    (htrained : img.trained = true) : Survives f32 distfunc rand farAway img deleted := by
  refine ⟨img, deserializeIvf_serializeIvf f32 h, rfl, rfl, fun deleted' _ => ⟨?_, ?_⟩⟩
  · refine ⟨rfl, rfl, rfl, rfl, rfl, rfl, fun i hi => ?_⟩
    rw [hreach.flushed distfunc rand farAway htrained] at hi
    exact absurd hi (Nat.not_lt_zero i)
  · intro ops _
    exact @outcomes_withMarks _ _ _ _ distfunc rand farAway (img.ivf deleted) htrained deleted' ops

omit [LinearOrder α] [Field α] [Inhabited α] in
theorem getD_replicate {n i : Nat} (hi : i < n) (b : Bool) :
    (List.replicate n b).getD i false = b := by
  rw [List.getD_eq_getElem?_getD, List.getElem?_replicate, if_pos hi, Option.getD_some]

theorem exists_trainCode_ne {n : Nat} (hn : 0 < n) (deleted : List Bool) :
    ∃ deleted', deleted'.length = n ∧ trainCode n deleted' ≠ trainCode n deleted := by
  have hne : sqliteError ≠ sqliteOk := by decide
  by_cases hall : ∀ i < n, deleted.getD i false = true
  · refine ⟨List.replicate n false, List.length_replicate, ?_⟩
    have hsome : ¬ ∀ i < n, (List.replicate n false).getD i false = true := fun h => by
      have h0 := h 0 hn
      rw [getD_replicate hn] at h0
      exact Bool.false_ne_true h0
    rw [trainCode, trainCode, if_pos hall, if_neg hsome]
    exact hne.symm
  · refine ⟨List.replicate n true, List.length_replicate, ?_⟩
    rw [trainCode, trainCode, if_neg hall, if_pos fun i hi => getD_replicate hi true]
    exact hne

/-- Rows numbered from `1`. -/
def freshRows (dim n : Nat) : List (Entry α) :=
  (List.range n).map fun i => (Int64.ofNat (i + 1), List.replicate dim 0)

theorem not_survives_of_untrained (h : img.Allocated) (hcapacity : 0 < size img.trainCapacity)
    (htrained : img.trained = false) : ¬ Survives f32 distfunc rand farAway img deleted := by
  rintro ⟨img', hread, -, -, hsame⟩
  rw [deserializeIvf_serializeIvf f32 h] at hread
  obtain rfl := (Prod.mk.inj (Option.some.inj hread)).1
  by_cases htrain : (img.ivf deleted).train = []
  · obtain ⟨deleted', hlen, hne⟩ := exists_trainCode_ne hcapacity deleted
    generalize hes : (freshRows (size img.dim) (size img.trainCapacity) : List (Entry α)) = es
    have hlength : es.length = size img.trainCapacity := by
      rw [← hes, freshRows, List.length_map, List.length_range]
    have hsized : ∀ op ∈ es.map Op.insert, op.Sized (size img.dim) := by
      intro op hop
      obtain ⟨e, he, rfl⟩ := List.mem_map.mp hop
      rw [← hes, freshRows] at he
      obtain ⟨i, -, rfl⟩ := List.mem_map.mp he
      exact List.length_replicate
    have hne_nil : es ≠ [] := List.ne_nil_of_length_pos (hlength ▸ hcapacity)
    have hfull : ∀ marks : List Bool,
        (img.ivf marks).train.length + es.length = (img.ivf marks).trainCapacity := fun marks => by
      have hmarks : (img.ivf marks).train = [] := htrain
      rw [hmarks, hlength, List.length_nil, Nat.zero_add]
      rfl
    have hlast := congrArg List.getLast? ((hsame deleted' hlen).2 _ hsized)
    rw [outcomes_fill distfunc rand farAway htrained hne_nil (hfull deleted'),
      outcomes_fill distfunc rand farAway htrained hne_nil (hfull deleted)] at hlast
    exact hne (Outcome.code.inj (Option.some.inj hlast))
  · have hpos : 0 < (img.ivf deleted).train.length := List.length_pos_iff.mpr htrain
    have hmark := (hsame (List.replicate (size img.trainCapacity) (!deleted.getD 0 false))
      List.length_replicate).1.deleted 0 hpos
    have hget : (List.replicate (size img.trainCapacity) (!deleted.getD 0 false)).getD 0 false =
        !deleted.getD 0 false := getD_replicate hcapacity _
    have hflip : (!deleted.getD 0 false) = deleted.getD 0 false := hget.symm.trans hmark
    exact Bool.not_ne_self _ hflip

/-- The marks are not in the file, and are read until the index is trained. -/
theorem ivf_survives_iff (hcapacity : 0 < capacity) (h : img.Allocated)
    (hreach : Reachable distfunc rand farAway dim nlist nprobe capacity (img.ivf deleted)) :
    Survives f32 distfunc rand farAway img deleted ↔ img.trained = true := by
  have hcap : size img.trainCapacity = capacity :=
    (hreach.shaped distfunc rand farAway).trainCapacity
  constructor
  · intro hsurvives
    by_contra htrained
    exact not_survives_of_untrained f32 distfunc rand farAway h (hcap ▸ hcapacity)
      (Bool.eq_false_of_not_eq_true htrained) hsurvives
  · exact survives_of_trained f32 distfunc rand farAway h hreach

end Reconnect

end Code

section Sample

instance linearOrderZModTwo : LinearOrder (ZMod 2) := inferInstanceAs (LinearOrder (Fin 2))

def parity : Fixed (ZMod 2) where
  width := 1
  encode x := [if x = 0 then 0 else 1]
  decode bs := if bs.headD 0 = 0 then 0 else 1
  length_encode _ := rfl
  decode_encode := by decide

def parityDist (a b : List (ZMod 2)) : ZMod 2 := if a = b then 0 else 1

def sampleIvf (nlist capacity : Nat) (ops : List (Op (ZMod 2))) : IVF (ZMod 2) :=
  ops.foldl (fun ivf op => (ivf.step parityDist (fun _ => 0) 1 op).1)
    (ivfCreateWith nlist 1 capacity)

theorem survives_after_training :
    Survives parity parityDist (fun _ => 0) 1
      ((sampleIvf 1 1 [.insert (7, [1])]).image 1) (sampleIvf 1 1 [.insert (7, [1])]).deleted := by
  have hreach : Reachable parityDist (fun _ => 0) 1 1 1 1 1 (sampleIvf 1 1 [.insert (7, [1])]) :=
    .step (.insert (7, [1])) .create rfl
  have hshaped := hreach.shaped parityDist (fun _ => 0) 1
  have hfits : (sampleIvf 1 1 [.insert (7, [1])]).Fits 1 :=
    ⟨by decide, by decide +kernel, by decide +kernel, by decide +kernel, by decide +kernel⟩
  rw [ivf_survives_iff parity parityDist (fun _ => 0) 1 Nat.one_pos
    (hshaped.allocated_image hfits) (hshaped.ivf_image hfits ▸ hreach)]
  decide +kernel

theorem lost_before_training :
    Reachable parityDist (fun _ => 0) 1 1 ivfNList 1 ivfTrainCap
        (((sampleIvf ivfNList ivfTrainCap [.insert (1, [1]), .delete 1]).image 1).ivf
          (sampleIvf ivfNList ivfTrainCap [.insert (1, [1]), .delete 1]).deleted) ∧
      ¬ Survives parity parityDist (fun _ => 0) 1
        ((sampleIvf ivfNList ivfTrainCap [.insert (1, [1]), .delete 1]).image 1)
        (sampleIvf ivfNList ivfTrainCap [.insert (1, [1]), .delete 1]).deleted := by
  have hreach : Reachable parityDist (fun _ => 0) 1 1 ivfNList 1 ivfTrainCap
      (sampleIvf ivfNList ivfTrainCap [.insert (1, [1]), .delete 1]) :=
    .step (.delete 1) (.step (.insert (1, [1])) .create rfl) trivial
  have hshaped := hreach.shaped parityDist (fun _ => 0) 1
  have hfits : (sampleIvf ivfNList ivfTrainCap [.insert (1, [1]), .delete 1]).Fits 1 :=
    ⟨by decide, by decide +kernel, by decide +kernel, by decide +kernel, by decide +kernel⟩
  refine ⟨hshaped.ivf_image hfits ▸ hreach, not_survives_of_untrained parity parityDist (fun _ => 0) 1
    (hshaped.allocated_image hfits) ?_ ?_⟩
  · decide +kernel
  · decide +kernel

end Sample

end SqliteMultimodal.Vec.Ivf
