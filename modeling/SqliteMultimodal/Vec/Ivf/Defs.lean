import Mathlib.Algebra.Field.Defs
import SqliteMultimodal.Lib.Sorting
import SqliteMultimodal.Vec.Basic

namespace SqliteMultimodal.Vec.Ivf

def ivfListCap : Nat := 128
def ivfNList : Nat := 32
def ivfNProbe : Nat := 8
def ivfTrainCap : Nat := 1024

abbrev Entry (α : Type) := Rowid × List α

structure InvertedList (α : Type) where
  cap : Nat
  entries : List (Entry α)
  deriving DecidableEq

structure IVF (α : Type) where
  centroids : List (List α)
  lists : List (InvertedList α)
  nprobe : Nat
  trainCapacity : Nat
  train : List (Entry α)
  deleted : List Bool
  trained : Bool
  deriving DecidableEq

variable {α : Type}

def ivfCreate (nlist nprobe : Nat) : IVF α :=
  ⟨[], List.replicate nlist ⟨ivfListCap, []⟩, nprobe, ivfTrainCap, [],
    List.replicate ivfTrainCap false, false⟩

def invlistAppend (l : InvertedList α) (e : Entry α) : InvertedList α :=
  ⟨if l.entries.length ≥ l.cap then l.cap * 2 else l.cap, l.entries ++ [e]⟩

def InvertedList.push (l : InvertedList α) (e : Entry α) : InvertedList α :=
  { l with entries := l.entries ++ [e] }

def InvertedList.remove (l : InvertedList α) (i : Nat) : InvertedList α :=
  match l.entries.getLast? with
  | none => l
  | some last => { l with entries := (l.entries.set i last).dropLast }

section Code

variable [LinearOrder α] (distfunc : List α → List α → α)

/-- The first nearest of the centroids from `c` on, and the one found before them. -/
def nearestFrom (vec : List α) : Nat → Nat × α → List (List α) → Nat
  | _, best, [] => best.1
  | c, best, centroid :: rest =>
    let d := distfunc vec centroid
    nearestFrom vec (c + 1) (if d < best.2 then (c, d) else best) rest

def nearest (vec : List α) : List (List α) → Nat
  | [] => 0
  | centroid :: rest => nearestFrom distfunc vec 1 (0, distfunc vec centroid) rest

section Train

variable [Field α] (rand : Nat → Nat)

def validVecs (ivf : IVF α) : List (List α) :=
  (ivf.train.zipIdx.filter fun x => !ivf.deleted.getD x.2 false).map fun x => x.1.2

def addVec (a b : List α) : List α := List.zipWith (· + ·) a b

def mean (cluster : List (List α)) : List α :=
  match cluster with
  | [] => []
  | v :: vs => (vs.foldl addVec v).map (· / cluster.length)

def kmeansRound (vecs centroids : List (List α)) (draws : Nat) : List (List α) × Nat :=
  (List.range centroids.length).foldl (fun (acc : List (List α) × Nat) c =>
    let cluster := vecs.filter fun v => nearest distfunc v centroids = c
    if cluster.length > 0 then (acc.1 ++ [mean cluster], acc.2)
    else (acc.1 ++ [vecs.getD (rand acc.2 % vecs.length) []], acc.2 + 1)) ([], draws)

def kmeansRounds (vecs : List (List α)) : Nat → List (List α) × Nat → List (List α)
  | 0, state => state.1
  | n + 1, state => kmeansRounds vecs n (kmeansRound distfunc rand vecs state.1 state.2)

def ivfTrainKmeans (ivf : IVF α) (iters : Nat) : Option (IVF α) :=
  let vecs := validVecs ivf
  if vecs.length = 0 then none
  else
    let start := (List.range ivf.lists.length).map fun c => vecs.getD (c % vecs.length) []
    some { ivf with
      centroids := kmeansRounds distfunc rand vecs iters (start, 0)
      trained := true }

end Train

def ivfAddVector (ivf : IVF α) (e : Entry α) : IVF α :=
  { ivf with lists := ivf.lists.modify (nearest distfunc e.2 ivf.centroids) (invlistAppend · e) }

def ivfAddToTrain (ivf : IVF α) (e : Entry α) : IVF α × ResultCode :=
  if ivf.trainCapacity ≤ ivf.train.length then (ivf, sqliteFull)
  else ({ ivf with train := ivf.train ++ [e] }, sqliteOk)

def ivfTrainAndFlush [Field α] (rand : Nat → Nat) (ivf : IVF α) : IVF α × ResultCode :=
  match ivfTrainKmeans distfunc rand ivf 20 with
  | none => (ivf, sqliteError)
  | some ivf => ({ ivf.train.foldl (ivfAddVector distfunc) ivf with train := [] }, sqliteOk)

/-- What `vec0Update_Insert` does with the index. -/
def ivfInsert [Field α] (rand : Nat → Nat) (ivf : IVF α) (e : Entry α) : IVF α × ResultCode :=
  if ivf.trained then (ivfAddVector distfunc ivf e, sqliteOk)
  else
    match ivfAddToTrain ivf e with
    | (ivf, rc) =>
      if rc ≠ sqliteOk then (ivf, rc)
      else if ivf.trainCapacity ≤ ivf.train.length then ivfTrainAndFlush distfunc rand ivf
      else (ivf, sqliteOk)

def find (lists : List (InvertedList α)) (rowid : Rowid) : Option (Nat × Nat) :=
  lists.zipIdx.findSome? fun x =>
    (x.1.entries.findIdx? fun e => e.1 = rowid).map fun i => (x.2, i)

/-- The slot of the buffer that is addressed by `rowid - 1`, where it is one. -/
def trainSlot (ivf : IVF α) (rowid : Rowid) : Option Nat :=
  if 1 ≤ rowid.toInt ∧ rowid.toInt ≤ ivf.trainCapacity then some (rowid.toInt - 1).toNat else none

/-- Returns the number of the list, which is a result code only if it is `0`.  The store outside the
buffer is not checked for: what it overwrites is no part of the index. -/
def ivfDeleteVector (ivf : IVF α) (rowid : Rowid) : IVF α × ResultCode :=
  if !ivf.trained then
    match trainSlot ivf rowid with
    | none => (ivf, -2)
    | some i => ({ ivf with deleted := ivf.deleted.set i true }, -2)
  else
    match find ivf.lists rowid with
    | none => (ivf, -1)
    | some (l, i) => ({ ivf with lists := ivf.lists.modify l (·.remove i) }, l)

/-- `farAway` stands for `1e30f`. -/
def ivfUpdateVectorReinsert (farAway : α) (ivf : IVF α) (rowid : Rowid) (vec : List α) :
    IVF α × ResultCode :=
  if !ivf.trained then
    match trainSlot ivf rowid with
    | none => (ivf, sqliteOk)
    | some i => ({ ivf with
        train := ivf.train.modify i fun e => (e.1, vec)
        deleted := ivf.deleted.set i false }, sqliteOk)
  else
    let (ivf, oldList) := ivfDeleteVector ivf rowid
    if oldList < 0 then (ivf, sqliteOk)
    else
      let newList := nearestFrom distfunc vec 0 (0, farAway) ivf.centroids
      match ivf.lists[newList]? with
      | none => (ivf, sqliteOk)
      | some lst =>
        if lst.entries.length ≥ lst.cap then (ivf, sqliteNomem)
        else ({ ivf with lists := ivf.lists.modify newList (·.push (rowid, vec)) }, sqliteOk)

section Search

variable (ivf : IVF α) (query : List α)

def bestFrom (dists : Nat → α) (best : Nat × Nat) : Nat → List Nat → Nat × Nat
  | _, [] => best
  | j, idx :: rest =>
    bestFrom dists (if dists idx < dists best.2 then (j, idx) else best) (j + 1) rest

def selectFrom (dists : Nat → α) : Nat → List Nat → List Nat
  | 0, _ => []
  | _ + 1, [] => []
  | n + 1, idx :: rest =>
    match bestFrom dists (0, idx) 1 rest with
    | (0, _) => idx :: selectFrom dists n rest
    | (j + 1, best) => best :: selectFrom dists n (rest.set j idx)

def selectNprobe (nprobe : Nat) : List Nat :=
  selectFrom (fun i => distfunc query (ivf.centroids.getD i [])) nprobe
    (List.range ivf.lists.length)

abbrev Hit (α : Type) := Rowid × α

def hits (nprobe : Nat) (map : RowidMap) : List (Hit α) :=
  ((selectNprobe distfunc ivf query nprobe).flatMap fun l =>
      (ivf.lists[l]?).elim [] InvertedList.entries)
    |>.filter (fun e => bsearch e.1 map.rowids || !map.preFilter)
    |>.map fun e => (e.1, distfunc query e.2)

variable [Inhabited α]

def pushHit (topk : Nat) (heap : List (Hit α)) (hit : Hit α) : List (Hit α) :=
  if heap.length < topk then
    let heap := heap ++ [hit]
    if heap.length = topk then
      (List.range (topk / 2)).reverse.foldl (Sorting.siftDown Prod.snd) heap
    else heap
  else if hit.2 < (heap.getD 0 default).2 then Sorting.siftDown Prod.snd (heap.set 0 hit) 0
  else heap

def ivfSearch (topk nprobeOverride : Nat) (map : RowidMap) : List (Hit α) :=
  if topk = 0 then []
  else
    let nprobe := min (if nprobeOverride > 0 then nprobeOverride else ivf.nprobe) ivf.lists.length
    let heap := (hits distfunc ivf query nprobe map).foldl (pushHit topk) []
    Sorting.drain Prod.snd heap.length heap []

end Search

end Code

end SqliteMultimodal.Vec.Ivf
