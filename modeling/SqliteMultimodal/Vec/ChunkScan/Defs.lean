import SqliteMultimodal.Lib.Bitmap
import SqliteMultimodal.Vec.Basic

namespace SqliteMultimodal.Vec.ChunkScan

variable {D : Type} [LinearOrder D] [Zero D] {V : Type}

/-- The `while` loop of `min_idx`; the fuel is what is left of the chunk. -/
def skipUnavailable (candidates bTaken : Bitmap) : Nat → Nat → Nat
  | 0, minIdx => minIdx
  | m + 1, minIdx =>
    if bTaken.get minIdx || !candidates.get minIdx then
      skipUnavailable candidates bTaken m (minIdx + 1)
    else minIdx

def scanMin (distances : List D) (candidates bTaken : Bitmap) (n minIdx : Nat) : Nat :=
  (List.range n).foldl (fun minIdx i =>
    if distances.getD i 0 ≤ distances.getD minIdx 0 ∧ !bTaken.get i ∧ candidates.get i then i
    else minIdx) minIdx

def minIdxLoop (distances : List D) (n : Nat) (candidates : Bitmap) :
    Nat → Nat → List Nat → Bitmap → List Nat × Nat
  | 0, ik, out, _ => (out, ik)
  | m + 1, ik, out, bTaken =>
    let first := skipUnavailable candidates bTaken n 0
    if first ≥ n then (out, ik)
    else
      let minIdx := scanMin distances candidates bTaken n first
      minIdxLoop distances n candidates m (ik + 1) (out.set ik minIdx) (bTaken.set minIdx true)

def minIdx (distances : List D) (n : Nat) (candidates : Bitmap) (out : List Nat) (k : Nat) :
    List Nat × Nat :=
  minIdxLoop distances n candidates k 0 out (Bitmap.new n)

abbrev Pairs (D : Type) := List (Rowid × D)

/-- The arguments of `merge_sorted_lists` that its loop reads. -/
structure MergeArgs (D : Type) where
  a : Pairs D
  aLength : Nat
  b : List D
  bRowids : List Rowid
  bTopIdxs : List Nat
  bLength : Nat

def MergeArgs.aAt (m : MergeArgs D) (ptrA : Nat) : Rowid × D := m.a.getD ptrA (0, 0)

def MergeArgs.bAt (m : MergeArgs D) (ptrB : Nat) : Rowid × D :=
  let i := m.bTopIdxs.getD ptrB 0
  (m.bRowids.getD i 0, m.b.getD i 0)

def mergeLoop (m : MergeArgs D) : Nat → Nat → Nat → Nat → Pairs D → Pairs D × Nat
  | 0, i, _, _, out => (out, i)
  | left + 1, i, ptrA, ptrB, out =>
    if ptrA ≥ m.aLength ∧ ptrB ≥ m.bLength then (out, i)
    else if ptrA ≥ m.aLength then
      mergeLoop m left (i + 1) ptrA (ptrB + 1) (out.set i (m.bAt ptrB))
    else if ptrB ≥ m.bLength then
      mergeLoop m left (i + 1) (ptrA + 1) ptrB (out.set i (m.aAt ptrA))
    else if (m.aAt ptrA).2 ≤ (m.bAt ptrB).2 then
      mergeLoop m left (i + 1) (ptrA + 1) ptrB (out.set i (m.aAt ptrA))
    else mergeLoop m left (i + 1) ptrA (ptrB + 1) (out.set i (m.bAt ptrB))

def mergeSortedLists (m : MergeArgs D) (out : Pairs D) (outLength : Nat) : Pairs D × Nat :=
  mergeLoop m outLength 0 0 0 out

structure Chunk (V : Type) where
  chunkId : Rowid
  validity : Bitmap
  rowids : List Rowid
  vectors : List V

structure ScanArgs (V : Type) (D : Type) where
  chunkSize : ChunkSize
  k : Nat
  arrayRowidsIn : Option (List Rowid)
  metadataFilters : List (Chunk V → Except ResultCode Bitmap)
  distance : V → D

section

variable (args : ScanArgs V D) (c : Chunk V)

def rowidBitmap (arr : List Rowid) : Bitmap :=
  (List.range args.chunkSize.val).foldl (fun bm i =>
    if !c.validity.get i then bm else bm.set i (bsearch (c.rowids.getD i 0) arr))
    (Bitmap.new args.chunkSize.val)

def validRowids : Bitmap :=
  match args.arrayRowidsIn with
  | none => c.validity
  | some arr => c.validity.andInplace (rowidBitmap args c arr)

def candidateBitmap : Except ResultCode Bitmap :=
  args.metadataFilters.foldlM (fun b filter => do return b.andInplace (← filter c))
    (validRowids args c)

def chunkDistances (b : Bitmap) : List D :=
  (List.range args.chunkSize.val).map fun i =>
    if b.get i then (c.vectors[i]?).elim 0 args.distance else 0

end

structure ScanState (D : Type) where
  topk : Pairs D
  tmpTopk : Pairs D
  kUsed : Nat

def scanChunk (args : ScanArgs V D) (s : ScanState D) (c : Chunk V) :
    Except ResultCode (ScanState D) := do
  let n := args.chunkSize.val
  if c.validity.bytes.length ≠ n / 8 then throw sqliteError
  if c.rowids.length ≠ n then throw sqliteError
  if c.vectors.length ≠ n then throw sqliteError
  let b ← candidateBitmap args c
  let distances := chunkDistances args c b
  let (idxs, used1) := minIdx distances n b (List.replicate args.k 0) (min args.k n)
  let (tmp, used) := mergeSortedLists
    ⟨s.topk, s.kUsed, distances, c.rowids, idxs, min (min args.k n) used1⟩ s.tmpTopk args.k
  return ⟨tmp.take used ++ s.topk.drop used, tmp, used⟩

def vec0FilterKnnChunksIter (args : ScanArgs V D) (chunks : List (Chunk V)) :
    Except ResultCode (Pairs D) := do
  let s ← chunks.foldlM (scanChunk args)
    ⟨List.replicate args.k (0, 0), List.replicate args.k (0, 0), 0⟩
  return s.topk.take s.kUsed

end SqliteMultimodal.Vec.ChunkScan
