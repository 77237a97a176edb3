import Mathlib.Data.List.TakeWhile
import SqliteMultimodal.Vec.ChunkScan.Exact
import SqliteMultimodal.Vec.Hnsw.Filtering
import SqliteMultimodal.Vec.KdTree.Exact
import SqliteMultimodal.Vec.Knn.Compare
import SqliteMultimodal.Vec.Knn.Defs
import SqliteMultimodal.Vec.Knn.Filter
import SqliteMultimodal.Vec.Knn.Shape
import SqliteMultimodal.Vec.Storage.Kinds

namespace SqliteMultimodal.Vec.Knn

open Storage Except ChunkScan

def MetadataConstraint.Holds (value : SqlValue) : MetadataConstraint → Prop
  | .compare op v => value.satisfies op v = true
  | .isIn vs => ∃ v ∈ vs, value.satisfies .eq v = true

variable {α : Type}

/-- The filters let the row through. -/
structure Passes (env : Env α) (p : Vec0Vtab) (s : Shadow α) (args : KnnArgs α)
    (rowidsIn : Option (List Rowid)) (r : Rowid) : Prop where
  listed : rowidsIn.all (fun arr => arr.contains r) = true
  partitions : ∀ x ∈ args.partitions,
    ∃ value, vec0GetPartitionValueForRowid s r x.1 = .ok value ∧
      value.satisfies x.2.1 x.2.2 = true
  metadata : ∀ x ∈ args.metadata, ∃ chunkId off b,
    vec0GetChunkPosition s r = .ok (chunkId, off) ∧
      vec0SetMetadataFilterBitmap env.conv p s x.1 x.2 chunkId = .ok b ∧ b.get off = true

section Slots

variable {conv : Conversions} {s : Shadow α} {metadataIdx : Nat} {stored : Bytes → Prop}

end Slots

section Rows

variable {ι : Type} [Zero α] {ops : IndexOps α ι} {p : Vec0Vtab} {v : Vec0 α ι} {rows : Rows α}
  {conv : Conversions}

variable {env : Env α} {args : KnnArgs α} {rowidsIn : Option (List Rowid)}

theorem mem_sortRowids {r : Rowid} {rowids : List Rowid} : r ∈ sortRowids rowids ↔ r ∈ rowids :=
  (List.perm_insertionSort _ rowids).mem_iff

section Candidates

variable {query : List α} {k dimension : Nat} {c : Chunk (List α)} {off : Nat}

end Candidates

end Rows

end SqliteMultimodal.Vec.Knn

namespace SqliteMultimodal.Vec

namespace Ivf

variable {α : Type} [LinearOrder α] [Inhabited α]

end Ivf

namespace Hnsw

variable {α : Type}

end Hnsw

namespace Knn

open Storage Except ChunkScan

variable {α : Type} [LinearOrder α] [Inhabited α] [Zero α] [Sub α] [Mul α]
  {ops : IndexOps α (Index α)} {p : Vec0Vtab} {v : Vec0 α (Index α)} {rows : Rows α} {env : Env α}
  {args : KnnArgs α}

section Sample

end Sample

end Knn

end SqliteMultimodal.Vec
