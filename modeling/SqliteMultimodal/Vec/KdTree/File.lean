import SqliteMultimodal.Lib.Codec
import SqliteMultimodal.Vec.KdTree.Defs

namespace SqliteMultimodal.Vec.KdTree

open Codec

/-- A `KDNode` with the fields as wide as the C code declares them. -/
inductive FileNode (α : Type) : Type
  | null : FileNode α
  | node (point : List α) (rowid : Int64) (left right : FileNode α)
      (axis size deleted invalidCount : Int32) : FileNode α
  deriving DecidableEq

structure FileTree (α : Type) where
  root : FileNode α
  dimensions : Int32
  size : Int32
  deriving DecidableEq

variable {α : Type} (f32 : Fixed α)

def serializeKdnode (dims : Int32) : FileNode α → Codec.Bytes
  | .null => int32.encode 1
  | .node point rowid left right axis size deleted invalidCount =>
    int32.encode 0 ++ (int64.encode rowid ++ (int32.encode axis ++ (int32.encode size ++
      (int32.encode deleted ++ (int32.encode invalidCount ++
        ((point.take dims.toInt.toNat).flatMap f32.encode ++
          (serializeKdnode dims left ++ serializeKdnode dims right)))))))

def serializeKdtree (tree : FileTree α) : Codec.Bytes :=
  int32.encode tree.dimensions ++ (int32.encode tree.size ++
    serializeKdnode f32 tree.dimensions tree.root)

/-- A file that ends before `is_null` gives the null pointer; one that ends later leaves fields
unset.  The depth is that of the recursion. -/
def deserializeKdnode (dims : Int32) : Nat → Reader (FileNode α)
  | 0 => fun _ => none
  | depth + 1 => fun bs =>
    match int32.read bs with
    | none => some (.null, [])
    | some (isNull, bs) =>
      if isNull ≠ 0 then some (.null, bs)
      else
        (do
          let rowid ← int64.read
          let axis ← int32.read
          let size ← int32.read
          let deleted ← int32.read
          let invalidCount ← int32.read
          let point ← many f32.read dims.toInt.toNat
          let left ← deserializeKdnode dims depth
          let right ← deserializeKdnode dims depth
          return .node point rowid left right axis size deleted invalidCount : Reader _) bs

def deserializeKdtree : Reader (FileTree α) := do
  let dimensions ← int32.read
  let size ← int32.read
  let root ← fun bs => deserializeKdnode f32 dimensions (bs.length + 1) bs
  return ⟨root, dimensions, size⟩

/-- All points have `dims` coordinates. -/
def FileNode.Sized (dims : Int32) : FileNode α → Prop
  | .null => True
  | .node point _ left right _ _ _ _ =>
    (point.length : Int) = dims.toInt ∧ left.Sized dims ∧ right.Sized dims

def FileNode.depth : FileNode α → Nat
  | .null => 0
  | .node _ _ left right _ _ _ _ => max left.depth right.depth + 1

theorem depth_lt_length (dims : Int32) (node : FileNode α) :
    node.depth < (serializeKdnode f32 dims node).length := by
  induction node with
  | null => exact Nat.zero_lt_succ 3
  | node point rowid left right axis size deleted invalidCount ihl ihr =>
    rw [FileNode.depth, serializeKdnode]
    simp only [List.length_append, int32.length_encode, int64.length_encode]
    have h32 : int32.width = 4 := rfl
    omega

theorem reads_serializeKdnode {dims : Int32} {node : FileNode α} (h : node.Sized dims) {depth : Nat}
    (hdepth : node.depth < depth) :
    Reads (deserializeKdnode f32 dims depth) (serializeKdnode f32 dims node) node := by
  induction node generalizing depth with
  | null =>
    obtain ⟨depth, rfl⟩ : ∃ k, depth = k + 1 := ⟨depth - 1, by omega⟩
    intro rest
    rw [deserializeKdnode, serializeKdnode]
    dsimp only
    rw [int32.reads 1 rest]
    rfl
  | node point rowid left right axis size deleted invalidCount ihl ihr =>
    obtain ⟨depth, rfl⟩ : ∃ k, depth = k + 1 := ⟨depth - 1, by omega⟩
    obtain ⟨hpoint, hleft, hright⟩ := h
    rw [FileNode.depth] at hdepth
    have hlen : dims.toInt.toNat = point.length := by omega
    have hl := ihl hleft (show left.depth < depth by omega)
    have hr := ihr hright (show right.depth < depth by omega)
    have hpoints : Reads (many f32.read dims.toInt.toNat)
        ((point.take dims.toInt.toNat).flatMap f32.encode) point := by
      rw [hlen, List.take_length]
      exact Reads.many fun x _ => f32.reads x
    intro rest
    rw [deserializeKdnode, serializeKdnode, List.append_assoc]
    dsimp only
    rw [int32.reads 0]
    exact (int64.reads rowid).bind ((int32.reads axis).bind ((int32.reads size).bind
      ((int32.reads deleted).bind ((int32.reads invalidCount).bind (hpoints.bind
        (hl.bind (hr.map fun right =>
          FileNode.node point rowid left right axis size deleted invalidCount))))))) rest

theorem reads_serializeKdtree {tree : FileTree α} (h : tree.root.Sized tree.dimensions) :
    Reads (deserializeKdtree f32) (serializeKdtree f32 tree) tree := by
  have hroot : Reads (fun bs => deserializeKdnode f32 tree.dimensions (bs.length + 1) bs)
      (serializeKdnode f32 tree.dimensions tree.root) tree.root := fun rest => by
    have hdepth := depth_lt_length f32 tree.dimensions tree.root
    refine reads_serializeKdnode f32 h ?_ rest
    rw [List.length_append]
    omega
  exact (int32.reads tree.dimensions).bind ((int32.reads tree.size).bind
    (hroot.map fun root => FileTree.mk root tree.dimensions tree.size))

/-- A tree comes back from its file, and from all of it; trees with one file are equal. -/
theorem kdtree_roundtrip (tree : FileTree α) (h : tree.root.Sized tree.dimensions) :
    (∀ rest, deserializeKdtree f32 (serializeKdtree f32 tree ++ rest) = some (tree, rest)) ∧
      ∀ tree' : FileTree α, tree'.root.Sized tree'.dimensions →
        serializeKdtree f32 tree' = serializeKdtree f32 tree → tree' = tree := by
  refine ⟨reads_serializeKdtree f32 h, fun tree' h' heq => ?_⟩
  have hreads := reads_serializeKdtree f32 h'
  rw [heq] at hreads
  exact hreads.unique (reads_serializeKdtree f32 h)

def planeTree : FileTree UInt32 where
  root := .node [0x3f800000, 0x40000000] 7 .null
    (.node [0x40400000, 0xbf800000] (-3) .null .null 1 1 1 1) 0 2 0 1
  dimensions := 2
  size := 2

theorem planeTree_roundtrip :
    (∀ rest, deserializeKdtree uint32 (serializeKdtree uint32 planeTree ++ rest) =
      some (planeTree, rest)) ∧
      ∀ tree' : FileTree UInt32, tree'.root.Sized tree'.dimensions →
        serializeKdtree uint32 tree' = serializeKdtree uint32 planeTree → tree' = planeTree :=
  kdtree_roundtrip uint32 planeTree ⟨rfl, trivial, rfl, trivial, trivial⟩

section Tree

/-- The numbers of the node fit their fields, and its points have `dims` coordinates. -/
def KDNode.Fits (dims : Nat) : KDNode α → Prop
  | .nil => True
  | .node point _ left right axis size _ invalidCount =>
    point.length = dims ∧ axis < 2 ^ 31 ∧ size < 2 ^ 31 ∧ invalidCount < 2 ^ 31 ∧
      left.Fits dims ∧ right.Fits dims

def KDNode.toFile : KDNode α → FileNode α
  | .nil => .null
  | .node point rowid left right axis size deleted invalidCount =>
    .node point rowid left.toFile right.toFile (Int32.ofNat axis) (Int32.ofNat size)
      (if deleted then 1 else 0) (Int32.ofNat invalidCount)

def FileNode.toNode : FileNode α → KDNode α
  | .null => .nil
  | .node point rowid left right axis size deleted invalidCount =>
    .node point rowid left.toNode right.toNode axis.toInt.toNat size.toInt.toNat
      (deleted ≠ 0) invalidCount.toInt.toNat

def KDTree.toFile (tree : KDTree α) : FileTree α :=
  ⟨tree.root.toFile, Int32.ofNat tree.dimensions, Int32.ofNat tree.size⟩

def FileTree.toTree (tree : FileTree α) : KDTree α :=
  ⟨tree.root.toNode, tree.dimensions.toInt.toNat, tree.size.toInt.toNat⟩

theorem toNode_toFile {dims : Nat} {node : KDNode α} (h : node.Fits dims) :
    node.toFile.toNode = node := by
  induction node with
  | nil => rfl
  | node point rowid left right axis size deleted invalidCount ihl ihr =>
    obtain ⟨-, haxis, hsize, hinvalid, hleft, hright⟩ := h
    rw [KDNode.toFile, FileNode.toNode, ihl hleft, ihr hright, Int32.toInt_ofNat_of_lt haxis,
      Int32.toInt_ofNat_of_lt hsize, Int32.toInt_ofNat_of_lt hinvalid]
    cases deleted <;> rfl

theorem sized_toFile {dims : Nat} (hdims : dims < 2 ^ 31) {node : KDNode α} (h : node.Fits dims) :
    node.toFile.Sized (Int32.ofNat dims) := by
  induction node with
  | nil => trivial
  | node point rowid left right axis size deleted invalidCount ihl ihr =>
    obtain ⟨hpoint, -, -, -, hleft, hright⟩ := h
    refine ⟨?_, ihl hleft, ihr hright⟩
    rw [hpoint, Int32.toInt_ofNat_of_lt hdims]

theorem kdtree_reconnect {tree : KDTree α} (hdims : tree.dimensions < 2 ^ 31)
    (hsize : tree.size < 2 ^ 31) (h : tree.root.Fits tree.dimensions) :
    (deserializeKdtree f32 (serializeKdtree f32 tree.toFile)).map (fun x => x.1.toTree) =
      some tree := by
  have hsized : tree.toFile.root.Sized tree.toFile.dimensions := sized_toFile hdims h
  have hreads := reads_serializeKdtree f32 hsized []
  rw [List.append_nil] at hreads
  rw [hreads, Option.map_some, FileTree.toTree, KDTree.toFile, toNode_toFile h,
    Int32.toInt_ofNat_of_lt hdims, Int32.toInt_ofNat_of_lt hsize]
  rfl

end Tree

end SqliteMultimodal.Vec.KdTree
