import SqliteMultimodal.Lib.Block
import SqliteMultimodal.Lib.MaxHeap

/-! The priority queue of `graph-algo.c` in the array that it grows.  Memory is never short, but the
size that is asked for is an `int`. -/

namespace SqliteMultimodal.Graph.PriorityQueue

section Code

structure PQNode (D : Type) where
  iNodeId : Int
  rDistance : D
  deriving DecidableEq

/-- `none` is an array that has been freed. -/
structure GraphPriorityQueue (D : Type) where
  aNodes : Option (Block (PQNode D))
  nUsed : Nat
  nAlloc : Nat

def graphPriorityQueueCreate (D : Type) : GraphPriorityQueue D := ⟨some (Block.alloc 16), 0, 16⟩

def pqParent (i : Nat) : Nat := (i - 1) / 2

def pqLeftChild (i : Nat) : Nat := 2 * i + 1

def pqRightChild (i : Nat) : Nat := 2 * i + 2

def sizeofPQNode : Nat := 16

/-- `sqlite3_realloc` takes the size as an `int`, and frees what it is given if that is not
positive. -/
def sqlite3Realloc {β : Type} (aNodes : Block β) (nByte : Nat) : Option (Block β) :=
  if (Int32.ofNat nByte).toInt ≤ 0 then none
  else some (aNodes.realloc ((Int32.ofNat nByte).toInt.toNat / sizeofPQNode))

def growArray {β : Type} (aNodes : Block β) (nUsed nAlloc : Nat) : Option (Block β × Nat) :=
  if nUsed ≥ nAlloc then
    (sqlite3Realloc aNodes (nAlloc * 2 * sizeofPQNode)).map fun aNew => (aNew, nAlloc * 2)
  else some (aNodes, nAlloc)

variable {D : Type} (aNodes : Block (PQNode D))

def pqSwap (i j : Nat) : Option (Block (PQNode D)) := do
  let x ← aNodes.load i
  let y ← aNodes.load j
  let aNodes ← aNodes.store i y
  aNodes.store j x

variable [LinearOrder D]

def pqBubbleUpFuel : Nat → Block (PQNode D) → Nat → Option (Block (PQNode D))
  | 0, _, _ => none
  | fuel + 1, aNodes, i =>
    if i > 0 then do
      let p ← aNodes.load (pqParent i)
      let x ← aNodes.load i
      if p.rDistance > x.rDistance then do
        let aNodes ← pqSwap aNodes i (pqParent i)
        pqBubbleUpFuel fuel aNodes (pqParent i)
      else some aNodes
    else some aNodes

def pqBubbleUp (i : Nat) : Option (Block (PQNode D)) := pqBubbleUpFuel (i + 1) aNodes i

def pqSmaller (nUsed child minIndex : Nat) : Option Nat :=
  if child < nUsed then do
    let x ← aNodes.load child
    let m ← aNodes.load minIndex
    some (if x.rDistance < m.rDistance then child else minIndex)
  else some minIndex

def pqBubbleDownFuel : Nat → Block (PQNode D) → Nat → Nat → Option (Block (PQNode D))
  | 0, _, _, _ => none
  | fuel + 1, aNodes, nUsed, i => do
    let minIndex ← pqSmaller aNodes nUsed (pqLeftChild i) i
    let minIndex ← pqSmaller aNodes nUsed (pqRightChild i) minIndex
    if minIndex ≠ i then do
      let aNodes ← pqSwap aNodes i minIndex
      pqBubbleDownFuel fuel aNodes nUsed minIndex
    else some aNodes

def pqBubbleDown (nUsed i : Nat) : Option (Block (PQNode D)) :=
  pqBubbleDownFuel (nUsed + 1) aNodes nUsed i

inductive ReturnCode
  | ok | nomem | notfound
  deriving DecidableEq

variable (pQueue : GraphPriorityQueue D)

def graphPriorityQueueInsert (iNodeId : Int) (rDistance : D) :
    Option (ReturnCode × GraphPriorityQueue D) := do
  let aNodes ← pQueue.aNodes
  match growArray aNodes pQueue.nUsed pQueue.nAlloc with
  | none => some (.nomem, { pQueue with aNodes := none })
  | some (aNodes, nAlloc) => do
    let aNodes ← aNodes.store pQueue.nUsed ⟨iNodeId, rDistance⟩
    let aNodes ← pqBubbleUp aNodes pQueue.nUsed
    some (.ok, ⟨some aNodes, pQueue.nUsed + 1, nAlloc⟩)

def graphPriorityQueueExtractMin : Option (ReturnCode × Option (PQNode D) × GraphPriorityQueue D) :=
  if pQueue.nUsed = 0 then some (.notfound, none, pQueue)
  else do
    let aNodes ← pQueue.aNodes
    let root ← aNodes.load 0
    let nUsed := pQueue.nUsed - 1
    let aNodes ←
      if nUsed > 0 then do
        let last ← aNodes.load nUsed
        let aNodes ← aNodes.store 0 last
        pqBubbleDown aNodes nUsed 0
      else some aNodes
    some (.ok, some root, { pQueue with aNodes := some aNodes, nUsed })

end Code

section Runs

inductive Op (D : Type)
  | insert (iNodeId : Int) (rDistance : D)
  | extractMin

structure Reply (D : Type) where
  rc : ReturnCode
  node : Option (PQNode D)

variable {D : Type}

def held : Nat → List (Op D) → Nat
  | n, [] => n
  | n, .insert _ _ :: ops => held (n + 1) ops
  | n, .extractMin :: ops => held (n - 1) ops

variable [LinearOrder D]

def step (pQueue : GraphPriorityQueue D) : Op D → Option (Reply D × GraphPriorityQueue D)
  | .insert iNodeId rDistance =>
    (graphPriorityQueueInsert pQueue iNodeId rDistance).map fun r => (⟨r.1, none⟩, r.2)
  | .extractMin => (graphPriorityQueueExtractMin pQueue).map fun r => (⟨r.1, r.2.1⟩, r.2.2)

def run : GraphPriorityQueue D → List (Op D) → Option (List (Reply D) × GraphPriorityQueue D)
  | pQueue, [] => some ([], pQueue)
  | pQueue, op :: ops => do
    let (reply, pQueue) ← step pQueue op
    let (replies, pQueue) ← run pQueue ops
    some (reply :: replies, pQueue)

inductive Served : Multiset (PQNode D) → List (Op D) → List (Reply D) → Multiset (PQNode D) → Prop
  | nil (entries : Multiset (PQNode D)) : Served entries [] [] entries
  | insert {entries entries' : Multiset (PQNode D)} {ops : List (Op D)} {replies : List (Reply D)}
      (iNodeId : Int) (rDistance : D) (rest : Served (⟨iNodeId, rDistance⟩ ::ₘ entries) ops replies
        entries') :
      Served entries (.insert iNodeId rDistance :: ops) (⟨.ok, none⟩ :: replies) entries'
  | empty {entries' : Multiset (PQNode D)} {ops : List (Op D)} {replies : List (Reply D)}
      (rest : Served 0 ops replies entries') :
      Served 0 (.extractMin :: ops) (⟨.notfound, none⟩ :: replies) entries'
  | extract {entries entries' : Multiset (PQNode D)} {ops : List (Op D)} {replies : List (Reply D)}
      {node : PQNode D} (hmin : ∀ x ∈ entries, node.rDistance ≤ x.rDistance)
      (rest : Served entries ops replies entries') :
      Served (node ::ₘ entries) (.extractMin :: ops) (⟨.ok, some node⟩ :: replies) entries'

def HeapOrder (nodes : List (PQNode D)) : Prop :=
  ∀ i p x, 0 < i → nodes[pqParent i]? = some p → nodes[i]? = some x → p.rDistance ≤ x.rDistance

/-- The array is there, with `nAlloc` places, and those in use are a heap of these entries. -/
def Stands (pQueue : GraphPriorityQueue D) (entries : Multiset (PQNode D)) : Prop :=
  ∃ aNodes nodes, pQueue.aNodes = some aNodes ∧ aNodes.length = pQueue.nAlloc ∧
    aNodes.Filled nodes ∧ pQueue.nUsed = nodes.length ∧ HeapOrder nodes ∧
    (nodes : Multiset (PQNode D)) = entries

def KeepsOrder (ops : List (Op D)) : Prop :=
  ∀ m, ∃ replies pQueue entries,
    run (graphPriorityQueueCreate D) (ops.take m) = some (replies, pQueue) ∧
      Served 0 (ops.take m) replies entries ∧ Stands pQueue entries

end Runs

section Heap

variable {D : Type} [LinearOrder D] {aNodes : Block (PQNode D)} {nodes : List (PQNode D)} {i : Nat}

def urgency (node : PQNode D) : Dᵒᵈ := OrderDual.toDual node.rDistance

variable [Inhabited (PQNode D)]

omit [LinearOrder D] in
theorem load_getD (h : aNodes.Filled nodes) (hi : i < nodes.length) :
    aNodes.load i = some (nodes.getD i default) := by
  rw [h.load hi, List.getD_eq_getElem _ _ hi]

theorem heapOrder_iff : HeapOrder nodes ↔ Sorting.HeapFrom urgency 0 nodes := by
  constructor
  · intro h i c _ hc hlt
    have hi := hc.lt.trans hlt
    have hparent : pqParent c = i := by
      unfold Sorting.IsChild at hc
      unfold pqParent
      omega
    rw [List.getD_eq_getElem _ _ hlt, List.getD_eq_getElem _ _ hi]
    exact h c _ _ ((Nat.zero_le i).trans_lt hc.lt) (hparent ▸ List.getElem?_eq_getElem hi)
      (List.getElem?_eq_getElem hlt)
  · intro h i p x hi hp hx
    obtain ⟨hplt, rfl⟩ := List.getElem?_eq_some_iff.mp hp
    obtain ⟨hlt, rfl⟩ := List.getElem?_eq_some_iff.mp hx
    have hle := h (pqParent i) i (Nat.zero_le _) (Sorting.isChild_parent hi) hlt
    rwa [List.getD_eq_getElem _ _ hlt, List.getD_eq_getElem _ _ hplt] at hle

omit [LinearOrder D] in
theorem pqSwap_filled (h : aNodes.Filled nodes) {j : Nat} (hi : i < nodes.length)
    (hj : j < nodes.length) : ∃ aNodes', pqSwap aNodes i j = some aNodes' ∧
      aNodes'.length = aNodes.length ∧ aNodes'.Filled (Sorting.swap nodes i j) := by
  have hle := h.length_le
  have hset := h.set hi (nodes.getD j default)
  refine ⟨_, ?_, ?_, hset.set (by rwa [List.length_set]) (nodes.getD i default)⟩
  · rw [pqSwap, load_getD h hi, load_getD h hj]
    simp only [Option.bind_eq_bind, Option.bind_some]
    rw [Block.store_eq (by omega), Option.bind_some,
      Block.store_eq (by rw [List.length_set]; omega)]
  · rw [List.length_set, List.length_set]

theorem pqBubbleUpFuel_filled {n : Nat} (h : aNodes.Filled nodes) (hi : i < nodes.length)
    (hn : i ≤ n) : ∃ aNodes', pqBubbleUpFuel (n + 1) aNodes i = some aNodes' ∧
      aNodes'.length = aNodes.length ∧ aNodes'.Filled (Sorting.siftUpFuel urgency n nodes i) := by
  induction n generalizing aNodes nodes i with
  | zero =>
    refine ⟨aNodes, ?_, rfl, h⟩
    rw [pqBubbleUpFuel, if_neg (by omega)]
  | succ n ih =>
    rw [pqBubbleUpFuel, Sorting.siftUpFuel]
    by_cases hpos : i > 0
    · have hparent : pqParent i < i := (Sorting.isChild_parent hpos).lt
      rw [if_pos hpos, load_getD h hi, load_getD h (hparent.trans hi)]
      simp only [Option.bind_eq_bind, Option.bind_some]
      by_cases hlt : (nodes.getD (pqParent i) default).rDistance > (nodes.getD i default).rDistance
      · obtain ⟨a, hswap, hlength, hfilled⟩ := pqSwap_filled h hi (hparent.trans hi)
        rw [if_pos hlt, if_pos ⟨hpos, hlt⟩, hswap, Option.bind_some]
        obtain ⟨a', hup, hlength', hfilled'⟩ := ih hfilled
          (by rw [Sorting.length_swap]; exact hparent.trans hi) (by omega)
        exact ⟨a', hup, hlength'.trans hlength, hfilled'⟩
      · rw [if_neg hlt, if_neg fun hup => hlt hup.2]
        exact ⟨aNodes, rfl, rfl, h⟩
    · rw [if_neg hpos, if_neg fun hup => hpos hup.1]
      exact ⟨aNodes, rfl, rfl, h⟩

theorem pqSmaller_filled (h : aNodes.Filled nodes) (hi : i < nodes.length) (child : Nat) :
    pqSmaller aNodes nodes.length child i = some (if child < nodes.length ∧
      urgency (nodes.getD child default) > urgency (nodes.getD i default) then child else i) := by
  rw [pqSmaller]
  by_cases hchild : child < nodes.length
  · rw [if_pos hchild, load_getD h hchild, load_getD h hi]
    simp only [Option.bind_eq_bind, Option.bind_some, hchild, true_and]
    rfl
  · rw [if_neg hchild, if_neg fun hless => hchild hless.1]

theorem pqBubbleDownFuel_filled {n : Nat} (h : aNodes.Filled nodes) (hi : i < nodes.length)
    (hn : nodes.length ≤ i + n) :
    ∃ aNodes', pqBubbleDownFuel (n + 1) aNodes nodes.length i = some aNodes' ∧
      aNodes'.length = aNodes.length ∧ aNodes'.Filled (Sorting.siftDownFuel urgency n nodes i) := by
  induction n generalizing aNodes nodes i with
  | zero => exact absurd hi (Nat.not_lt.mpr hn)
  | succ n ih =>
    have hmin : ((pqSmaller aNodes nodes.length (pqLeftChild i) i).bind fun m =>
        pqSmaller aNodes nodes.length (pqRightChild i) m) =
          some (Sorting.largest urgency nodes i) := by
      rw [pqSmaller_filled h hi, Option.bind_some, pqSmaller_filled h (by split <;> omega),
        Sorting.largest, pqLeftChild, pqRightChild, Nat.mul_comm 2 i]
    rw [pqBubbleDownFuel, Sorting.siftDownFuel]
    simp only [Option.bind_eq_bind]
    rw [← Option.bind_assoc, hmin, Option.bind_some]
    by_cases heq : Sorting.largest urgency nodes i = i
    · rw [if_neg (not_not.mpr heq), if_pos heq]
      exact ⟨aNodes, rfl, rfl, h⟩
    · obtain hidx | ⟨hlt, hlen⟩ := Sorting.largest_cases urgency nodes i
      · exact absurd hidx heq
      · obtain ⟨a, hswap, hlength, hfilled⟩ := pqSwap_filled h hi hlen
        rw [if_pos heq, if_neg heq, hswap, Option.bind_some]
        have hlength' : (Sorting.swap nodes i (Sorting.largest urgency nodes i)).length =
            nodes.length := Sorting.length_swap _ _ _
        obtain ⟨a', hdown, hsize, hfilled'⟩ := ih (i := Sorting.largest urgency nodes i) hfilled
          (by omega) (by omega)
        rw [hlength'] at hdown
        exact ⟨a', hdown, hsize.trans hlength, hfilled'⟩

end Heap

section Calls

variable {D : Type} [LinearOrder D] {pQueue : GraphPriorityQueue D}
  {entries : Multiset (PQNode D)} {nodes : List (PQNode D)}

/-- These are the elements in use, in this order. -/
def Holds (pQueue : GraphPriorityQueue D) (nodes : List (PQNode D)) : Prop :=
  ∃ aNodes, pQueue.aNodes = some aNodes ∧ aNodes.length = pQueue.nAlloc ∧
    aNodes.Filled nodes ∧ pQueue.nUsed = nodes.length

structure Sized (nAlloc : Nat) : Prop where
  power : nAlloc.isPowerOfTwo
  least : 16 ≤ nAlloc
  most : nAlloc ≤ 67108864

theorem Sized.double {nAlloc : Nat} (h : Sized nAlloc) (hlt : nAlloc < 67108864) :
    Sized (nAlloc * 2) := by
  have hleast := h.least
  refine ⟨Nat.isPowerOfTwo_mul_two_of_isPowerOfTwo h.power, by omega, ?_⟩
  obtain ⟨k, rfl⟩ := h.power
  have hk : k < 26 := (Nat.pow_lt_pow_iff_right (by decide)).mp hlt
  have hle : 2 ^ k ≤ 2 ^ 25 := Nat.pow_le_pow_right (by decide) (by omega)
  omega

theorem sqlite3Realloc_sized {β : Type} (aNodes : Block β) {nAlloc : Nat} (h : Sized nAlloc) :
    sqlite3Realloc aNodes (nAlloc * sizeofPQNode) = some (aNodes.realloc nAlloc) := by
  have hleast := h.least
  have hmost := h.most
  have hsize : (Int32.ofNat (nAlloc * sizeofPQNode)).toInt = (nAlloc * sizeofPQNode : Nat) :=
    Int32.toInt_ofNat_of_lt (by rw [sizeofPQNode]; omega)
  rw [sqlite3Realloc, hsize, Int.toNat_natCast, sizeofPQNode, if_neg (by omega),
    Nat.mul_div_cancel _ (by decide)]

theorem sqlite3Realloc_largest {β : Type} (aNodes : Block β) :
    sqlite3Realloc aNodes (67108864 * 2 * sizeofPQNode) = none := if_pos (by decide)

theorem growArray_sized {β : Type} {aNodes : Block β} {nodes : List β} {nAlloc : Nat}
    (h : Sized nAlloc) (hlength : aNodes.length = nAlloc) (hfilled : aNodes.Filled nodes)
    (hroom : nodes.length < 67108864) :
    ∃ aNew nNewAlloc, growArray aNodes nodes.length nAlloc = some (aNew, nNewAlloc) ∧
      Sized nNewAlloc ∧ aNew.length = nNewAlloc ∧ aNew.Filled nodes ∧
      nodes.length < aNew.length := by
  have hle := hfilled.length_le
  rw [growArray]
  by_cases hfull : nodes.length ≥ nAlloc
  · have hdouble := h.double (by omega)
    have hleast := h.least
    rw [if_pos hfull, sqlite3Realloc_sized aNodes hdouble]
    refine ⟨_, nAlloc * 2, rfl, hdouble, Block.length_realloc _ _, hfilled.realloc (by omega), ?_⟩
    rw [Block.length_realloc]
    omega
  · rw [if_neg hfull]
    exact ⟨aNodes, nAlloc, rfl, h, hlength, hfilled, by omega⟩

theorem stands_create : Stands (graphPriorityQueueCreate D) 0 :=
  ⟨Block.alloc 16, [], rfl, Block.length_alloc 16, Block.Filled.nil _, rfl,
    fun _ _ _ _ hp => absurd hp (by simp), rfl⟩

theorem sized_create : Sized 16 := ⟨⟨4, rfl⟩, by decide, by decide⟩

theorem Stands.card_eq (h : Stands pQueue entries) : entries.card = pQueue.nUsed := by
  obtain ⟨aNodes, nodes, -, -, -, hused, -, rfl⟩ := h
  exact hused.symm

theorem Stands.card_le (h : Stands pQueue entries) : entries.card ≤ pQueue.nAlloc := by
  obtain ⟨aNodes, nodes, -, hlength, hfilled, -, -, rfl⟩ := h
  exact hlength ▸ hfilled.length_le

theorem Stands.holds (h : Stands pQueue entries) : ∃ nodes, Holds pQueue nodes ∧
    HeapOrder nodes ∧ (nodes : Multiset (PQNode D)) = entries := by
  obtain ⟨aNodes, nodes, hnodes, hlength, hfilled, hused, horder, heq⟩ := h
  exact ⟨nodes, ⟨aNodes, hnodes, hlength, hfilled, hused⟩, horder, heq⟩

theorem Holds.stands (h : Holds pQueue nodes) (horder : HeapOrder nodes) :
    Stands pQueue (nodes : Multiset (PQNode D)) := by
  obtain ⟨aNodes, hnodes, hlength, hfilled, hused⟩ := h
  exact ⟨aNodes, nodes, hnodes, hlength, hfilled, hused, horder, rfl⟩

omit [LinearOrder D] in
theorem holds_create : Holds (graphPriorityQueueCreate D) [] :=
  ⟨Block.alloc 16, rfl, Block.length_alloc 16, Block.Filled.nil _, rfl⟩

theorem Holds.insert [Inhabited (PQNode D)] (h : Holds pQueue nodes) (hsized : Sized pQueue.nAlloc)
    (hroom : nodes.length < 67108864) (iNodeId : Int) (rDistance : D) :
    ∃ pQueue', graphPriorityQueueInsert pQueue iNodeId rDistance = some (.ok, pQueue') ∧
      Holds pQueue' (Sorting.siftUp urgency (nodes ++ [⟨iNodeId, rDistance⟩]) nodes.length) ∧
      Sized pQueue'.nAlloc := by
  obtain ⟨aNodes, hnodes, hlength, hfilled, hused⟩ := h
  obtain ⟨grown, nNewAlloc, hgrown, hsized', hsize, hkept, hfits⟩ :=
    growArray_sized hsized hlength hfilled hroom
  let node : PQNode D := ⟨iNodeId, rDistance⟩
  have hlast : nodes.length < (nodes ++ [node]).length := by simp
  obtain ⟨aNodes', hup, hlength', hfilled'⟩ := pqBubbleUpFuel_filled (n := nodes.length)
    (hkept.push hfits node) hlast (Nat.le_refl _)
  refine ⟨⟨some aNodes', pQueue.nUsed + 1, nNewAlloc⟩, ?_, ⟨aNodes', rfl, ?_, hfilled', ?_⟩,
    hsized'⟩
  · rw [graphPriorityQueueInsert, hnodes]
    simp only [Option.bind_eq_bind, Option.bind_some, hused, hgrown]
    rw [Block.store_eq hfits, Option.bind_some, pqBubbleUp, hup]
    rfl
  · exact hlength'.trans ((List.length_set ..).trans hsize)
  · have hlen := (Sorting.siftUpFuel_perm urgency nodes.length hlast).length_eq
    rw [List.length_append, List.length_singleton] at hlen
    exact (congrArg (· + 1) hused).trans hlen.symm

theorem Stands.insert (h : Stands pQueue entries) (hsized : Sized pQueue.nAlloc)
    (hroom : entries.card < 67108864) (iNodeId : Int) (rDistance : D) :
    ∃ pQueue', graphPriorityQueueInsert pQueue iNodeId rDistance = some (.ok, pQueue') ∧
      Stands pQueue' (⟨iNodeId, rDistance⟩ ::ₘ entries) ∧ Sized pQueue'.nAlloc := by
  obtain ⟨nodes, hholds, horder, rfl⟩ := h.holds
  have : Inhabited (PQNode D) := ⟨⟨iNodeId, rDistance⟩⟩
  obtain ⟨pQueue', hinsert, hholds', hsized'⟩ := hholds.insert hsized hroom iNodeId rDistance
  have hperm : (Sorting.siftUp urgency (nodes ++ [⟨iNodeId, rDistance⟩]) nodes.length).Perm
      (⟨iNodeId, rDistance⟩ :: nodes) :=
    (Sorting.siftUpFuel_perm urgency _ (by simp)).trans (List.perm_append_singleton _ _)
  have hstands := hholds'.stands
    (heapOrder_iff.mpr (Sorting.heapFrom_siftUp (heapOrder_iff.mp horder) _))
  rw [Multiset.coe_eq_coe.mpr hperm] at hstands
  exact ⟨pQueue', hinsert, hstands, hsized'⟩

theorem Stands.insert_full (h : Stands pQueue entries) (hsized : Sized pQueue.nAlloc)
    (hfull : entries.card = 67108864) (iNodeId : Int) (rDistance : D) :
    graphPriorityQueueInsert pQueue iNodeId rDistance =
      some (.nomem, { pQueue with aNodes := none }) := by
  have hcard := h.card_eq
  have hle := h.card_le
  have hmost := hsized.most
  obtain ⟨aNodes, nodes, hnodes, -⟩ := h
  have halloc : pQueue.nAlloc = 67108864 := by omega
  have hused : pQueue.nUsed ≥ pQueue.nAlloc := by omega
  rw [graphPriorityQueueInsert, hnodes]
  simp only [Option.bind_eq_bind, Option.bind_some, growArray, if_pos hused]
  rw [halloc, sqlite3Realloc_largest]
  rfl

theorem Stands.extractMin_empty (h : Stands pQueue 0) :
    graphPriorityQueueExtractMin pQueue = some (.notfound, none, pQueue) :=
  if_pos h.card_eq.symm

theorem Holds.extractMin [Inhabited (PQNode D)] {root : PQNode D} {rest : List (PQNode D)}
    (h : Holds pQueue (root :: rest)) :
    ∃ pQueue', graphPriorityQueueExtractMin pQueue = some (.ok, some root, pQueue') ∧
      Holds pQueue' (Sorting.siftDown urgency ((root :: rest).set 0
        ((root :: rest).getD ((root :: rest).length - 1) default)).dropLast 0) ∧
      pQueue'.nAlloc = pQueue.nAlloc := by
  obtain ⟨aNodes, hnodes, hlength, hfilled, hused⟩ := h
  have hpos : pQueue.nUsed ≠ 0 := by
    rw [hused]
    exact Nat.succ_ne_zero _
  have hroot : aNodes.load 0 = some root := hfilled.load (Nat.succ_pos _)
  have hcount : pQueue.nUsed - 1 = rest.length := by
    rw [hused]
    rfl
  -- the last element takes the place of the root, and sinks
  by_cases hrest : 0 < rest.length
  · have hlast : aNodes.load rest.length =
        some ((root :: rest).getD ((root :: rest).length - 1) default) :=
      load_getD hfilled (Nat.lt_succ_self _)
    have hset := hfilled.set (i := 0) (Nat.succ_pos _)
      ((root :: rest).getD ((root :: rest).length - 1) default)
    have hne' : ((root :: rest).set 0
        ((root :: rest).getD ((root :: rest).length - 1) default)) ≠ [] := by simp
    rw [← List.dropLast_append_getLast hne'] at hset
    have hlen : (((root :: rest).set 0
        ((root :: rest).getD ((root :: rest).length - 1) default)).dropLast).length =
        rest.length := by simp
    obtain ⟨aNodes', hdown, hlength', hfilled'⟩ := pqBubbleDownFuel_filled
      (n := rest.length) hset.left (i := 0) (by omega) (by omega)
    refine ⟨{ pQueue with aNodes := some aNodes', nUsed := rest.length }, ?_,
      ⟨aNodes', rfl, ?_, ?_, ?_⟩, rfl⟩
    · rw [graphPriorityQueueExtractMin, if_neg hpos, hnodes]
      simp only [Option.bind_eq_bind, Option.bind_some, hroot, hcount, gt_iff_lt, if_pos hrest,
        hlast]
      rw [Block.store_eq ((Nat.succ_pos _).trans_le hfilled.length_le), Option.bind_some,
        pqBubbleDown]
      rw [hlen] at hdown
      rw [hdown]
      rfl
    · exact hlength'.trans ((List.length_set ..).trans hlength)
    · rwa [Sorting.siftDown, hlen]
    · rw [(Sorting.siftDown_perm urgency _ 0).length_eq, hlen]
  · obtain rfl := List.eq_nil_of_length_eq_zero (Nat.eq_zero_of_not_pos hrest)
    refine ⟨{ pQueue with aNodes := some aNodes, nUsed := 0 }, ?_,
      ⟨aNodes, rfl, hlength, Block.Filled.nil _, rfl⟩, rfl⟩
    rw [graphPriorityQueueExtractMin, if_neg hpos, hnodes]
    simp only [Option.bind_eq_bind, Option.bind_some, hroot, hcount, gt_iff_lt, if_neg hrest]
    rfl

theorem Stands.extractMin (h : Stands pQueue entries) (hne : entries ≠ 0) :
    ∃ node entries' pQueue', graphPriorityQueueExtractMin pQueue = some (.ok, some node, pQueue') ∧
      entries = node ::ₘ entries' ∧ (∀ x ∈ entries', node.rDistance ≤ x.rDistance) ∧
      Stands pQueue' entries' ∧ pQueue'.nAlloc = pQueue.nAlloc := by
  obtain ⟨nodes, hholds, horder, rfl⟩ := h.holds
  cases nodes with
  | nil => exact absurd rfl hne
  | cons root rest =>
    have : Inhabited (PQNode D) := ⟨root⟩
    have hheap := heapOrder_iff.mp horder
    have hmin : ∀ x ∈ (rest : Multiset (PQNode D)), root.rDistance ≤ x.rDistance :=
      fun x hx => OrderDual.toDual_le_toDual.mp (hheap.le_head x (Multiset.mem_coe.mp hx))
    have hready := hheap.setRoot ((root :: rest).getD ((root :: rest).length - 1) default)
      (((root :: rest).set 0
        ((root :: rest).getD ((root :: rest).length - 1) default)).length - 1)
    rw [← List.dropLast_eq_take] at hready
    have hperm := (Sorting.siftDown_perm urgency _ 0).trans (Sorting.perm_popRoot root rest)
    obtain ⟨pQueue', hextract, hholds', halloc⟩ := hholds.extractMin
    have hstands := hholds'.stands
      (heapOrder_iff.mpr (Sorting.heapFrom_siftDown hready (Nat.le_refl 0)))
    rw [Multiset.coe_eq_coe.mpr hperm] at hstands
    exact ⟨root, rest, pQueue', hextract, rfl, hmin, hstands, halloc⟩

end Calls

section Order

variable {D : Type} [LinearOrder D] {pQueue : GraphPriorityQueue D}
  {entries : Multiset (PQNode D)} {ops : List (Op D)}

def Moderate (ops : List (Op D)) : Prop := ∀ m, held 0 (ops.take m) ≤ 67108864

theorem run_cons {op : Op D} {reply : Reply D} {pQueue₁ : GraphPriorityQueue D}
    (h : step pQueue op = some (reply, pQueue₁)) (ops : List (Op D)) :
    run pQueue (op :: ops) = (run pQueue₁ ops).map fun r => (reply :: r.1, r.2) := by
  rw [run, h, Option.bind_eq_bind, Option.bind_some]
  dsimp only
  cases run pQueue₁ ops with
  | none => rfl
  | some r => rfl

theorem run_served (h : Stands pQueue entries) (hsized : Sized pQueue.nAlloc)
    (hmoderate : ∀ m, held entries.card (ops.take m) ≤ 67108864) :
    ∃ replies pQueue' entries', run pQueue ops = some (replies, pQueue') ∧
      Served entries ops replies entries' ∧ Stands pQueue' entries' := by
  induction ops generalizing pQueue entries with
  | nil => exact ⟨[], pQueue, entries, rfl, .nil entries, h⟩
  | cons op ops ih =>
    cases op with
    | insert iNodeId rDistance =>
      have hroom : entries.card < 67108864 := hmoderate 1
      obtain ⟨pQueue₁, hinsert, h₁, hsized₁⟩ := h.insert hsized hroom iNodeId rDistance
      obtain ⟨replies, pQueue', entries', hrun, hserved, h'⟩ := ih h₁ hsized₁ fun m => by
        rw [Multiset.card_cons]
        exact hmoderate (m + 1)
      refine ⟨_, pQueue', entries', ?_, .insert iNodeId rDistance hserved, h'⟩
      rw [run_cons (by rw [step, hinsert]; rfl), hrun]
      rfl
    | extractMin =>
      by_cases hempty : entries = 0
      · subst hempty
        obtain ⟨replies, pQueue', entries', hrun, hserved, h'⟩ :=
          ih h hsized fun m => hmoderate (m + 1)
        refine ⟨_, pQueue', entries', ?_, .empty hserved, h'⟩
        rw [run_cons (by rw [step, h.extractMin_empty]; rfl), hrun]
        rfl
      · obtain ⟨node, entries₁, pQueue₁, hextract, rfl, hmin, h₁, halloc⟩ := h.extractMin hempty
        obtain ⟨replies, pQueue', entries', hrun, hserved, h'⟩ := ih h₁ (halloc ▸ hsized) fun m => by
          have hle := hmoderate (m + 1)
          rwa [Multiset.card_cons] at hle
        refine ⟨_, pQueue', entries', ?_, .extract hmin hserved, h'⟩
        rw [run_cons (by rw [step, hextract]; rfl), hrun]
        rfl

theorem moderate_of_stands (h : Stands pQueue entries) (hsized : Sized pQueue.nAlloc)
    (hstands : ∀ m, ∃ replies pQueue' entries', run pQueue (ops.take m) = some (replies, pQueue') ∧
      Stands pQueue' entries') (m : Nat) : held entries.card (ops.take m) ≤ 67108864 := by
  induction ops generalizing pQueue entries m with
  | nil =>
    rw [List.take_nil]
    exact h.card_le.trans hsized.most
  | cons op ops ih =>
    cases m with
    | zero => exact h.card_le.trans hsized.most
    | succ m =>
      have hnext : ∀ reply pQueue₁ entries₁, step pQueue op = some (reply, pQueue₁) →
          Stands pQueue₁ entries₁ → Sized pQueue₁.nAlloc →
          held entries₁.card (ops.take m) ≤ 67108864 := by
        intro reply pQueue₁ entries₁ hstep h₁ hsized₁
        refine ih h₁ hsized₁ (fun m => ?_) m
        obtain ⟨replies, pQueue', entries', hrun, h'⟩ := hstands (m + 1)
        rw [List.take_succ_cons, run_cons hstep] at hrun
        obtain ⟨⟨replies₁, pQueue₂⟩, hrest, heq⟩ := Option.map_eq_some_iff.mp hrun
        obtain ⟨-, rfl⟩ := Prod.mk.inj heq
        exact ⟨replies₁, pQueue₂, entries', hrest, h'⟩
      cases op with
      | insert iNodeId rDistance =>
        have hroom : entries.card < 67108864 := by
          refine lt_of_le_of_ne (h.card_le.trans hsized.most) fun hfull => ?_
          have hfreed := h.insert_full hsized hfull iNodeId rDistance
          obtain ⟨replies, pQueue', entries', hrun, aNodes, nodes, hnodes, -⟩ := hstands 1
          rw [List.take_succ_cons, run_cons (by rw [step, hfreed]; rfl)] at hrun
          obtain ⟨-, rfl⟩ := Prod.mk.inj (Option.some.inj hrun)
          cases hnodes
        obtain ⟨pQueue₁, hinsert, h₁, hsized₁⟩ := h.insert hsized hroom iNodeId rDistance
        have hheld := hnext _ pQueue₁ _ (by rw [step, hinsert]; rfl) h₁ hsized₁
        rwa [Multiset.card_cons] at hheld
      | extractMin =>
        by_cases hempty : entries = 0
        · subst hempty
          exact hnext _ pQueue 0 (by rw [step, h.extractMin_empty]; rfl) h hsized
        · obtain ⟨node, entries₁, pQueue₁, hextract, rfl, -, h₁, halloc⟩ := h.extractMin hempty
          rw [Multiset.card_cons]
          exact hnext _ pQueue₁ _ (by rw [step, hextract]; rfl) h₁ (halloc ▸ hsized)

theorem moderate_of_keepsOrder (h : KeepsOrder ops) : Moderate ops := fun m =>
  moderate_of_stands stands_create sized_create (fun m => by
    obtain ⟨replies, pQueue, entries, hrun, -, hstands⟩ := h m
    exact ⟨replies, pQueue, entries, hrun, hstands⟩) m

/-- The queue is one as long as it does not have to hold more than 2²⁶ entries, and no longer. -/
theorem keepsOrder_iff (ops : List (Op D)) :
    KeepsOrder ops ↔ Moderate ops := by
  refine ⟨moderate_of_keepsOrder, fun h m => run_served stands_create sized_create fun k => ?_⟩
  rw [Multiset.card_zero, List.take_take]
  exact h (min k m)

omit [LinearOrder D] in
theorem held_replicate (n k : Nat) (iNodeId : Int) (rDistance : D) :
    held n (List.replicate k (.insert iNodeId rDistance)) = n + k := by
  induction k generalizing n with
  | zero => rfl
  | succ k ih =>
    rw [List.replicate_succ, held, ih]
    omega

theorem not_keepsOrder_full :
    ¬ KeepsOrder (List.replicate 67108865 (Op.insert 1 (0 : Int))) := by
  intro h
  have hle := moderate_of_keepsOrder h 67108865
  rw [List.take_of_length_le (by rw [List.length_replicate]), held_replicate] at hle
  exact absurd hle (by decide)

end Order

end SqliteMultimodal.Graph.PriorityQueue
