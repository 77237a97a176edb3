import SqliteMultimodal.Graph.Value
import SqliteMultimodal.Lib.Chains
import SqliteMultimodal.Lib.Heap

/-! The cache of query plans of `graph-cache.c`: entries in memory that are chained in the buckets
of a hash table and linked into a list by their last use. A result is missing where the code reads
freed memory or its eviction loop does not end. -/

namespace SqliteMultimodal.Graph.Plans

inductive PhysicalOperatorType
  | allNodesScan | labelIndexScan | propertyIndexScan | allRelsScan | typeIndexScan
  | hashJoin | nestedLoopJoin | indexNestedLoop
  | expand
  | filter | projection | sort | limit | aggregation
  | create | merge | set | delete | remove
  deriving DecidableEq, Repr

/-- What `calculatePlanSize` reads of a plan. -/
inductive PhysicalPlanNode
  | node (type : PhysicalOperatorType) (zLabel zProperty : Option Text)
      (apChildren : List PhysicalPlanNode)

/-- The number of values of a `size_t`. -/
def sizeMax : Nat := 18446744073709551616

def sizeofPhysicalPlanNode : Nat := 160

def operatorSize (type : PhysicalOperatorType) (zLabel zProperty : Option Text) : Nat :=
  match type with
  | .allNodesScan | .allRelsScan | .typeIndexScan => 50
  | .labelIndexScan | .propertyIndexScan =>
    (zLabel.map (·.length + 1)).getD 0 + (zProperty.map (·.length + 1)).getD 0
  | .hashJoin | .nestedLoopJoin | .indexNestedLoop => 200
  | .filter => 100
  | .projection | .sort | .limit | .aggregation => 100
  | .expand | .create | .merge | .set | .delete | .remove => 0

mutual

def calculatePlanSize : PhysicalPlanNode → Nat
  | .node type zLabel zProperty apChildren =>
    (sizeofPhysicalPlanNode + operatorSize type zLabel zProperty + childrenSize apChildren) % sizeMax

def childrenSize : List PhysicalPlanNode → Nat
  | [] => 0
  | child :: rest => calculatePlanSize child + childrenSize rest

end

structure PlanCacheEntry where
  zQueryHash : Text
  pPlan : PhysicalPlanNode
  useCount : Nat
  memorySize : Nat
  pLRU : Option Nat

structure PlanCache where
  memory : Heap PlanCacheEntry
  /-- The hash chains, each from its head along `pNext`. -/
  buckets : List (List Nat)
  nEntries : Int
  maxEntries : Int
  maxMemory : Nat
  currentMemory : Nat
  pLRUHead : Option Nat
  pLRUTail : Option Nat
  hits : Nat
  misses : Nat
  evictions : Nat

def planCacheHash (zQuery : Text) : Nat := zQuery.djb2

/-- `sqlite3_malloc` takes an `int`, and eight bytes are needed for a bucket. -/
def graphInitPlanCache (maxEntries : Int) (maxMemory : Nat) : Option PlanCache :=
  let maxEntries := if maxEntries ≤ 0 then 100 else maxEntries
  if maxEntries * 2 * 8 ≤ 2147483647 then
    some {
      memory := fun _ => none
      buckets := List.replicate (maxEntries * 2).toNat []
      nEntries := 0
      maxEntries := maxEntries
      maxMemory := if maxMemory ≤ 0 then 10 * 1024 * 1024 else maxMemory
      currentMemory := 0
      pLRUHead := none
      pLRUTail := none
      hits := 0
      misses := 0
      evictions := 0 }
  else none

def search (memory : Heap PlanCacheEntry) (zQuery : Text) : List Nat → Option (Option Nat)
  | [] => some none
  | a :: chain => (memory a).bind fun entry =>
    if entry.zQueryHash = zQuery then some (some a) else search memory zQuery chain

namespace PlanCache

def bucketOf (c : PlanCache) (zQuery : Text) : Nat := planCacheHash zQuery % c.buckets.length

def find (c : PlanCache) (zQuery : Text) : Option (Option Nat) :=
  search c.memory zQuery (Chains.chain c.buckets (c.bucketOf zQuery))

def unlink (c : PlanCache) (entry : PlanCacheEntry) : Option PlanCache :=
  match entry.pLRU with
  | none => some c
  | some b => (c.memory b).map fun next =>
    { c with memory := c.memory.store b { next with pLRU := some b } }

def pushFront (c : PlanCache) (a : Nat) (entry : PlanCacheEntry) : PlanCache :=
  { c with
    memory := c.memory.store a { entry with pLRU := c.pLRUHead }
    pLRUHead := some a
    pLRUTail := if c.pLRUTail = none then some a else c.pLRUTail }

def planCacheTouchLRU (c : PlanCache) (a : Nat) : Option PlanCache :=
  if c.pLRUHead = some a then some c
  else
    (c.memory a).bind fun entry => (c.unlink entry).bind fun c =>
      (c.memory a).map fun entry =>
        let c := if c.pLRUTail = some a then { c with pLRUTail := entry.pLRU } else c
        c.pushFront a entry

def planCacheEvictLRU (c : PlanCache) : Option PlanCache :=
  match c.pLRUTail with
  | none => some c
  | some a => (c.memory a).map fun victim =>
    { c with
      memory := c.memory.free a
      buckets := c.buckets.modify (c.bucketOf victim.zQueryHash) (·.erase a)
      nEntries := c.nEntries - 1
      currentMemory := (c.currentMemory + sizeMax - victim.memorySize) % sizeMax
      pLRUHead := if victim.pLRU = none then none else c.pLRUHead
      pLRUTail := victim.pLRU
      evictions := c.evictions + 1 }

def graphPlanCacheLookup (c : PlanCache) (zQuery : Text) :
    Option (Option PhysicalPlanNode × PlanCache) :=
  (c.find zQuery).bind fun found =>
    match found with
    | none => some (none, { c with misses := c.misses + 1 })
    | some a => (c.memory a).bind fun entry =>
      let c := { c with
        memory := c.memory.store a { entry with useCount := entry.useCount + 1 }
        hits := c.hits + 1 }
      (c.planCacheTouchLRU a).map fun c => (some entry.pPlan, c)

def isFull (c : PlanCache) (memorySize : Nat) : Bool :=
  c.nEntries ≥ c.maxEntries || (c.currentMemory + memorySize) % sizeMax > c.maxMemory

def makeRoom (memorySize : Nat) : Nat → PlanCache → Option PlanCache
  | turns, c =>
    if c.isFull memorySize then
      match turns with
      | 0 => none
      | turns + 1 => c.planCacheEvictLRU.bind fun c =>
        if c.nEntries = 0 then some c else makeRoom memorySize turns c
    else some c

/-- The last part of `graphPlanCacheInsert`, for the entry at the address `a`. -/
def add (c : PlanCache) (zQuery : Text) (a : Nat) (entry : PlanCacheEntry) : PlanCache :=
  let c := { c with buckets := c.buckets.modify (c.bucketOf zQuery) (a :: ·) }
  let c := c.pushFront a entry
  { c with
    nEntries := c.nEntries + 1
    currentMemory := (c.currentMemory + entry.memorySize) % sizeMax }

/-- `a` is the address of the entry if a new one is allocated. -/
def graphPlanCacheInsert (c : PlanCache) (zQuery : Text) (pPlan : PhysicalPlanNode) (a : Nat) :
    Option (ResultCode × PlanCache) :=
  (c.find zQuery).bind fun found =>
    match found with
    | some existing => (c.memory existing).bind fun entry =>
      let entry := { entry with pPlan := pPlan, memorySize := calculatePlanSize pPlan }
      let c := { c with memory := c.memory.store existing entry }
      (c.planCacheTouchLRU existing).map fun c => (.ok, c)
    | none =>
      if (c.memory a).isNone then
        let entry := ⟨zQuery, pPlan, 1, calculatePlanSize pPlan, none⟩
        (makeRoom entry.memorySize (c.nEntries.toNat + 1) c).map fun c =>
          (.ok, c.add zQuery a entry)
      else none

def isInvalid (pattern : Option Text) (zQuery : Text) : Bool :=
  match pattern with
  | none => true
  | some pattern => pattern = [] || (Text.strstr pattern zQuery).isSome

def drop (c : PlanCache) (a : Nat) (entry : PlanCacheEntry) : PlanCache :=
  { c with
    memory := c.memory.free a
    nEntries := c.nEntries - 1
    currentMemory := (c.currentMemory + sizeMax - entry.memorySize) % sizeMax
    pLRUHead := if c.pLRUHead = some a then entry.pLRU else c.pLRUHead
    pLRUTail := if c.pLRUTail = some a then none else c.pLRUTail }

def invalidateChain (pattern : Option Text) :
    PlanCache → List Nat → Option (List Nat × Nat × PlanCache)
  | c, [] => some ([], 0, c)
  | c, a :: chain => (c.memory a).bind fun entry =>
    if isInvalid pattern entry.zQueryHash then
      (invalidateChain pattern (c.drop a entry) chain).map fun scan =>
        (scan.1, scan.2.1 + 1, scan.2.2)
    else (invalidateChain pattern c chain).map fun scan => (a :: scan.1, scan.2)

def invalidateBuckets (pattern : Option Text) :
    PlanCache → List (List Nat) → Option (List (List Nat) × Nat × PlanCache)
  | c, [] => some ([], 0, c)
  | c, chain :: buckets => (invalidateChain pattern c chain).bind fun scan =>
    (invalidateBuckets pattern scan.2.2 buckets).map fun scans =>
      (scan.1 :: scans.1, scan.2.1 + scans.2.1, scans.2.2)

def graphPlanCacheInvalidate (c : PlanCache) (pattern : Option Text) : Option (Nat × PlanCache) :=
  (invalidateBuckets pattern c c.buckets).map fun scans =>
    (scans.2.1, { scans.2.2 with buckets := scans.1 })

end PlanCache

inductive Call
  | lookup (zQuery : Text)
  | insert (zQuery : Text) (pPlan : PhysicalPlanNode) (a : Nat)
  | invalidate (pattern : Option Text)

inductive Out
  | plan (pPlan : Option PhysicalPlanNode)
  | code (rc : ResultCode)
  | count (invalidated : Nat)

def PlanCache.call (c : PlanCache) : Call → Option (Out × PlanCache)
  | .lookup zQuery => (c.graphPlanCacheLookup zQuery).map fun r => (.plan r.1, r.2)
  | .insert zQuery pPlan a => (c.graphPlanCacheInsert zQuery pPlan a).map fun r => (.code r.1, r.2)
  | .invalidate pattern => (c.graphPlanCacheInvalidate pattern).map fun r => (.count r.1, r.2)

end SqliteMultimodal.Graph.Plans
