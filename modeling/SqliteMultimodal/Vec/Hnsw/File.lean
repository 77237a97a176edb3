import Mathlib.Order.Fin.Basic
import SqliteMultimodal.Lib.Codec
import SqliteMultimodal.Vec.Hnsw.Safety

namespace SqliteMultimodal.Vec.Hnsw.Memory

open Codec

variable {α : Type} (f32 : Fixed α)

def serializeLevel (n : Node α) (lvl : Nat) : Codec.Bytes :=
  writeInt (n.nborCount lvl) ++ (n.nborsAt lvl).flatMap writeInt

/-- The four bytes at `&n->deleted` are the flag and the three that follow it. -/
def serializeNode (dim : Nat) (n : Node α) : Codec.Bytes :=
  writeInt n.id ++ (int32.encode n.rowid ++ (writeInt n.level ++
    (byte.encode (if n.deleted then 1 else 0) ++ (natBytes 3 n.pad.toNat ++
      ((n.vec.take dim).flatMap f32.encode ++
        (List.range (n.level + 1)).flatMap (serializeLevel n))))))

def serializeHnsw (h : Graph α) : Codec.Bytes :=
  writeNat h.dim ++ (writeNat h.maxNodes ++ (writeNat h.nodes.length ++ (writeInt h.entryId ++
    (writeInt h.maxLevel ++ h.nodes.flatMap (serializeNode f32 h.dim)))))

/-- A counter that does not fit the array leaves the behaviour undefined. -/
def readNbors (lvl : Nat) (count : Int) : Reader (List Int) :=
  if lvl < maxLevels ∧ 0 ≤ count ∧ count ≤ maxNeighbors then many readInt count.toNat else failure

def Node.fillLevel (n : Node α) (lvl : Nat) (count : Int) (nbors : List Int) : Node α :=
  { n with
    nborCount := Function.update n.nborCount lvl count
    nbors := Function.update n.nbors lvl fun k => nbors.getD k (n.nbors lvl k) }

def deserializeLevel (n : Node α) (lvl : Nat) : Reader (Node α) := do
  let count ← readInt
  let nbors ← readNbors lvl count
  return n.fillLevel lvl count nbors

/-- `mem` is what the memory of the node held. -/
def deserializeNode (dim : Nat) (mem : Node α) : Reader (Node α) := do
  let id ← readInt
  let rowid ← int32.read
  let level ← readInt
  let deleted ← byte.read
  let pad ← many byte.read 3
  let vec ← many f32.read dim
  (List.range (level + 1).toNat).foldlM deserializeLevel
    { mem with
      id := id, rowid := rowid, level := level.toNat, deleted := deleted != 0, vec := vec
      pad := BitVec.ofNat 24 (ofBytes pad) }

/-- `mem i` is what the memory of the `i`-th node held. -/
def deserializeNodes (dim : Nat) (mem : Nat → Node α) : Nat → Reader (List (Node α))
  | 0 => pure []
  | k + 1 => do
    let nodes ← deserializeNodes dim mem k
    let n ← deserializeNode f32 dim (mem k)
    return nodes ++ [n]

def deserializeHnsw (mem : Nat → Node α) : Reader (Graph α) := do
  let dim ← readNat
  let maxNodes ← readNat
  let numNodes ← readNat
  let entryId ← readInt
  let maxLevel ← readInt
  let nodes ← deserializeNodes f32 dim mem numNodes
  return ⟨dim, maxNodes, nodes, entryId, maxLevel.toNat⟩

structure Node.Fits (dim size : Nat) (n : Node α) : Prop where
  id : 0 ≤ n.id ∧ n.id < size
  level : n.level < maxLevels
  vec : n.vec.length = dim
  count : ∀ l < maxLevels, 0 ≤ n.nborCount l ∧ n.nborCount l ≤ maxNeighbors
  nbor : ∀ l < maxLevels, ∀ j ∈ n.nborsAt l, 0 ≤ j ∧ j < size

/-- Node `n`, read up to level `upto` over what the memory `mem` held. -/
def Node.reread (mem n : Node α) (upto : Nat) : Node α :=
  { n with
    nborCount := fun l => if l < upto then n.nborCount l else mem.nborCount l
    nbors := fun l k => if l < upto ∧ k < n.nborCount l then n.nbors l k else mem.nbors l k }

theorem Node.reread_fillLevel (mem n : Node α) (l : Nat) (hpos : 0 ≤ n.nborCount l) :
    (mem.reread n l).fillLevel l (n.nborCount l) (n.nborsAt l) = mem.reread n (l + 1) := by
  have hcount : Function.update (mem.reread n l).nborCount l (n.nborCount l) =
      (mem.reread n (l + 1)).nborCount := by
    funext k
    by_cases hk : k = l
    · subst hk
      simp [Node.reread]
    · rw [Function.update_of_ne hk]
      simp only [Node.reread, Nat.lt_succ_iff_lt_or_eq, hk, or_false]
  have hnbors : Function.update (mem.reread n l).nbors l (fun k =>
      (n.nborsAt l).getD k ((mem.reread n l).nbors l k)) = (mem.reread n (l + 1)).nbors := by
    funext k j
    by_cases hk : k = l
    · subst hk
      rw [Function.update_self]
      simp only [Node.reread, Node.nborsAt, List.getD_eq_getElem?_getD, List.getElem?_map,
        Nat.lt_irrefl, false_and, if_false, Nat.lt_succ_self, true_and]
      split
      next hj => rw [List.getElem?_range (by omega)]; rfl
      next hj => rw [List.getElem?_eq_none (by rw [List.length_range]; omega)]; rfl
    · rw [Function.update_of_ne hk]
      simp only [Node.reread, Nat.lt_succ_iff_lt_or_eq, hk, or_false]
  rw [Node.fillLevel, hcount, hnbors]
  rfl

section Node

variable {dim size : Nat} {n : Node α} (hsize : size ≤ 2 ^ 31) (hfits : n.Fits dim size)

include hsize hfits

theorem Node.Fits.reads_serializeLevel (mem : Node α) {l : Nat} (hl : l < maxLevels) :
    Reads (deserializeLevel (mem.reread n l) l) (serializeLevel n l) (mem.reread n (l + 1)) := by
  obtain ⟨hpos, hle⟩ := hfits.count l hl
  have hlen : (n.nborsAt l).length = (n.nborCount l).toNat := by
    rw [Node.nborsAt, List.length_map, List.length_range]
  have hnbors : Reads (readNbors l (n.nborCount l)) ((n.nborsAt l).flatMap writeInt)
      (n.nborsAt l) := by
    rw [readNbors, if_pos ⟨hl, hpos, hle⟩, ← hlen]
    refine Reads.many fun j hj => ?_
    have := hfits.nbor l hl j hj
    exact reads_writeInt (by omega) (by omega)
  have hcount : n.nborCount l < 2 ^ 31 := lt_of_le_of_lt hle (by decide)
  rw [← Node.reread_fillLevel mem n l hpos]
  exact (reads_writeInt (by omega) hcount).bind
    (hnbors.map fun nbors => (mem.reread n l).fillLevel l (n.nborCount l) nbors)

theorem Node.Fits.reads_serializeLevels (mem : Node α) {k : Nat} (hk : k ≤ maxLevels) :
    Reads ((List.range k).foldlM deserializeLevel (mem.reread n 0))
      ((List.range k).flatMap (serializeLevel n)) (mem.reread n k) := by
  induction k with
  | zero => exact .pure _
  | succ k ih =>
    rw [List.range_succ, List.foldlM_append, List.flatMap_append, List.flatMap_singleton]
    refine (ih (by omega)).bind ?_
    exact (hfits.reads_serializeLevel hsize mem (Nat.lt_of_succ_le hk)).map fun n => n

theorem Node.Fits.reads_serializeNode (mem : Node α) :
    Reads (deserializeNode f32 dim mem) (serializeNode f32 dim n)
      (mem.reread n (n.level + 1)) := by
  have hlevel := hfits.level
  have hbound : (maxLevels : Int) < 2 ^ 31 := by decide
  have hid := hfits.id
  have hpad := reads_bytes (natBytes 3 n.pad.toNat)
  rw [length_natBytes] at hpad
  have hvec : Reads (many f32.read dim) ((n.vec.take dim).flatMap f32.encode) n.vec := by
    rw [← hfits.vec, List.take_length]
    exact Reads.many fun x _ => f32.reads x
  have hlevels := hfits.reads_serializeLevels hsize mem (k := n.level + 1) hlevel
  have hpadEq : BitVec.ofNat 24 (ofBytes (natBytes 3 n.pad.toNat)) = n.pad := by
    have hlt : n.pad.toNat < 256 ^ 3 := n.pad.isLt
    rw [ofBytes_natBytes, Nat.mod_eq_of_lt hlt, BitVec.ofNat_toNat, BitVec.setWidth_eq]
  have hstart : ({ mem with
      id := n.id, rowid := n.rowid, level := (n.level : Int).toNat
      deleted := (if n.deleted then 1 else 0 : BitVec 8) != 0, vec := n.vec
      pad := BitVec.ofNat 24 (ofBytes (natBytes 3 n.pad.toNat)) } : Node α) =
        mem.reread n 0 := by
    rw [hpadEq]
    cases hdel : n.deleted <;> simp [Node.reread, hdel]
  have hrange : ((n.level : Int) + 1).toNat = n.level + 1 := rfl
  refine (reads_writeInt (by omega) (by omega)).bind ((int32.reads n.rowid).bind
    ((reads_writeInt (by omega) (by omega)).bind ((byte.reads _).bind (hpad.bind (hvec.bind ?_)))))
  rw [hstart, hrange]
  exact hlevels

end Node

theorem reads_serializeNodes {dim size : Nat} (hsize : size ≤ 2 ^ 31) (mem : Nat → Node α)
    {nodes : List (Node α)} (hfits : ∀ n ∈ nodes, n.Fits dim size) :
    Reads (deserializeNodes f32 dim mem nodes.length) (nodes.flatMap (serializeNode f32 dim))
      (nodes.mapIdx fun i n => (mem i).reread n (n.level + 1)) := by
  induction nodes using List.reverseRecOn with
  | nil => exact .pure []
  | append_singleton nodes n ih =>
    have hn := hfits n (List.mem_append_right nodes List.mem_cons_self)
    rw [List.length_append, List.flatMap_append, List.flatMap_singleton, List.mapIdx_concat]
    exact (ih fun m hm => hfits m (List.mem_append_left [n] hm)).bind
      ((hn.reads_serializeNode f32 hsize (mem nodes.length)).map fun n => _ ++ [n])

/-- What is read back of a graph, over what the memory held. -/
def Graph.reread (mem : Nat → Node α) (h : Graph α) : Graph α :=
  { h with nodes := h.nodes.mapIdx fun i n => (mem i).reread n (n.level + 1) }

structure Graph.Fits (h : Graph α) : Prop where
  dim : h.dim < 2 ^ 31
  maxNodes : h.maxNodes < 2 ^ 31
  length_le : h.nodes.length ≤ h.maxNodes
  entryId : -1 ≤ h.entryId ∧ h.entryId ≤ h.nodes.length
  maxLevel : h.maxLevel < maxLevels
  nodes : ∀ n ∈ h.nodes, n.Fits h.dim h.nodes.length

theorem reads_serializeHnsw {h : Graph α} (hfits : h.Fits) (mem : Nat → Node α) :
    Reads (deserializeHnsw f32 mem) (serializeHnsw f32 h) (h.reread mem) := by
  have hdim := hfits.dim
  have hmax := hfits.maxNodes
  have hlen := hfits.length_le
  have hentry := hfits.entryId
  have hlevel := hfits.maxLevel
  have hbound : maxLevels < 2 ^ 31 := by decide
  have hnodes := reads_serializeNodes f32 (by omega) mem hfits.nodes
  exact (reads_writeNat (by omega)).bind ((reads_writeNat (by omega)).bind
    ((reads_writeNat (by omega)).bind ((reads_writeInt (by omega) (by omega)).bind
      ((reads_writeInt (by omega) (by omega)).bind (hnodes.map fun nodes =>
        Graph.mk h.dim h.maxNodes nodes h.entryId (h.maxLevel : Int).toNat)))))

def Filed (l : Nat) (n : HNSWNode α) : Prop := l ≤ n.level

theorem downClosed_filed : DownClosed (Filed (α := α)) :=
  fun _ _ _ hle hl => Nat.le_trans hle hl

theorem Sound.rep_reread {m : Graph α} {h : HNSW α} (hs : Sound m h) (mem : Nat → Node α) :
    Rep Filed (m.reread mem) h where
  maxNodes := hs.rep.maxNodes
  nodes :=
    { length := (List.length_mapIdx ..).trans hs.rep.nodes.length
      node := fun i n k hn hk => by
        rw [Graph.reread, List.getElem?_mapIdx, Option.map_eq_some_iff] at hn
        obtain ⟨c, hc, rfl⟩ := hn
        have hrep := hs.rep.nodes.node i c k hc hk
        refine ⟨hrep.id, hrep.rowid, hrep.level, hrep.vec, hrep.deleted, hrep.levels,
          fun l hl => ?_⟩
        have hl' : l < c.level + 1 := by
          rw [hrep.level]
          exact Nat.lt_succ_of_le hl
        have hlinks := hrep.links l (Nat.lt_of_le_of_lt hl (hs.wf.nodes i k hk).level_lt)
        refine ⟨(if_pos hl').trans hlinks.count, fun j x hj => ?_⟩
        have hlt := (List.getElem?_eq_some_iff.mp hj).1
        have hcount : (j : Int) < c.nborCount l := by
          rw [hlinks.count]
          exact Int.ofNat_lt.mpr hlt
        exact (if_pos ⟨hl', hcount⟩).trans (hlinks.nbor j x hj) }
  entryId := hs.rep.entryId
  maxLevel := hs.rep.maxLevel

theorem Sound.fits {m : Graph α} {h : HNSW α} (hs : Sound m h) {e : Nat}
    (he : h.entryId = some e) (hdim : m.dim < 2 ^ 31) (hmax : m.maxNodes < 2 ^ 31) : m.Fits := by
  have hwf := hs.wellFormed
  obtain ⟨top, htop, hmaxLevel⟩ := (hs.wf.some e he).at_entry
  have hle : m.nodes.length ≤ m.maxNodes := by
    rw [hs.rep.nodes.length, hs.rep.maxNodes]
    exact hs.wf.length_le
  have hlt : ∀ {j : Int} {n : Node α}, load m.nodes j = .ok n → 0 ≤ j ∧ j < m.nodes.length := by
    intro j n hload
    obtain ⟨hpos, hget⟩ := load_eq_ok.mp hload
    have := (List.getElem?_eq_some_iff.mp hget).1
    omega
  have hlevel : ∀ n ∈ m.nodes, n.level < maxLevels := fun n hn => by
    obtain ⟨i, hi⟩ := List.mem_iff_getElem?.mp hn
    obtain ⟨k, hk, hrep⟩ := hs.rep.nodes.exists_right hi
    exact hrep.level ▸ (hs.wf.nodes i k hk).level_lt
  refine ⟨hdim, hmax, hle, ?_, ?_, fun n hn => ⟨?_, hlevel n hn, ?_, fun l hl => ?_,
    fun l hl j hj => ?_⟩⟩
  · rw [hs.rep.entryId, he, hs.rep.nodes.length]
    have := (List.getElem?_eq_some_iff.mp htop).1
    exact ⟨by simp only [Option.elim_some]; omega, by simp only [Option.elim_some]; omega⟩
  · rw [hs.rep.maxLevel, ← hmaxLevel]
    exact (hs.wf.nodes e top htop).level_lt
  · obtain ⟨i, hi⟩ := List.mem_iff_getElem?.mp hn
    have := (List.getElem?_eq_some_iff.mp hi).1
    rw [hwf.id i n hi]
    omega
  · obtain ⟨i, hi⟩ := List.mem_iff_getElem?.mp hn
    obtain ⟨k, hk, hrep⟩ := hs.rep.nodes.exists_right hi
    rw [hrep.vec]
    exact hs.vec k (List.mem_of_getElem? hk)
  · exact ⟨(hwf.count n hn l hl).1, (hwf.count n hn l hl).2.1⟩
  · obtain ⟨-, c, hc, -⟩ := hwf.nbor n hn l hl j hj
    exact hlt hc

section Search

variable [LinearOrder α] (distfunc : List α → List α → α) {maxNodes dim : Nat} {m : Graph α}
  {h : HNSW α}

/-- The search gives a result, and gives the same on what is read back, whatever the memory
held. -/
def Survives (m : Graph α) (query : List α) (ef topk : Int) (map : RowidMap) : Prop :=
  ∃ r, Returns (fun fuel => hnswSearch distfunc fuel m query ef topk map) r ∧
    ∀ mem : Nat → Node α, ∃ m',
      deserializeHnsw f32 mem (serializeHnsw f32 m) = some (m', []) ∧
      Returns (fun fuel => hnswSearch distfunc fuel m' query ef topk map) r

def TopEntry (m : Graph α) : Prop :=
  ∃ (i : Nat) (n : Node α), m.entryId ≤ i ∧ m.nodes[i]? = some n ∧ n.deleted = false ∧
    (∀ k : Nat, m.entryId ≤ k → k < i → ∀ c, m.nodes[k]? = some c → c.deleted = true) ∧
    n.level = m.maxLevel

omit [LinearOrder α] in
theorem find?_first {ns : List (HNSWNode α)} {e i : Nat} {n : HNSWNode α}
    (hfind : (ns.zipIdx.drop e).find? (fun x => !x.1.deleted) = some (n, i)) {k : Nat}
    (hek : e ≤ k) (hki : k < i) {c : HNSWNode α} (hc : ns[k]? = some c) : c.deleted = true := by
  obtain ⟨-, j, hj, hget, hfirst⟩ := List.find?_eq_some_iff_getElem.mp hfind
  rw [List.getElem_drop, List.getElem_zipIdx] at hget
  have hi : 0 + (e + j) = i := (Prod.mk.inj hget).2
  have hk := hfirst (k - e) (by omega)
  rw [List.getElem_drop, List.getElem_zipIdx] at hk
  simp only [Nat.add_sub_cancel' hek, (List.getElem?_eq_some_iff.mp hc).2] at hk
  simpa using hk

omit [LinearOrder α] in
theorem Sound.topEntry_iff (hs : Sound m h) :
    TopEntry m ↔ ∃ start, entry h = some start ∧ start.2.level = h.maxLevel := by
  constructor
  · rintro ⟨i, n, hle, hn, hlive, hfirst, hlevel⟩
    obtain ⟨start, hstart⟩ := hs.entryLive_iff.mp ⟨i, hle, n, hn, hlive⟩
    obtain ⟨e, he, hfind⟩ := entry_eq_some hstart
    have hid : m.entryId = e := by
      rw [hs.rep.entryId, he]
      rfl
    obtain ⟨hes, hget⟩ := mem_drop_zipIdx.mp (List.mem_of_find?_eq_some hfind)
    obtain ⟨c, hc, hcrep⟩ := hs.rep.nodes.exists_left hget
    obtain ⟨k, hk, hkrep⟩ := hs.rep.nodes.exists_right hn
    have hstartLive : start.2.deleted = false := by simpa using List.find?_some hfind
    rcases Nat.lt_trichotomy start.1 i with hlt | heq | hgt
    · have hdel := hfirst start.1 (by omega) hlt c hc
      rw [hcrep.deleted, hstartLive] at hdel
      cases hdel
    · rw [← heq, hc] at hn
      obtain rfl := Option.some.inj hn
      exact ⟨start, hstart, by rw [← hcrep.level, hlevel, hs.rep.maxLevel]⟩
    · have hdel := find?_first hfind (by omega) hgt hk
      rw [← hkrep.deleted, hlive] at hdel
      cases hdel
  · rintro ⟨start, hstart, hlevel⟩
    obtain ⟨e, he, hfind⟩ := entry_eq_some hstart
    have hid : m.entryId = e := by
      rw [hs.rep.entryId, he]
      rfl
    obtain ⟨hes, hget⟩ := mem_drop_zipIdx.mp (List.mem_of_find?_eq_some hfind)
    obtain ⟨c, hc, hcrep⟩ := hs.rep.nodes.exists_left hget
    refine ⟨start.1, c, by omega, hc, ?_, fun k hek hki d hd => ?_, ?_⟩
    · rw [hcrep.deleted]
      simpa using List.find?_some hfind
    · obtain ⟨k', hk', hkrep⟩ := hs.rep.nodes.exists_right hd
      rw [hkrep.deleted]
      exact find?_first hfind (by omega) hki hk'
    · rw [hcrep.level, hlevel, hs.rep.maxLevel]

def badNode : Node α := ⟨0, 0, 0, [], fun _ _ => -1, fun _ => 1, false, 0⟩

theorem Sound.search_reread_ne_ok (hs : Sound m h) {start : At α} (hstart : entry h = some start)
    (hlevel : start.2.level < h.maxLevel) (query : List α) (ef topk : Int) (map : RowidMap)
    {fuel : Nat} (hfuel : h.nodes.length < fuel) (r : Int × List (Rowid × α)) :
    Memory.hnswSearch distfunc fuel (m.reread fun _ => badNode) query ef topk map ≠ .ok r := by
  have hrep := hs.rep_reread fun _ => badNode
  obtain ⟨e, he, hfind⟩ := entry_eq_some hstart
  obtain ⟨top, htop, hmaxLevel⟩ := (hs.wf.some e he).at_entry
  have hmax : h.maxLevel < maxLevels := hmaxLevel ▸ (hs.wf.nodes e top htop).level_lt
  have hid : (m.reread fun _ => badNode).entryId = e := by
    rw [hrep.entryId, he]
    rfl
  obtain ⟨c, hc, -⟩ := hrep.nodes.exists_left htop
  obtain ⟨x, hscan, hx⟩ := scanEntry_some hrep.nodes hc hfind
    (show h.nodes.length < fuel + e by omega)
  -- The entry has no counter of its own at the highest level.
  have hcount : x.nborCount h.maxLevel = 1 ∧ x.nbors h.maxLevel 0 = -1 := by
    have hxrep := hrep.nodes.node _ x _ hx (entry_mem h hstart)
    rw [Graph.reread, List.getElem?_mapIdx, Option.map_eq_some_iff] at hx
    obtain ⟨n, -, rfl⟩ := hx
    have hn : ¬ h.maxLevel < n.level + 1 := by
      have : n.level = start.2.level := hxrep.level
      omega
    exact ⟨if_neg hn, if_neg fun hlt => hn hlt.1⟩
  obtain ⟨fuel, rfl⟩ : ∃ k, fuel = k + 1 := ⟨fuel - 1, by omega⟩
  have hscanNbors : scanNbors distfunc (m.reread fun _ => badNode).nodes query h.maxLevel (fuel + 1)
      0 ((start.1 : Int), x) false = .error .range := by
    rw [scanNbors, count_eq x hmax, Except.ok_bind, hcount.1, if_pos (by decide),
      nbor_eq x hmax (by decide), Except.ok_bind, hcount.2]
    rfl
  obtain ⟨k, hk⟩ : ∃ k, h.maxLevel = k + 1 := ⟨h.maxLevel - 1, by omega⟩
  have hdescend : descend distfunc (m.reread fun _ => badNode).nodes query (fuel + 1) h.maxLevel
      ((start.1 : Int), x) = .error .range := by
    rw [descend, hk, levelsAbove_succ (Nat.zero_le k), ← hk, List.foldlM_cons, descendLevel,
      hscanNbors]
    rfl
  rw [Memory.hnswSearch, hid, load_of_getElem? hc, Except.ok_bind, hscan, Except.ok_bind,
    hrep.maxLevel, hdescend]
  intro hok
  cases hok

/-- A search survives exactly if its entry has the highest level. -/
theorem survives_iff (hreach : Reachable maxNodes dim m) (hdim : dim < 2 ^ 31)
    (hmax : maxNodes < 2 ^ 31) (query : List α) (ef topk : Int) (map : RowidMap) :
    Survives f32 distfunc m query ef topk map ↔ TopEntry m := by
  obtain ⟨⟨h, hs, hmaxNodes⟩, rfl⟩ := hreach.sound
  rw [hs.topEntry_iff]
  have hreads : ∀ {start : At α}, entry h = some start → ∀ mem : Nat → Node α,
      deserializeHnsw f32 mem (serializeHnsw f32 m) = some (m.reread mem, []) := by
    intro start hstart mem
    obtain ⟨e, he, -⟩ := entry_eq_some hstart
    have hread := reads_serializeHnsw f32
      (hs.fits he hdim (by rw [hs.rep.maxNodes, hmaxNodes]; exact hmax)) mem []
    rwa [List.append_nil] at hread
  constructor
  · rintro ⟨r, ⟨enough, hr⟩, hsame⟩
    cases hstart : entry h with
    | none =>
      exact absurd (hr enough (Nat.le_refl _))
        (hs.search_ne_ok distfunc query hstart ef topk map enough r)
    | some start =>
      refine ⟨start, rfl, ?_⟩
      obtain ⟨e, he, -⟩ := entry_eq_some hstart
      have hle := (hs.wf.some e he).le start.2 (List.mem_of_getElem? (entry_mem h hstart))
      by_contra hne
      obtain ⟨m', hm', enough', hr'⟩ := hsame fun _ => badNode
      rw [hreads hstart] at hm'
      obtain ⟨rfl, -⟩ := Prod.mk.inj (Option.some.inj hm')
      exact hs.search_reread_ne_ok distfunc hstart (lt_of_le_of_ne hle hne) query ef topk map
        (show h.nodes.length < enough' + h.nodes.length + 1 by omega) r (hr' _ (by omega))
  · rintro ⟨start, hstart, hlevel⟩
    refine ⟨_, hs.hnswSearch distfunc query hstart ef topk map, fun mem =>
      ⟨_, hreads hstart mem, maxNeighbors + h.nodes.length + 1, fun fuel hfuel => ?_⟩⟩
    exact hnswSearch_spec distfunc query (hs.rep_reread mem) hs.wf downClosed_filed
      (fun _ _ _ hl => hl) hstart (Nat.le_of_eq hlevel.symm) ef topk map (by omega) (by omega)

end Search

section Sample

def smallF32 : Fixed (Fin 256) where
  width := 4
  encode x := natBytes 4 x.val
  decode bs := Fin.ofNat 256 (ofBytes bs)
  length_encode x := length_natBytes 4 x.val
  decode_encode x := by
    have hlt : x.val < 256 ^ 4 := Nat.lt_trans x.isLt (by decide)
    rw [ofBytes_natBytes, Nat.mod_eq_of_lt hlt]
    exact Fin.ofNat_val_eq_self x

def smallDist (a b : List (Fin 256)) : Fin 256 :=
  if a.headD 0 ≤ b.headD 0 then b.headD 0 - a.headD 0 else a.headD 0 - b.headD 0

/-- Two nodes, the first at this level and marked, the second at level `0`. -/
def stepGraph (level : Nat) : Graph (Fin 256) :=
  (hnswDelete (addNode smallDist 0 (addNode smallDist level (hnswCreate 4 1) [5] 7) [3] 8) 7).1

theorem stepGraph_reachable {level : Nat} (hlevel : level < 2) :
    Reachable 4 1 (stepGraph level) := by
  have hrandom : ∀ l < 2, ∀ i : Nat, (fun _ => l : Nat → Nat) i < maxLevels := fun l hl _ =>
    Nat.lt_trans hl (by decide)
  have h₁ : Reachable 4 1 (addNode smallDist level (hnswCreate 4 1) [5] 7) :=
    .add smallDist (hrandom level hlevel) blankNode (rfl : [(5 : Fin 256)].length = 1) 7 .create
      ⟨0, fun _ _ => rfl⟩
  have hadd : Returns (fun fuel => hnswAdd smallDist (fun _ => 0) fuel blankNode
      (addNode smallDist level (hnswCreate 4 1) [5] 7) [3] 8)
      (addNode smallDist 0 (addNode smallDist level (hnswCreate 4 1) [5] 7) [3] 8, sqliteOk) := by
    refine ⟨1, fun fuel hfuel => ?_⟩
    obtain ⟨fuel, rfl⟩ : ∃ k, fuel = k + 1 := ⟨fuel - 1, by omega⟩
    obtain rfl | rfl : level = 0 ∨ level = 1 := by omega
    · rfl
    · rfl
  exact .delete 7 (.add smallDist (hrandom 0 (by decide)) blankNode
    (rfl : [(3 : Fin 256)].length = 1) 8 h₁ hadd)

theorem stepGraph_survives : Survives smallF32 smallDist (stepGraph 0) [4] 64 1 anyMap := by
  refine (survives_iff smallF32 smallDist (stepGraph_reachable (by decide)) (by decide) (by decide)
    [4] 64 1 anyMap).mpr ⟨1, _, by decide, rfl, rfl, fun k _ hk c hc => ?_, rfl⟩
  obtain rfl : k = 0 := by omega
  obtain rfl := Option.some.inj hc
  rfl

theorem stepGraph_not_survives : Reachable 4 1 (stepGraph 1) ∧
    ¬ Survives smallF32 smallDist (stepGraph 1) [4] 64 1 anyMap := by
  have hreach := stepGraph_reachable (show 1 < 2 by decide)
  obtain ⟨⟨h, hs, -⟩, -⟩ := hreach.sound
  obtain ⟨start, hstart⟩ := hs.entryLive_iff.mp ⟨1, by decide, _, rfl, rfl⟩
  obtain ⟨e, he, -⟩ := entry_eq_some hstart
  have hread := reads_serializeHnsw smallF32 (hs.fits he (by decide) (by decide))
    (fun _ => badNode) []
  rw [List.append_nil] at hread
  refine ⟨hreach, ?_⟩
  rintro ⟨r, -, hsame⟩
  obtain ⟨m', hm', enough, hr⟩ := hsame fun _ => badNode
  obtain ⟨rfl, -⟩ := Prod.mk.inj (Option.some.inj (hread.symm.trans hm'))
  have hsearch : hnswSearch smallDist (enough + 2) ((stepGraph 1).reread fun _ => badNode) [4] 64 1
      anyMap = .error .range := rfl
  have hok := hsearch.symm.trans (hr (enough + 2) (by omega))
  cases hok

end Sample

end SqliteMultimodal.Vec.Hnsw.Memory
