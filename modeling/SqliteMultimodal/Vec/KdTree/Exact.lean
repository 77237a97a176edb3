import Mathlib.Analysis.Real.Sqrt
import SqliteMultimodal.Vec.KdTree.Search
import SqliteMultimodal.Vec.KdTree.Rowid

universe u

namespace SqliteMultimodal.Vec.KdTree

open KDNode

variable {α : Type u} [LinearOrder α] [Inhabited α]

section Sound

theorem mem_topkInsert {k : Nat} {kept : TopK α} {rowid : Rowid} {dist2 : α} {x : Rowid × α}
    (h : x ∈ topkInsert k kept rowid dist2) : x ∈ kept ∨ x = (rowid, dist2) := by
  unfold topkInsert at h
  split at h
  · simpa using h
  · dsimp only at h
    split at h
    · exact List.mem_or_eq_of_mem_set h
    · exact .inl h

variable [Sub α] [Mul α] (a : SearchArgs α)

omit [Sub α] [Mul α] in
theorem mem_visitNode {p : List α} {r : Rowid} {deleted : Bool} {kept : TopK α} {x : Rowid × α}
    (h : x ∈ visitNode a p r deleted kept) : x ∈ kept ∨ x ∈ a.entries (self p r deleted) := by
  unfold visitNode at h
  cases deleted with
  | true => exact .inl h
  | false =>
    simp only [Bool.false_eq_true, if_false] at h
    split at h
    next helig =>
      have helig : a.eligible ⟨p, r⟩ = true := helig
      exact (mem_topkInsert h).imp id
        (fun hx => by simp [self, SearchArgs.entries, helig, SearchArgs.entry, hx])
    · exact .inl h

theorem mem_kdtreeSearchTopkRec {n : KDNode α} {kept : TopK α} {x : Rowid × α}
    (h : x ∈ kdtreeSearchTopkRec a n kept) :
    x ∈ kept ∨ x ∈ a.entries (visitOrder a.query n) := by
  induction n using near_far_induction a.query generalizing kept with
  | nil => exact .inl h
  | node p r lt rt axis s deleted i ihnear ihfar =>
    rw [kdtreeSearchTopkRec_node] at h
    rw [visitOrder_node, SearchArgs.entries_append, SearchArgs.entries_append,
      List.mem_append, List.mem_append]
    have hnear : x ∈ kdtreeSearchTopkRec a (near a.query p axis lt rt)
        (visitNode a p r deleted kept) → x ∈ kept ∨ x ∈ a.entries (self p r deleted) ∨
          x ∈ a.entries (visitOrder a.query (near a.query p axis lt rt)) := by
      intro hx
      obtain hx | hx := ihnear hx
      · exact (mem_visitNode a hx).imp id .inl
      · exact .inr (.inr hx)
    dsimp only at h
    split at h
    · obtain h | h := ihfar h
      · exact (hnear h).imp id (Or.imp id .inl)
      · exact .inr (.inr (.inr h))
    · exact (hnear h).imp id (Or.imp id .inl)

omit [Sub α] [Mul α] in
theorem visitNode_of_not_eligible {p : List α} {r : Rowid} {deleted : Bool}
    (h : ∀ e ∈ self p r deleted, a.eligible e = false) (kept : TopK α) :
    visitNode a p r deleted kept = kept := by
  unfold visitNode
  cases deleted with
  | true => rfl
  | false =>
    have helig : (!a.map.preFilter || bsearch r a.map.rowids) = false :=
      h ⟨p, r⟩ (by simp [self])
    simp [helig]

theorem kdtreeSearchTopkRec_of_not_eligible {n : KDNode α}
    (h : ∀ e ∈ visitOrder a.query n, a.eligible e = false) (kept : TopK α) :
    kdtreeSearchTopkRec a n kept = kept := by
  induction n using near_far_induction a.query generalizing kept with
  | nil => rfl
  | node p r lt rt axis s deleted i ihnear ihfar =>
    simp only [visitOrder_node, List.mem_append] at h
    rw [kdtreeSearchTopkRec_node, visitNode_of_not_eligible a fun e he => h e (.inl he),
      ihnear fun e he => h e (.inr (.inl he))]
    dsimp only
    rw [ihfar fun e he => h e (.inr (.inr he)), ite_self]

omit [Sub α] [Mul α] in
theorem visitNode_congr {a b : SearchArgs α} (hquery : a.query = b.query) (hk : a.k = b.k)
    (hdist : a.distfunc = b.distfunc) {p : List α} {r : Rowid} {deleted : Bool}
    (h : ∀ e ∈ self p r deleted, a.eligible e = b.eligible e) (kept : TopK α) :
    visitNode a p r deleted kept = visitNode b p r deleted kept := by
  cases deleted with
  | true => simp [visitNode]
  | false =>
    have h := h ⟨p, r⟩ (by simp [self])
    unfold SearchArgs.eligible at h
    dsimp only at h
    simp only [visitNode, hquery, hk, hdist, h]

theorem crossesSplit_congr {a b : SearchArgs α} (hquery : a.query = b.query) (hk : a.k = b.k)
    (hmax : a.fltMax = b.fltMax) (p : List α) (axis : Nat) (kept : TopK α) :
    crossesSplit a p axis kept = crossesSplit b p axis kept := by
  simp only [crossesSplit, hquery, hk, hmax]

theorem kdtreeSearchTopkRec_congr {a b : SearchArgs α} (hquery : a.query = b.query)
    (hk : a.k = b.k) (hdist : a.distfunc = b.distfunc) (hmax : a.fltMax = b.fltMax)
    {n : KDNode α} (h : ∀ e ∈ visitOrder b.query n, a.eligible e = b.eligible e)
    (kept : TopK α) : kdtreeSearchTopkRec a n kept = kdtreeSearchTopkRec b n kept := by
  induction n using near_far_induction b.query generalizing kept with
  | nil => rfl
  | node p r lt rt axis s deleted i ihnear ihfar =>
    simp only [visitOrder_node, List.mem_append] at h
    rw [kdtreeSearchTopkRec_node, kdtreeSearchTopkRec_node, hquery,
      visitNode_congr hquery hk hdist fun e he => h e (.inl he),
      ihnear fun e he => h e (.inr (.inl he))]
    dsimp only
    rw [ihfar fun e he => h e (.inr (.inr he)), crossesSplit_congr hquery hk hmax]

end Sound

section Pairs

variable [Sub α] [Mul α] (query : List α) (distfunc : List α → List α → α) (fltMax : α)

def pairArgs (u w : Rowid) : SearchArgs α where
  query := query
  k := 1
  map := ⟨if u.toInt ≤ w.toInt then [u, w] else [w, u], true⟩
  distfunc := distfunc
  fltMax := fltMax

omit [LinearOrder α] [Inhabited α] [Sub α] [Mul α] in
theorem eligible_pairArgs (u w : Rowid) (e : PointRec α) :
    (pairArgs query distfunc fltMax u w).eligible e = true ↔ e.rowid = u ∨ e.rowid = w := by
  unfold SearchArgs.eligible pairArgs bsearch
  dsimp only
  split <;> simp [or_comm]

/-- The search for the nearer of `u` and `w`, from what has been kept so far. -/
def probe (u w : PointRec α) (n : KDNode α) (kept : TopK α) : TopK α :=
  kdtreeSearchTopkRec (pairArgs query distfunc fltMax u.rowid w.rowid) n kept

def entryOf (e : PointRec α) : Rowid × α := (e.rowid, distfunc query e.point)

variable {query distfunc fltMax}

omit [LinearOrder α] [Inhabited α] [Sub α] [Mul α] in
theorem not_eligible_pairArgs {u w : Rowid} {e : PointRec α} (hu : e.rowid ≠ u)
    (hw : e.rowid ≠ w) : (pairArgs query distfunc fltMax u w).eligible e = false := by
  rw [← Bool.not_eq_true, eligible_pairArgs]
  exact not_or.mpr ⟨hu, hw⟩

omit [Sub α] [Mul α] in
theorem visitNode_pairArgs_self {u w : PointRec α} {p : List α} {r : Rowid} {deleted : Bool}
    (h : w ∈ self p r deleted) :
    visitNode (pairArgs query distfunc fltMax u.rowid w.rowid) p r deleted [] =
      [entryOf query distfunc w] := by
  unfold self at h
  cases deleted with
  | true => simp at h
  | false =>
    obtain rfl : w = ⟨p, r⟩ := by simpa using h
    have helig := (eligible_pairArgs query distfunc fltMax u.rowid r ⟨p, r⟩).mpr (.inr rfl)
    unfold SearchArgs.eligible at helig
    dsimp only at helig
    simp only [visitNode, Bool.false_eq_true, if_false, helig, if_true]
    rfl

theorem crossesSplit_nil (u w : Rowid) (p : List α) (axis : Nat) :
    crossesSplit (pairArgs query distfunc fltMax u w) p axis [] =
      decide (splitDist query p axis < fltMax) := rfl

theorem crossesSplit_singleton (u w : Rowid) (p : List α) (axis : Nat) (x : Rowid × α) :
    crossesSplit (pairArgs query distfunc fltMax u w) p axis [x] =
      decide (splitDist query p axis < x.2) := rfl

theorem probe_eq_self {u w : PointRec α} {n : KDNode α}
    (h : ∀ e ∈ visitOrder query n, e.rowid ≠ u.rowid ∧ e.rowid ≠ w.rowid) (kept : TopK α) :
    probe query distfunc fltMax u w n kept = kept :=
  kdtreeSearchTopkRec_of_not_eligible _
    (fun e he => not_eligible_pairArgs (h e he).1 (h e he).2) kept

section Node

variable {u w : PointRec α} {p : List α} {r : Rowid} {lt rt : KDNode α} {axis s : Nat}
  {deleted : Bool} {i : Nat}

theorem probe_node (kept : TopK α) :
    probe query distfunc fltMax u w (.node p r lt rt axis s deleted i) kept =
      let kept := probe query distfunc fltMax u w (near query p axis lt rt)
        (visitNode (pairArgs query distfunc fltMax u.rowid w.rowid) p r deleted kept)
      if crossesSplit (pairArgs query distfunc fltMax u.rowid w.rowid) p axis kept then
        probe query distfunc fltMax u w (far query p axis lt rt) kept
      else kept :=
  kdtreeSearchTopkRec_node ..

theorem probe_node_near (kept : TopK α)
    (hfar : ∀ e ∈ visitOrder query (far query p axis lt rt),
      e.rowid ≠ u.rowid ∧ e.rowid ≠ w.rowid) :
    probe query distfunc fltMax u w (.node p r lt rt axis s deleted i) kept =
      probe query distfunc fltMax u w (near query p axis lt rt)
        (visitNode (pairArgs query distfunc fltMax u.rowid w.rowid) p r deleted kept) := by
  rw [probe_node]
  dsimp only
  rw [probe_eq_self hfar, ite_self]

omit [Sub α] [Mul α] in
theorem visitNode_pairArgs_other (h : ∀ e ∈ self p r deleted, e.rowid ≠ u.rowid ∧ e.rowid ≠ w.rowid)
    (kept : TopK α) :
    visitNode (pairArgs query distfunc fltMax u.rowid w.rowid) p r deleted kept = kept :=
  visitNode_of_not_eligible _ (fun e he => not_eligible_pairArgs (h e he).1 (h e he).2) kept

theorem splitDist_lt_of_probe_nil {kept : TopK α} {x : Rowid × α}
    (hnear : probe query distfunc fltMax u w (near query p axis lt rt)
      (visitNode (pairArgs query distfunc fltMax u.rowid w.rowid) p r deleted kept) = [])
    (h : probe query distfunc fltMax u w (.node p r lt rt axis s deleted i) kept = [x]) :
    splitDist query p axis < fltMax ∧
      probe query distfunc fltMax u w (far query p axis lt rt) [] = [x] := by
  rw [probe_node, hnear] at h
  dsimp only at h
  rw [crossesSplit_nil] at h
  split at h
  next hcross => exact ⟨of_decide_eq_true hcross, h⟩
  · simp at h

theorem splitDist_lt_of_probe_singleton {kept : TopK α} {x y : Rowid × α} (hxy : x ≠ y)
    (hnear : probe query distfunc fltMax u w (near query p axis lt rt)
      (visitNode (pairArgs query distfunc fltMax u.rowid w.rowid) p r deleted kept) = [y])
    (h : probe query distfunc fltMax u w (.node p r lt rt axis s deleted i) kept = [x]) :
    splitDist query p axis < y.2 ∧
      probe query distfunc fltMax u w (far query p axis lt rt) [y] = [x] := by
  rw [probe_node, hnear] at h
  dsimp only at h
  rw [crossesSplit_singleton] at h
  split at h
  next hcross => exact ⟨of_decide_eq_true hcross, h⟩
  · exact absurd (List.singleton_inj.mp h).symm hxy

end Node

theorem probe_congr {u w : PointRec α} {n : KDNode α}
    (h : ∀ e ∈ visitOrder query n, e.rowid ≠ u.rowid) (kept : TopK α) :
    probe query distfunc fltMax u w n kept = probe query distfunc fltMax w w n kept := by
  unfold probe
  refine kdtreeSearchTopkRec_congr (by rfl) (by rfl) (by rfl) (by rfl) (fun e he => ?_) kept
  rw [Bool.eq_iff_iff, eligible_pairArgs, eligible_pairArgs]
  simp [h e he]

variable (query distfunc fltMax) in
/-- Every entry is found when it alone is looked for, and the nearer of any two when both are.  The
entries of `before` are those that may have been kept on the way in. -/
structure Probed (before : List (PointRec α)) (n : KDNode α) : Prop where
  distinct : (before ++ visitOrder query n).Pairwise (fun e f => e.rowid ≠ f.rowid)
  one : ∀ u ∈ visitOrder query n,
    probe query distfunc fltMax u u n [] = [entryOf query distfunc u]
  held : ∀ w ∈ before, ∀ u ∈ visitOrder query n,
    distfunc query u.point < distfunc query w.point →
      probe query distfunc fltMax u w n [entryOf query distfunc w] = [entryOf query distfunc u]
  two : ∀ w ∈ visitOrder query n, ∀ u ∈ visitOrder query n,
    distfunc query u.point < distfunc query w.point →
      probe query distfunc fltMax u w n [] = [entryOf query distfunc u]

namespace Probed

variable {before : List (PointRec α)} {p : List α} {r : Rowid} {lt rt : KDNode α} {axis s : Nat}
  {deleted : Bool} {i : Nat}

structure Parts (query : List α) (before : List (PointRec α)) (p : List α) (r : Rowid)
    (lt rt : KDNode α) (axis : Nat) (deleted : Bool) : Prop where
  before_self : ∀ e ∈ before, ∀ f ∈ self p r deleted, e.rowid ≠ f.rowid
  before_near : ∀ e ∈ before, ∀ f ∈ visitOrder query (near query p axis lt rt), e.rowid ≠ f.rowid
  before_far : ∀ e ∈ before, ∀ f ∈ visitOrder query (far query p axis lt rt), e.rowid ≠ f.rowid
  self_near : ∀ e ∈ self p r deleted, ∀ f ∈ visitOrder query (near query p axis lt rt),
    e.rowid ≠ f.rowid
  self_far : ∀ e ∈ self p r deleted, ∀ f ∈ visitOrder query (far query p axis lt rt),
    e.rowid ≠ f.rowid
  near_far : ∀ e ∈ visitOrder query (near query p axis lt rt),
    ∀ f ∈ visitOrder query (far query p axis lt rt), e.rowid ≠ f.rowid

theorem parts (h : Probed query distfunc fltMax before (.node p r lt rt axis s deleted i)) :
    Parts query before p r lt rt axis deleted := by
  have hne := h.distinct
  simp only [visitOrder_node, List.pairwise_append, List.mem_append] at hne
  obtain ⟨-, ⟨-, ⟨-, -, hnear_far⟩, hself⟩, hbefore⟩ := hne
  exact ⟨fun e he f hf => hbefore e he f (.inl hf),
    fun e he f hf => hbefore e he f (.inr (.inl hf)),
    fun e he f hf => hbefore e he f (.inr (.inr hf)),
    fun e he f hf => hself e he f (.inl hf), fun e he f hf => hself e he f (.inr hf), hnear_far⟩

omit [Inhabited α] [Sub α] [Mul α] in
theorem entryOf_ne {u w : PointRec α} (h : distfunc query u.point < distfunc query w.point) :
    entryOf query distfunc u ≠ entryOf query distfunc w :=
  fun heq => h.ne (congrArg Prod.snd heq)

theorem one_near (h : Probed query distfunc fltMax before (.node p r lt rt axis s deleted i))
    {u : PointRec α} (hu : u ∈ visitOrder query (near query p axis lt rt)) :
    probe query distfunc fltMax u u (near query p axis lt rt) [] =
      [entryOf query distfunc u] := by
  have hne := h.parts
  have hone := h.one u (by simp [visitOrder_node, hu])
  rwa [probe_node_near _ fun e he => ⟨(hne.near_far u hu e he).symm,
      (hne.near_far u hu e he).symm⟩,
    visitNode_pairArgs_other fun e he => ⟨hne.self_near e he u hu, hne.self_near e he u hu⟩]
    at hone

theorem one_far (h : Probed query distfunc fltMax before (.node p r lt rt axis s deleted i))
    {u : PointRec α} (hu : u ∈ visitOrder query (far query p axis lt rt)) :
    splitDist query p axis < fltMax ∧
      probe query distfunc fltMax u u (far query p axis lt rt) [] =
        [entryOf query distfunc u] := by
  have hne := h.parts
  refine splitDist_lt_of_probe_nil ?_ (h.one u (by simp [visitOrder_node, hu]))
  rw [visitNode_pairArgs_other fun e he => ⟨hne.self_far e he u hu, hne.self_far e he u hu⟩]
  exact probe_eq_self (fun e he => ⟨hne.near_far e he u hu, hne.near_far e he u hu⟩) _

theorem held_far (h : Probed query distfunc fltMax before (.node p r lt rt axis s deleted i))
    {u w : PointRec α}
    (hw : w ∈ before ++ self p r deleted ++ visitOrder query (near query p axis lt rt))
    (hu : u ∈ visitOrder query (far query p axis lt rt))
    (hlt : distfunc query u.point < distfunc query w.point) :
    splitDist query p axis < distfunc query w.point ∧
      probe query distfunc fltMax u w (far query p axis lt rt) [entryOf query distfunc w] =
        [entryOf query distfunc u] := by
  have hne := h.parts
  have hu' : u ∈ visitOrder query (.node p r lt rt axis s deleted i) := by
    simp [visitOrder_node, hu]
  simp only [List.mem_append] at hw
  obtain (hw | hw) | hw := hw
  · refine splitDist_lt_of_probe_singleton (entryOf_ne hlt) ?_ (h.held w hw u hu' hlt)
    rw [visitNode_pairArgs_other
      fun e he => ⟨hne.self_far e he u hu, (hne.before_self w hw e he).symm⟩]
    exact probe_eq_self
      (fun e he => ⟨hne.near_far e he u hu, (hne.before_near w hw e he).symm⟩) _
  · refine splitDist_lt_of_probe_singleton (entryOf_ne hlt) ?_
      (h.two w (by simp [visitOrder_node, hw]) u hu' hlt)
    rw [visitNode_pairArgs_self hw]
    exact probe_eq_self
      (fun e he => ⟨hne.near_far e he u hu, (hne.self_near w hw e he).symm⟩) _
  · refine splitDist_lt_of_probe_singleton (entryOf_ne hlt) ?_
      (h.two w (by simp [visitOrder_node, hw]) u hu' hlt)
    rw [visitNode_pairArgs_other fun e he => ⟨hne.self_far e he u hu, hne.self_near e he w hw⟩,
      probe_congr fun e he => hne.near_far e he u hu]
    exact h.one_near hw

theorem near (h : Probed query distfunc fltMax before (.node p r lt rt axis s deleted i)) :
    Probed query distfunc fltMax (before ++ self p r deleted) (near query p axis lt rt) := by
  have hne := h.parts
  refine ⟨?_, fun u hu => h.one_near hu, fun w hw u hu hlt => ?_, fun w hw u hu hlt => ?_⟩
  · have hdistinct := h.distinct
    rw [visitOrder_node, ← List.append_assoc, ← List.append_assoc] at hdistinct
    exact hdistinct.sublist (List.sublist_append_left _ _)
  · have hu' : u ∈ visitOrder query (.node p r lt rt axis s deleted i) := by
      simp [visitOrder_node, hu]
    obtain hw | hw := List.mem_append.mp hw
    · have hheld := h.held w hw u hu' hlt
      rwa [probe_node_near _ fun e he => ⟨(hne.near_far u hu e he).symm,
          (hne.before_far w hw e he).symm⟩, visitNode_pairArgs_other
        fun e he => ⟨hne.self_near e he u hu, (hne.before_self w hw e he).symm⟩] at hheld
    · have htwo := h.two w (by simp [visitOrder_node, hw]) u hu' hlt
      rwa [probe_node_near _ fun e he => ⟨(hne.near_far u hu e he).symm,
        (hne.self_far w hw e he).symm⟩, visitNode_pairArgs_self hw] at htwo
  · have htwo := h.two w (by simp [visitOrder_node, hw]) u (by simp [visitOrder_node, hu]) hlt
    rwa [probe_node_near _ fun e he => ⟨(hne.near_far u hu e he).symm,
        (hne.near_far w hw e he).symm⟩, visitNode_pairArgs_other
      fun e he => ⟨hne.self_near e he u hu, hne.self_near e he w hw⟩] at htwo

theorem far (h : Probed query distfunc fltMax before (.node p r lt rt axis s deleted i)) :
    Probed query distfunc fltMax
      (before ++ self p r deleted ++ visitOrder query (KdTree.near query p axis lt rt))
      (far query p axis lt rt) := by
  have hne := h.parts
  refine ⟨?_, fun u hu => (h.one_far hu).2, fun w hw u hu hlt => (h.held_far hw hu hlt).2,
    fun w hw u hu hlt => ?_⟩
  · have hdistinct := h.distinct
    rwa [visitOrder_node, ← List.append_assoc, ← List.append_assoc] at hdistinct
  · refine (splitDist_lt_of_probe_nil ?_
      (h.two w (by simp [visitOrder_node, hw]) u (by simp [visitOrder_node, hu]) hlt)).2
    rw [visitNode_pairArgs_other fun e he => ⟨hne.self_far e he u hu, hne.self_far e he w hw⟩]
    exact probe_eq_self (fun e he => ⟨hne.near_far e he u hu, hne.near_far e he w hw⟩) _

theorem prunesSafely {n : KDNode α} (h : Probed query distfunc fltMax before n) :
    PrunesSafely query distfunc fltMax before n := by
  induction n using near_far_induction query generalizing before with
  | nil => trivial
  | node p r lt rt axis s deleted i ihnear ihfar =>
    rw [prunesSafely_node]
    refine ⟨ihnear h.near, ihfar h.far, fun u hu => ⟨(h.one_far hu).1, fun w hw hle => ?_⟩⟩
    by_contra hgt
    exact absurd hle (not_le.mpr (h.held_far hw hu (not_le.mp hgt)).1)

end Probed

end Pairs

section Brute

variable [Sub α] [Mul α]

def SearchArgs.dists (a : SearchArgs α) (n : KDNode α) : Multiset α :=
  (n.live.filter (fun e => a.eligible e)).map (fun e => a.distfunc a.query e.point)

def TopkExact (tree : KDTree α) (a : SearchArgs α) : Prop :=
  (kdtreeTopk tree a).length = min a.k (a.dists tree.root).card ∧
  (((kdtreeTopk tree a).map Prod.snd : List α) : Multiset α) =
    ((a.dists tree.root).sort (· ≤ ·)).take a.k

omit [Sub α] [Mul α] in
theorem dists_eq (a : SearchArgs α) (n : KDNode α) :
    a.dists n = (a.entries (visitOrder a.query n) : Multiset (Rowid × α)).map Prod.snd := by
  rw [SearchArgs.dists, ← coe_visitOrder a.query n]
  simp [SearchArgs.entries, SearchArgs.entry, Function.comp_def]

theorem kdtreeTopk_eq (tree : KDTree α) {a : SearchArgs α} (hk : 0 < a.k) :
    kdtreeTopk tree a = kdtreeSearchTopkRec a tree.root [] := by
  unfold kdtreeTopk
  split
  next h => rw [h, kdtreeSearchTopkRec]
  next => rw [if_neg hk.ne']

theorem topkExact_of_prunesSafely {tree : KDTree α} {a : SearchArgs α} (hk : 0 < a.k)
    (h : PrunesSafely a.query a.distfunc a.fltMax [] tree.root) : TopkExact tree a := by
  have hstart : a.Keeps [] [] := Smallest.zero _ _
  have hkeeps := keeps_kdtreeSearchTopkRec a hk tree.root hstart h
  rw [List.nil_append] at hkeeps
  unfold TopkExact
  rw [kdtreeTopk_eq tree hk, dists_eq, ← Multiset.map_coe, Multiset.card_map]
  exact ⟨hkeeps.card_eq, hkeeps.map_key⟩

def RowidMap.Sorted (map : RowidMap) : Prop := map.rowids.Pairwise (fun a b => a.toInt ≤ b.toInt)

variable {query : List α} {distfunc : List α → List α → α} {fltMax : α} {tree : KDTree α}

/-- The search is exact for every `k` and every candidate map. -/
def SearchExact (query : List α) (distfunc : List α → List α → α) (fltMax : α)
    (tree : KDTree α) : Prop :=
  ∀ k map, 1 ≤ k → RowidMap.Sorted map → TopkExact tree ⟨query, k, map, distfunc, fltMax⟩

omit [LinearOrder α] [Inhabited α] [Sub α] [Mul α] in
theorem sorted_pairArgs (u w : Rowid) :
    RowidMap.Sorted (pairArgs query distfunc fltMax u w).map := by
  unfold pairArgs RowidMap.Sorted
  dsimp only
  split
  next h => simpa using h
  next h => simpa using (not_le.mp h).le

theorem probe_eq_of_searchExact (h : SearchExact query distfunc fltMax tree) {u w : PointRec α}
    (rest : List (PointRec α))
    (helig : ((visitOrder query tree.root).filter
      (pairArgs query distfunc fltMax u.rowid w.rowid).eligible).Perm (u :: rest))
    (hrest : ∀ e ∈ rest, distfunc query u.point < distfunc query e.point) :
    probe query distfunc fltMax u w tree.root [] = [entryOf query distfunc u] := by
  set a := pairArgs query distfunc fltMax u.rowid w.rowid with ha
  have hexact : TopkExact tree a := h 1 a.map le_rfl (sorted_pairArgs u.rowid w.rowid)
  unfold TopkExact at hexact
  rw [kdtreeTopk_eq tree Nat.one_pos] at hexact
  have hdists : a.dists tree.root =
      distfunc query u.point ::ₘ (rest.map fun e => distfunc query e.point : List α) := by
    rw [dists_eq, Multiset.cons_coe, Multiset.map_coe, Multiset.coe_eq_coe]
    have := (helig.map a.entry).map Prod.snd
    simpa [SearchArgs.entries, SearchArgs.entry, ha, pairArgs, Function.comp_def] using this
  have hsort : (a.dists tree.root).sort (· ≤ ·) =
      distfunc query u.point :: Multiset.sort (rest.map fun e => distfunc query e.point : List α)
        (· ≤ ·) := by
    rw [hdists]
    apply Multiset.sort_cons
    intro d hd
    obtain ⟨e, he, rfl⟩ := List.mem_map.mp (Multiset.mem_coe.mp hd)
    exact (hrest e he).le
  rw [hsort] at hexact
  have hsnd : (kdtreeSearchTopkRec a tree.root []).map Prod.snd = [distfunc query u.point] := by
    have := hexact.2
    rw [show a.k = 1 from rfl, List.take_succ_cons, List.take_zero] at this
    exact List.perm_singleton.mp (Multiset.coe_eq_coe.mp this)
  obtain ⟨x, hx, hxd⟩ := List.map_eq_singleton_iff.mp hsnd
  have hmem := mem_kdtreeSearchTopkRec a (x := x) (by rw [hx]; simp)
  have hentry : x ∈ a.entries (visitOrder query tree.root) := hmem.resolve_left List.not_mem_nil
  obtain ⟨e, he, hfx⟩ := List.mem_map.mp hentry
  unfold probe
  rw [← ha, hx, ← hfx]
  obtain rfl | he := List.mem_cons.mp (helig.mem_iff.mp he)
  · rfl
  · exact absurd (hrest e he) (by rw [← hxd, ← hfx]; exact lt_irrefl _)

theorem probed_of_searchExact (hnd : tree.root.NodupRowids)
    (h : SearchExact query distfunc fltMax tree) :
    Probed query distfunc fltMax [] tree.root := by
  have hmap : ((visitOrder query tree.root).map PointRec.rowid).Nodup := by
    have := hnd
    rwa [NodupRowids, ← coe_visitOrder query, Multiset.map_coe, Multiset.coe_nodup] at this
  have hinj := List.inj_on_of_nodup_map hmap
  have helig : ∀ u ∈ visitOrder query tree.root, ∀ w ∈ visitOrder query tree.root,
      ∀ l : List (PointRec α), l.Nodup → (∀ e, e ∈ l ↔ e = u ∨ e = w) →
      ((visitOrder query tree.root).filter
        (pairArgs query distfunc fltMax u.rowid w.rowid).eligible).Perm l := by
    intro u hu w hw l hl hmem
    refine (List.perm_ext_iff_of_nodup (hmap.of_map.filter _) hl).mpr fun e => ?_
    rw [List.mem_filter, eligible_pairArgs, hmem]
    constructor
    · rintro ⟨he, heq | heq⟩
      · exact .inl (hinj he hu heq)
      · exact .inr (hinj he hw heq)
    · rintro (rfl | rfl)
      · exact ⟨hu, .inl rfl⟩
      · exact ⟨hw, .inr rfl⟩
  refine ⟨by simpa [List.Nodup, List.pairwise_map] using hmap, fun u hu => ?_, by simp,
    fun w hw u hu hlt => ?_⟩
  · exact probe_eq_of_searchExact h [] (helig u hu u hu [u] (by simp) (by simp)) (by simp)
  · have hne : u ≠ w := by
      rintro rfl
      exact lt_irrefl _ hlt
    exact probe_eq_of_searchExact h [w]
      (helig u hu w hw [u, w] (by simp [hne]) (by simp)) (by simpa using hlt)

end Brute

section Real

/-- `FLT_MAX` of the C library. -/
def fltMax : ℝ := 340282346638528859811704183484516925440

noncomputable def l2Args (query : List ℝ) (k : Nat) (map : RowidMap) : SearchArgs ℝ :=
  ⟨query, k, map, l2SqrFloat Real.sqrt, fltMax⟩

/-- Safe splits make the search exact, and where no two live nodes share a rowid it is exact only
if all of them are safe. -/
theorem search_exact_iff (tree : KDTree ℝ) (query : List ℝ) :
    (PrunesSafely query (l2SqrFloat Real.sqrt) fltMax [] tree.root →
      ∀ k map, 1 ≤ k → RowidMap.Sorted map → TopkExact tree (l2Args query k map)) ∧
    (tree.root.NodupRowids →
      ((∀ k map, 1 ≤ k → RowidMap.Sorted map → TopkExact tree (l2Args query k map)) ↔
        PrunesSafely query (l2SqrFloat Real.sqrt) fltMax [] tree.root)) :=
  ⟨fun hsafe _ _ hk _ => topkExact_of_prunesSafely hk hsafe, fun hnd =>
    ⟨fun hexact => (probed_of_searchExact hnd hexact).prunesSafely,
      fun hsafe _ _ hk _ => topkExact_of_prunesSafely hk hsafe⟩⟩

theorem l2SqrFloat_singleton (x y : ℝ) : l2SqrFloat Real.sqrt [x] [y] = |x - y| := by
  simp [l2SqrFloat, Real.sqrt_mul_self_eq_abs]

noncomputable def lineRun : KDTree ℝ :=
  [Op.insert [5] 1, .insert [-9] 2, .insert [6] 3].foldl
    (fun tree op => (tree.apply Qsort.mergeSort op).1) (.empty 1)

theorem lineRun_root :
    lineRun.root = .node [5] 1 (.node [-9] 2 .nil .nil 0 1 false 0)
      (.node [6] 3 .nil .nil 0 1 false 0) 0 3 false 0 := by
  norm_num [lineRun, KDTree.apply, KDTree.empty, kdtreeInsert_eq, kdtreeInsertRec, rebalance,
    pullup, isUnbalanced, tooManyDeleted, nodeSize, nodeInvalid, coord]

theorem lineRun_exact :
    lineRun.root.NodupRowids ∧ TopkExact lineRun (l2Args [11 / 2] 2 ⟨[], false⟩) := by
  have hnd : lineRun.root.NodupRowids := by
    rw [lineRun_root, NodupRowids]
    simp [live]
  have hsafe : PrunesSafely [11 / 2] (l2SqrFloat Real.sqrt) fltMax [] lineRun.root := by
    rw [lineRun_root]
    norm_num [PrunesSafely, visitOrder, self, SafeSplit, splitDist, coord, l2SqrFloat_singleton,
      fltMax, abs_of_pos, abs_of_neg]
  exact ⟨hnd, (((search_exact_iff lineRun [11 / 2]).2 hnd).mpr hsafe) 2 ⟨[], false⟩ (by decide)
    List.Pairwise.nil⟩

theorem lineRun_not_exact :
    RunBy Qsort.mergeSort 1 (fun _ op => ∃ point rowid, op = .insert point rowid) lineRun ∧
    kdtreeTopk lineRun (l2Args [0] 2 ⟨[], false⟩) = [(1, 5), (2, 9)] ∧
    ¬ TopkExact lineRun (l2Args [0] 2 ⟨[], false⟩) := by
  have hrun : RunBy Qsort.mergeSort 1 (fun _ op => ∃ point rowid, op = .insert point rowid)
      lineRun :=
    .step (.insert [6] 3) (.step (.insert [-9] 2) (.step (.insert [5] 1) .empty rfl
      ⟨_, _, rfl⟩) rfl ⟨_, _, rfl⟩) rfl ⟨_, _, rfl⟩
  have htopk : kdtreeTopk lineRun (l2Args [0] 2 ⟨[], false⟩) = [(1, 5), (2, 9)] := by
    rw [kdtreeTopk_eq _ (by decide), lineRun_root]
    norm_num [kdtreeSearchTopkRec, visitNode, topkInsert, crossesSplit, maxEntry, maxScan, l2Args,
      coord, l2SqrFloat_singleton, abs_of_pos, abs_of_neg]
  refine ⟨hrun, htopk, fun hexact => ?_⟩
  have hdists : (l2Args [0] 2 ⟨[], false⟩).dists lineRun.root =
      5 ::ₘ 6 ::ₘ {9} := by
    rw [lineRun_root]
    norm_num [SearchArgs.dists, live, SearchArgs.eligible, l2Args, l2SqrFloat_singleton,
      abs_of_pos, abs_of_neg]
    exact Multiset.pair_comm 9 6
  have hsort : ((l2Args [0] 2 ⟨[], false⟩).dists lineRun.root).sort (· ≤ ·) = [5, 6, 9] := by
    rw [hdists, Multiset.sort_cons, Multiset.sort_cons, Multiset.sort_singleton] <;> norm_num
  have hsnd := hexact.2
  rw [htopk, hsort] at hsnd
  have hmem : (9 : ℝ) ∈ ([5, 6] : List ℝ) :=
    Multiset.mem_coe.mp (hsnd ▸ Multiset.mem_coe.mpr (by simp))
  norm_num at hmem

end Real

end SqliteMultimodal.Vec.KdTree
