import Mathlib.Data.List.Induction
import SqliteMultimodal.Lib.Selection
import SqliteMultimodal.Vec.KdTree.Contents

universe u

namespace SqliteMultimodal.Vec.KdTree

open KDNode

variable {α : Type u} [LinearOrder α] [Inhabited α]

omit [Inhabited α] in
theorem maxScan_spec (maxIdx : Nat) (maxDist : α) (pre rest : TopK α)
    (hidx : (pre[maxIdx]?).map Prod.snd = some maxDist) (hmax : ∀ e ∈ pre, e.2 ≤ maxDist) :
    ((pre ++ rest)[(maxScan maxIdx maxDist pre.length rest).1]?).map Prod.snd =
        some (maxScan maxIdx maxDist pre.length rest).2 ∧
      ∀ e ∈ pre ++ rest, e.2 ≤ (maxScan maxIdx maxDist pre.length rest).2 := by
  induction rest generalizing maxIdx maxDist pre with
  | nil =>
    simp only [maxScan, List.append_nil]
    exact ⟨hidx, hmax⟩
  | cons x rest ih =>
    obtain ⟨r, d⟩ := x
    simp only [maxScan]
    split
    next hgt =>
      have step := ih pre.length d (pre ++ [(r, d)]) (by simp)
        (fun e he => by
          obtain he | he := List.mem_append.mp he
          · exact (hmax e he).trans hgt.le
          · rw [List.mem_singleton.mp he])
      simpa using step
    next hle =>
      have hlt : maxIdx < pre.length := by
        by_contra h
        rw [List.getElem?_eq_none (not_lt.mp h)] at hidx
        simp at hidx
      have step := ih maxIdx maxDist (pre ++ [(r, d)])
        (by rwa [List.getElem?_append_left hlt])
        (fun e he => by
          obtain he | he := List.mem_append.mp he
          · exact hmax e he
          · rw [List.mem_singleton.mp he]
            exact not_lt.mp hle)
      simpa using step

theorem maxEntry_spec {kept : TopK α} (h : kept ≠ []) :
    (kept[(maxEntry kept).1]?).map Prod.snd = some (maxEntry kept).2 ∧
      ∀ e ∈ kept, e.2 ≤ (maxEntry kept).2 := by
  cases kept with
  | nil => exact absurd rfl h
  | cons x rest =>
    have := maxScan_spec 0 x.2 [x] rest (by simp) (by simp)
    simpa [maxEntry] using this

theorem smallest_topkInsert {k : Nat} (hk : 0 < k) {xs : Multiset (Rowid × α)} {kept : TopK α}
    (h : Smallest Prod.snd k xs kept) (rowid : Rowid) (dist2 : α) :
    Smallest Prod.snd k ((rowid, dist2) ::ₘ xs) (topkInsert k kept rowid dist2) := by
  unfold topkInsert
  split
  next hlt =>
    rw [← Multiset.coe_add, add_comm, Multiset.coe_singleton, Multiset.singleton_add]
    exact h.cons_of_lt hlt _
  next hfull =>
    have hcard : kept.length = k := by
      have := h.card_eq
      rw [Multiset.coe_card] at this
      omega
    have hne : kept ≠ [] := by
      rintro rfl
      exact hk.ne' hcard.symm
    obtain ⟨hidx, hmax⟩ := maxEntry_spec hne
    generalize maxEntry kept = m at hidx hmax ⊢
    obtain ⟨maxIdx, maxDist⟩ := m
    dsimp only at hidx hmax ⊢
    split
    next hless =>
      obtain ⟨worst, hworst, rfl⟩ := Option.map_eq_some_iff.mp hidx
      obtain ⟨hlt, rfl⟩ := List.getElem?_eq_some_iff.mp hworst
      have hsplit : kept = kept.take maxIdx ++ kept[maxIdx] :: kept.drop (maxIdx + 1) := by
        rw [List.getElem_cons_drop, List.take_append_drop]
      have hperm : (kept : Multiset (Rowid × α)) =
          kept[maxIdx] ::ₘ (kept.take maxIdx ++ kept.drop (maxIdx + 1) : List _) := by
        nth_rewrite 1 [hsplit]
        rw [Multiset.cons_coe, Multiset.coe_eq_coe]
        exact List.perm_middle
      rw [List.set_eq_take_append_cons_drop, if_pos hlt,
        Multiset.coe_eq_coe.mpr List.perm_middle, ← Multiset.cons_coe]
      refine Smallest.replace (hperm ▸ h) ?_ (fun a ha => ?_) hless
      · have := congrArg Multiset.card hperm
        simp only [Multiset.coe_card, Multiset.card_cons] at this ⊢
        omega
      · exact hmax a (Multiset.mem_coe.mp (hperm ▸ Multiset.mem_cons_of_mem ha))
    next hless =>
      rw [← Multiset.singleton_add, add_comm]
      refine h.add_of_le hcard (fun a ha b hb => ?_)
      rw [Multiset.mem_singleton.mp hb]
      exact (hmax a ha).trans (not_lt.mp hless)

def topkInsertAll (k : Nat) (pairs : List (Rowid × α)) : TopK α :=
  pairs.foldl (fun kept e => topkInsert k kept e.1 e.2) []

theorem smallest_topkInsertAll {k : Nat} (hk : 0 < k) (pairs : List (Rowid × α)) :
    Smallest Prod.snd k (pairs : Multiset (Rowid × α)) (topkInsertAll k pairs) := by
  induction pairs using List.reverseRecOn with
  | nil => exact Smallest.zero Prod.snd k
  | append_singleton pairs e ih =>
    have hperm : ((pairs ++ [e] : List _) : Multiset (Rowid × α)) = e ::ₘ (pairs : Multiset _) := by
      rw [Multiset.cons_coe, Multiset.coe_eq_coe]
      exact List.perm_append_singleton e pairs
    rw [hperm, topkInsertAll, List.foldl_append]
    exact smallest_topkInsert hk ih e.1 e.2

/-- What is kept of a sequence are the `k` nearest of its pairs, and there are never more. -/
theorem topkInsertAll_keeps_nearest {k : Nat} (hk : 1 ≤ k) (pairs : List (Rowid × α)) :
    (∀ n, (topkInsertAll k (pairs.take n)).length ≤ k) ∧
      (topkInsertAll k pairs).length = min k pairs.length ∧
      (topkInsertAll k pairs : Multiset (Rowid × α)) ≤ (pairs : Multiset (Rowid × α)) ∧
      (((topkInsertAll k pairs).map Prod.snd : List α) : Multiset α) =
        ((((pairs.map Prod.snd : List α) : Multiset α).sort (· ≤ ·)).take k : List α) := by
  have hall := smallest_topkInsertAll hk pairs
  refine ⟨fun n => ?_, hall.card_eq, hall.le, ?_⟩
  · exact (smallest_topkInsertAll hk (pairs.take n)).card_eq.trans_le (Nat.min_le_left _ _)
  · rw [← Multiset.map_coe, ← Multiset.map_coe]
    exact hall.map_key

theorem topkInsertAll_keeps_nearest_three :
    (topkInsertAll 1 [((7 : Rowid), (2 : Nat)), (8, 1), (9, 1)]).length = 1 ∧
      topkInsertAll 1 [((7 : Rowid), (2 : Nat)), (8, 1), (9, 1)] = [(8, 1)] :=
  ⟨(topkInsertAll_keeps_nearest (Nat.le_refl 1) _).2.1, by decide⟩

section Order

variable (query : List α)

def near (p : List α) (axis : Nat) (lt rt : KDNode α) : KDNode α :=
  if coord query axis < coord p axis then lt else rt

def far (p : List α) (axis : Nat) (lt rt : KDNode α) : KDNode α :=
  if coord query axis < coord p axis then rt else lt

theorem near_far_induction {motive : KDNode α → Prop} (nil : motive .nil)
    (node : ∀ p r lt rt axis s deleted i, motive (near query p axis lt rt) →
      motive (far query p axis lt rt) → motive (.node p r lt rt axis s deleted i))
    (n : KDNode α) : motive n := by
  induction n with
  | nil => exact nil
  | node p r lt rt axis s deleted i ihl ihr =>
    apply node <;> simp only [near, far] <;> split <;> assumption

def self (p : List α) (r : Rowid) (deleted : Bool) : List (PointRec α) :=
  if deleted then [] else [⟨p, r⟩]

def visitOrder : KDNode α → List (PointRec α)
  | .nil => []
  | .node p r lt rt axis _ deleted _ =>
    if coord query axis < coord p axis then
      self p r deleted ++ (visitOrder lt ++ visitOrder rt)
    else self p r deleted ++ (visitOrder rt ++ visitOrder lt)

theorem visitOrder_node (p : List α) (r : Rowid) (lt rt : KDNode α) (axis s : Nat)
    (deleted : Bool) (i : Nat) :
    visitOrder query (.node p r lt rt axis s deleted i) = self p r deleted ++
      (visitOrder query (near query p axis lt rt) ++ visitOrder query (far query p axis lt rt)) := by
  simp only [visitOrder, near, far]
  split <;> rfl

theorem coe_visitOrder (n : KDNode α) :
    (visitOrder query n : Multiset (PointRec α)) = n.live := by
  induction n with
  | nil => rfl
  | node p r lt rt axis s deleted i ihl ihr =>
    have hself : (self p r deleted : Multiset (PointRec α)) = if deleted then 0 else {⟨p, r⟩} := by
      cases deleted <;> rfl
    simp only [visitOrder, live]
    split <;> simp only [← Multiset.coe_add, ihl, ihr, hself] <;> ac_rfl

end Order

section Pruning

variable [Sub α] [Mul α] (query : List α) (distfunc : List α → List α → α) (fltMax : α)

def splitDist (p : List α) (axis : Nat) : α :=
  (coord query axis - coord p axis) * (coord query axis - coord p axis)

/-- Skipping the entries of `later` at this split loses nothing against those seen `before`. -/
def SafeSplit (p : List α) (axis : Nat) (before later : List (PointRec α)) : Prop :=
  ∀ u ∈ later, splitDist query p axis < fltMax ∧
    ∀ w ∈ before, distfunc query w.point ≤ splitDist query p axis →
      distfunc query w.point ≤ distfunc query u.point

def PrunesSafely : List (PointRec α) → KDNode α → Prop
  | _, .nil => True
  | before, .node p r lt rt axis _ deleted _ =>
    let before := before ++ self p r deleted
    if coord query axis < coord p axis then
      PrunesSafely before lt ∧ PrunesSafely (before ++ visitOrder query lt) rt ∧
        SafeSplit query distfunc fltMax p axis (before ++ visitOrder query lt)
          (visitOrder query rt)
    else
      PrunesSafely before rt ∧ PrunesSafely (before ++ visitOrder query rt) lt ∧
        SafeSplit query distfunc fltMax p axis (before ++ visitOrder query rt)
          (visitOrder query lt)

theorem prunesSafely_node (before : List (PointRec α)) (p : List α) (r : Rowid)
    (lt rt : KDNode α) (axis s : Nat) (deleted : Bool) (i : Nat) :
    PrunesSafely query distfunc fltMax before (.node p r lt rt axis s deleted i) ↔
      PrunesSafely query distfunc fltMax (before ++ self p r deleted)
        (near query p axis lt rt) ∧
      PrunesSafely query distfunc fltMax
        (before ++ self p r deleted ++ visitOrder query (near query p axis lt rt))
        (far query p axis lt rt) ∧
      SafeSplit query distfunc fltMax p axis
        (before ++ self p r deleted ++ visitOrder query (near query p axis lt rt))
        (visitOrder query (far query p axis lt rt)) := by
  simp only [PrunesSafely, near, far]
  split <;> rfl

end Pruning

namespace SearchArgs

variable (a : SearchArgs α)

def eligible (e : PointRec α) : Bool := !a.map.preFilter || bsearch e.rowid a.map.rowids

def entry (e : PointRec α) : Rowid × α := (e.rowid, a.distfunc a.query e.point)

/-- What a brute-force scan of `es` would offer. -/
def entries (es : List (PointRec α)) : List (Rowid × α) := (es.filter a.eligible).map a.entry

omit [LinearOrder α] [Inhabited α] in
theorem entries_append (es fs : List (PointRec α)) :
    a.entries (es ++ fs) = a.entries es ++ a.entries fs := by
  simp [entries]

omit [LinearOrder α] [Inhabited α] in
theorem mem_entries {x : Rowid × α} {es : List (PointRec α)} (h : x ∈ a.entries es) :
    ∃ e ∈ es, a.eligible e ∧ a.entry e = x := by
  obtain ⟨e, he, rfl⟩ := List.mem_map.mp h
  exact ⟨e, (List.mem_filter.mp he).1, (List.mem_filter.mp he).2, rfl⟩

def Keeps (seen : List (PointRec α)) (kept : TopK α) : Prop :=
  Smallest (Prod.snd : Rowid × α → α) a.k (a.entries seen) kept

end SearchArgs

section Forward

variable [Sub α] [Mul α] (a : SearchArgs α)

theorem kdtreeSearchTopkRec_node (p : List α) (r : Rowid) (lt rt : KDNode α) (axis s : Nat)
    (deleted : Bool) (i : Nat) (kept : TopK α) :
    kdtreeSearchTopkRec a (.node p r lt rt axis s deleted i) kept =
      let kept := kdtreeSearchTopkRec a (near a.query p axis lt rt) (visitNode a p r deleted kept)
      if crossesSplit a p axis kept then
        kdtreeSearchTopkRec a (far a.query p axis lt rt) kept
      else kept := by
  simp only [kdtreeSearchTopkRec, near, far]
  split <;> rfl

omit [Sub α] [Mul α] in
theorem keeps_visitNode (hk : 0 < a.k) {before : List (PointRec α)} {kept : TopK α}
    (h : a.Keeps before kept) (p : List α) (r : Rowid)
    (deleted : Bool) :
    a.Keeps (before ++ self p r deleted) (visitNode a p r deleted kept) := by
  unfold SearchArgs.Keeps at h ⊢
  rw [SearchArgs.entries_append, ← Multiset.coe_add, add_comm]
  unfold visitNode self
  cases deleted with
  | true => simpa [SearchArgs.entries] using h
  | false =>
    by_cases helig : a.eligible ⟨p, r⟩
    · have hcond : (!a.map.preFilter || bsearch r a.map.rowids) = true := helig
      simpa [SearchArgs.entries, helig, hcond, SearchArgs.entry] using
        smallest_topkInsert hk h r (a.distfunc a.query p)
    · have hcond : ¬ (!a.map.preFilter || bsearch r a.map.rowids) = true := helig
      simp only [Bool.false_eq_true, if_false, hcond]
      simpa [SearchArgs.entries, helig] using h

theorem keeps_of_not_crossesSplit (hk : 0 < a.k) {before later : List (PointRec α)}
    {kept : TopK α} (h : a.Keeps before kept) {p : List α} {axis : Nat}
    (hsafe : SafeSplit a.query a.distfunc a.fltMax p axis before later)
    (hcross : crossesSplit a p axis kept = false) :
    a.Keeps (before ++ later) kept := by
  unfold SearchArgs.Keeps at h ⊢
  rw [SearchArgs.entries_append, ← Multiset.coe_add]
  unfold crossesSplit at hcross
  rw [decide_eq_false_iff_not, not_lt] at hcross
  by_cases hfull : kept.length = a.k
  · rw [if_pos hfull] at hcross
    have hne : kept ≠ [] := by
      rintro rfl
      exact hk.ne hfull
    refine h.add_of_le hfull (fun x hx y hy => ?_)
    obtain ⟨w, hw, -, rfl⟩ := a.mem_entries (Multiset.mem_coe.mp (Multiset.mem_of_le h.le hx))
    obtain ⟨u, hu, -, rfl⟩ := a.mem_entries (Multiset.mem_coe.mp hy)
    exact (hsafe u hu).2 w hw (((maxEntry_spec hne).2 _ hx).trans hcross)
  · rw [if_neg hfull] at hcross
    have hempty : later = [] := by
      apply List.eq_nil_iff_forall_not_mem.mpr
      intro u hu
      exact absurd (hsafe u hu).1 (not_lt.mpr hcross)
    simpa [hempty, SearchArgs.entries] using h

theorem keeps_kdtreeSearchTopkRec (hk : 0 < a.k) {before : List (PointRec α)} (n : KDNode α)
    {kept : TopK α} (h : a.Keeps before kept)
    (hsafe : PrunesSafely a.query a.distfunc a.fltMax before n) :
    a.Keeps (before ++ visitOrder a.query n) (kdtreeSearchTopkRec a n kept) := by
  induction n using near_far_induction a.query generalizing before kept with
  | nil => simpa [visitOrder, kdtreeSearchTopkRec] using h
  | node p r lt rt axis s deleted i ihnear ihfar =>
    obtain ⟨hnear, hfar, hsplit⟩ := (prunesSafely_node ..).mp hsafe
    have hself := keeps_visitNode a hk h p r deleted
    have hkept := ihnear hself hnear
    rw [kdtreeSearchTopkRec_node, visitOrder_node, ← List.append_assoc, ← List.append_assoc]
    dsimp only
    split
    · exact ihfar hkept hfar
    next hcross => exact keeps_of_not_crossesSplit a hk hkept hsplit (by simpa using hcross)

end Forward

end SqliteMultimodal.Vec.KdTree
