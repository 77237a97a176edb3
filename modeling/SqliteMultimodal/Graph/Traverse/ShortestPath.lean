import SqliteMultimodal.Graph.Traverse.Ball
import SqliteMultimodal.Lib.Bfs
import SqliteMultimodal.Lib.Except

namespace SqliteMultimodal.Graph.Traverse.ShortestPath

section Defs

inductive Fault
  | running | subscript
  deriving DecidableEq, Repr

structure Search where
  q : Queue
  visited : List Int
  pPredecessor : List Int

def visitNeighbor (currentNodeId : Int) (s : Search) (neighborId : Int) : Except Fault Search :=
  if s.visited.any (· = neighborId) then .ok s
  else if 0 ≤ neighborId ∧ neighborId < s.pPredecessor.length then .ok {
    q := graphQueueEnqueue s.q neighborId
    visited := neighborId :: s.visited
    pPredecessor := s.pPredecessor.set neighborId.toNat currentNodeId }
  else .error .subscript

def search (tables : Tables) (iEndId : Int) : Nat → Search → Except Fault Search
  | 0, _ => .error .running
  | fuel + 1, s =>
    match graphQueueDequeue s.q with
    | none => .ok s
    | some (currentNodeId, q) =>
      if currentNodeId = iEndId then .ok { s with q }
      else
        match tables.rowsFrom currentNodeId with
        | none => search tables iEndId fuel { s with q }
        | some rows => do
          let s ← rows.foldlM (visitNeighbor currentNodeId) { s with q }
          search tables iEndId fuel s

def buildPath (pPredecessor : List Int) : Nat → Int → Text → Except Fault Text
  | 0, _, _ => .error .running
  | fuel + 1, iCurrent, zPath =>
    if iCurrent = -1 then .ok zPath
    else if 0 ≤ iCurrent ∧ iCurrent < pPredecessor.length then
      let zPath := zPath ++ Text.ofInt iCurrent
      let iCurrent := pPredecessor.getD iCurrent.toNat (-1)
      buildPath pPredecessor fuel iCurrent (if iCurrent ≠ -1 then zPath ++ [','] else zPath)
    else .error .subscript

def graphShortestPathFunc (fuel : Nat) (tables : Tables) (iStartId iEndId : Int) :
    Except Fault Text :=
  let nNodes := tables.nodes.length
  if nNodes = 0 then .ok "[]".toList
  else do
    let s ← search tables iEndId fuel
      ⟨graphQueueEnqueue [] iStartId, [iStartId], List.replicate (nNodes + 1) (-1)⟩
    let zPath ← buildPath s.pPredecessor fuel iEndId ['[']
    .ok (zPath ++ [']'])

end Defs

section Path

variable {pPredecessor : List Int} {iCurrent : Int} {fuel : Nat} {zPath path : Text}

theorem buildPath_printed (h : buildPath pPredecessor fuel iCurrent zPath = .ok path) :
    ∃ ids : List Int, path = zPath ++ Text.join ',' (ids.map Text.ofInt) ∧
      (iCurrent = -1 → ids = []) ∧ (iCurrent ≠ -1 → ids.head? = some iCurrent) := by
  induction fuel generalizing iCurrent zPath with
  | zero => cases h
  | succ fuel ih =>
    rw [buildPath] at h
    split at h
    next hend =>
      cases h
      exact ⟨[], (List.append_nil _).symm, fun _ => rfl, fun hne => absurd hend hne⟩
    next hend =>
      split at h
      case isFalse => cases h
      obtain ⟨ids, rfl, hnil, hhead⟩ := ih h
      refine ⟨iCurrent :: ids, ?_, fun hend' => absurd hend' hend, fun _ => rfl⟩
      by_cases hlast : pPredecessor.getD iCurrent.toNat (-1) = -1
      · rw [if_neg (not_not_intro hlast), hnil hlast]
        simp [Text.join]
      · have hne : ids.map Text.ofInt ≠ [] := by
          intro heq
          have := hhead hlast
          rw [List.map_eq_nil_iff.mp heq] at this
          cases this
        rw [if_pos hlast, List.map_cons, Text.join_cons ',' _ hne]
        simp only [List.append_assoc, List.singleton_append]

end Path

section Search

variable {edges : List Edge} {nodes : List Int} {iStartId iEndId i : Int} {nNodes fuel qh : Nat}
  {q : List Int} {s s' : Search}

/-- The state of the loop after `qh` nodes have been taken from a queue that keeps them. -/
structure Recorded (nNodes : Nat) (iStartId : Int) (q : List Int) (qh : Nat) (s : Search) :
    Prop where
  queue : s.q = q.drop qh
  visited : s.visited = q.reverse
  length : s.pPredecessor.length = nNodes + 1
  fits : ∀ v ∈ q, v ≠ iStartId → 0 ≤ v ∧ v ≤ nNodes
  untouched : ∀ v, 0 ≤ v → v ∉ q → s.pPredecessor.getD v.toNat (-1) = -1

theorem untouched_of_replicate (n : Nat) (i : Int) :
    (List.replicate n (-1 : Int)).getD i.toNat (-1) = -1 := by
  rw [List.getD_eq_getElem?_getD, List.getElem?_replicate]
  split <;> rfl

theorem recorded_init (nNodes : Nat) (iStartId : Int) : Recorded nNodes iStartId [iStartId] 0
    ⟨graphQueueEnqueue [] iStartId, [iStartId], List.replicate (nNodes + 1) (-1)⟩ where
  queue := rfl
  visited := rfl
  length := List.length_replicate
  fits _ hv hne := absurd (List.mem_singleton.mp hv) hne
  untouched v _ _ := untouched_of_replicate _ v

theorem Recorded.visitNeighbor (h : Recorded nNodes iStartId q qh s) (hqh : qh ≤ q.length)
    (currentNodeId j : Int) : (∃ s', visitNeighbor currentNodeId s j = .ok s' ∧
        Recorded nNodes iStartId (if j ∈ q then q else q ++ [j]) qh s') ∨
      visitNeighbor currentNodeId s j = .error .subscript ∧ j ∉ q ∧ ¬ (0 ≤ j ∧ j ≤ nNodes) := by
  have hany : (s.visited.any (· = j)) = true ↔ j ∈ q := by
    rw [h.visited, ← List.mem_reverse]
    exact contains_iff
  unfold ShortestPath.visitNeighbor
  by_cases hj : j ∈ q
  · rw [if_pos (hany.mpr hj), if_pos hj]
    exact .inl ⟨s, rfl, h⟩
  · rw [if_neg (mt hany.mp hj), if_neg hj, h.length]
    by_cases hfits : 0 ≤ j ∧ j ≤ nNodes
    · have hlt : 0 ≤ j ∧ j < (nNodes + 1 : Nat) := by omega
      rw [if_pos hlt]
      refine .inl ⟨_, rfl, ?_, ?_, ?_, ?_, ?_⟩
      · rw [graphQueueEnqueue, h.queue, List.drop_append_of_le_length hqh]
      · rw [List.reverse_append, h.visited]
        rfl
      · rw [List.length_set, h.length]
      · intro v hv hne
        obtain hv | hv := List.mem_append.mp hv
        · exact h.fits v hv hne
        · rwa [List.mem_singleton.mp hv]
      · intro v hpos hv
        rw [List.mem_append, List.mem_singleton, not_or] at hv
        have hne : j.toNat ≠ v.toNat := by
          have := hv.2
          omega
        rw [List.getD_eq_getElem?_getD, List.getElem?_set_ne hne, ← List.getD_eq_getElem?_getD]
        exact h.untouched v hpos hv.1
    · have hlt : ¬ (0 ≤ j ∧ j < (nNodes + 1 : Nat)) := by omega
      rw [if_neg hlt]
      exact .inr ⟨rfl, hj, hfits⟩

theorem Recorded.visitNeighbors (h : Recorded nNodes iStartId q qh s) (hqh : qh ≤ q.length)
    (currentNodeId : Int) (js : List Int) :
    (∃ s', js.foldlM (ShortestPath.visitNeighbor currentNodeId) s = .ok s' ∧
        Recorded nNodes iStartId (Bfs.enqueue js q) qh s') ∨
      js.foldlM (ShortestPath.visitNeighbor currentNodeId) s = .error .subscript ∧
        ∃ j ∈ js, j ∉ q ∧ ¬ (0 ≤ j ∧ j ≤ nNodes) := by
  induction js generalizing q s with
  | nil => exact .inl ⟨s, rfl, h⟩
  | cons j js ih =>
    rw [List.foldlM_cons, Bfs.enqueue_cons]
    obtain ⟨s', hs', hrec⟩ | ⟨hs', hnew, hfits⟩ := h.visitNeighbor hqh currentNodeId j
    · have hle : qh ≤ (if j ∈ q then q else q ++ [j]).length := by
        split
        · exact hqh
        · exact hqh.trans (List.length_append ▸ Nat.le_add_right _ _)
      rw [hs', Except.ok_bind]
      obtain hok | ⟨hfault, k, hk, hnew, hfits⟩ := ih hrec hle
      · exact .inl hok
      · refine .inr ⟨hfault, k, List.mem_cons_of_mem j hk, fun hkq => hnew ?_, hfits⟩
        split
        · exact hkq
        · exact List.mem_append_left _ hkq
    · rw [hs']
      exact .inr ⟨rfl, j, List.mem_cons_self, hnew, hfits⟩

theorem reach_mem_endpoints (h : Bfs.Reach (targets edges) iStartId i) :
    i ∈ endpoints edges iStartId := by
  cases h with
  | refl => exact start_mem_endpoints
  | tail _ hj => exact target_mem_endpoints hj

theorem search_unreached (nodes : List Int)
    (hend : ¬ Bfs.Reach (targets edges) iStartId iEndId) (h : Recorded nNodes iStartId q qh s)
    (hvisited : Bfs.Visited (targets edges) iStartId q qh) (hqh : qh ≤ q.length)
    (hfuel : (endpoints edges iStartId).card < fuel + qh) :
    (∃ s' q', search ⟨nodes, some edges⟩ iEndId fuel s = .ok s' ∧
        Recorded nNodes iStartId q' q'.length s' ∧
        Bfs.Visited (targets edges) iStartId q' q'.length) ∨
      search ⟨nodes, some edges⟩ iEndId fuel s = .error .subscript ∧
        ∃ v, Bfs.Reach (targets edges) iStartId v ∧ v ≠ iStartId ∧ ¬ (0 ≤ v ∧ v ≤ nNodes) := by
  induction fuel generalizing q qh s with
  | zero =>
    have := hvisited.length_le fun i => reach_mem_endpoints
    omega
  | succ fuel ih =>
    rw [search, h.queue]
    cases hi : q[qh]? with
    | none =>
      have hqh' : qh = q.length := le_antisymm hqh (List.getElem?_eq_none_iff.mp hi)
      subst hqh'
      rw [List.drop_length]
      exact .inl ⟨s, q, rfl, h, hvisited⟩
    | some i =>
      obtain ⟨hlt, hget⟩ := List.getElem?_eq_some_iff.mp hi
      have hreach : Bfs.Reach (targets edges) iStartId i := hvisited.reach i (List.mem_of_getElem? hi)
      have hne : i ≠ iEndId := fun heq => hend (heq ▸ hreach)
      have hrec : Recorded nNodes iStartId q (qh + 1) { s with q := q.drop (qh + 1) } :=
        ⟨rfl, h.visited, h.length, h.fits, h.untouched⟩
      rw [List.drop_eq_getElem_cons hlt, hget]
      simp only [graphQueueDequeue, if_neg hne, Tables.rowsFrom, Option.map_some]
      obtain ⟨s', hs', hrec⟩ | ⟨hs', j, hj, hnew, hfits⟩ :=
        hrec.visitNeighbors hlt i (targets edges i)
      · have hle : qh + 1 ≤ (Bfs.enqueue (targets edges i) q).length :=
          Nat.le_trans hlt (Bfs.prefix_enqueue _ q).length_le
        rw [hs', Except.ok_bind]
        exact ih hrec (hvisited.step hi) hle (by omega)
      · rw [hs', Except.error_bind]
        refine .inr ⟨rfl, j, hreach.tail hj, fun heq => hnew ?_, hfits⟩
        exact heq ▸ hvisited.start_mem

end Search

section Exact

variable {edges : List Edge} {nodes ids : List Int} {iStartId iEndId : Int}

structure IsPath (edges : List Edge) (iStartId iEndId : Int) (ids : List Int) : Prop where
  first : ids.head? = some iStartId
  last : ids.getLast? = some iEndId
  chain : ids.IsChain fun i j => j ∈ targets edges i

structure IsShortest (edges : List Edge) (iStartId iEndId : Int) (ids : List Int) : Prop where
  path : IsPath edges iStartId iEndId ids
  least : ∀ ids', IsPath edges iStartId iEndId ids' → ids.length ≤ ids'.length

def Meets (nodes : List Int) (edges : List Edge) (iStartId iEndId : Int) : Prop :=
  ∃ path ids, Fuel.Settles
      (fun fuel => graphShortestPathFunc fuel ⟨nodes, some edges⟩ iStartId iEndId) (.ok path) ∧
    Lists (some path) ids ∧
    (Bfs.Reach (targets edges) iStartId iEndId → IsShortest edges iStartId iEndId ids) ∧
    (¬ Bfs.Reach (targets edges) iStartId iEndId → ids.getLast? ≠ some iEndId)

theorem isShortest_single (edges : List Edge) (iStartId : Int) :
    IsShortest edges iStartId iStartId [iStartId] where
  path := ⟨rfl, rfl, List.isChain_singleton _⟩
  least ids' h := by
    have hne : ids' ≠ [] := by
      rintro rfl
      cases h.first
    exact List.length_pos_iff.mpr hne

theorem lists_nil : Lists (some "[]".toList) [] := lists_listed []

theorem meets_nil_iff : Meets [] edges iStartId iEndId ↔
    ¬ Bfs.Reach (targets edges) iStartId iEndId := by
  have hreturns : Fuel.Settles
      (fun fuel => graphShortestPathFunc fuel ⟨[], some edges⟩ iStartId iEndId)
      (.ok "[]".toList) := .of_eq fun _ => rfl
  constructor
  · rintro ⟨path, ids, hsettles, hids, hshortest, _⟩ hreach
    cases hreturns.unique hsettles
    have hfirst := (hshortest hreach).path.first
    rw [hids.unique lists_nil] at hfirst
    cases hfirst
  · intro hreach
    refine ⟨_, [], hreturns, lists_nil, fun h => absurd h hreach, fun _ h => ?_⟩
    cases h

theorem returned {fuel : Nat} {path : Text} (hnodes : nodes ≠ [])
    (h : graphShortestPathFunc fuel ⟨nodes, some edges⟩ iStartId iEndId = .ok path) :
    ∃ s zPath, search ⟨nodes, some edges⟩ iEndId fuel
        ⟨graphQueueEnqueue [] iStartId, [iStartId], List.replicate (nodes.length + 1) (-1)⟩ = .ok s ∧
      buildPath s.pPredecessor fuel iEndId ['['] = .ok zPath ∧ path = zPath ++ [']'] := by
  have hlength : nodes.length ≠ 0 := fun h => hnodes (List.length_eq_zero_iff.mp h)
  rw [graphShortestPathFunc] at h
  simp only [hlength, if_false, Except.bind_eq_ok] at h
  obtain ⟨s, hs, zPath, hpath, heq⟩ := h
  cases heq
  exact ⟨s, zPath, hs, hpath, rfl⟩

theorem returns {fuel : Nat} {s : Search} {zPath : Text} (hnodes : nodes ≠ [])
    (hs : search ⟨nodes, some edges⟩ iEndId fuel ⟨graphQueueEnqueue [] iStartId, [iStartId],
      List.replicate (nodes.length + 1) (-1)⟩ = .ok s)
    (hpath : buildPath s.pPredecessor fuel iEndId ['['] = .ok zPath) :
    graphShortestPathFunc fuel ⟨nodes, some edges⟩ iStartId iEndId = .ok (zPath ++ [']']) := by
  have hlength : nodes.length ≠ 0 := fun h => hnodes (List.length_eq_zero_iff.mp h)
  rw [graphShortestPathFunc]
  simp only [hlength, if_false, hs, Except.ok_bind, hpath]

theorem ids_of_returned {fuel : Nat} {path : Text} (hnodes : nodes ≠ [])
    (h : graphShortestPathFunc fuel ⟨nodes, some edges⟩ iStartId iEndId = .ok path)
    (hids : Lists (some path) ids) :
    (iEndId = -1 → ids = []) ∧ (iEndId ≠ -1 → ids.head? = some iEndId) := by
  obtain ⟨s, zPath, _, hpath, rfl⟩ := returned hnodes h
  obtain ⟨ids', rfl, hnil, hhead⟩ := buildPath_printed hpath
  rw [hids.unique (lists_listed ids')]
  exact ⟨hnil, hhead⟩

theorem not_meets_of_reach (hnodes : nodes ≠ [])
    (hreach : Bfs.Reach (targets edges) iStartId iEndId)
    (hne : iStartId ≠ iEndId ∨ iEndId = -1) : ¬ Meets nodes edges iStartId iEndId := by
  rintro ⟨path, ids, ⟨n, hn⟩, hids, hshortest, _⟩
  have hfirst := (hshortest hreach).path.first
  obtain ⟨hnil, hhead⟩ := ids_of_returned hnodes (hn n (Nat.le_refl n)) hids
  by_cases hend : iEndId = -1
  · rw [hnil hend] at hfirst
    cases hfirst
  · rw [hhead hend] at hfirst
    exact (Or.resolve_right hne hend) (Option.some.inj hfirst).symm

theorem buildPath_single {pPredecessor : List Int} {i : Int} {zPath : Text} (fuel : Nat)
    (hne : i ≠ -1) (hfits : 0 ≤ i ∧ i < pPredecessor.length)
    (hlast : pPredecessor.getD i.toNat (-1) = -1) :
    buildPath pPredecessor (fuel + 2) i zPath = .ok (zPath ++ Text.ofInt i) := by
  rw [buildPath, if_neg hne, if_pos hfits]
  simp only [hlast, buildPath, ne_eq, not_true_eq_false, if_false, if_true]

theorem buildPath_outside {pPredecessor : List Int} {i : Int} {zPath path : Text} {fuel : Nat}
    (hne : i ≠ -1) (hfits : ¬ (0 ≤ i ∧ i < pPredecessor.length)) :
    buildPath pPredecessor fuel i zPath ≠ .ok path := by
  cases fuel with
  | zero =>
    intro h
    cases h
  | succ fuel =>
    rw [buildPath, if_neg hne, if_neg hfits]
    intro h
    cases h

theorem search_start (nodes : List Int) (edges : List Edge) (fuel : Nat)
    (pPredecessor : List Int) :
    search ⟨nodes, some edges⟩ iStartId (fuel + 1)
      ⟨graphQueueEnqueue [] iStartId, [iStartId], pPredecessor⟩ =
      .ok ⟨[], [iStartId], pPredecessor⟩ := by
  rw [search]
  exact if_pos rfl

theorem lt_length_iff {pPredecessor : List Int} {n : Nat} (h : pPredecessor.length = n + 1)
    {i : Int} : i < pPredecessor.length ↔ i ≤ n := by
  rw [h]
  omega

theorem meets_start_iff (hnodes : nodes ≠ []) :
    Meets nodes edges iStartId iStartId ↔ 0 ≤ iStartId ∧ iStartId ≤ nodes.length := by
  have hlength : (List.replicate (nodes.length + 1) (-1 : Int)).length = nodes.length + 1 :=
    List.length_replicate
  constructor
  · intro hmeets
    by_cases hne : iStartId = -1
    · exact absurd hmeets (not_meets_of_reach hnodes .refl (.inr hne))
    · obtain ⟨path, ids, ⟨n, hn⟩, _⟩ := hmeets
      obtain ⟨s, zPath, hs, hpath, _⟩ := returned hnodes (hn (n + 1) (Nat.le_succ n))
      rw [search_start] at hs
      cases hs
      by_contra hnot
      refine buildPath_outside hne ?_ hpath
      rwa [lt_length_iff hlength]
  · intro hfits
    have hne : iStartId ≠ -1 := by omega
    refine ⟨_, [iStartId], ⟨2, fun fuel hfuel => ?_⟩, lists_listed [iStartId],
      fun _ => isShortest_single edges iStartId, fun hnot => absurd .refl hnot⟩
    obtain ⟨fuel, rfl⟩ := Nat.exists_eq_add_of_le' hfuel
    rw [listed_singleton]
    refine returns hnodes (search_start nodes edges (fuel + 1) _) ?_
    refine buildPath_single fuel hne ?_ (untouched_of_replicate _ _)
    rwa [lt_length_iff hlength]

theorem meets_unreached_iff (hnodes : nodes ≠ [])
    (hend : ¬ Bfs.Reach (targets edges) iStartId iEndId) : Meets nodes edges iStartId iEndId ↔
      iEndId = -1 ∧ ∀ v, Bfs.Reach (targets edges) iStartId v → v ≠ iStartId →
        0 ≤ v ∧ v ≤ nodes.length := by
  have hsearch := fun fuel => @search_unreached edges iStartId iEndId nodes.length fuel 0 [iStartId]
    _ nodes hend (recorded_init nodes.length iStartId) (.single _ _) (Nat.zero_le _)
  constructor
  · rintro ⟨path, ids, ⟨n, hn⟩, hids, _, hlast⟩
    have hreturned := hn (n + (endpoints edges iStartId).card + 2) (by omega)
    obtain ⟨s, zPath, hs, hpath, rfl⟩ := returned hnodes hreturned
    obtain ⟨s', q, hs', hrec, hvisited⟩ | ⟨hfault, _⟩ :=
      hsearch (n + (endpoints edges iStartId).card + 2) (by omega)
    case inr => cases hs.symm.trans hfault
    cases hs.symm.trans hs'
    have hmem : ∀ v, Bfs.Reach (targets edges) iStartId v → v ∈ q := fun v hv =>
      hvisited.mem_of_reach (Nat.le_refl _) hv
    refine ⟨?_, fun v hv hne => hrec.fits v (hmem v hv) hne⟩
    by_contra hne
    by_cases hfits : 0 ≤ iEndId ∧ iEndId < s.pPredecessor.length
    · have huntouched := hrec.untouched iEndId hfits.1 fun hq => hend (hvisited.reach _ hq)
      rw [buildPath_single _ hne hfits huntouched] at hpath
      cases hpath
      have hsingle : Lists (some (['['] ++ Text.ofInt iEndId ++ [']'])) [iEndId] := by
        have := lists_listed [iEndId]
        rwa [listed_singleton] at this
      rw [hids.unique hsingle] at hlast
      exact hlast hend rfl
    · exact buildPath_outside hne hfits hpath
  · rintro ⟨rfl, hfits⟩
    refine ⟨_, [], ⟨(endpoints edges iStartId).card + 1, fun fuel hfuel => ?_⟩, lists_nil,
      fun h => absurd h hend, fun _ h => ?_⟩
    · obtain ⟨s, q, hs, _, _⟩ | ⟨_, v, hv, hne, hnot⟩ := hsearch fuel hfuel
      · change graphShortestPathFunc fuel ⟨nodes, some edges⟩ iStartId (-1) = .ok (['['] ++ [']'])
        refine returns hnodes hs ?_
        obtain ⟨fuel, rfl⟩ := Nat.exists_eq_add_of_le' hfuel
        rw [← Nat.add_assoc, buildPath, if_pos rfl]
      · exact absurd (hfits v hv hne) hnot
    · cases h

theorem graphShortestPath_meets_iff (nodes : List Int) (edges : List Edge)
    (iStartId iEndId : Int) : Meets nodes edges iStartId iEndId ↔
      nodes = [] ∧ ¬ Bfs.Reach (targets edges) iStartId iEndId ∨
      nodes ≠ [] ∧ iStartId = iEndId ∧ 0 ≤ iEndId ∧ iEndId ≤ nodes.length ∨
      nodes ≠ [] ∧ iEndId = -1 ∧ ¬ Bfs.Reach (targets edges) iStartId iEndId ∧
        ∀ v, Bfs.Reach (targets edges) iStartId v → v ≠ iStartId → 0 ≤ v ∧ v ≤ nodes.length := by
  by_cases hnodes : nodes = []
  · subst hnodes
    rw [meets_nil_iff]
    simp only [true_and, ne_eq, not_true_eq_false, false_and, or_false]
  simp only [hnodes, false_and, false_or, ne_eq, not_false_eq_true, true_and]
  by_cases hreach : Bfs.Reach (targets edges) iStartId iEndId
  · simp only [hreach, not_true_eq_false, false_and, and_false, or_false]
    by_cases hsame : iStartId = iEndId
    · subst hsame
      rw [meets_start_iff hnodes]
      simp only [true_and]
    · simp only [hsame, false_and, iff_false]
      exact not_meets_of_reach hnodes hreach (.inl hsame)
  · have hsame : iStartId ≠ iEndId := fun heq => hreach (heq ▸ .refl)
    rw [meets_unreached_iff hnodes hreach]
    simp only [hsame, false_and, false_or, hreach, not_false_eq_true, true_and]

example : (graphShortestPathFunc 10 ⟨[1, 2, 3], some [⟨1, 2⟩, ⟨2, 3⟩]⟩ 1 3).toOption =
    some "[3,2,1]".toList := by
  decide +kernel

theorem not_meets_edge : ¬ Meets [1, 2] [⟨1, 2⟩] 1 2 := by
  refine not_meets_of_reach (List.cons_ne_nil _ _) (.tail .refl ?_) (.inl (by decide))
  decide

end Exact

end SqliteMultimodal.Graph.Traverse.ShortestPath
