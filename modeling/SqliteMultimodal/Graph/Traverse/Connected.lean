import Mathlib.Combinatorics.SimpleGraph.Acyclic
import SqliteMultimodal.Graph.Traverse.Ball
import SqliteMultimodal.Lib.Bfs

namespace SqliteMultimodal.Graph.Traverse

open Levels

section Defs

/-- `none` is an error: the edges cannot be counted. -/
def graphIsConnectedFunc (tables : Tables) : Option Int :=
  let nNodes := tables.nodes.length
  if nNodes ≤ 1 then some 1
  else
    match tables.edges with
    | none => none
    | some edges => some (if nNodes - 1 ≤ edges.length then 1 else 0)

def graphShortestPathUnweighted (fuel : Nat) (tables : Tables) (iStartId _iEndId : Int) :
    Option (Code × Option Text) :=
  graphBFS fuel tables iStartId (-1)

def countVisited : Option Text → Nat
  | none => 0
  | some zPath => zPath.count ',' + if '[' ∈ zPath then 1 else 0

def graphIsConnected (fuel : Nat) (tables : Tables) : Option Int :=
  let nNodes := tables.nodes.length
  if nNodes ≤ 1 then some 1
  else
    let iStartId := tables.nodes.headD (-1)
    if iStartId = -1 then some 0
    else
      match graphShortestPathUnweighted fuel tables iStartId (-1) with
      | none => none
      | some (_, zPath) => some (if countVisited zPath = nNodes then 1 else 0)

end Defs

section Joined

variable {nodes : List Int} {edges : List Edge} {i j : Int}

def Joined (edges : List Edge) (i j : Int) : Prop :=
  Relation.ReflTransGen (fun i j => (⟨i, j⟩ : Edge) ∈ edges ∨ (⟨j, i⟩ : Edge) ∈ edges) i j

theorem Joined.symm (h : Joined edges i j) : Joined edges j i := by
  induction h with
  | refl => exact .refl
  | tail _ hstep ih => exact .head hstep.symm ih

theorem Joined.of_reach (h : Bfs.Reach (targets edges) i j) : Joined edges i j := by
  induction h with
  | refl => exact .refl
  | tail _ hstep ih => exact ih.tail (.inl (mem_targets.mp hstep))

def Stored (nodes : List Int) (edges : List Edge) : Prop :=
  ∀ e ∈ edges, e.fromId ∈ nodes ∧ e.toId ∈ nodes

def undirected (nodes : List Int) (edges : List Edge) : SimpleGraph {i // i ∈ nodes} :=
  SimpleGraph.fromRel fun i j => ⟨i, j⟩ ∈ edges

theorem Stored.reachable (h : Stored nodes edges) (hi : i ∈ nodes) (hj : Joined edges i j) :
    ∃ hj : j ∈ nodes, (undirected nodes edges).Reachable ⟨i, hi⟩ ⟨j, hj⟩ := by
  induction hj with
  | refl => exact ⟨hi, .refl _⟩
  | @tail j k _ hstep ih =>
    obtain ⟨hj, hreach⟩ := ih
    have hk : k ∈ nodes := hstep.elim (fun he => (h _ he).2) fun he => (h _ he).1
    refine ⟨hk, ?_⟩
    by_cases hjk : j = k
    · subst hjk
      exact hreach
    · have hadj : (undirected nodes edges).Adj ⟨j, hj⟩ ⟨k, hk⟩ :=
        (SimpleGraph.fromRel_adj _ _ _).mpr ⟨fun heq => hjk (congrArg Subtype.val heq), hstep⟩
      exact hreach.trans hadj.reachable

def Stored.ends (h : Stored nodes edges) (e : {e // e ∈ edges}) : Sym2 {i // i ∈ nodes} :=
  s(⟨e.1.fromId, (h e.1 e.2).1⟩, ⟨e.1.toId, (h e.1 e.2).2⟩)

theorem Stored.card_edgeSet_le (h : Stored nodes edges) :
    Nat.card (undirected nodes edges).edgeSet ≤ edges.length := by
  classical
  have hsub : (undirected nodes edges).edgeSet ⊆ ((edges.attach.map h.ends).toFinset : Set _) := by
    intro e he
    induction e with
    | _ i j =>
      rw [SimpleGraph.mem_edgeSet, undirected, SimpleGraph.fromRel_adj] at he
      simp only [List.coe_toFinset, List.mem_map, Set.mem_ofPred_eq]
      obtain he | he := he.2
      · exact ⟨⟨_, he⟩, List.mem_attach _ _, rfl⟩
      · exact ⟨⟨_, he⟩, List.mem_attach _ _, Sym2.eq_swap⟩
  calc Nat.card (undirected nodes edges).edgeSet
    _ = (undirected nodes edges).edgeSet.ncard := rfl
    _ ≤ (edges.attach.map h.ends).toFinset.card := by
      rw [← Set.ncard_coe_finset]
      exact Set.ncard_le_ncard hsub
    _ ≤ (edges.attach.map h.ends).length := List.toFinset_card_le _
    _ = edges.length := by rw [List.length_map, List.length_attach]

theorem Stored.length_le (h : Stored nodes edges) (hnodup : nodes.Nodup) (hi : i ∈ nodes)
    (hall : ∀ j ∈ nodes, Joined edges i j) : nodes.length ≤ edges.length + 1 := by
  have hconnected : (undirected nodes edges).Connected := by
    rw [SimpleGraph.connected_iff_exists_forall_reachable]
    exact ⟨⟨i, hi⟩, fun ⟨j, hj⟩ => (h.reachable hi (hall j hj)).2⟩
  have hcard : Nat.card {i // i ∈ nodes} = nodes.length := by
    classical
    rw [Nat.card_eq_fintype_card, Fintype.card_of_subtype nodes.toFinset fun i => List.mem_toFinset,
      List.toFinset_card_of_nodup hnodup]
  have hle := hconnected.card_vert_le_card_edgeSet_add_one
  rw [hcard] at hle
  exact hle.trans (Nat.succ_le_succ h.card_edgeSet_le)

end Joined

section Count

variable {ids : List Int}

theorem count_comma_listed (ids : List Int) (hne : ids ≠ []) :
    (listed ids ++ [']']).count ',' + 1 = ids.length := by
  have hid : ∀ i : Int, (Text.ofInt i).count ',' = 0 := fun i =>
    List.count_eq_zero.mpr (Text.not_mem_ofInt rfl (by decide) i)
  have hrest : ∀ ids : List Int, ((ids.map Text.ofInt).flatMap (',' :: ·)).count ',' =
      ids.length := by
    intro ids
    induction ids with
    | nil => rfl
    | cons i ids ih =>
      rw [List.map_cons, List.flatMap_cons, List.count_append, List.count_cons_self, hid, ih,
        List.length_cons, Nat.zero_add, Nat.add_comm]
  cases ids with
  | nil => exact absurd rfl hne
  | cons i ids =>
    rw [listed, List.map_cons, Text.join_cons_flatMap, List.cons_append,
      List.count_cons_of_ne (by decide), List.count_append, List.count_append, hid, hrest,
      Nat.zero_add]
    rfl

theorem countVisited_listed (hne : ids ≠ []) :
    countVisited (some (listed ids ++ [']'])) = ids.length := by
  have hmem : '[' ∈ listed ids ++ [']'] := List.mem_cons_self
  rw [countVisited, if_pos hmem, count_comma_listed ids hne]

end Count

section Decides

variable {nodes : List Int} {edges : List Edge} {iStartId : Int}

def Decides (nodes : List Int) (edges : List Edge) : Prop :=
  ∃ verdict, graphIsConnectedFunc ⟨nodes, some edges⟩ = some verdict ∧
    Fuel.Settles (fun fuel => graphIsConnected fuel ⟨nodes, some edges⟩) (some verdict) ∧
    (verdict = 1 ↔ ∀ i ∈ nodes, ∀ j ∈ nodes, Joined edges i j)

theorem walks_iff_reach {i : Int} :
    (∃ n, Walks (targets edges) iStartId n i) ↔ Bfs.Reach (targets edges) iStartId i := by
  constructor
  · rintro ⟨n, h⟩
    induction h with
    | start => exact .refl
    | step _ hj ih => exact ih.tail hj
  · intro h
    induction h with
    | refl => exact ⟨0, .start⟩
    | tail _ hj ih =>
      obtain ⟨n, hn⟩ := ih
      exact ⟨n + 1, hn.step hj⟩

theorem Stored.mem_of_reach (h : Stored nodes edges) (hstart : iStartId ∈ nodes) {i : Int}
    (hi : Bfs.Reach (targets edges) iStartId i) : i ∈ nodes := by
  cases hi with
  | refl => exact hstart
  | tail _ hj => exact (h _ (mem_targets.mp hj)).2

theorem graphIsConnected_settles (hnodup : nodes.Nodup) (hstored : Stored nodes edges)
    (hlength : ¬ nodes.length ≤ 1) (hstart : nodes.head? = some iStartId) :
    ∃ verdict : Int, Fuel.Settles (fun fuel => graphIsConnected fuel ⟨nodes, some edges⟩)
        (some verdict) ∧ (verdict = 0 ∨ verdict = 1) ∧
      (verdict = 1 ↔ iStartId ≠ -1 ∧ ∀ v ∈ nodes, Bfs.Reach (targets edges) iStartId v) := by
  have hhead : nodes.headD (-1) = iStartId := by
    rw [List.headD_eq_head?_getD, hstart]
    rfl
  by_cases hminus : iStartId = -1
  · refine ⟨0, .of_eq fun fuel => ?_, .inl rfl, iff_of_false (by decide) fun h => h.1 hminus⟩
    simp only [graphIsConnected, hlength, hhead, hminus, if_true, if_false]
  · obtain ⟨q, ⟨n, hbfs⟩, hleveled⟩ := graphBFS_leveled nodes edges iStartId (-1)
    have hne : q.map Prod.fst ≠ [] := by
      intro hnil
      have := hleveled.head
      rw [List.map_eq_nil_iff.mp hnil] at this
      cases this
    have hmem : ∀ i, i ∈ q.map Prod.fst ↔ Bfs.Reach (targets edges) iStartId i := by
      intro i
      rw [hleveled.mem_map_iff (Nat.le_refl _), ← walks_iff_reach]
      constructor
      · rintro ⟨d, hdist, _⟩
        exact ⟨d, hdist.1⟩
      · rintro ⟨n, hn⟩
        obtain ⟨d, _, hdist⟩ := hn.exists_isDist
        exact ⟨d, hdist, open_within_iff.mpr (.inl (by decide))⟩
    have hsub : ∀ i ∈ q.map Prod.fst, i ∈ nodes := fun i hi =>
      hstored.mem_of_reach (List.mem_of_mem_head? hstart) ((hmem i).mp hi)
    have hall : (q.map Prod.fst).length = nodes.length ↔
        ∀ v ∈ nodes, Bfs.Reach (targets edges) iStartId v := by
      constructor
      · intro hlen v hv
        have hperm := (List.subperm_of_subset hleveled.nodup hsub).perm_of_length_le hlen.ge
        exact (hmem v).mp (hperm.mem_iff.mpr hv)
      · intro hreach
        refine (List.perm_of_nodup_nodup_toFinset_eq hleveled.nodup hnodup ?_).length_eq
        ext i
        rw [List.mem_toFinset, List.mem_toFinset]
        exact ⟨hsub i, fun hi => (hmem i).mpr (hreach i hi)⟩
    refine ⟨if (q.map Prod.fst).length = nodes.length then 1 else 0, ⟨n, fun m hm => ?_⟩, ?_, ?_⟩
    · have hbfs : graphBFS m ⟨nodes, some edges⟩ iStartId (-1) = _ := hbfs m hm
      simp only [graphIsConnected, graphShortestPathUnweighted, hlength, hhead, hminus, hbfs,
        countVisited_listed hne, if_false]
    · split
      · exact .inr rfl
      · exact .inl rfl
    · rw [← hall]
      split
      next hlen => exact iff_of_true rfl ⟨hminus, hlen⟩
      next hlen => exact iff_of_false (by decide) fun h => hlen h.2

theorem decides_iff (hnodup : nodes.Nodup) (hstored : Stored nodes edges) :
    Decides nodes edges ↔ nodes.length ≤ 1 ∨ edges.length < nodes.length - 1 ∨
      ∃ iStartId, nodes.head? = some iStartId ∧ iStartId ≠ -1 ∧
        ∀ v ∈ nodes, Bfs.Reach (targets edges) iStartId v := by
  by_cases hlength : nodes.length ≤ 1
  · refine iff_of_true ⟨1, ?_, .of_eq fun fuel => ?_, iff_of_true rfl fun i hi j hj => ?_⟩
      (.inl hlength)
    · simp only [graphIsConnectedFunc, hlength, if_true]
    · simp only [graphIsConnected, hlength, if_true]
    · obtain rfl : i = j := by
        match nodes, hlength with
        | [k], _ => rw [List.mem_singleton.mp hi, List.mem_singleton.mp hj]
      exact .refl
  obtain ⟨iStartId, hstart⟩ : ∃ iStartId, nodes.head? = some iStartId := by
    cases nodes with
    | nil => exact absurd (Nat.zero_le 1) hlength
    | cons i _ => exact ⟨i, rfl⟩
  have hmem : iStartId ∈ nodes := List.mem_of_mem_head? hstart
  obtain ⟨verdict, hsettles, hbool, hverdict⟩ :=
    graphIsConnected_settles hnodup hstored hlength hstart
  have hfunc : graphIsConnectedFunc ⟨nodes, some edges⟩ =
      some (if nodes.length - 1 ≤ edges.length then 1 else 0) := by
    simp only [graphIsConnectedFunc, hlength, if_false]
  have hjoined : (∀ v ∈ nodes, Bfs.Reach (targets edges) iStartId v) →
      ∀ i ∈ nodes, ∀ j ∈ nodes, Joined edges i j := fun hreach i hi j hj =>
    (Joined.of_reach (hreach i hi)).symm.trans (Joined.of_reach (hreach j hj))
  have hcount : (∀ i ∈ nodes, ∀ j ∈ nodes, Joined edges i j) →
      nodes.length - 1 ≤ edges.length := fun hall =>
    Nat.sub_le_of_le_add (hstored.length_le hnodup hmem (hall iStartId hmem))
  have hcond : (∃ i, nodes.head? = some i ∧ i ≠ -1 ∧
      ∀ v ∈ nodes, Bfs.Reach (targets edges) i v) ↔ verdict = 1 := by
    rw [hverdict, hstart]
    simp only [Option.some.injEq, exists_eq_left']
  rw [hcond, or_iff_right hlength]
  constructor
  · rintro ⟨verdict', hfunc', hsettles', hmeans⟩
    cases hsettles.unique hsettles'
    rw [hfunc] at hfunc'
    by_cases hedges : nodes.length - 1 ≤ edges.length
    · rw [if_pos hedges] at hfunc'
      exact .inr (Option.some.inj hfunc').symm
    · exact .inl (Nat.lt_of_not_le hedges)
  · intro hcond
    by_cases hone : verdict = 1
    · have hall := hjoined (hverdict.mp hone).2
      refine ⟨verdict, ?_, hsettles, iff_of_true hone hall⟩
      rw [hfunc, if_pos (hcount hall), hone]
    · have hfew := Nat.not_le_of_lt (hcond.resolve_right hone)
      refine ⟨verdict, ?_, hsettles, iff_of_false hone fun hall => hfew (hcount hall)⟩
      rw [hfunc, if_neg hfew, hbool.resolve_right hone]

theorem chain_decides : Decides [1, 2, 3] [⟨1, 2⟩, ⟨2, 3⟩] := by
  refine (decides_iff (by decide) ?_).mpr (.inr (.inr ⟨1, rfl, by decide, ?_⟩))
  · intro e he
    fin_cases he <;> decide
  · have htwo : Bfs.Reach (targets [⟨1, 2⟩, ⟨2, 3⟩]) 1 2 := .tail .refl (by decide)
    intro v hv
    fin_cases hv
    · exact .refl
    · exact htwo
    · exact htwo.tail (by decide)

theorem not_decides_backwards : ¬ Decides [1, 2] [⟨2, 1⟩] := by
  rintro ⟨verdict, hfunc, hsettles, _⟩
  have hstored : Stored [1, 2] [⟨2, 1⟩] := by
    intro e he
    obtain rfl := List.mem_singleton.mp he
    decide
  obtain ⟨verdict', hsettles', _, hverdict⟩ :=
    graphIsConnected_settles (by decide) hstored (by decide) rfl
  cases hsettles'.unique hsettles
  have hone : verdict = 1 := (Option.some.inj hfunc).symm
  obtain heq | ⟨i, hi, _⟩ := ((hverdict.mp hone).2 2 (by decide)).cases_head
  · exact absurd heq (by decide)
  · exact absurd hi (List.not_mem_nil)

end Decides

end SqliteMultimodal.Graph.Traverse
