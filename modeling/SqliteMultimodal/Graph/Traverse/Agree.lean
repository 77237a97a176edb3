import SqliteMultimodal.Graph.Traverse.Ball
import SqliteMultimodal.Lib.DepthFirst

namespace SqliteMultimodal.Graph.Traverse

open Levels DepthFirst

section Recursion

variable {nodes : List Int} {iStartId : Int}

def pathOf (seen : List Int) : Option Text := if seen = [] then none else some (listed seen)

def DfsState.of (seen : List Int) : DfsState := ⟨seen, pathOf seen⟩

theorem DfsState.enter_of (seen : List Int) (i : Int) :
    (DfsState.of seen).enter i = .of (seen ++ [i]) := by
  have hne : seen ++ [i] ≠ [] := List.append_ne_nil_of_right_ne_nil seen (List.cons_ne_nil i [])
  rw [of, of, enter, pathOf, pathOf, if_neg hne]
  by_cases h : seen = []
  · subst h
    rw [if_pos rfl, List.nil_append, listed_singleton]
    rfl
  · rw [if_neg h, listed_append_singleton h]
    rfl

theorem stepRows_of {visit : Int → DfsState → Option (Code × DfsState)}
    {explored : List Int → Int → Option (List Int)}
    (h : ∀ j seen, visit j (.of seen) = (explored seen j).map fun seen => (.ok, .of seen))
    (rows seen : List Int) : stepRows visit rows (.of seen) =
      (rows.foldlM explored seen).map fun seen => (.ok, .of seen) := by
  induction rows generalizing seen with
  | nil => rfl
  | cons j rows ih =>
    rw [stepRows, h, List.foldlM_cons]
    cases explored seen j with
    | none => rfl
    | some seen' => exact ih seen'

theorem graphDFSRecursive_eq (nodes : List Int) (edges : List Edge) (nMaxDepth : Int)
    (fuel d : Nat) (i : Int) (seen : List Int) :
    graphDFSRecursive ⟨nodes, some edges⟩ nMaxDepth fuel d i (.of seen) =
      (explore (targets edges) (Within nMaxDepth) fuel d i seen).map
        fun seen => (.ok, .of seen) := by
  induction fuel generalizing d i seen with
  | zero => rfl
  | succ fuel ih =>
    rw [graphDFSRecursive, explore]
    by_cases hd : 0 ≤ nMaxDepth ∧ nMaxDepth ≤ d
    · rw [if_pos hd, if_neg (not_not_intro hd)]
      rfl
    · rw [if_neg hd, if_pos hd]
      by_cases hi : i ∈ seen
      · have hcontains : graphVisitedSetContains (DfsState.of seen).pVisited i = true :=
          contains_iff.mpr hi
        rw [if_pos hcontains, if_pos hi]
        rfl
      · have hcontains : ¬ graphVisitedSetContains (DfsState.of seen).pVisited i = true :=
          fun h => hi (contains_iff.mp h)
        rw [if_neg hcontains, if_neg hi, DfsState.enter_of]
        exact stepRows_of (fun j seen => ih (d + 1) j seen) (targets edges i) (seen ++ [i])

theorem graphDFS_explored (nMaxDepth : Int) (hstart : iStartId ∈ nodes) (edges : List Edge) :
    ∃ fuel seen, explore (targets edges) (Within nMaxDepth) fuel 0 iStartId [] = some seen ∧
      Fuel.Settles (fun fuel => graphDFS fuel ⟨nodes, some edges⟩ iStartId nMaxDepth)
        (some (.ok, (pathOf seen).map (· ++ [']']))) := by
  have htotal : ∃ seen, explore (targets edges) (Within nMaxDepth)
      ((endpoints edges iStartId).card + 1) 0 iStartId [] = some seen ∧
      ∀ w ∈ seen, w ∈ endpoints edges iStartId :=
    explore_total (fun i _ j hj => target_mem_endpoints hj) start_mem_endpoints List.nodup_nil
      (fun w hw => absurd hw List.not_mem_nil) (Nat.lt_succ_self _)
  obtain ⟨seen, hexplore, _⟩ := htotal
  obtain ⟨n, hsettles⟩ := Fuel.Settles.of_succ
    (p := fun fuel => explore (targets edges) (Within nMaxDepth) fuel 0 iStartId [])
    (fun _ _ => explore_succ) hexplore
  refine ⟨_, seen, hexplore, n, fun m hm => ?_⟩
  have hexplore : explore (targets edges) (Within nMaxDepth) m 0 iStartId [] = some seen :=
    hsettles m hm
  have hrec : graphDFSRecursive ⟨nodes, some edges⟩ nMaxDepth m 0 iStartId ⟨[], none⟩ =
      some (.ok, .of seen) := by
    have heq := graphDFSRecursive_eq nodes edges nMaxDepth m 0 iStartId []
    rwa [hexplore, Option.map_some] at heq
  cases hfind : graphFindNode ⟨nodes, some edges⟩ iStartId with
  | none => exact absurd (decide_eq_true rfl) (List.find?_eq_none.mp hfind iStartId hstart)
  | some _ =>
    simp only [graphDFS, hfind, hrec]
    rfl

end Recursion

section Agreement

variable {nodes : List Int} {edges : List Edge} {iStartId nMaxDepth : Int}

def Agree (nodes : List Int) (edges : List Edge) (iStartId nMaxDepth : Int) : Prop :=
  ∃ dfs bfs ids ids',
    Fuel.Settles (fun fuel => graphDFS fuel ⟨nodes, some edges⟩ iStartId nMaxDepth)
      (some (.ok, dfs)) ∧
    Fuel.Settles (fun fuel => graphBFS fuel ⟨nodes, some edges⟩ iStartId nMaxDepth)
      (some (.ok, bfs)) ∧
    Lists dfs ids ∧ Lists bfs ids' ∧ (∀ i, i ∈ ids ↔ i ∈ ids') ∧ ids.Nodup

def Reachable (edges : List Edge) (iStartId i : Int) : Prop :=
  ∃ n, Walks (targets edges) iStartId n i

theorem lists_pathOf (seen : List Int) : Lists ((pathOf seen).map (· ++ [']'])) seen := by
  rw [pathOf]
  split
  next h => exact h
  next => exact parse_listed seen

theorem agree_iff_entered (edges : List Edge) (nMaxDepth : Int) (hstart : iStartId ∈ nodes) :
    ∃ fuel seen, explore (targets edges) (Within nMaxDepth) fuel 0 iStartId [] = some seen ∧
      (Agree nodes edges iStartId nMaxDepth ↔
        ∀ n v, Walks (targets edges) iStartId n v → v ∈ seen) := by
  obtain ⟨fuel, seen, hexplore, hdfs⟩ := graphDFS_explored nMaxDepth hstart edges
  obtain ⟨q, hbfs, hleveled⟩ := graphBFS_leveled nodes edges iStartId nMaxDepth
  have hnodup := (explore_entered hexplore List.nodup_nil).nodup
  refine ⟨fuel, seen, hexplore, ?_⟩
  rw [← explore_ball_iff hexplore]
  simp only [← hleveled.mem_map_iff (Nat.le_refl _)]
  constructor
  · rintro ⟨dfs, bfs, ids, ids', hdfs', hbfs', hids, hids', hsame, _⟩
    cases hdfs.unique hdfs'
    cases hbfs.unique hbfs'
    rwa [(lists_pathOf seen).unique hids, (lists_listed _).unique hids']
  · intro hsame
    exact ⟨_, _, seen, _, hdfs, hbfs, lists_pathOf seen, lists_listed _, hsame, hnodup⟩

theorem graphDFS_agrees_iff (edges : List Edge) (nMaxDepth : Int) (hstart : iStartId ∈ nodes) :
    Agree nodes edges iStartId nMaxDepth ↔
      nMaxDepth < 0 ∨ ∃ address, Tree (targets edges) (Within nMaxDepth) iStartId
        (Reachable edges iStartId) address := by
  obtain ⟨fuel, seen, hexplore, hagree⟩ := agree_iff_entered edges nMaxDepth hstart
  have htree := explore_all_iff hexplore fun n v => walks_mem_endpoints
  rw [hagree, htree]
  constructor
  · exact .inr
  · rintro (hneg | h)
    · exact htree.mp fun n v hv => explore_all hexplore (fun d hd => absurd hd.1 (by omega)) hv
    · exact h

theorem reachable_two {i : Int} (h : Reachable [⟨1, 2⟩] 1 i) : i = 1 ∨ i = 2 := by
  obtain ⟨n, hwalk⟩ := h
  induction hwalk with
  | start => exact .inl rfl
  | step _ hj ih =>
    obtain rfl | rfl := ih
    · exact .inr (List.mem_singleton.mp hj)
    · cases hj

def addressOfTwo (i : Int) : List Nat := if i = 1 then [] else [0]

theorem tree_two : Tree (targets [⟨1, 2⟩]) (Within 2) 1 (Reachable [⟨1, 2⟩] 1) addressOfTwo where
  root _ := rfl
  parent v hv hne := by
    obtain rfl | rfl := reachable_two hv
    · exact absurd rfl hne
    · exact ⟨1, 0, ⟨0, .start⟩, rfl, rfl⟩
  shallow v hv := by
    obtain rfl | rfl := reachable_two hv
    · decide
    · decide
  first u v k hu hv _ := by
    obtain rfl | rfl := reachable_two hu
    · cases k with
      | zero =>
        cases hv
        exact ⟨⟨1, .step .start (by decide)⟩, le_rfl⟩
      | succ k => cases hv
    · cases hv

theorem agree_two : Agree [1, 2] [⟨1, 2⟩] 1 (-1) ∧ Agree [1, 2] [⟨1, 2⟩] 1 2 :=
  ⟨(graphDFS_agrees_iff [⟨1, 2⟩] (-1) (by decide)).mpr (.inl (by decide)),
    (graphDFS_agrees_iff [⟨1, 2⟩] 2 (by decide)).mpr (.inr ⟨addressOfTwo, tree_two⟩)⟩

theorem not_agree_at_limit : ¬ Agree [1, 2] [⟨1, 2⟩] 1 1 := by
  have hstart : (1 : Int) ∈ [(1 : Int), 2] := List.mem_cons_self
  obtain ⟨fuel, seen, hexplore, hagree⟩ := agree_iff_entered [⟨1, 2⟩] 1 hstart
  rw [hagree]
  intro hall
  have hmem := hall 1 2 (.step .start (by decide))
  obtain ⟨n, hwalk, hopen⟩ :=
    (explore_entered hexplore List.nodup_nil).walks 2 hmem List.not_mem_nil
  cases hwalk with
  | step =>
    refine hopen 1 (Nat.succ_le_succ (Nat.zero_le _)) ⟨by decide, by decide⟩

end Agreement

end SqliteMultimodal.Graph.Traverse
