import SqliteMultimodal.Graph.Traverse.Defs
import SqliteMultimodal.Lib.Fuel
import SqliteMultimodal.Lib.JsonValue
import SqliteMultimodal.Lib.Levels

namespace SqliteMultimodal.Graph.Traverse

open Levels

section Graph

variable {edges : List Edge} {iStartId i j : Int} {nMaxDepth : Int} {n : Nat}

theorem mem_targets : j ∈ targets edges i ↔ ⟨i, j⟩ ∈ edges := by
  rw [targets, List.mem_map]
  constructor
  · rintro ⟨⟨a, b⟩, hrow, rfl⟩
    obtain ⟨hmem, heq⟩ := List.mem_filter.mp hrow
    obtain rfl := of_decide_eq_true heq
    exact hmem
  · exact fun h => ⟨⟨i, j⟩, List.mem_filter.mpr ⟨h, decide_eq_true rfl⟩, rfl⟩

def endpoints (edges : List Edge) (iStartId : Int) : Finset Int :=
  insert iStartId (edges.map (·.toId)).toFinset

theorem start_mem_endpoints : iStartId ∈ endpoints edges iStartId := Finset.mem_insert_self _ _

theorem target_mem_endpoints (h : j ∈ targets edges i) : j ∈ endpoints edges iStartId :=
  Finset.mem_insert_of_mem (List.mem_toFinset.mpr (List.mem_map.mpr ⟨_, mem_targets.mp h, rfl⟩))

theorem walks_mem_endpoints (h : Walks (targets edges) iStartId n i) :
    i ∈ endpoints edges iStartId := by
  cases h with
  | start => exact start_mem_endpoints
  | step _ hj => exact target_mem_endpoints hj

abbrev Within (nMaxDepth : Int) (nCurrentDepth : Nat) : Prop :=
  ¬ (0 ≤ nMaxDepth ∧ nMaxDepth ≤ nCurrentDepth)

theorem open_within_iff : Open (Within nMaxDepth) n ↔ nMaxDepth < 0 ∨ n ≤ nMaxDepth := by
  constructor
  · intro h
    by_contra hnot
    obtain ⟨hpos, hlt⟩ := not_or.mp hnot
    refine h nMaxDepth.toNat (by omega) ⟨by omega, by omega⟩
  · rintro h m hm ⟨hpos, hle⟩
    omega

end Graph

section Listed

def listed (ids : List Int) : Text := '[' :: Text.join ',' (ids.map Text.ofInt)

theorem listed_singleton (i : Int) : listed [i] = '[' :: Text.ofInt i := by
  simp [listed, Text.join]

theorem listed_append_singleton {ids : List Int} (h : ids ≠ []) (i : Int) :
    listed (ids ++ [i]) = listed ids ++ ',' :: Text.ofInt i := by
  have hmap : ids.map Text.ofInt ≠ [] := by rwa [ne_eq, List.map_eq_nil_iff]
  rw [listed, List.map_append, List.map_singleton, Text.join_append ',' hmap (List.cons_ne_nil _ _)]
  simp [listed, Text.join]

theorem parse_listed (ids : List Int) : Json.parse (listed ids ++ [']']) =
    some (.array (ids.map fun id => .scalar (.number (Text.ofInt id)))) :=
  Json.parse_ofInts ids

def Lists (pzPath : Option Text) (ids : List Int) : Prop :=
  match pzPath with
  | none => ids = []
  | some path =>
    Json.parse path = some (.array (ids.map fun id => .scalar (.number (Text.ofInt id))))

theorem Lists.unique {pzPath : Option Text} {ids ids' : List Int} (h : Lists pzPath ids)
    (h' : Lists pzPath ids') : ids = ids' := by
  cases pzPath with
  | none => exact h.trans h'.symm
  | some path =>
    have heq := h.symm.trans h'
    simp only [Option.some.injEq, Json.Value.array.injEq] at heq
    refine List.map_injective_iff.mpr (fun i j hij => ?_) heq
    simp only [Json.Value.scalar.injEq, Json.Scalar.number.injEq] at hij
    exact Text.ofInt_injective hij

theorem lists_listed (ids : List Int) : Lists (some (listed ids ++ [']'])) ids := parse_listed ids

end Listed

section Loop

variable {iStartId i : Int} {q : List (Int × Nat)} {qh d fuel : Nat} {s : BfsState}

/-- The state of the loop after `qh` nodes have been taken from a queue that keeps them. -/
structure Represents (q : List (Int × Nat)) (qh : Nat) (s : BfsState) : Prop where
  queue : s.pQueue = (q.drop qh).map Prod.fst
  visited : s.pVisited = q.map Prod.fst
  depths : s.pDepthList = (q.map fun p => ⟨p.1, p.2⟩).reverse
  path : s.pzPath = listed (q.map Prod.fst)
  rc : s.rc = .ok

theorem represents_init (iStartId : Int) : Represents [(iStartId, 0)] 0 (bfsInit iStartId) where
  queue := rfl
  visited := rfl
  depths := rfl
  path := (listed_singleton iStartId).symm
  rc := rfl

theorem contains_iff {pSet : GraphVisitedSet} : graphVisitedSetContains pSet i ↔ i ∈ pSet := by
  rw [graphVisitedSetContains, List.any_eq_true]
  constructor
  · rintro ⟨j, hj, heq⟩
    exact of_decide_eq_true heq ▸ hj
  · exact fun h => ⟨i, h, decide_eq_true rfl⟩

theorem Represents.visitTarget (h : Represents q qh s) (hq : q ≠ []) (hqh : qh ≤ q.length)
    (d : Nat) (j : Int) : Represents (discover d q j) qh (visitTarget d s j) := by
  unfold Traverse.visitTarget discover
  simp only [contains_iff, h.visited]
  split
  next => exact h
  next =>
    refine ⟨?_, ?_, ?_, ?_, rfl⟩
    · rw [graphQueueEnqueue, h.queue, List.drop_append_of_le_length hqh, List.map_append]
      rfl
    · rw [graphVisitedSetAdd, List.map_append]
      rfl
    · rw [h.depths, List.map_append, List.reverse_append]
      rfl
    · rw [h.path, List.map_append]
      exact (listed_append_singleton (by rwa [ne_eq, List.map_eq_nil_iff]) j).symm

theorem Represents.visitTargets (h : Represents q qh s) (hq : q ≠ []) (hqh : qh ≤ q.length)
    (d : Nat) (js : List Int) :
    Represents (expand d js q) qh (js.foldl (Traverse.visitTarget d) s) := by
  induction js generalizing q s with
  | nil => exact h
  | cons j js ih =>
    have hle : q.length ≤ (discover d q j).length := by
      rw [discover]
      split
      · exact Nat.le_refl _
      · rw [List.length_append]
        exact Nat.le_add_right _ _
    refine ih (h.visitTarget hq hqh d j) (fun hnil => hq ?_) (hqh.trans hle)
    rw [hnil] at hle
    exact List.length_eq_zero_iff.mp (Nat.le_zero.mp hle)

theorem Represents.depthOf (h : Represents q qh s) (hnodup : (q.map Prod.fst).Nodup)
    (hi : (i, d) ∈ q) : depthOf s.pDepthList i = d := by
  have hfind : s.pDepthList.find? (fun pDepthInfo => pDepthInfo.iNodeId = i) = some ⟨i, d⟩ := by
    cases hf : s.pDepthList.find? (fun pDepthInfo => pDepthInfo.iNodeId = i) with
    | none =>
      have hmem : (⟨i, d⟩ : GraphDepthInfo) ∈ s.pDepthList := by
        rw [h.depths, List.mem_reverse]
        exact List.mem_map.mpr ⟨(i, d), hi, rfl⟩
      exact absurd (decide_eq_true rfl) (List.find?_eq_none.mp hf _ hmem)
    | some pDepthInfo =>
      have hmem := List.mem_of_find?_eq_some hf
      have heq : pDepthInfo.iNodeId = i := by simpa using List.find?_some hf
      rw [h.depths, List.mem_reverse] at hmem
      obtain ⟨⟨j, e⟩, hj, rfl⟩ := List.mem_map.mp hmem
      cases List.inj_on_of_nodup_map hnodup hj hi heq
      rfl
  rw [Traverse.depthOf, hfind]

theorem bfsLoop_leveled (nodes : List Int) (edges : List Edge) (nMaxDepth : Int)
    (h : Represents q qh s)
    (hleveled : Leveled (targets edges) (Within nMaxDepth) iStartId q qh) (hqh : qh ≤ q.length)
    (hfuel : (endpoints edges iStartId).card < fuel + qh) :
    ∃ s' q', bfsLoop ⟨nodes, some edges⟩ nMaxDepth fuel s = some s' ∧
      Represents q' q'.length s' ∧
      Leveled (targets edges) (Within nMaxDepth) iStartId q' q'.length := by
  induction fuel generalizing q qh s with
  | zero =>
    have := hleveled.length_le fun n i => walks_mem_endpoints (n := n) (i := i)
    omega
  | succ fuel ih =>
    rw [bfsLoop, h.queue]
    cases hi : q[qh]? with
    | none =>
      have hend : qh = q.length := le_antisymm hqh (List.getElem?_eq_none_iff.mp hi)
      subst hend
      rw [List.drop_length]
      exact ⟨s, q, rfl, h, hleveled⟩
    | some p =>
      obtain ⟨i, d⟩ := p
      have hlt := (List.getElem?_eq_some_iff.mp hi).1
      have hmem : (i, d) ∈ q := List.mem_of_getElem? hi
      have hnil : q ≠ [] := List.ne_nil_of_mem hmem
      have hfuel : (endpoints edges iStartId).card < fuel + (qh + 1) := by omega
      rw [drop_eq_cons hi, List.map_cons]
      simp only [graphQueueDequeue, h.depthOf hleveled.nodup hmem]
      split
      next hd =>
        exact ih (s := { s with pQueue := _ }) ⟨rfl, h.visited, h.depths, h.path, h.rc⟩
          (hleveled.skip hi (not_not_intro hd)) hlt hfuel
      next hd =>
        have hstep := hleveled.step hi hd
        have hrep : Represents q (qh + 1)
            { s with pQueue := (q.drop (qh + 1)).map Prod.fst, rc := .ok } :=
          ⟨rfl, h.visited, h.depths, h.path, rfl⟩
        obtain ⟨added, heq, _⟩ := expand_spec d (targets edges i) hleveled.nodup
        have hle : qh + 1 ≤ (expand d (targets edges i) q).length := by
          rw [heq, List.length_append]
          exact Nat.le_add_right_of_le hlt
        exact ih (hrep.visitTargets hnil hlt d (targets edges i)) hstep hle hfuel

theorem bfsLoop_succ {tables : Tables} {nMaxDepth : Int} {s' : BfsState}
    (h : bfsLoop tables nMaxDepth fuel s = some s') :
    bfsLoop tables nMaxDepth (fuel + 1) s = some s' := by
  induction fuel generalizing s with
  | zero => cases h
  | succ fuel ih =>
    rw [bfsLoop] at h ⊢
    cases hdequeue : graphQueueDequeue s.pQueue with
    | none => rwa [hdequeue] at h
    | some p =>
      simp only [hdequeue] at h ⊢
      split at h
      next hd => exact (if_pos hd).trans (ih h)
      next hd =>
        rw [if_neg hd]
        cases hrows : tables.rowsFrom p.1 with
        | none =>
          rw [hrows] at h
          exact ih h
        | some rows =>
          rw [hrows] at h
          exact ih h

end Loop

section Ball

theorem graphBFS_leveled (nodes : List Int) (edges : List Edge) (iStartId nMaxDepth : Int) :
    ∃ q, Fuel.Settles (fun fuel => graphBFS fuel ⟨nodes, some edges⟩ iStartId nMaxDepth)
        (some (.ok, some (listed (q.map Prod.fst) ++ [']']))) ∧
      Leveled (targets edges) (Within nMaxDepth) iStartId q q.length := by
  obtain ⟨s, q, hloop, hrep, hleveled⟩ := bfsLoop_leveled nodes edges nMaxDepth
    (represents_init iStartId) .single (Nat.zero_le _) (Nat.lt_succ_self _)
  obtain ⟨n, hsettles⟩ := Fuel.Settles.of_succ
    (p := fun fuel => bfsLoop ⟨nodes, some edges⟩ nMaxDepth fuel (bfsInit iStartId))
    (fun _ _ => bfsLoop_succ) hloop
  refine ⟨q, ⟨n, fun m hm => ?_⟩, hleveled⟩
  have hloop : bfsLoop ⟨nodes, some edges⟩ nMaxDepth m (bfsInit iStartId) = some s := hsettles m hm
  simp only [graphBFS, hloop, hrep.rc, hrep.path, if_true]

theorem graphBFS_ball (nodes : List Int) (edges : List Edge) (iStartId nMaxDepth : Int) :
    ∃ (path : Text) (ids : List Int),
      Fuel.Settles (fun fuel => graphBFS fuel ⟨nodes, some edges⟩ iStartId nMaxDepth)
        (some (.ok, some path)) ∧
      Json.parse path = some (.array (ids.map fun id => .scalar (.number (Text.ofInt id)))) ∧
      ids.head? = some iStartId ∧ ids.Nodup ∧
      (∀ i, i ∈ ids ↔ ∃ d, IsDist (targets edges) iStartId i d ∧
        (nMaxDepth < 0 ∨ d ≤ nMaxDepth)) ∧
      ids.Pairwise fun i j => ∀ d e, IsDist (targets edges) iStartId i d →
        IsDist (targets edges) iStartId j e → d ≤ e := by
  obtain ⟨q, hbfs, hleveled⟩ := graphBFS_leveled nodes edges iStartId nMaxDepth
  refine ⟨_, _, hbfs, parse_listed _, ?_, hleveled.nodup, fun i => ?_, ?_⟩
  · rw [List.head?_map, hleveled.head]
    rfl
  · rw [hleveled.mem_map_iff (Nat.le_refl _)]
    simp only [open_within_iff]
  · refine List.pairwise_map.mpr (hleveled.sorted.imp_of_mem ?_)
    rintro ⟨i, d'⟩ ⟨j, e'⟩ hi hj hle d e hd he
    have hi := ((hleveled.mem_iff (Nat.le_refl _)).mp hi).1
    have hj := ((hleveled.mem_iff (Nat.le_refl _)).mp hj).1
    rwa [hd.unique hi, he.unique hj]

end Ball

end SqliteMultimodal.Graph.Traverse
