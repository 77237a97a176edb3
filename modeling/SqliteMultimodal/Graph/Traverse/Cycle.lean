import SqliteMultimodal.Graph.Traverse.Connected
import SqliteMultimodal.Lib.Circuit

namespace SqliteMultimodal.Graph.Traverse

section Defs

/-- `none` is an error: the edges cannot be counted. -/
def graphHasCycleFunc (tables : Tables) : Option Int :=
  match tables.edges with
  | none => none
  | some edges =>
    let nSelfLoops := (edges.filter fun row => row.fromId = row.toId).length
    if nSelfLoops > 0 then some 1
    else
      let nEdges : Int := edges.length
      let nNodes : Int := tables.nodes.length
      some (if nEdges > nNodes - 1 then 1 else 0)

end Defs

section Cycles

variable {nodes : List Int} {edges : List Edge}

def Cycle (edges : List Edge) : Prop :=
  ∃ before e after, edges = before ++ e :: after ∧ Joined (before ++ after) e.fromId e.toId

theorem cycle_of_loop {e : Edge} (he : e ∈ edges) (hloop : e.fromId = e.toId) : Cycle edges := by
  obtain ⟨before, after, rfl⟩ := List.append_of_mem he
  refine ⟨before, e, after, rfl, ?_⟩
  rw [hloop]
  exact .refl

noncomputable def parts (nodes : List Int) (edges : List Edge) : Nat :=
  Nat.card (Quot fun i j : {i // i ∈ nodes} => (⟨i, j⟩ : Edge) ∈ edges)

abbrev StoredEdge (nodes : List Int) : Type := {e : Edge // e.fromId ∈ nodes ∧ e.toId ∈ nodes}

def StoredEdge.ends (e : StoredEdge nodes) : {i // i ∈ nodes} × {i // i ∈ nodes} :=
  (⟨e.1.fromId, e.2.1⟩, ⟨e.1.toId, e.2.2⟩)

variable {es : List (StoredEdge nodes)} {i j : {i // i ∈ nodes}}

theorem mem_ends : (i, j) ∈ es.map StoredEdge.ends ↔ ⟨i, j⟩ ∈ es.map Subtype.val := by
  rw [List.mem_map, List.mem_map]
  constructor
  · rintro ⟨e, he, heq⟩
    cases heq
    exact ⟨e, he, rfl⟩
  · rintro ⟨e, he, heq⟩
    refine ⟨e, he, ?_⟩
    obtain ⟨e, hfrom, hto⟩ := e
    subst heq
    rfl

theorem parts_eq (es : List (StoredEdge nodes)) :
    parts nodes (es.map Subtype.val) = Nat.card (Circuit.Components (es.map StoredEdge.ends)) := by
  simp only [parts, Circuit.Components, mem_ends]

theorem component_eq_iff :
    Circuit.component (es.map StoredEdge.ends) i = Circuit.component (es.map StoredEdge.ends) j ↔
      Joined (es.map Subtype.val) i j := by
  constructor
  · intro heq
    rw [Circuit.component_eq_iff] at heq
    induction heq with
    | rel i j hij => exact .single (.inl (mem_ends.mp hij))
    | refl i => exact .refl
    | symm i j _ ih => exact ih.symm
    | trans i j k _ _ ihij ihjk => exact ihij.trans ihjk
  · intro hjoined
    have hstored : Stored nodes (es.map Subtype.val) := fun e he => by
      obtain ⟨e, -, rfl⟩ := List.mem_map.mp he
      exact e.2
    obtain ⟨i, hi⟩ := i
    obtain ⟨j, hj⟩ := j
    change Joined _ i j at hjoined
    induction hjoined with
    | refl => rfl
    | @tail j k _ hstep ih =>
      obtain he | he := hstep
      · exact (ih (hstored _ he).1).trans (Circuit.component_eq (mem_ends.mpr he))
      · exact (ih (hstored _ he).2).trans (Circuit.component_eq (mem_ends.mpr he)).symm

theorem cycle_iff_hasCircuit :
    Cycle (es.map Subtype.val) ↔ Circuit.HasCircuit (es.map StoredEdge.ends) := by
  constructor
  · rintro ⟨before, e, after, heq, hjoined⟩
    obtain ⟨before, rest, rfl, rfl, hrest⟩ := List.map_eq_append_iff.mp heq
    obtain ⟨e, after, rfl, rfl, rfl⟩ := List.map_eq_cons_iff.mp hrest
    refine ⟨before.map StoredEdge.ends, StoredEdge.ends e, after.map StoredEdge.ends, by simp, ?_⟩
    rw [← List.map_append] at hjoined ⊢
    exact component_eq_iff.mpr hjoined
  · rintro ⟨before, e, after, heq, hjoined⟩
    obtain ⟨before, rest, rfl, rfl, hrest⟩ := List.map_eq_append_iff.mp heq
    obtain ⟨e, after, rfl, rfl, rfl⟩ := List.map_eq_cons_iff.mp hrest
    refine ⟨before.map Subtype.val, e.1, after.map Subtype.val, by simp, ?_⟩
    rw [← List.map_append] at hjoined ⊢
    exact component_eq_iff.mp hjoined

theorem card_stored (hnodup : nodes.Nodup) : Nat.card {i // i ∈ nodes} = nodes.length := by
  rw [Nat.card_eq_fintype_card, Fintype.card_of_subtype nodes.toFinset fun i => List.mem_toFinset,
    List.toFinset_card_of_nodup hnodup]

theorem Stored.cycle_iff (h : Stored nodes edges) (hnodup : nodes.Nodup) :
    Cycle edges ↔ nodes.length < parts nodes edges + edges.length := by
  lift edges to List (StoredEdge nodes) using h
  rw [cycle_iff_hasCircuit, Circuit.hasCircuit_iff, parts_eq, card_stored hnodup, List.length_map,
    List.length_map]

theorem parts_pos (edges : List Edge) (hne : nodes ≠ []) : 0 < parts nodes edges := by
  obtain ⟨i, hi⟩ := List.exists_mem_of_ne_nil nodes hne
  have : Nonempty (Quot fun i j : {i // i ∈ nodes} => (⟨i, j⟩ : Edge) ∈ edges) :=
    ⟨Quot.mk _ ⟨i, hi⟩⟩
  have : Finite (Quot fun i j : {i // i ∈ nodes} => (⟨i, j⟩ : Edge) ∈ edges) :=
    Finite.of_surjective _ Quot.mk_surjective
  exact Nat.card_pos

theorem Stored.parts_eq_one (h : Stored nodes edges) (hne : nodes ≠ [])
    (hall : ∀ i ∈ nodes, ∀ j ∈ nodes, Joined edges i j) : parts nodes edges = 1 := by
  lift edges to List (StoredEdge nodes) using h
  rw [parts_eq, Nat.card_eq_one_iff_unique]
  obtain ⟨i, hi⟩ := List.exists_mem_of_ne_nil nodes hne
  refine ⟨⟨fun c d => ?_⟩, ⟨Circuit.component _ ⟨i, hi⟩⟩⟩
  obtain ⟨i, rfl⟩ := Circuit.component_surjective c
  obtain ⟨j, rfl⟩ := Circuit.component_surjective d
  exact component_eq_iff.mpr (hall i i.2 j j.2)

theorem graphHasCycleFunc_eq (nodes : List Int) (edges : List Edge) :
    graphHasCycleFunc ⟨nodes, some edges⟩ =
      some (if (∃ e ∈ edges, e.fromId = e.toId) ∨ nodes.length ≤ edges.length then 1 else 0) := by
  have hloops : (edges.filter fun row => row.fromId = row.toId).length > 0 ↔
      ∃ e ∈ edges, e.fromId = e.toId := by
    simp [List.length_pos_iff_exists_mem]
  have hcount : (edges.length : Int) > nodes.length - 1 ↔ nodes.length ≤ edges.length := by omega
  rw [graphHasCycleFunc]
  simp only [hloops, hcount]
  by_cases hloop : ∃ e ∈ edges, e.fromId = e.toId
  · rw [if_pos hloop, if_pos (.inl hloop)]
  · rw [if_neg hloop]
    simp only [hloop, false_or]

structure FindsCycle (nodes : List Int) (edges : List Edge) (verdict : Int) : Prop where
  sound : verdict = 1 → Cycle edges
  missed : verdict ≠ 1 ∧ Cycle edges ↔ (∀ e ∈ edges, e.fromId ≠ e.toId) ∧
    edges.length < nodes.length ∧ nodes.length < parts nodes edges + edges.length
  connected : (∀ i ∈ nodes, ∀ j ∈ nodes, Joined edges i j) → (verdict = 1 ↔ Cycle edges)

theorem graphHasCycleFunc_cycle (hnodup : nodes.Nodup) (hstored : Stored nodes edges)
    (hne : nodes ≠ []) :
    ∃ verdict, graphHasCycleFunc ⟨nodes, some edges⟩ = some verdict ∧
      FindsCycle nodes edges verdict := by
  have hparts := parts_pos edges hne
  have hcycle := hstored.cycle_iff hnodup
  refine ⟨_, graphHasCycleFunc_eq nodes edges, ?_⟩
  by_cases hfound : (∃ e ∈ edges, e.fromId = e.toId) ∨ nodes.length ≤ edges.length
  · have hyes : Cycle edges := by
      obtain ⟨e, he, hloop⟩ | hle := hfound
      · exact cycle_of_loop he hloop
      · exact hcycle.mpr (by omega)
    rw [if_pos hfound]
    refine ⟨fun _ => hyes, iff_of_false (fun h => h.1 rfl) ?_, fun _ => iff_of_true rfl hyes⟩
    rintro ⟨hloop, hlt, -⟩
    obtain ⟨e, he, heq⟩ | hle := hfound
    · exact hloop e he heq
    · omega
  · rw [if_neg hfound]
    simp only [not_or, not_exists, not_and, not_le] at hfound
    refine ⟨fun h => absurd h (by decide), ?_, fun hall => iff_of_false (by decide) fun hyes => ?_⟩
    · rw [hcycle]
      exact ⟨fun h => ⟨hfound.1, hfound.2, h.2⟩, fun h => ⟨by decide, h.2.2⟩⟩
    · have hone := hstored.parts_eq_one hne hall
      rw [hcycle, hone] at hyes
      omega

end Cycles

end SqliteMultimodal.Graph.Traverse
