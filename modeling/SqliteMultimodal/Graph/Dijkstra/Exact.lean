import Mathlib.Algebra.Order.Monoid.Unbundled.Pow
import SqliteMultimodal.Graph.Dijkstra.Run
import SqliteMultimodal.Lib.JsonValue
import SqliteMultimodal.Lib.Settling

namespace SqliteMultimodal.Graph.Dijkstra

open Relaxation (State)

section Paths

variable {edges : List (Edge ℚ)} {iStartId iEndId : Int} {nNodes : Nat} {ids path : List Int}
  {d x : ℚ}

inductive PathFrom (edges : List (Edge ℚ)) (iStartId : Int) : List Int → ℚ → Prop
  | start : PathFrom edges iStartId [iStartId] 0
  | step {ids : List Int} {d : ℚ} {row : Edge ℚ} (h : PathFrom edges iStartId ids d)
      (hrow : row ∈ edges) (hlast : ids.getLast? = some row.fromId) :
      PathFrom edges iStartId (ids ++ [row.toId]) (d + row.weight)

def IsPath (edges : List (Edge ℚ)) (iStartId iEndId : Int) (ids : List Int) (d : ℚ) : Prop :=
  PathFrom edges iStartId ids d ∧ ids.getLast? = some iEndId

theorem PathFrom.of_walk
    (h : (network ⟨nNodes, some edges⟩ iStartId).Walk path x) :
    PathFrom edges iStartId path.reverse x := by
  induction h with
  | start => exact .start
  | step _ he ih =>
    obtain ⟨row, hrow, rfl⟩ := List.mem_map.mp he
    obtain ⟨hrow, hfrom⟩ := List.mem_filter.mp hrow
    rw [List.reverse_cons]
    refine ih.step hrow ?_
    rw [List.reverse_cons, List.getLast?_concat, of_decide_eq_true hfrom]

theorem PathFrom.walk (nNodes : Nat) (h : PathFrom edges iStartId ids d) :
    (network ⟨nNodes, some edges⟩ iStartId).Walk ids.reverse d := by
  induction h with
  | start => exact .start
  | @step ids d row _ hrow hlast ih =>
    obtain ⟨front, rfl⟩ := List.getLast?_eq_some_iff.mp hlast
    rw [List.reverse_concat] at ih
    rw [List.reverse_concat, List.reverse_concat]
    refine ih.step (e := (row.toId, row.weight)) (List.mem_map.mpr ⟨row, ?_, rfl⟩)
    exact List.mem_filter.mpr ⟨hrow, decide_eq_true rfl⟩

theorem IsPath.walk (nNodes : Nat) (h : IsPath edges iStartId iEndId ids d) :
    ∃ path, (network ⟨nNodes, some edges⟩ iStartId).Walk (iEndId :: path) d := by
  obtain ⟨front, rfl⟩ := List.getLast?_eq_some_iff.mp h.2
  have hwalk := h.1.walk nNodes
  rw [List.reverse_concat] at hwalk
  exact ⟨_, hwalk⟩

end Paths

section Search

variable {tables : Tables ℚ} {iStartId iEndId : Int} {s : Search ℚ} {t : State Int ℚ}
  {rest : Multiset (Int × ℚ)}

theorem kept_settling (hnonneg : (network tables iStartId).Nonneg) : Kept tables iStartId
    fun t => Sane tables iStartId t ∧ (network tables iStartId).Settling t where
  stale t c x rest h hqueue hmin hlt :=
    ⟨(kept_sane hnonneg.not_improves).stale t c x rest h.1 hqueue hmin hlt,
      h.2.pop hqueue hmin⟩
  relaxed t c x rest h hqueue hmin hle hout := by
    have hexpanding := Relaxation.Expanding.of_pop h.1.sound.toWalked h.2 hqueue hmin
      (h.1.relaxing hqueue hle).dist_eq
    exact ⟨(kept_sane hnonneg.not_improves).relaxed t c x rest h.1 hqueue hmin hle hout,
      (hexpanding.relaxAll hnonneg fun _ he => he).settling⟩

theorem Ended.dist_le (h : Ended tables iEndId s t rest) (hsane : Sane tables iStartId t)
    (hnonneg : (network tables iStartId).Nonneg) {y : ℚ}
    (hy : (network tables iStartId).Reached iEndId y) :
    (network tables iStartId).dist t iEndId ≤ y := by
  obtain ⟨hempty, -⟩ | ⟨-, x, hqueue, hmin⟩ := h.queue
  · exact hsane.sound.dist_le_of_empty hempty hy
  · have hmin' : ∀ q ∈ t.queue, x ≤ q.2 := fun q hq => by
      obtain rfl | hq := Multiset.mem_cons.mp (hqueue ▸ hq)
      · exact le_rfl
      · exact hmin q hq
    have hle := (hsane.sound.queue _ (hqueue ▸ Multiset.mem_cons_self _ _)).2.2
    obtain hy | hy := Relaxation.Settling.le_or_settled hsane.sound hmin' hy hnonneg
    · exact hle.trans hy
    · exact hy.1

end Search

section Small

variable {edges : List (Edge ℚ)} {iStartId : Int} {ids : List Int} {d w : ℚ}

theorem PathFrom.weight_le (hw : ∀ e ∈ edges, e.weight ≤ w) (h : PathFrom edges iStartId ids d) :
    d + w ≤ ids.length • w := by
  induction h with
  | start => rw [List.length_singleton, one_nsmul, zero_add]
  | @step ids d row _ hrow _ ih =>
    rw [List.length_append, List.length_singleton, succ_nsmul, add_right_comm]
    exact add_le_add ih (hw row hrow)

theorem PathFrom.mem_nodes (nNodes : Nat) (h : PathFrom edges iStartId ids d) :
    ∀ v ∈ ids, v ∈ nodesOf ⟨nNodes, some edges⟩ iStartId := by
  induction h with
  | start => exact List.forall_mem_singleton.mpr (Finset.mem_insert_self _ _)
  | @step ids d row _ hrow _ ih =>
    refine List.forall_mem_append.mpr ⟨ih, List.forall_mem_singleton.mpr ?_⟩
    exact Finset.mem_insert_of_mem (List.mem_toFinset.mpr (List.mem_map_of_mem hrow))

theorem small_of_weight_le (nNodes : Nat) (hpos : 0 ≤ w) (hw : ∀ e ∈ edges, e.weight ≤ w)
    (hsmall : (nodesOf ⟨nNodes, some edges⟩ iStartId).card • w < dblMax)
    (h : PathFrom edges iStartId ids d) (hnodup : ids.Nodup) : d < dblMax := by
  have hlen : ids.length ≤ (nodesOf ⟨nNodes, some edges⟩ iStartId).card := by
    rw [← List.toFinset_card_of_nodup hnodup]
    exact Finset.card_le_card fun v hv => h.mem_nodes nNodes v (List.mem_toFinset.mp hv)
  calc
    d ≤ d + w := le_add_of_nonneg_right hpos
    _ ≤ ids.length • w := h.weight_le hw
    _ ≤ (nodesOf ⟨nNodes, some edges⟩ iStartId).card • w := nsmul_le_nsmul_left hpos hlen
    _ < dblMax := hsmall

end Small

section Answer

variable {edges : List (Edge ℚ)} {iStartId iEndId : Int} {nNodes : Nat} {ids path : List Int}
  {d : ℚ}

theorem pathText_eq (ids : List Int) :
    pathText ids = '[' :: (Text.join ',' (ids.map Text.ofInt) ++ [']']) := by
  rw [pathText, Text.foldl_zipIdx]
  rfl

theorem nonneg_network (hweights : ∀ e ∈ edges, 0 ≤ e.weight) :
    (network ⟨nNodes, some edges⟩ iStartId).Nonneg := by
  intro u e he
  obtain ⟨row, hrow, rfl⟩ := List.mem_map.mp he
  exact hweights row (List.mem_filter.mp hrow).1

theorem bucketed_network (hstart : 0 ≤ iStartId) (hids : ∀ e ∈ edges, 0 ≤ e.toId) :
    Bucketed ⟨nNodes, some edges⟩ iStartId := by
  refine ⟨.inl hstart, fun v x _ e he => ?_⟩
  obtain ⟨row, hrow, rfl⟩ := List.mem_map.mp he
  exact .inl (hids row (List.mem_filter.mp hrow).1)

theorem PathFrom.nonneg (hstart : 0 ≤ iStartId) (hids : ∀ e ∈ edges, 0 ≤ e.toId)
    (h : PathFrom edges iStartId ids d) : ∀ v ∈ ids, 0 ≤ v := by
  induction h with
  | start => exact List.forall_mem_singleton.mpr hstart
  | step _ hrow _ ih =>
    exact List.forall_mem_append.mpr ⟨ih, List.forall_mem_singleton.mpr (hids _ hrow)⟩

theorem IsPath.reached (nNodes : Nat) (hweights : ∀ e ∈ edges, 0 ≤ e.weight)
    (hsmall : ∀ ids d, PathFrom edges iStartId ids d → ids.Nodup → d < dblMax)
    (h : IsPath edges iStartId iEndId ids d) :
    ∃ y, (network ⟨nNodes, some edges⟩ iStartId).Reached iEndId y ∧ y ≤ d := by
  obtain ⟨path, hwalk⟩ := h.walk nNodes
  obtain ⟨path', y, hwalk', hnodup, hle⟩ := hwalk.simple (nonneg_network hweights)
  refine ⟨y, hwalk'.reached (fun path x hwalk hnodup => ?_) hnodup, hle⟩
  exact hsmall path.reverse x (.of_walk hwalk) (List.nodup_reverse.mpr hnodup)

theorem isPath_of_leads {t : State Int ℚ} (hsane : Sane ⟨nNodes, some edges⟩ iStartId t)
    (hsettling : (network ⟨nNodes, some edges⟩ iStartId).Settling t)
    (hleads : (network ⟨nNodes, some edges⟩ iStartId).Leads t iEndId path) :
    IsPath edges iStartId iEndId path.reverse
      ((network ⟨nNodes, some edges⟩ iStartId).dist t iEndId) := by
  refine ⟨.of_walk (hleads.walk (Relaxation.dist_of_label hsane.rooted.root) hsettling), ?_⟩
  obtain ⟨rest, rfl⟩ := hleads.head
  rw [List.reverse_cons, List.getLast?_concat]

theorem graphDijkstra_exact (nNodes : Nat) (hstart : 0 ≤ iStartId) (hend : 0 ≤ iEndId)
    (hids : ∀ e ∈ edges, 0 ≤ e.toId) (hweights : ∀ e ∈ edges, 0 ≤ e.weight)
    (hsmall : ∀ ids d, PathFrom edges iStartId ids d → ids.Nodup → d < dblMax) :
    ∃ r, Fuel.Settles (fun fuel => graphDijkstra fuel ⟨nNodes, some edges⟩ iStartId iEndId)
        (.ok r) ∧
      (r.rc = .notfound ↔ ¬ ∃ ids d, IsPath edges iStartId iEndId ids d) ∧
      (r.rc = .ok → ∃ ids,
        r.pzPath.bind Json.parse =
          some (.array (ids.map fun id => .scalar (.number (Text.ofInt id)))) ∧
        IsPath edges iStartId iEndId ids r.prDistance ∧
        ∀ ids' d, IsPath edges iStartId iEndId ids' d → r.prDistance ≤ d) := by
  have hnonneg : (network ⟨nNodes, some edges⟩ iStartId).Nonneg := nonneg_network hweights
  have hbucketed : Bucketed ⟨nNodes, some edges⟩ iStartId := bucketed_network hstart hids
  obtain ⟨fuel, s, hsearched⟩ := hbucketed.searched hnonneg.not_improves iEndId
  obtain ⟨t, rest, ⟨hsane, hsettling⟩, hended⟩ :=
    (kept_settling hnonneg).searched ⟨.init, .init⟩ hbucketed.1 hsearched
  have hle : ∀ ids d, IsPath edges iStartId iEndId ids d →
      (network ⟨nNodes, some edges⟩ iStartId).dist t iEndId ≤ d ∧
        (network ⟨nNodes, some edges⟩ iStartId).dist t iEndId < dblMax := by
    intro ids d hpath
    obtain ⟨y, hy, hyd⟩ := hpath.reached nNodes hweights hsmall
    have hdist := hended.dist_le hsane hnonneg hy
    exact ⟨hdist.trans hyd, hdist.trans_lt hy.lt_top⟩
  by_cases hdist : (network ⟨nNodes, some edges⟩ iStartId).dist t iEndId < dblMax
  · obtain ⟨path, hleads⟩ := hsane.rooted.leads iEndId (Relaxation.label_ne_none hdist)
    have hpath := isPath_of_leads hsane hsettling hleads
    have hall : ∀ v ∈ path, 0 ≤ v := fun v hv =>
      hpath.1.nonneg hstart hids v (List.mem_reverse.mpr hv)
    have hfound := hsearched.found hend hended.represents hdist (hleads.congr fun _ _ => rfl)
      fun v hv => .inl (hall v hv)
    have hok : Code.ok ≠ .notfound := by decide
    refine ⟨_, hfound, iff_of_false hok fun hnone => hnone ⟨_, _, hpath⟩, fun _ => ?_⟩
    refine ⟨path.reverse, ?_, hpath, fun ids' d h => (hle ids' d h).1⟩
    rw [counted_eq hall, Option.bind_some, pathText_eq, Json.parse_ofInts]
  · have hnone : ¬ ∃ ids d, IsPath edges iStartId iEndId ids d := by
      rintro ⟨ids, d, hpath⟩
      exact hdist (hle ids d hpath).2
    refine ⟨_, hsearched.notfound hend hended.represents hdist, iff_of_true rfl hnone, fun h => ?_⟩
    cases h

def sampleEdges : List (Edge ℚ) := [⟨1, 2, 1⟩, ⟨2, 1, 0⟩, ⟨1, 3, 4⟩, ⟨2, 3, 2⟩]

example : (graphDijkstra 20 ⟨3, some sampleEdges⟩ 1 3).toOption =
    some ⟨.ok, some "[1,2,3]".toList, 3⟩ := by
  decide +kernel

theorem sampleEdges_exact : ∃ r,
    Fuel.Settles (fun fuel => graphDijkstra fuel ⟨3, some sampleEdges⟩ 1 3) (.ok r) ∧
      (r.rc = .notfound ↔ ¬ ∃ ids d, IsPath sampleEdges 1 3 ids d) ∧
      (r.rc = .ok → ∃ ids,
        r.pzPath.bind Json.parse =
          some (.array (ids.map fun id => .scalar (.number (Text.ofInt id)))) ∧
        IsPath sampleEdges 1 3 ids r.prDistance ∧
        ∀ ids' d, IsPath sampleEdges 1 3 ids' d → r.prDistance ≤ d) :=
  graphDijkstra_exact 3 (by decide) (by decide) (by decide +kernel) (by decide +kernel)
    fun _ _ h => small_of_weight_le (w := 4) 3 (by decide +kernel) (by decide +kernel)
      (by decide +kernel) h

end Answer

end SqliteMultimodal.Graph.Dijkstra
