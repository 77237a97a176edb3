import Mathlib.Data.List.Perm.Basic
import SqliteMultimodal.Graph.Components.Run
import SqliteMultimodal.Lib.JsonValue

namespace SqliteMultimodal.Graph.Components

open Fuel

section Leads

def Tables.Leads (tables : Tables) : Int → Int → Prop :=
  Relation.ReflTransGen fun i j => ⟨i, j⟩ ∈ tables.edges ∧ j ∈ tables.nodes

variable {tables : Tables} {aNodeIds : List Int} {i j : Int} {a b k : Nat}

theorem Tables.mem_targets : j ∈ tables.targets i ↔ ⟨i, j⟩ ∈ tables.edges := by
  rw [targets, List.mem_map]
  constructor
  · rintro ⟨e, he, rfl⟩
    obtain ⟨hmem, hfrom⟩ := List.mem_filter.mp he
    obtain rfl := of_decide_eq_true hfrom
    exact hmem
  · intro h
    exact ⟨⟨i, j⟩, List.mem_filter.mpr ⟨h, decide_eq_true rfl⟩, rfl⟩

theorem createNodeIndexMap_perm (tables : Tables) : (createNodeIndexMap tables).Perm tables.nodes :=
  List.perm_insertionSort ..

theorem createNodeIndexMap_sorted (tables : Tables) :
    (createNodeIndexMap tables).Pairwise (· < ·) := by
  have hnodup : (createNodeIndexMap tables).Pairwise (· ≠ ·) :=
    (createNodeIndexMap_perm tables).nodup_iff.mpr tables.nodup
  have hle : (createNodeIndexMap tables).Pairwise (· ≤ ·) := List.pairwise_insertionSort ..
  exact hle.imp₂ (fun _ _ => lt_of_le_of_ne) hnodup

theorem mem_places : b ∈ places tables aNodeIds a ↔
    ∃ j ∈ tables.targets (idAt aNodeIds a), aNodeIds.idxOf? j = some b :=
  List.mem_filterMap

theorem idAt_of_idxOf (h : aNodeIds.idxOf? j = some b) :
    b < aNodeIds.length ∧ idAt aNodeIds b = j := by
  obtain ⟨hlt, heq, _⟩ := List.idxOf?_eq_some_iff.mp h
  refine ⟨hlt, Option.some.inj ((idAt_eq hlt).symm.trans ?_)⟩
  rw [List.getElem?_eq_getElem hlt, heq]

theorem leads_of_reach (hperm : aNodeIds.Perm tables.nodes)
    (h : Tarjan.Reach (places tables aNodeIds) a b) :
    tables.Leads (idAt aNodeIds a) (idAt aNodeIds b) := by
  refine h.lift (idAt aNodeIds) fun x y hy => ?_
  obtain ⟨j, hj, hidx⟩ := mem_places.mp hy
  obtain ⟨_, rfl⟩ := idAt_of_idxOf hidx
  exact ⟨Tables.mem_targets.mp hj, hperm.subset (List.isSome_idxOf?.mp (by rw [hidx]; rfl))⟩

theorem reach_of_leads (hperm : aNodeIds.Perm tables.nodes) (h : tables.Leads i j)
    (ha : aNodeIds.idxOf? i = some a) :
    ∃ b, aNodeIds.idxOf? j = some b ∧ Tarjan.Reach (places tables aNodeIds) a b := by
  induction h with
  | refl => exact ⟨a, ha, .refl⟩
  | tail _ hstep ih =>
    obtain ⟨b, hb, hreach⟩ := ih
    obtain ⟨c, hc⟩ := Option.isSome_iff_exists.mp
      (List.isSome_idxOf?.mpr (hperm.mem_iff.mpr hstep.2))
    refine ⟨c, hc, hreach.tail (mem_places.mpr ⟨_, ?_, hc⟩)⟩
    rw [(idAt_of_idxOf hb).2]
    exact Tables.mem_targets.mpr hstep.1

theorem map_idAt_range (aNodeIds : List Int) :
    (List.range aNodeIds.length).map (idAt aNodeIds) = aNodeIds := by
  apply List.ext_getElem
  · simp
  · intro k hk hk'
    rw [List.getElem_map, List.getElem_range]
    exact Option.some.inj ((idAt_eq hk').symm.trans (List.getElem?_eq_getElem hk'))

end Leads

section Result

variable (tables : Tables)

theorem resultText_eq (azSCC : List Text) :
    resultText azSCC = '[' :: (Text.join ',' azSCC ++ [']']) := by
  rw [resultText, Text.foldl_zipIdx ',' (fun zSCC => zSCC), List.map_id']
  rfl

/-- From so many calls within each other on, the result is an array that has each id in one of its
arrays, together with those that it leads to and that lead to it. -/
theorem graphStronglyConnectedComponents_spec :
    ∃ (zResult : Text) (comps : List (List Int)),
      Settles (graphStronglyConnectedComponents tables) (some zResult) ∧
      Json.parse zResult = some (.array (comps.map fun ids => .array (ids.map fun id =>
        .scalar (.number (Text.ofInt id))))) ∧
      comps.flatten.Perm tables.nodes ∧
      ∀ i ∈ tables.nodes, ∀ j ∈ tables.nodes,
        (∃ ids ∈ comps, i ∈ ids ∧ j ∈ ids) ↔ tables.Leads i j ∧ tables.Leads j i := by
  by_cases hempty : tables.nodes.length = 0
  · refine ⟨['[', ']'], [], .of_eq fun n => if_pos hempty, Json.parse_ofInts_ofInts [], ?_, ?_⟩
    · rw [List.length_eq_zero_iff.mp hempty]
      exact .nil
    · intro i hi
      rw [List.length_eq_zero_iff.mp hempty] at hi
      exact absurd hi List.not_mem_nil
  have hperm := createNodeIndexMap_perm tables
  have hrun := fun n => @components_tracks tables _ (createNodeIndexMap_sorted tables) n
  generalize hids : createNodeIndexMap tables = ids at hperm hrun
  have hverts : ∀ x ∈ List.range ids.length, ∀ y ∈ places tables ids x,
      y ∈ List.range ids.length := by
    intro x _ y hy
    obtain ⟨j, _, hidx⟩ := mem_places.mp hy
    exact List.mem_range.mpr (idAt_of_idxOf hidx).1
  obtain ⟨t, ht, hnodup, hmem, hcomp⟩ := Tarjan.components_spec hverts le_rfl
  have hsettles : Settles (Tarjan.components (places tables ids) · (List.range ids.length))
      (some t) := .of_succ (fun n t => Tarjan.components_succ) ht
  obtain ⟨n, hn⟩ := hsettles
  refine ⟨resultText (stored ids t).azSCC, t.comps.map (·.map (idAt ids)), ⟨n, fun m hm => ?_⟩,
    ?_, ?_, fun i hi j hj => ⟨?_, ?_⟩⟩
  · have hm : Tarjan.components (places tables ids) m (List.range ids.length) = some t := hn m hm
    rw [graphStronglyConnectedComponents, if_neg hempty, ← hperm.length_eq, hids, hrun, hm]
    rfl
  · have hparse := Json.parse_ofInts_ofInts (t.comps.map (·.map (idAt ids)))
    rw [List.map_map] at hparse
    rw [resultText_eq]
    exact hparse
  · have hall : t.comps.flatten.Perm (List.range ids.length) :=
      (List.perm_ext_iff_of_nodup hnodup List.nodup_range).mpr hmem
    rw [← List.map_flatten]
    exact (hall.map _).trans (by rwa [map_idAt_range])
  · rintro ⟨_, hids, hic, hjc⟩
    obtain ⟨c, hc, rfl⟩ := List.mem_map.mp hids
    obtain ⟨a, ha, rfl⟩ := List.mem_map.mp hic
    obtain ⟨b, hb, rfl⟩ := List.mem_map.mp hjc
    obtain ⟨hab, hba⟩ := (hcomp c hc a ha b).mp hb
    exact ⟨leads_of_reach hperm hab, leads_of_reach hperm hba⟩
  · rintro ⟨hij, hji⟩
    obtain ⟨a, ha⟩ := Option.isSome_iff_exists.mp (List.isSome_idxOf?.mpr (hperm.mem_iff.mpr hi))
    obtain ⟨b, hb, hab⟩ := reach_of_leads hperm hij ha
    obtain ⟨a', ha', hba⟩ := reach_of_leads hperm hji hb
    obtain rfl : a = a' := Option.some.inj (ha.symm.trans ha')
    obtain ⟨c, hc, hac⟩ := List.mem_flatten.mp
      ((hmem a).mpr (List.mem_range.mpr (idAt_of_idxOf ha).1))
    have hbc : b ∈ c := (hcomp c hc a hac b).mpr ⟨hab, hba⟩
    exact ⟨_, List.mem_map_of_mem hc, List.mem_map.mpr ⟨a, hac, (idAt_of_idxOf ha).2⟩,
      List.mem_map.mpr ⟨b, hbc, (idAt_of_idxOf hb).2⟩⟩

end Result

end SqliteMultimodal.Graph.Components
