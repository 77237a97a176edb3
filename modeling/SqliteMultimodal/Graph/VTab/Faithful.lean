import SqliteMultimodal.Graph.VTab.Rowid

namespace SqliteMultimodal.Graph.VTab

variable {conv : Conversions} {store : Store}

structure Faithful (conv : Conversions) (store : Store) : Prop where
  each : scan conv store 0 [] = some (allRows store)
  distinct : ((allRows store).map (·.rowid)).Nodup
  lookup : ∀ r, scan conv store 1 [.integer r] = some ((allRows store).filter (·.rowid = r))
  delete : ∀ r draws, ∃ store',
    graphUpdate conv store draws [.integer r] = .done .ok none none store' ∧
      scan conv store' 0 [] = some ((allRows store).filter (·.rowid ≠ r))

def Untagged : Store → Prop := Ids fun k => isEdge (Int64.ofInt k) = false

theorem ofInt_eq_iff {k : Int} (hk : InRange k) (r : Int64) : Int64.ofInt k = r ↔ k = r.toInt := by
  constructor
  · rintro rfl
    rw [Int64.toInt_ofInt_of_le (by have := hk.1; omega) (by have := hk.2; omega)]
  · rintro rfl
    exact Int64.ofInt_toInt r

section Untagged

variable (hrange : Ids InRange store) (huntagged : Untagged store)

include hrange huntagged

theorem node_rowid_iff {x : Int × NodeRow} (hx : x ∈ store.nodes.rows) (r : Int64) :
    Int64.ofInt x.1 = r ↔ isEdge r = false ∧ x.1 = r.toInt := by
  have hget := RowTable.get_ne_none hx
  rw [← ofInt_eq_iff (hrange.1 _ hget)]
  constructor
  · rintro rfl
    exact ⟨huntagged.1 _ hget, rfl⟩
  · exact fun h => h.2

theorem edge_rowid_iff {x : Int × EdgeRow} (hx : x ∈ store.edges.rows) (r : Int64) :
    Int64.ofInt x.1 ||| edgeBit = r ↔ isEdge r = true ∧ x.1 = (r &&& ~~~edgeBit).toInt := by
  have hget := RowTable.get_ne_none hx
  rw [← ofInt_eq_iff (hrange.2 _ hget)]
  constructor
  · rintro rfl
    exact ⟨isEdge_or _, (or_and_not (huntagged.2 _ hget)).symm⟩
  · rintro ⟨hr, heq⟩
    rw [heq, and_not_or hr]

theorem rowids_nodup : ((allRows store).map (·.rowid)).Nodup := by
  rw [allRows, List.map_append, List.map_map, List.map_map, List.nodup_append']
  refine ⟨List.pairwise_map.mpr (store.nodes.sorted.imp_of_mem fun hx hy hlt heq => ?_),
    List.pairwise_map.mpr (store.edges.sorted.imp_of_mem fun hx hy hlt heq => ?_),
    fun r hnode hedge => ?_⟩
  · obtain ⟨-, heq⟩ := (node_rowid_iff hrange huntagged hx _).mp heq
    have hy := ((node_rowid_iff hrange huntagged hy _).mp rfl).2
    exact absurd (heq.trans hy.symm) (ne_of_lt hlt)
  · obtain ⟨-, heq⟩ := (edge_rowid_iff hrange huntagged hx _).mp heq
    have hy := ((edge_rowid_iff hrange huntagged hy _).mp rfl).2
    exact absurd (heq.trans hy.symm) (ne_of_lt hlt)
  · obtain ⟨x, hx, rfl⟩ := List.mem_map.mp hnode
    obtain ⟨y, hy, heq⟩ := List.mem_map.mp hedge
    have hx := ((node_rowid_iff hrange huntagged hx _).mp rfl).1
    have hy := ((edge_rowid_iff hrange huntagged hy _).mp heq).1
    exact absurd (hx.symm.trans hy) Bool.false_ne_true

theorem filter_allRows (q : Bool → Bool) (r : Int64) :
    (allRows store).filter (fun seen => q (seen.rowid = r)) =
      (store.nodes.rows.filter fun x => q (!isEdge r && x.1 = r.toInt)).map nodeSeen ++
        (store.edges.rows.filter fun x => q (isEdge r && x.1 = (r &&& ~~~edgeBit).toInt)).map
          edgeSeen := by
  rw [allRows, List.filter_append, List.filter_map, List.filter_map]
  congr 2
  · refine List.filter_congr fun x hx => congrArg q ?_
    rw [Bool.eq_iff_iff, decide_eq_true_iff, Bool.and_eq_true, Bool.not_eq_true',
      decide_eq_true_iff]
    exact node_rowid_iff hrange huntagged hx r
  · refine List.filter_congr fun x hx => congrArg q ?_
    rw [Bool.eq_iff_iff, decide_eq_true_iff, Bool.and_eq_true, decide_eq_true_iff]
    exact edge_rowid_iff hrange huntagged hx r

theorem lookup_eq (r : Int64) :
    scan conv store 1 [.integer r] = some ((allRows store).filter (·.rowid = r)) := by
  have hfilter := filter_allRows hrange huntagged id r
  simp only [id] at hfilter
  rw [scan_lookup, hfilter]
  cases hr : isEdge r with
  | false => simp [rowsOf]
  | true => simp [rowsOf]

theorem delete_eq (r : Int64) (draws : Nat → Int64) : ∃ store',
    graphUpdate conv store draws [.integer r] = .done .ok none none store' ∧
      scan conv store' 0 [] = some ((allRows store).filter (·.rowid ≠ r)) := by
  have hfilter := filter_allRows hrange huntagged not r
  have hdelete : graphUpdate conv store draws [.integer r] = deleteRow store r := rfl
  rw [hdelete, deleteRow]
  simp only [← decide_not] at hfilter
  simp only [hfilter]
  cases hr : isEdge r with
  | false =>
    refine ⟨_, rfl, (scan_full _ _).trans ?_⟩
    simp [allRows, RowTable.delete, RowTable.filter]
  | true =>
    refine ⟨_, rfl, (scan_full _ _).trans ?_⟩
    simp [allRows, RowTable.delete, RowTable.filter]

theorem Untagged.faithful : Faithful conv store where
  each := scan_full conv store
  distinct := rowids_nodup hrange huntagged
  lookup := lookup_eq hrange huntagged
  delete := delete_eq hrange huntagged

end Untagged

section Tagged

variable (h : Faithful conv store)

include h

theorem Faithful.node_untagged {x : Int × NodeRow} (hx : x ∈ store.nodes.rows) :
    isEdge (Int64.ofInt x.1) = false := by
  by_contra htagged
  rw [Bool.not_eq_false] at htagged
  have hmem : nodeSeen x ∈ (allRows store).filter (·.rowid = Int64.ofInt x.1) :=
    List.mem_filter.mpr ⟨List.mem_append_left _ (List.mem_map_of_mem hx), decide_eq_true rfl⟩
  have hlookup := h.lookup (Int64.ofInt x.1)
  rw [scan_lookup, if_pos htagged, Option.some.injEq] at hlookup
  rw [← hlookup] at hmem
  obtain ⟨y, -, heq⟩ := List.mem_map.mp hmem
  have htype := congrArg (·.columns.type) heq
  exact absurd htype (by simp [nodeSeen, edgeSeen])

theorem Faithful.edge_untagged {x : Int × EdgeRow} (hx : x ∈ store.edges.rows) :
    isEdge (Int64.ofInt x.1) = false := by
  by_contra htagged
  rw [Bool.not_eq_false] at htagged
  have hmem : edgeSeen x ∈ (allRows store).filter (·.rowid = Int64.ofInt x.1) :=
    List.mem_filter.mpr ⟨List.mem_append_right _ (List.mem_map_of_mem hx),
      decide_eq_true (or_eq htagged)⟩
  have hlookup := h.lookup (Int64.ofInt x.1)
  rw [scan_lookup, if_pos htagged, Option.some.injEq] at hlookup
  rw [← hlookup] at hmem
  obtain ⟨y, hy, heq⟩ := List.mem_map.mp hmem
  have hid : Int64.ofInt y.1 = Int64.ofInt x.1 := by
    simpa [edgeSeen] using congrArg (·.columns.id) heq
  have hkey : y.1 = (Int64.ofInt x.1 &&& ~~~edgeBit).toInt := by
    simpa using (List.mem_filter.mp hy).2
  rw [hkey, Int64.ofInt_toInt] at hid
  have hclear := isEdge_and_not (Int64.ofInt x.1)
  rw [hid, htagged] at hclear
  exact absurd hclear (by decide)

theorem Faithful.untagged : Untagged store := by
  refine ⟨fun k hk => ?_, fun k hk => ?_⟩
  · obtain ⟨row, hrow⟩ := Option.ne_none_iff_exists'.mp hk
    exact h.node_untagged (RowTable.get_eq_some.mp hrow)
  · obtain ⟨row, hrow⟩ := Option.ne_none_iff_exists'.mp hk
    exact h.edge_untagged (RowTable.get_eq_some.mp hrow)

end Tagged

section Runs

def SmallIds (conv : Conversions) (c : Config) : Action → Prop
  | .start _ => True
  | .call _ => c.NextCall fun argv =>
    (Inserts conv argv "node".toList → 0 < (argv.getD 3 .null).int64 conv →
      isEdge ((argv.getD 3 .null).int64 conv) = false) ∧
    (Inserts conv argv "node".toList → ¬ 0 < (argv.getD 3 .null).int64 conv →
      c.store.nodes.get 4611686018427387903 = none) ∧
    (Inserts conv argv "edge".toList → c.store.edges.get 4611686018427387903 = none)

instance decidableSmallIds (conv : Conversions) (c : Config) :
    (a : Action) → Decidable (SmallIds conv c a)
  | .start _ => isTrue trivial
  | .call _ => Config.decidableNextCall c _

variable {draws : Nat → Int64} {argv : List Value} {store' : Store} {ρ : Type} {t : RowTable ρ}
  {k : Int}

def Small (k : Int) : Prop := 0 < k ∧ k < 4611686018427387904

theorem newRowid_small (ht : ∀ k, t.get k ≠ none → Small k)
    (hlast : t.get 4611686018427387903 = none) (h : newRowid t draws = some k) : Small k := by
  have hlt : t.nextKey < 4611686018427387904 := by
    obtain hnext | hpred := t.nextKey_pred
    · omega
    · have hne : t.nextKey - 1 ≠ 4611686018427387903 := fun heq => hpred (heq ▸ hlast)
      have := (ht _ hpred).2
      omega
  rw [newRowid, if_pos (by omega)] at h
  cases h
  exact ⟨nextKey_pos fun k hk => (ht k hk).1, hlt⟩

theorem small_toInt {r : Int64} (h0 : 0 < r) (h : isEdge r = false) : Small r.toInt := by
  have hpos : 0 < r.toInt := Int64.lt_iff_toInt_lt.mp h0
  have hbit := isEdge_ofInt hpos (Int64.toInt_le r)
  rw [Int64.ofInt_toInt, h] at hbit
  exact ⟨hpos, not_le.mp (of_decide_eq_false hbit.symm)⟩

theorem Small.untagged (h : Ids Small store) : Untagged store := by
  have hbit : ∀ k, Small k → isEdge (Int64.ofInt k) = false := fun k hk => by
    rw [isEdge_ofInt hk.1 (by have := hk.2; omega), decide_eq_false_iff_not]
    exact not_le.mpr hk.2
  exact ⟨fun k hk => hbit k (h.1 k hk), fun k hk => hbit k (h.2 k hk)⟩

theorem Small.inRange (h : Ids Small store) : Ids InRange store := by
  have hrange : ∀ k, Small k → InRange k := fun k hk => ⟨hk.1, by have := hk.2; omega⟩
  exact ⟨fun k hk => hrange k (h.1 k hk), fun k hk => hrange k (h.2 k hk)⟩

theorem reached_small {c : Config} (h : Machine.Reached (step conv) (SmallIds conv) .start c) :
    Ids Small c.store := by
  refine reached_history (P := fun store _ => Ids Small store) h ?_
    fun c draws argv calls frames store' hc hok hframes heffect => ?_
  · exact ⟨fun k hk => absurd rfl hk, fun k hk => absurd rfl hk⟩
  · obtain ⟨hupsert, hnode, hedge⟩ := hok argv calls frames hframes
    exact heffect.ids hc (fun hinsert hid => small_toInt hid (hupsert hinsert hid))
      (fun hinsert hid k => newRowid_small hc.1 (hnode hinsert hid))
      fun hinsert k => newRowid_small hc.2 (hedge hinsert)

theorem rowids_faithful (conv : Conversions) :
    (∀ c, Machine.Reached (step conv) (fun _ _ => True) .start c →
      (Faithful conv c.store ↔ Untagged c.store)) ∧
    ∀ c, Machine.Reached (step conv) (SmallIds conv) .start c → Faithful conv c.store :=
  ⟨fun _ h => ⟨Faithful.untagged, Untagged.faithful (reached_inRange h)⟩,
    fun _ h => Untagged.faithful (Small.inRange (reached_small h)) (Small.untagged (reached_small h))⟩

theorem small_id_faithful : ∃ c,
    Machine.run (step plainConversions) .start (insertActions (nodeColumns 5)) = some c ∧
      c.store.nodes.get 5 ≠ none ∧ Faithful plainConversions c.store := by
  exact ⟨_, rfl, by decide +kernel, (rowids_faithful plainConversions).2 _
    (Machine.Reached.run .start (insertActions (nodeColumns 5)) rfl (by decide +kernel))⟩

theorem tagged_id_unfaithful : ¬ ∀ conv c,
    Machine.Reached (step conv) (fun _ _ => True) .start c → Faithful conv c.store := by
  intro hall
  have hfaithful := hall plainConversions _ (Machine.Reached.run .start
    (insertActions (nodeColumns 4611686018427387904)) rfl fun _ _ => trivial)
  have huntagged := hfaithful.untagged.1 4611686018427387904 (by decide +kernel)
  exact absurd huntagged (by decide)

end Runs

end SqliteMultimodal.Graph.VTab
