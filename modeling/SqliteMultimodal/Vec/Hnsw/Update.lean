import SqliteMultimodal.Vec.Hnsw.Contents
import SqliteMultimodal.Vec.Hnsw.Run

namespace SqliteMultimodal.Vec.Hnsw.Memory

variable {α : Type}

def Node.entry (n : Node α) : Option (Rowid × List α) :=
  if n.deleted then none else some (n.rowid.toInt64, n.vec)

def live (nodes : List (Node α)) : Multiset (Rowid × List α) := nodes.filterMap Node.entry

section Live

theorem NodesRep.live {known : Nat → HNSWNode α → Prop} {ms : List (Node α)}
    {ns : List (HNSWNode α)} (h : NodesRep known ms ns) : live ms = entries ns := by
  have hcore : ms.filterMap Node.entry = (ms.map Node.core).filterMap fun c =>
      if c.2.2.2.2 then none else some (c.2.1.toInt64, c.2.2.2.1) := by
    rw [List.filterMap_map]
    rfl
  have hfst : ns.filterMap HNSWNode.entry = (ns.zipIdx.map Prod.fst).filterMap HNSWNode.entry := by
    rw [List.zipIdx_map_fst]
  rw [Memory.live, entries, hcore, h.core, hfst, List.filterMap_map, List.filterMap_map]
  rfl

theorem perm_modify {β : Type} {xs : List β} {i : Nat} {x : β} (h : xs[i]? = some x) (f : β → β) :
    (xs.modify i f).Perm (f x :: xs.eraseIdx i) := by
  obtain ⟨hlt, rfl⟩ := List.getElem?_eq_some_iff.mp h
  rw [List.modify_eq_take_cons_drop hlt, List.eraseIdx_eq_take_drop_succ]
  exact List.perm_middle

theorem live_modify {nodes : List (Node α)} {i : Nat} {n : Node α} (h : nodes[i]? = some n)
    (f : Node α → Node α) :
    live (nodes.modify i f) = live [f n] + live (nodes.eraseIdx i) := by
  rw [live, Multiset.coe_eq_coe.mpr ((perm_modify h f).filterMap _), live, live, Multiset.coe_add,
    ← List.filterMap_append]
  rfl

theorem live_modify_none {nodes : List (Node α)} {i : Nat} {n : Node α} (h : nodes[i]? = some n)
    {f : Node α → Node α} (hf : (f n).entry = none) :
    live (nodes.modify i f) = live (nodes.eraseIdx i) := by
  rw [live_modify h, live, List.filterMap_cons, hf]
  exact Multiset.zero_add (live (nodes.eraseIdx i))

theorem live_modify_some {nodes : List (Node α)} {i : Nat} {n : Node α} (h : nodes[i]? = some n)
    {f : Node α → Node α} {x : Rowid × List α} (hf : (f n).entry = some x) :
    live (nodes.modify i f) = x ::ₘ live (nodes.eraseIdx i) := by
  rw [live_modify h, live, List.filterMap_cons, hf]
  exact Multiset.singleton_add _ _

theorem live_eq_cons {nodes : List (Node α)} {i : Nat} {n : Node α} (h : nodes[i]? = some n)
    {x : Rowid × List α} (hn : n.entry = some x) :
    live nodes = x ::ₘ live (nodes.eraseIdx i) := by
  have hmodify := live_modify_some (f := id) h hn
  rwa [List.modify_id] at hmodify

theorem findLive_eq_some {nodes : List (Node α)} {rowid : Int32} {i : Nat}
    (h : findLive nodes rowid = some i) :
    ∃ n, nodes[i]? = some n ∧ n.entry = some (rowid.toInt64, n.vec) := by
  obtain ⟨hlt, hn, -⟩ := List.findIdx?_eq_some_iff_getElem.mp h
  obtain ⟨hrowid, hlive⟩ := of_decide_eq_true hn
  refine ⟨nodes[i], List.getElem?_eq_getElem hlt, ?_⟩
  rw [Node.entry, if_neg (by simpa using hlive), hrowid]

theorem exists_findLive {nodes : List (Node α)} {rowid : Int32}
    (h : ∃ n ∈ nodes, n.rowid = rowid ∧ n.deleted = false) :
    ∃ i, findLive nodes rowid = some i := by
  obtain ⟨n, hn, hrowid, hlive⟩ := h
  rw [← Option.isSome_iff_exists, findLive, List.findIdx?_isSome, List.any_eq_true]
  exact ⟨n, hn, decide_eq_true ⟨hrowid, by rw [hlive]; rfl⟩⟩

end Live

section Update

variable [LinearOrder α] (distfunc : List α → List α → α) (randomLevel : Nat → Nat) (mem : Node α)
  (m : Graph α) (rowid : Int32) (vec : List α) (reinsert : Bool)

/-- What an update that returns `rc` is to do to the rows. -/
structure Atomic (rows rows' : Multiset (Rowid × List α)) (rc : ResultCode) (rowid : Rowid)
    (vec : List α) : Prop where
  stored : rc = sqliteOk → rows'.filter (·.1 = rowid) = {(rowid, vec)}
  kept : rc ≠ sqliteOk → ∀ x, x ∈ rows' ↔ x ∈ rows

def UpdatesAtomically : Prop :=
  ∃ m' rc, Returns (fun fuel => hnswUpdate distfunc randomLevel fuel mem m rowid vec reinsert)
    (m', rc) ∧ Atomic (live m.nodes) (live m'.nodes) rc rowid.toInt64 vec

def NoRoom : Prop := reinsert = true ∧ m.maxNodes ≤ m.nodes.length

def UpdateSafe : Prop :=
  (¬ NoRoom m reinsert ∧ Multiset.card ((live m.nodes).filter (·.1 = rowid.toInt64)) = 1) ∨
    NoRoom m reinsert ∧ ∃ i n, findLive m.nodes rowid = some i ∧ m.nodes[i]? = some n ∧
      2 ≤ (live m.nodes).count (rowid.toInt64, n.vec)

variable {distfunc randomLevel mem m rowid vec reinsert} {maxNodes dim : Nat}

variable (mem reinsert) in
theorem hnswUpdate_spec (hreach : Reachable maxNodes dim m)
    (hrandom : ∀ i, randomLevel i < maxLevels) (hvec : vec.length = dim) {i : Nat} {n : Node α}
    (hfind : findLive m.nodes rowid = some i) (hn : m.nodes[i]? = some n) :
    ∃ m' rc, Returns (fun fuel => hnswUpdate distfunc randomLevel fuel mem m rowid vec reinsert)
        (m', rc) ∧
      (NoRoom m reinsert → rc = sqliteNomem ∧ live m'.nodes = live (m.nodes.eraseIdx i)) ∧
      (¬ NoRoom m reinsert → rc = sqliteOk ∧
        live m'.nodes = (rowid.toInt64, vec) ::ₘ live (m.nodes.eraseIdx i)) := by
  obtain ⟨⟨h, hs, -⟩, hdim⟩ := hreach.sound
  obtain ⟨n', hn', hentry⟩ := findLive_eq_some hfind
  obtain rfl := Option.some.inj (hn.symm.trans hn')
  simp only [hnswUpdate, hfind]
  cases reinsert with
  | false =>
    have hstored : ({ n with vec } : Node α).entry = some (rowid.toInt64, vec) := by
      unfold Node.entry at hentry ⊢
      split at hentry
      · cases hentry
      next hlive =>
        rw [if_neg hlive, (Prod.mk.inj (Option.some.inj hentry)).1]
    exact ⟨_, _, ⟨0, fun _ _ => rfl⟩, fun hfull => absurd hfull.1 Bool.false_ne_true,
      fun _ => ⟨rfl, live_modify_some hn hstored⟩⟩
  | true =>
    have hmarked : live (m.nodes.modify i fun n => { n with deleted := true }) =
        live (m.nodes.eraseIdx i) := live_modify_none hn rfl
    by_cases hfull : m.maxNodes ≤ m.nodes.length
    · have hfull' : m.maxNodes ≤ (m.nodes.modify i fun n => { n with deleted := true }).length := by
        rwa [List.length_modify]
      exact ⟨{ m with nodes := m.nodes.modify i fun n => { n with deleted := true } },
        sqliteNomem, ⟨0, fun _ _ => if_pos hfull'⟩, fun _ => ⟨rfl, hmarked⟩,
        fun hroom => absurd ⟨rfl, hfull⟩ hroom⟩
    · have hmark := hs.mark i
      have hroom : (h.nodes.modify i HNSWNode.mark).length < h.maxNodes := by
        rw [List.length_modify, ← hs.rep.nodes.length, ← hs.rep.maxNodes]
        exact Nat.lt_of_not_le hfull
      obtain ⟨m', hadd, hs', -⟩ := hmark.hnswAdd distfunc hrandom mem (hvec.trans hdim.symm) rowid
      obtain ⟨hrc, hentries⟩ := @Hnsw.hnswAdd_spec _ _ distfunc randomLevel
        { h with nodes := h.nodes.modify i HNSWNode.mark } hroom vec rowid
      refine ⟨m', _, hadd, fun hno => absurd hno.2 hfull, fun _ => ⟨hrc, ?_⟩⟩
      rw [hs'.rep.nodes.live, hentries, ← hmark.rep.nodes.live, hmarked]

omit [LinearOrder α] in
theorem filter_row_cons (rowid : Rowid) (vec : List α) (rows : Multiset (Rowid × List α)) :
    ((rowid, vec) ::ₘ rows).filter (·.1 = rowid) = (rowid, vec) ::ₘ rows.filter (·.1 = rowid) :=
  Multiset.filter_cons_of_pos _ rfl

/-- What is left of the row's entries decides. -/
theorem updatesAtomically_iff (hreach : Reachable maxNodes dim m)
    (hrandom : ∀ i, randomLevel i < maxLevels) (hvec : vec.length = dim)
    (hlive : ∃ n ∈ m.nodes, n.rowid = rowid ∧ n.deleted = false) :
    UpdatesAtomically distfunc randomLevel mem m rowid vec reinsert ↔
      UpdateSafe m rowid reinsert := by
  obtain ⟨i, hfind⟩ := exists_findLive hlive
  obtain ⟨n, hn, hentry⟩ := findLive_eq_some hfind
  have hrows := live_eq_cons hn hentry
  obtain ⟨m', rc, hreturns, hfull, hroom⟩ :=
    hnswUpdate_spec mem reinsert hreach hrandom hvec hfind hn
  have hatomic : UpdatesAtomically distfunc randomLevel mem m rowid vec reinsert ↔
      Atomic (live m.nodes) (live m'.nodes) rc rowid.toInt64 vec := by
    constructor
    · rintro ⟨m'', rc', hreturns', hatomic⟩
      obtain ⟨rfl, rfl⟩ := Prod.mk.inj (hreturns'.unique hreturns)
      exact hatomic
    · exact fun hatomic => ⟨m', rc, hreturns, hatomic⟩
  rw [hatomic]
  by_cases hno : NoRoom m reinsert
  · obtain ⟨rfl, hrest⟩ := hfull hno
    rw [hrest, hrows]
    constructor
    · intro h
      refine .inr ⟨hno, i, n, hfind, hn, ?_⟩
      have hmem := (h.kept (by decide) _).mpr (Multiset.mem_cons_self _ _)
      rw [hrows, Multiset.count_cons_self]
      exact Nat.succ_le_succ (Multiset.one_le_count_iff_mem.mpr hmem)
    · rintro (⟨hroom, -⟩ | ⟨-, i', n', hfind', hn', htwice⟩)
      · exact absurd hno hroom
      · obtain rfl := Option.some.inj (hfind.symm.trans hfind')
        obtain rfl := Option.some.inj (hn.symm.trans hn')
        rw [hrows, Multiset.count_cons_self] at htwice
        have hmem := Multiset.one_le_count_iff_mem.mp (Nat.le_of_succ_le_succ htwice)
        refine ⟨fun hok => absurd hok (by decide), fun _ x => ?_⟩
        rw [Multiset.mem_cons]
        exact ⟨.inr, fun h => h.elim (fun heq => heq ▸ hmem) id⟩
  · obtain ⟨rfl, hrest⟩ := hroom hno
    have hsafe : UpdateSafe m rowid reinsert ↔
        (live (m.nodes.eraseIdx i)).filter (·.1 = rowid.toInt64) = 0 := by
      rw [UpdateSafe, hrows, filter_row_cons, Multiset.card_cons,
        Nat.add_eq_right, Multiset.card_eq_zero]
      exact ⟨fun h => h.elim And.right fun h => absurd h.1 hno, fun h => .inl ⟨hno, h⟩⟩
    rw [hsafe, hrest]
    constructor
    · intro h
      have hstored := h.stored rfl
      rw [filter_row_cons] at hstored
      exact (Multiset.cons_inj_right _).mp hstored
    · intro h
      refine ⟨fun _ => ?_, fun hne => absurd rfl hne⟩
      rw [filter_row_cons, h]
      rfl

end Update

section Sample

theorem pairGraph_updatesAtomically :
    UpdatesAtomically lineDist (fun _ => 0) blankNode pairGraph 8 [4] true :=
  (updatesAtomically_iff pairGraph_reachable (fun _ => by decide) rfl
    ⟨_, List.mem_cons_of_mem _ List.mem_cons_self, rfl, rfl⟩).mpr
    (.inl ⟨fun h => absurd h.2 (by decide), by decide⟩)

def fullGraph : Graph ℤ := addNode lineDist 0 (hnswCreate 1 1) [5] 7

theorem fullGraph_reachable : Reachable 1 1 fullGraph := by
  have hrandom : ∀ i : Nat, (fun _ => 0 : Nat → Nat) i < maxLevels := fun _ => Nat.zero_lt_succ 7
  exact .add lineDist hrandom blankNode (rfl : [(5 : ℤ)].length = 1) 7 .create ⟨0, fun _ _ => rfl⟩

theorem fullGraph_not_updatesAtomically :
    Reachable 1 1 fullGraph ∧ live fullGraph.nodes = {(7, [5])} ∧
      ¬ UpdatesAtomically lineDist (fun _ => 0) blankNode fullGraph 7 [6] true := by
  refine ⟨fullGraph_reachable, by decide, ?_⟩
  rintro ⟨m', rc, hreturns, hatomic⟩
  have hmarked : Returns (fun fuel => hnswUpdate lineDist (fun _ => 0) fuel blankNode fullGraph 7
      [6] true) ((hnswDelete fullGraph 7).1, sqliteNomem) := ⟨0, fun _ _ => rfl⟩
  obtain ⟨rfl, rfl⟩ := Prod.mk.inj (hreturns.unique hmarked)
  exact absurd ((hatomic.kept (by decide) (7, [5])).mpr (by decide)) (by decide)

end Sample

end SqliteMultimodal.Vec.Hnsw.Memory
