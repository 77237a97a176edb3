import SqliteMultimodal.Vec.Hnsw.Run

namespace SqliteMultimodal.Vec.Hnsw.Memory

variable {α : Type}

section Entry

variable {known : Nat → HNSWNode α → Prop} {ms : List (Node α)} {ns : List (HNSWNode α)}

theorem find?_drop_zipIdx {e : Nat} (he : e < ns.length) :
    (ns.zipIdx.drop e).find? (fun x => !x.1.deleted) =
      if ns[e].deleted then (ns.zipIdx.drop (e + 1)).find? fun x => !x.1.deleted
      else some (ns[e], e) := by
  have hlen : e < ns.zipIdx.length := by rwa [List.length_zipIdx]
  rw [List.drop_eq_getElem_cons hlen, List.find?_cons, List.getElem_zipIdx, Nat.zero_add]
  cases ns[e].deleted with
  | false => rfl
  | true => rfl

theorem scanEntry_some (hrep : NodesRep known ms ns) {e i : Nat} {c : Node α} {n : HNSWNode α}
    (hc : ms[e]? = some c)
    (hfind : (ns.zipIdx.drop e).find? (fun x => !x.1.deleted) = some (n, i)) {fuel : Nat}
    (hfuel : ns.length < fuel + e) :
    ∃ m, scanEntry ms fuel e c = .ok ((i : Int), m) ∧ ms[i]? = some m := by
  induction fuel generalizing e c with
  | zero =>
    have := hrep.length ▸ (List.getElem?_eq_some_iff.mp hc).1
    omega
  | succ fuel ih =>
    have he : e < ns.length := hrep.length ▸ (List.getElem?_eq_some_iff.mp hc).1
    have hcrep := hrep.node e c _ hc (List.getElem?_eq_getElem he)
    rw [find?_drop_zipIdx he] at hfind
    rw [scanEntry, hcrep.deleted, hrep.length]
    cases hdel : ns[e].deleted with
    | false =>
      rw [hdel] at hfind
      obtain ⟨-, rfl⟩ := Prod.mk.inj (Option.some.inj hfind)
      exact ⟨c, rfl, hc⟩
    | true =>
      rw [hdel, if_pos rfl] at hfind
      have hlt : e + 1 < ns.length := by
        by_contra hge
        rw [List.drop_eq_nil_of_le (by rw [List.length_zipIdx]; omega)] at hfind
        simp at hfind
      obtain ⟨c', hc', -⟩ := hrep.exists_left (List.getElem?_eq_getElem hlt)
      have hload : load ms ((e : Int) + 1) = .ok c' := load_of_getElem? hc'
      rw [if_pos (by simpa using he), hload, Except.ok_bind]
      exact ih (e := e + 1) hc' hfind (by omega)

theorem scanEntry_none (hrep : NodesRep known ms ns) {e : Nat} {c : Node α} (hc : ms[e]? = some c)
    (hfind : (ns.zipIdx.drop e).find? (fun x => !x.1.deleted) = none) (fuel : Nat)
    (r : Int × Node α) : scanEntry ms fuel e c ≠ .ok r := by
  induction fuel generalizing e c with
  | zero => simp [scanEntry]
  | succ fuel ih =>
    have he : e < ns.length := hrep.length ▸ (List.getElem?_eq_some_iff.mp hc).1
    have hcrep := hrep.node e c _ hc (List.getElem?_eq_getElem he)
    rw [find?_drop_zipIdx he] at hfind
    rw [scanEntry, hcrep.deleted, hrep.length]
    cases hdel : ns[e].deleted with
    | false => simp [hdel] at hfind
    | true =>
      rw [hdel, if_pos rfl] at hfind
      rw [if_pos (by simpa using he)]
      intro hok
      obtain ⟨c', hload, hok⟩ := Except.bind_eq_ok.mp hok
      exact ih (load_eq_ok.mp hload).2 hfind hok

end Entry

section Queue

variable {known : Nat → HNSWNode α → Prop} {ms : List (Node α)} {h : HNSW α}

/-- `visited` marks what has been put into the queue. -/
structure Marks (size : Nat) (visited : List Bool) (q : List Nat) : Prop where
  length : visited.length = size
  nodup : q.Nodup
  lt : ∀ j ∈ q, j < size
  mark : ∀ j < size, visited[j]? = some (decide (j ∈ q))

theorem Marks.length_lt {size : Nat} {visited : List Bool} {q : List Nat} (h : Marks size visited q)
    {j : Nat} (hj : j < size) (hnew : j ∉ q) : q.length < size := by
  have hsub : (j :: q).Subperm (List.range size) :=
    List.subperm_of_subset (List.nodup_cons.mpr ⟨hnew, h.nodup⟩) fun k hk => by
      rw [List.mem_range]
      obtain rfl | hk := List.mem_cons.mp hk
      · exact hj
      · exact h.lt k hk
  have hle := hsub.length_le
  rw [List.length_cons, List.length_range] at hle
  exact hle

theorem Marks.length_le {size : Nat} {visited : List Bool} {q : List Nat}
    (h : Marks size visited q) :
    q.length ≤ size := by
  have hsub : q.Subperm (List.range size) :=
    List.subperm_of_subset h.nodup fun k hk => List.mem_range.mpr (h.lt k hk)
  exact hsub.length_le.trans_eq List.length_range

theorem Marks.push {size : Nat} {visited : List Bool} {q : List Nat} (h : Marks size visited q)
    {j : Nat} (hj : j < size) (hnew : j ∉ q) : Marks size (visited.set j true) (q ++ [j]) where
  length := List.length_set.trans h.length
  nodup := List.nodup_append.mpr ⟨h.nodup, List.nodup_singleton j, fun a ha b hb hab =>
    hnew (List.mem_singleton.mp hb ▸ hab ▸ ha)⟩
  lt k hk := by
    obtain hk | hk := List.mem_append.mp hk
    · exact h.lt k hk
    · exact List.mem_singleton.mp hk ▸ hj
  mark k hk := by
    rw [List.getElem?_set]
    by_cases hjk : j = k
    · subst hjk
      simp [h.length, hk]
    · rw [if_neg hjk, h.mark k hk]
      simp [Ne.symm hjk]

theorem enqueueNbors_spec (hrep : NodesRep known ms h.nodes) (hok : LevelOk known h.nodes 0)
    {id : Nat} {m : Node α} {n : HNSWNode α} (hm : NodeRep known id m n)
    (hn : h.nodes[id]? = some n) (hknown : known 0 n) {fuel i : Nat}
    (hfuel : maxNeighbors < fuel + i) (hi : i ≤ maxNeighbors) {visited : List Bool} {q : List Nat}
    (hmarks : Marks h.nodes.length visited q) :
    ∃ visited', enqueueNbors ms m fuel i visited (q.map Int.ofNat) =
        .ok (visited', (Bfs.enqueue (((n.nborsAt 0).drop i).filter fun j =>
          h.nodes[j]?.any fun m => !m.deleted) q).map Int.ofNat) ∧
      Marks h.nodes.length visited' (Bfs.enqueue (((n.nborsAt 0).drop i).filter fun j =>
        h.nodes[j]?.any fun m => !m.deleted) q) := by
  induction fuel generalizing i visited q with
  | zero => omega
  | succ fuel ih =>
    have hlinks := hm.links 0 hknown
    obtain ⟨hlen, hnbors⟩ := hok id n hn
    have hcount := count_eq m (Nat.zero_lt_succ 7 : 0 < maxLevels)
    rw [enqueueNbors, hcount, Except.ok_bind, hlinks.count]
    rcases Nat.lt_or_ge i (n.nborsAt 0).length with hlt | hge
    · have hget := List.getElem?_eq_getElem hlt
      obtain ⟨k, hk, -⟩ := hnbors _ (List.getElem_mem hlt)
      obtain ⟨c, hc, hck⟩ := hrep.exists_left hk
      have hj := (List.getElem?_eq_some_iff.mp hk).1
      rw [if_pos (Int.ofNat_lt.mpr hlt), nbor_eq m (Nat.zero_lt_succ 7 : 0 < maxLevels) (by omega),
        Except.ok_bind, hlinks.nbor i _ hget, load_of_getElem? (hmarks.mark _ hj), Except.ok_bind,
        List.drop_eq_getElem_cons hlt]
      generalize (n.nborsAt 0)[i] = j at hk hc hck hj
      have hlive : h.nodes[j]?.any (fun m => !m.deleted) = !k.deleted := by rw [hk]; rfl
      rw [List.filter_cons, hlive]
      by_cases hmem : j ∈ q
      · rw [if_pos (by simpa using hmem)]
        cases k.deleted with
        | true => exact ih (by omega) (by omega) hmarks
        | false =>
          rw [Bool.not_false, if_pos rfl, Bfs.enqueue_cons, if_pos hmem]
          exact ih (by omega) (by omega) hmarks
      · rw [if_neg (by simpa using hmem), load_of_getElem? hc, Except.ok_bind, hck.deleted]
        cases k.deleted with
        | true => exact ih (by omega) (by omega) hmarks
        | false =>
          have hpush : push h.nodes.length (q.map Int.ofNat) (j : Int) =
              .ok ((q ++ [j]).map Int.ofNat) := by
            have hlt := hmarks.length_lt hj hmem
            rw [push, if_pos (by rw [List.length_map]; omega), List.map_append]
            rfl
          rw [if_neg (by decide), store_natCast (hmarks.length ▸ hj), Except.ok_bind, hrep.length,
            hpush, Except.ok_bind, Bool.not_false, if_pos rfl, Bfs.enqueue_cons, if_neg hmem]
          exact ih (by omega) (by omega) (hmarks.push hj hmem)
    · rw [if_neg (by omega), List.drop_eq_nil_of_le hge]
      exact ⟨visited, rfl, hmarks⟩

end Queue

theorem levelOk_of_wf {h : HNSW α} (hwf : Wf h)
    {known : Nat → HNSWNode α → Prop} (hknown : ∀ l n, l < maxLevels → l ≤ n.level → known l n)
    {l : Nat} (hl : l < maxLevels) : LevelOk known h.nodes l := fun i n hn => by
  have hnbors := (hwf.nodes i n hn).nbors l
  refine ⟨hnbors.length_le, fun j hj => ?_⟩
  obtain ⟨m, hm, hle⟩ := hnbors.level j hj
  exact ⟨m, hm, hknown l m hl hle⟩

section Code

variable [LinearOrder α] (distfunc : List α → List α → α) {known : Nat → HNSWNode α → Prop}
  {ms : List (Node α)} {h : HNSW α} (query : List α)

omit [LinearOrder α] in
theorem NodeRep.eligible {i : Nat} {m : Node α} {n : HNSWNode α} (hrep : NodeRep known i m n)
    (map : RowidMap) : eligible map m = Hnsw.eligible map n := by
  rw [Memory.eligible, Hnsw.eligible, hrep.deleted, Node.key, HNSWNode.key, hrep.rowid, hrep.level]

omit [LinearOrder α] in
theorem next_eq {id : Nat} {n : HNSWNode α} (hn : h.nodes[id]? = some n) :
    next h id = (n.nborsAt 0).filter fun j => h.nodes[j]?.any fun m => !m.deleted := by
  rw [next, hn]

omit [LinearOrder α] in
theorem visit_eq (map : RowidMap) {id : Nat} {n : HNSWNode α} (hn : h.nodes[id]? = some n) :
    visit distfunc h query map id =
      if Hnsw.eligible map n then some (n.rowid.toInt64, distfunc n.vec query) else none := by
  simp only [visit, hn, Option.bind_eq_bind, Option.bind_some]

omit [LinearOrder α] in
theorem bfs_spec (hrep : NodesRep known ms h.nodes) (hok : LevelOk known h.nodes 0)
    (hknown : ∀ n, known 0 n) (ef : Int) (map : RowidMap) {fuel : Nat} (hfuel : maxNeighbors < fuel)
    {turns turns' : Nat} {visited : List Bool} {q : List Nat} {qh : Nat}
    (hturns : h.nodes.length < turns + qh) (hturns' : h.nodes.length ≤ turns' + qh)
    (hmarks : Marks h.nodes.length visited q) (hqh : qh ≤ q.length) (out : List (Rowid × α)) :
    bfs distfunc ms query ef map fuel turns visited (q.map Int.ofNat) qh out =
      .ok (Bfs.search (next h) (visit distfunc h query map) ef.toNat turns' q qh out) := by
  have hlen := hmarks.length_le
  induction turns generalizing turns' visited q qh out with
  | zero => omega
  | succ turns ih =>
    rw [bfs, List.length_map]
    by_cases hcond : qh < q.length ∧ (out.length : Int) < ef
    · obtain ⟨turns', rfl⟩ : ∃ k, turns' = k + 1 := ⟨turns' - 1, by omega⟩
      have hget := List.getElem?_eq_getElem hcond.1
      have hgetm : (q.map Int.ofNat)[qh]? = some (q[qh] : Int) := by
        rw [List.getElem?_map, hget]
        rfl
      have hid := hmarks.lt _ (List.getElem_mem hcond.1)
      have hn := List.getElem?_eq_getElem hid
      obtain ⟨m, hm, hmn⟩ := hrep.exists_left hn
      obtain ⟨visited', hen, hmarks'⟩ := enqueueNbors_spec hrep hok hmn hn (hknown _) (i := 0)
        (by omega) (Nat.zero_le _) hmarks
      rw [List.drop_zero, ← next_eq hn] at hen hmarks'
      have hout : report distfunc query ef map m out =
          .ok (out ++ (visit distfunc h query map q[qh]).toList) := by
        rw [report, hmn.eligible map, visit_eq distfunc query map hn, hmn.rowid, hmn.vec]
        split
        · rw [push, if_pos hcond.2]
          rfl
        · exact congrArg Except.ok (List.append_nil out).symm
      rw [if_pos hcond, load_of_getElem? hgetm, Except.ok_bind, load_of_getElem? hm, Except.ok_bind,
        hout, Except.ok_bind, hen, Except.ok_bind, Bfs.search, hget]
      dsimp only
      rw [if_neg (by omega)]
      exact ih (by omega) (by omega) hmarks'
        (Nat.lt_of_lt_of_le hcond.1 (Bfs.prefix_enqueue ..).length_le) _ hmarks'.length_le
    · rw [if_neg hcond]
      cases turns' with
      | zero => rfl
      | succ turns' =>
        rw [Bfs.search]
        split
        · rfl
        next id hget =>
          have hlt := (List.getElem?_eq_some_iff.mp hget).1
          rw [if_pos (by omega)]
          rfl

def found (h : HNSW α) (ef : Nat) (map : RowidMap) (start : At α) : List (Rowid × α) :=
  Sorting.exchangeSort Prod.snd (Bfs.search (next h) (visit distfunc h query map) ef
    h.nodes.length [(Hnsw.descend distfunc h query start).1] 0 [])

omit [LinearOrder α] in
theorem marks_singleton {size : Nat} {j : Nat} (hj : j < size) :
    Marks size ((List.replicate size false).set j true) [j] := by
  have hnil : Marks size (List.replicate size false) [] :=
    ⟨List.length_replicate, .nil, fun k hk => by simp at hk, fun k hk => by simp [hk]⟩
  exact hnil.push hj (by simp)

omit [LinearOrder α] in
theorem entry_eq_some {start : At α} (hstart : entry h = some start) :
    ∃ e, h.entryId = some e ∧
      (h.nodes.zipIdx.drop e).find? (fun x => !x.1.deleted) = some (start.2, start.1) := by
  simp only [entry, Option.bind_eq_bind, Option.bind_eq_some_iff, Option.pure_def,
    Option.some.injEq] at hstart
  obtain ⟨e, he, x, hx, rfl⟩ := hstart
  exact ⟨e, he, hx⟩

theorem hnswSearch_spec {m : Graph α} (hrep : Rep known m h) (hwf : Wf h) (hdown : DownClosed known)
    (hknown : ∀ l n, l < maxLevels → l ≤ n.level → known l n) {start : At α}
    (hstart : entry h = some start) (hk : known h.maxLevel start.2) (ef topk : Int)
    (map : RowidMap) {fuel : Nat} (hfuel : maxNeighbors < fuel) (hfuel' : h.nodes.length < fuel) :
    hnswSearch distfunc fuel m query ef topk map =
      .ok (if topk < (found distfunc query h ef.toNat map start).length then topk
        else (found distfunc query h ef.toNat map start).length,
        found distfunc query h ef.toNat map start) := by
  obtain ⟨e, he, hfind⟩ := entry_eq_some hstart
  obtain ⟨n, hn, hmax⟩ := (hwf.some e he).at_entry
  have hmaxLevel : h.maxLevel < maxLevels := hmax ▸ (hwf.nodes e n hn).level_lt
  have hok : ∀ l ≤ h.maxLevel, LevelOk known h.nodes l := fun l hl =>
    levelOk_of_wf hwf hknown (Nat.lt_of_le_of_lt hl hmaxLevel)
  have hid : m.entryId = e := by
    rw [hrep.entryId, he]
    rfl
  obtain ⟨c, hc, -⟩ := hrep.nodes.exists_left hn
  obtain ⟨c', hscan, hc'⟩ := scanEntry_some hrep.nodes hc hfind
    (show h.nodes.length < fuel + e by omega)
  have hcur : CurRep m.nodes h.nodes ((start.1 : Int), c') start :=
    ⟨rfl, hc', entry_mem h hstart⟩
  obtain ⟨x, hx, hxcur⟩ := descend_spec distfunc query hrep.nodes hdown hmaxLevel hok hfuel hfuel'
    hcur hk
  have hxid := (hxcur.nodeRep hrep.nodes).id
  have hlt := (List.getElem?_eq_some_iff.mp hxcur.right).1
  have hbfs := bfs_spec distfunc query hrep.nodes (hok 0 (Nat.zero_le _))
    (fun n => hknown 0 n (Nat.zero_lt_succ 7) (Nat.zero_le _)) ef map hfuel
    (show h.nodes.length < fuel + 0 from hfuel') (Nat.le_refl _) (marks_singleton hlt) (Nat.zero_le _) []
  have hpush : push h.nodes.length [] x.2.id = .ok [x.2.id] :=
    if_pos (by exact Int.ofNat_lt.mpr (Nat.zero_lt_of_lt hlt))
  rw [hnswSearch, hid, load_of_getElem? hc, Except.ok_bind, hscan, Except.ok_bind, hrep.maxLevel,
    hx, Except.ok_bind, hrep.nodes.length, hpush, Except.ok_bind, hxid, store_natCast (by
      rwa [List.length_replicate]), Except.ok_bind]
  exact congrArg (· >>= _) hbfs

variable {maxNodes dim : Nat} {m : Graph α}

def SafeSearch (m : Graph α) (query : List α) (ef topk : Int) (map : RowidMap) : Prop :=
  ∃ r, Returns (fun fuel => hnswSearch distfunc fuel m query ef topk map) r ∧
    ((∀ n ∈ m.nodes, n.deleted = true) → r.1 = 0)

def EntryLive (m : Graph α) : Prop :=
  ∃ i : Nat, m.entryId ≤ i ∧ ∃ n, m.nodes[i]? = some n ∧ n.deleted = false

omit [LinearOrder α] in
theorem mem_drop_zipIdx {ns : List (HNSWNode α)} {e i : Nat} {n : HNSWNode α} :
    (n, i) ∈ ns.zipIdx.drop e ↔ e ≤ i ∧ ns[i]? = some n := by
  rw [List.mem_iff_getElem?]
  simp only [List.getElem?_drop, List.getElem?_zipIdx, Option.map_eq_some_iff, Prod.mk.injEq]
  constructor
  · rintro ⟨k, n', hn', rfl, rfl⟩
    rw [Nat.zero_add]
    exact ⟨Nat.le_add_right e k, hn'⟩
  · rintro ⟨hle, hn⟩
    refine ⟨i - e, n, ?_, rfl, by omega⟩
    rwa [Nat.add_sub_cancel' hle]

omit [LinearOrder α] in
theorem Sound.entryLive_iff (hs : Sound m h) : EntryLive m ↔ ∃ start, entry h = some start := by
  constructor
  · rintro ⟨i, hle, n, hn, hlive⟩
    obtain ⟨k, hk, hrep⟩ := hs.rep.nodes.exists_right hn
    cases he : h.entryId with
    | none => simp [hs.wf.none he] at hk
    | some e =>
      have hid : m.entryId = e := by
        rw [hs.rep.entryId, he]
        rfl
      have hfind : ((h.nodes.zipIdx.drop e).find? fun x => !x.1.deleted).isSome :=
        List.find?_isSome.mpr ⟨(k, i), mem_drop_zipIdx.mpr ⟨by omega, hk⟩, by
          simpa [hrep.deleted] using hlive⟩
      obtain ⟨x, hx⟩ := Option.isSome_iff_exists.mp hfind
      exact ⟨(x.2, x.1), by simp [entry, he, hx]⟩
  · rintro ⟨start, hstart⟩
    obtain ⟨e, he, hfind⟩ := entry_eq_some hstart
    obtain ⟨hle, hn⟩ := mem_drop_zipIdx.mp (List.mem_of_find?_eq_some hfind)
    obtain ⟨n, hn', hrep⟩ := hs.rep.nodes.exists_left hn
    refine ⟨start.1, ?_, n, hn', ?_⟩
    · rw [hs.rep.entryId, he]
      exact Int.ofNat_le.mpr hle
    · rw [hrep.deleted]
      simpa using List.find?_some hfind

theorem Sound.hnswSearch (hs : Sound m h) {start : At α} (hstart : entry h = some start)
    (ef topk : Int) (map : RowidMap) :
    Returns (fun fuel => hnswSearch distfunc fuel m query ef topk map)
      (if topk < (found distfunc query h ef.toNat map start).length then topk
        else (found distfunc query h ef.toNat map start).length,
        found distfunc query h ef.toNat map start) := by
  obtain ⟨e, he, -⟩ := entry_eq_some hstart
  obtain ⟨n, hn, hmax⟩ := (hs.wf.some e he).at_entry
  have hk : Created h.maxLevel start.2 := hmax ▸ (hs.wf.nodes e n hn).level_lt
  refine ⟨maxNeighbors + h.nodes.length + 1, fun fuel hfuel => ?_⟩
  exact hnswSearch_spec distfunc query hs.rep hs.wf downClosed_created (fun _ _ hl _ => hl) hstart hk
    ef topk map (by omega) (by omega)

theorem Sound.search_ne_ok (hs : Sound m h) (hnone : entry h = none) (ef topk : Int)
    (map : RowidMap) (fuel : Nat) (r : Int × List (Rowid × α)) :
    Memory.hnswSearch distfunc fuel m query ef topk map ≠ .ok r := by
  intro hok
  obtain ⟨c, hc, hok⟩ := Except.bind_eq_ok.mp hok
  obtain ⟨x, hx, -⟩ := Except.bind_eq_ok.mp hok
  cases he : h.entryId with
  | none =>
    have hid : m.entryId = -1 := by
      rw [hs.rep.entryId, he]
      rfl
    rw [hid] at hc
    exact absurd (load_eq_ok.mp hc).1 (by decide)
  | some e =>
    have hid : m.entryId = e := by
      rw [hs.rep.entryId, he]
      rfl
    rw [hid] at hc hx
    cases hfind : (h.nodes.zipIdx.drop e).find? fun x => !x.1.deleted with
    | none => exact scanEntry_none hs.rep.nodes (load_eq_ok.mp hc).2 hfind fuel x hx
    | some y => simp [entry, he, hfind] at hnone

/-- A search is safe exactly if a node that is not marked stands at the entry or after it. -/
theorem safeSearch_iff (hreach : Reachable maxNodes dim m) (query : List α) (ef topk : Int)
    (map : RowidMap) : SafeSearch distfunc m query ef topk map ↔ EntryLive m := by
  obtain ⟨⟨h, hs, -⟩, -⟩ := hreach.sound
  constructor
  · rintro ⟨r, ⟨enough, hr⟩, -⟩
    rw [hs.entryLive_iff, ← Option.isSome_iff_exists]
    by_contra hnone
    rw [Option.not_isSome_iff_eq_none] at hnone
    exact hs.search_ne_ok distfunc query hnone ef topk map enough r (hr enough (Nat.le_refl _))
  · intro hlive
    obtain ⟨start, hstart⟩ := hs.entryLive_iff.mp hlive
    refine ⟨_, hs.hnswSearch distfunc query hstart ef topk map, fun hall => ?_⟩
    obtain ⟨i, -, n, hn, hn'⟩ := hlive
    simp [hall n (List.mem_of_getElem? hn)] at hn'

end Code

section Sample

def anyMap : RowidMap := ⟨[], false⟩

theorem pairGraph_safeSearch : SafeSearch lineDist pairGraph [4] 64 1 anyMap :=
  (safeSearch_iff lineDist pairGraph_reachable [4] 64 1 anyMap).mpr
    ⟨1, by decide, _, rfl, rfl⟩

def emptiedGraph : Graph ℤ := (hnswDelete (addNode lineDist 0 (hnswCreate 4 1) [5] 7) 7).1

theorem emptiedGraph_not_safeSearch :
    Reachable 4 1 emptiedGraph ∧ (∀ n ∈ emptiedGraph.nodes, n.deleted = true) ∧
      (∀ fuel, hnswSearch lineDist (fuel + 1) emptiedGraph [5] 64 1 anyMap = .error .range) ∧
      ¬ SafeSearch lineDist emptiedGraph [5] 64 1 anyMap := by
  have hrandom : ∀ i : Nat, (fun _ => 0 : Nat → Nat) i < maxLevels := fun _ => Nat.zero_lt_succ 7
  have hadd : Reachable 4 1 (addNode lineDist 0 (hnswCreate 4 1) [5] 7) :=
    .add lineDist hrandom blankNode (rfl : [(5 : ℤ)].length = 1) 7 .create ⟨0, fun _ _ => rfl⟩
  have hsearch : ∀ fuel,
      hnswSearch lineDist (fuel + 1) emptiedGraph [5] 64 1 anyMap = .error .range := fun _ => rfl
  refine ⟨.delete 7 hadd, fun n hn => ?_, hsearch, ?_⟩
  · obtain rfl := List.mem_singleton.mp hn
    rfl
  · rintro ⟨r, ⟨enough, hr⟩, -⟩
    have hok := (hsearch enough).symm.trans (hr (enough + 1) (Nat.le_succ enough))
    cases hok

end Sample

end SqliteMultimodal.Vec.Hnsw.Memory
