import SqliteMultimodal.Graph.PageRank.Defs

namespace SqliteMultimodal.Graph.PageRank

section Arrays

variable {β : Type} {xs : List β} {i : Int} {n : Nat}

def InArray (n : Nat) (i : Int) : Prop := 0 ≤ i ∧ i ≤ n

theorem readAt_eq (d : β) (hlength : xs.length = n + 1) (hi : InArray n i) :
    readAt xs i = .ok (xs.getD i.toNat d) := by
  obtain ⟨hpos, hle⟩ := hi
  have hlt : i.toNat < xs.length := by omega
  rw [readAt, if_pos hpos, List.getD_eq_getElem?_getD, List.getElem?_eq_getElem hlt]
  rfl

theorem writeAt_eq (x : β) (hlength : xs.length = n + 1) (hi : InArray n i) :
    writeAt xs i x = .ok (xs.set i.toNat x) := by
  obtain ⟨hpos, hle⟩ := hi
  exact if_pos ⟨hpos, by omega⟩

theorem inArray_of_readAt {x : β} (hlength : xs.length = n + 1) (h : readAt xs i = .ok x) :
    InArray n i := by
  rw [readAt, Except.ofOption_eq_ok] at h
  split at h
  next hpos =>
    have hlt := (List.getElem?_eq_some_iff.mp h).1
    exact ⟨hpos, by omega⟩
  next => cases h

theorem columnInt_eq (hn : n < 2147483648) (hi : InArray n i) : columnInt i = i := by
  obtain ⟨hpos, hle⟩ := hi
  exact Int.bmod_eq_of_le (by omega) (by omega)

end Arrays

section Degrees

variable {tables : Tables}

structure Dense (tables : Tables) : Prop where
  count : tables.nodes.length < 2147483648
  source : ∀ e ∈ tables.edges, InArray tables.nodes.length e.source
  target : ∀ e ∈ tables.edges, InArray tables.nodes.length e.target

theorem countEdges_foldlM {n : Nat} (hn : n < 2147483648) (f : Int → Nat) (keys : List Int)
    (hkeys : ∀ i ∈ keys, InArray n i) (degrees : List Nat) (hlength : degrees.length = n + 1) :
    ∃ degrees', (keys.map fun i => (i, f i)).foldlM countEdges degrees = .ok degrees' ∧
      degrees'.length = n + 1 ∧ ∀ i, InArray n i →
        degrees'.getD i.toNat 0 = if i ∈ keys then f i else degrees.getD i.toNat 0 := by
  induction keys generalizing degrees with
  | nil => exact ⟨degrees, rfl, hlength, fun i _ => (if_neg List.not_mem_nil).symm⟩
  | cons k keys ih =>
    obtain ⟨hk, hkeys⟩ := List.forall_mem_cons.mp hkeys
    obtain ⟨degrees', hfold, hlength', hget⟩ := ih hkeys (degrees.set k.toNat (f k))
      (List.length_set.trans hlength)
    refine ⟨degrees', ?_, hlength', fun i hi => ?_⟩
    · rw [List.map_cons, List.foldlM_cons, countEdges, columnInt_eq hn hk,
        writeAt_eq _ hlength hk]
      exact hfold
    · rw [hget i hi]
      by_cases hmem : i ∈ keys
      · rw [if_pos hmem, if_pos (List.mem_cons_of_mem k hmem)]
      · rw [if_neg hmem, List.getD_eq_getElem?_getD]
        by_cases hik : i = k
        · subst hik
          obtain ⟨hpos, hle⟩ := hi
          have hlt : i.toNat < degrees.length := by omega
          rw [if_pos List.mem_cons_self, List.getElem?_set_self hlt]
          rfl
        · have hne : k.toNat ≠ i.toNat := by
            have := hi.1
            have := hk.1
            omega
          have hcons : i ∉ k :: keys := fun h => (List.mem_cons.mp h).elim hik hmem
          rw [if_neg hcons, List.getElem?_set_ne hne, List.getD_eq_getElem?_getD]

theorem Dense.outDegrees_eq (h : Dense tables) : ∃ degrees, outDegrees tables = .ok degrees ∧
    degrees.length = tables.nodes.length + 1 ∧ ∀ i, InArray tables.nodes.length i →
      degrees.getD i.toNat 0 = tables.edges.countP (·.source = i) := by
  have hmem : ∀ i, i ∈ (tables.edges.map (·.source)).dedup.insertionSort (fun a b => a ≤ b) ↔
      ∃ e ∈ tables.edges, e.source = i := fun i => by
    rw [List.mem_insertionSort, List.mem_dedup, List.mem_map]
  obtain ⟨degrees, hfold, hlength, hget⟩ := countEdges_foldlM h.count
    (fun i => tables.edges.countP (·.source = i))
    ((tables.edges.map (·.source)).dedup.insertionSort fun a b => a ≤ b)
    (fun i hi => by
      obtain ⟨e, he, rfl⟩ := (hmem i).mp hi
      exact h.source e he)
    (List.replicate (tables.nodes.length + 1) 0) List.length_replicate
  refine ⟨degrees, hfold, hlength, fun i hi => ?_⟩
  rw [hget i hi]
  split
  next => rfl
  next hnot =>
    have hzero : tables.edges.countP (·.source = i) = 0 := by
      rw [List.countP_eq_zero]
      intro e he heq
      exact hnot ((hmem i).mpr ⟨e, he, of_decide_eq_true heq⟩)
    rw [hzero, List.getD_eq_getElem?_getD, List.getElem?_replicate]
    split <;> rfl

end Degrees

section Iteration

variable {α : Type}

def heldAfter (body : List α → Except Fault (List α × α)) : Nat → List α → Except Fault (List α)
  | 0, pRank => .ok pRank
  | k + 1, pRank => do
    let (pRank, _) ← body pRank
    heldAfter body k pRank

theorem powerLoop_heldAfter [LT α] [DecidableLT α] (body : List α → Except Fault (List α × α))
    (rEpsilon : α) (n : Nat) (pRank : List α) :
    ∃ k ≤ n, powerLoop body rEpsilon n pRank = heldAfter body k pRank := by
  induction n generalizing pRank with
  | zero => exact ⟨0, Nat.le_refl 0, rfl⟩
  | succ n ih =>
    cases hbody : body pRank with
    | error fault =>
      refine ⟨1, Nat.succ_le_succ (Nat.zero_le n), ?_⟩
      rw [powerLoop, heldAfter, hbody]
      rfl
    | ok next =>
      by_cases hdiff : next.2 < rEpsilon
      · refine ⟨1, Nat.succ_le_succ (Nat.zero_le n), ?_⟩
        rw [powerLoop, heldAfter, hbody]
        exact if_pos hdiff
      · obtain ⟨k, hk, hheld⟩ := ih next.1
        refine ⟨k + 1, Nat.succ_le_succ hk, ?_⟩
        rw [powerLoop, heldAfter, hbody]
        exact (if_neg hdiff).trans hheld

variable [Zero α] [Add α] [Mul α] [Div α] [NatCast α] {tables : Tables} {rDamping : α}
  {pRank : List α} {pOutDegree : List Nat}

def share (rDamping : α) (pRank : List α) (pOutDegree : List Nat) (row : Edge) : α :=
  rDamping * pRank.getD row.source.toNat 0 / (pOutDegree.getD row.source.toNat 0 : α)

def addTo (rDamping : α) (pRank : List α) (pOutDegree : List Nat) (pNextRank : List α)
    (row : Edge) : List α :=
  pNextRank.set row.target.toNat
    (pNextRank.getD row.target.toNat 0 + share rDamping pRank pOutDegree row)

theorem length_addTo (pNextRank : List α) (row : Edge) :
    (addTo rDamping pRank pOutDegree pNextRank row).length = pNextRank.length := List.length_set

theorem Dense.addShare_eq (h : Dense tables) (hrank : pRank.length = tables.nodes.length + 1)
    (hdegree : pOutDegree.length = tables.nodes.length + 1) {pNextRank : List α}
    (hnext : pNextRank.length = tables.nodes.length + 1) {row : Edge} (hrow : row ∈ tables.edges) :
    addShare rDamping pRank pOutDegree pNextRank row =
      .ok (addTo rDamping pRank pOutDegree pNextRank row) := by
  have hsource := h.source row hrow
  have htarget := h.target row hrow
  simp only [addShare, columnInt_eq h.count hsource, columnInt_eq h.count htarget,
    readAt_eq 0 hrank hsource, readAt_eq 0 hdegree hsource, readAt_eq 0 hnext htarget,
    Except.ok_bind, writeAt_eq _ hnext htarget]
  rfl

theorem Dense.addShareGuarded_eq (h : Dense tables)
    (hrank : pRank.length = tables.nodes.length + 1)
    (hdegree : pOutDegree.length = tables.nodes.length + 1) {pNextRank : List α}
    (hnext : pNextRank.length = tables.nodes.length + 1) {row : Edge} (hrow : row ∈ tables.edges)
    (hpos : 0 < pOutDegree.getD row.source.toNat 0) :
    addShareGuarded rDamping pRank pOutDegree pNextRank row =
      .ok (addTo rDamping pRank pOutDegree pNextRank row) := by
  have hsource := h.source row hrow
  have htarget := h.target row hrow
  simp only [addShareGuarded, columnInt_eq h.count hsource, columnInt_eq h.count htarget,
    readAt_eq 0 hrank hsource, readAt_eq 0 hdegree hsource, readAt_eq 0 hnext htarget,
    Except.ok_bind, if_pos hpos, writeAt_eq _ hnext htarget]
  rfl

variable [One α] [Sub α]

def spread (tables : Tables) (rDamping : α) (pOutDegree : List Nat) (pRank : List α) : List α :=
  tables.edges.foldl (addTo rDamping pRank pOutDegree)
    (List.replicate (tables.nodes.length + 1) (baseRank rDamping tables.nodes.length))

theorem length_spread : (spread tables rDamping pOutDegree pRank).length =
    tables.nodes.length + 1 := by
  refine List.foldlRecOn (motive := fun xs : List α => xs.length = tables.nodes.length + 1)
    tables.edges (addTo rDamping pRank pOutDegree) List.length_replicate ?_
  intro xs hxs row _
  exact (length_addTo xs row).trans hxs

theorem Dense.iterationFunc_eq (h : Dense tables) (rDamping : α)
    (hrank : pRank.length = tables.nodes.length + 1)
    (hdegree : pOutDegree.length = tables.nodes.length + 1) :
    ∃ rDiff, iterationFunc tables rDamping pOutDegree pRank =
      .ok (spread tables rDamping pOutDegree pRank, rDiff) := by
  have hfold : tables.edges.foldlM (addShare rDamping pRank pOutDegree)
      (List.replicate (tables.nodes.length + 1) (baseRank rDamping tables.nodes.length)) =
        .ok (spread tables rDamping pOutDegree pRank) := by
    refine Except.foldlM_eq_foldl (P := fun xs : List α => xs.length = tables.nodes.length + 1)
      tables.edges (fun xs row hrow hxs => ⟨?_, ?_⟩) List.length_replicate
    · exact h.addShare_eq hrank hdegree hxs hrow
    · exact (length_addTo xs row).trans hxs
  rw [iterationFunc, hfold]
  exact ⟨_, rfl⟩

theorem Dense.iteration_eq [LT α] [DecidableLT α] (h : Dense tables) (rDamping : α)
    (hrank : pRank.length = tables.nodes.length + 1)
    (hdegree : pOutDegree.length = tables.nodes.length + 1)
    (hpos : ∀ row ∈ tables.edges, 0 < pOutDegree.getD row.source.toNat 0) :
    ∃ rDiff, iteration tables rDamping pOutDegree pRank =
      .ok (spread tables rDamping pOutDegree pRank, rDiff) := by
  have hfold : tables.edges.foldlM (addShareGuarded rDamping pRank pOutDegree)
      (List.replicate (tables.nodes.length + 1) (baseRank rDamping tables.nodes.length)) =
        .ok (spread tables rDamping pOutDegree pRank) := by
    refine Except.foldlM_eq_foldl (P := fun xs : List α => xs.length = tables.nodes.length + 1)
      tables.edges (fun xs row hrow hxs => ⟨?_, ?_⟩) List.length_replicate
    · exact h.addShareGuarded_eq hrank hdegree hxs hrow (hpos row hrow)
    · exact (length_addTo xs row).trans hxs
  rw [iteration, hfold]
  exact ⟨_, rfl⟩

theorem heldAfter_eq {body : List α → Except Fault (List α × α)}
    (hbody : ∀ pRank : List α, pRank.length = tables.nodes.length + 1 →
      ∃ rDiff, body pRank = .ok (spread tables rDamping pOutDegree pRank, rDiff))
    (k : Nat) (hrank : pRank.length = tables.nodes.length + 1) :
    heldAfter body k pRank = .ok ((spread tables rDamping pOutDegree)^[k] pRank) := by
  induction k generalizing pRank with
  | zero => rfl
  | succ k ih =>
    obtain ⟨rDiff, heq⟩ := hbody pRank hrank
    rw [heldAfter, heq, Function.iterate_succ_apply]
    exact ih length_spread

theorem Dense.ranksFunc_ok [LT α] [DecidableLT α] (h : Dense tables) (rDamping : α)
    (nMaxIter : Nat) (rEpsilon : α) :
    ∃ pRank, ranksFunc tables rDamping nMaxIter rEpsilon = .ok pRank := by
  obtain ⟨pOutDegree, hdegrees, hdegree, _⟩ := h.outDegrees_eq
  obtain ⟨k, _, hheld⟩ := powerLoop_heldAfter (iterationFunc tables rDamping pOutDegree)
    rEpsilon nMaxIter (firstRanks tables)
  refine ⟨(spread tables rDamping pOutDegree)^[k] (firstRanks tables), ?_⟩
  rw [ranksFunc, hdegrees, Except.ok_bind, hheld]
  exact heldAfter_eq (fun pRank hrank => h.iterationFunc_eq rDamping hrank hdegree) k
    List.length_replicate

end Iteration

end SqliteMultimodal.Graph.PageRank
