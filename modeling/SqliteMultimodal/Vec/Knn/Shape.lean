import SqliteMultimodal.Vec.ChunkScan.Exact
import SqliteMultimodal.Vec.Hnsw.Defs
import SqliteMultimodal.Vec.KdTree.Exact
import SqliteMultimodal.Vec.Knn.Defs

namespace SqliteMultimodal.Vec

namespace KdTree

variable {α : Type} [LinearOrder α] [Inhabited α] [Sub α] [Mul α]

section Reached

variable (query : List α) (fltMax : α)

/-- The live entries that no search leaves out while it has room for them: those that are not beyond
a splitting plane at `FLT_MAX` or more. -/
def reached : KDNode α → List (PointRec α)
  | .nil => []
  | .node p r lt rt axis _ deleted _ =>
    if coord query axis < coord p axis then
      self p r deleted ++ (reached lt ++ if splitDist query p axis < fltMax then reached rt else [])
    else
      self p r deleted ++ (reached rt ++ if splitDist query p axis < fltMax then reached lt else [])

theorem reached_node (p : List α) (r : Rowid) (lt rt : KDNode α) (axis s : Nat) (deleted : Bool)
    (i : Nat) :
    reached query fltMax (.node p r lt rt axis s deleted i) = self p r deleted ++
      (reached query fltMax (near query p axis lt rt) ++
        if splitDist query p axis < fltMax then reached query fltMax (far query p axis lt rt)
        else []) := by
  simp only [reached, near, far]
  split <;> rfl

end Reached

omit [Sub α] [Mul α] in
theorem length_topkInsert {k : Nat} {kept : TopK α} (h : kept.length ≤ k) (rowid : Rowid)
    (dist2 : α) : (topkInsert k kept rowid dist2).length = min k (kept.length + 1) := by
  unfold topkInsert
  split
  next hlt =>
    rw [List.length_append, List.length_singleton]
    omega
  next hlt =>
    dsimp only
    split
    · rw [List.length_set]
      omega
    · omega

variable (a : SearchArgs α)

omit [Sub α] [Mul α] in
theorem length_visitNode {kept : TopK α} (h : kept.length ≤ a.k) (p : List α) (r : Rowid)
    (deleted : Bool) :
    (visitNode a p r deleted kept).length =
      min a.k (kept.length + (a.entries (self p r deleted)).length) := by
  unfold visitNode
  cases deleted with
  | true =>
    rw [if_pos rfl]
    simp only [self, if_true, SearchArgs.entries, List.filter_nil, List.map_nil, List.length_nil]
    omega
  | false =>
    simp only [Bool.false_eq_true, if_false, self]
    change (if a.eligible ⟨p, r⟩ = true then _ else _ : TopK α).length = _
    by_cases helig : a.eligible ⟨p, r⟩ = true
    · rw [if_pos helig, length_topkInsert h]
      simp [SearchArgs.entries, helig]
    · rw [if_neg helig]
      have hnone : a.entries [⟨p, r⟩] = [] := by simp [SearchArgs.entries, helig]
      rw [hnone, List.length_nil]
      omega

omit [LinearOrder α] [Inhabited α] [Sub α] [Mul α] in
theorem length_entries_nil : (a.entries []).length = 0 := rfl

theorem crossesSplit_of_room {kept : TopK α} (h : kept.length ≠ a.k) (p : List α) (axis : Nat) :
    crossesSplit a p axis kept = true ↔ splitDist a.query p axis < a.fltMax := by
  unfold crossesSplit
  dsimp only
  rw [if_neg h, decide_eq_true_iff]
  rfl

theorem length_kdtreeSearchTopkRec {n : KDNode α} {kept : TopK α} (h : kept.length ≤ a.k) :
    (kdtreeSearchTopkRec a n kept).length =
      min a.k (kept.length + (a.entries (reached a.query a.fltMax n)).length) := by
  induction n using near_far_induction a.query generalizing kept with
  | nil =>
    rw [kdtreeSearchTopkRec, reached, length_entries_nil]
    omega
  | node p r lt rt axis s deleted i ihnear ihfar =>
    have hvisit := length_visitNode a h p r deleted
    have hnear := @ihnear (visitNode a p r deleted kept) (by omega)
    have hfar := @ihfar (kdtreeSearchTopkRec a (near a.query p axis lt rt)
      (visitNode a p r deleted kept)) (by omega)
    rw [kdtreeSearchTopkRec_node, reached_node, SearchArgs.entries_append,
      SearchArgs.entries_append, List.length_append, List.length_append]
    dsimp only
    by_cases hfull : (kdtreeSearchTopkRec a (near a.query p axis lt rt)
      (visitNode a p r deleted kept)).length = a.k
    · split <;> omega
    · simp only [crossesSplit_of_room a hfull]
      split
      next => omega
      next =>
        rw [length_entries_nil]
        omega

theorem length_kdtreeTopk (tree : KDTree α) (hk : 0 < a.k) :
    (kdtreeTopk tree a).length =
      min a.k (a.entries (reached a.query a.fltMax tree.root)).length := by
  rw [kdtreeTopk_eq tree hk, length_kdtreeSearchTopkRec a (Nat.zero_le _)]
  simp

end KdTree

namespace Ivf

variable {α : Type} [LinearOrder α] [Inhabited α]

theorem length_foldl_siftDown (idxs : List Nat) (heap : List (Hit α)) :
    (idxs.foldl (Sorting.siftDown Prod.snd) heap).length = heap.length := by
  induction idxs generalizing heap with
  | nil => rfl
  | cons i idxs ih => rw [List.foldl_cons, ih, (Sorting.siftDown_perm ..).length_eq]

theorem length_pushHit {topk : Nat} {heap : List (Hit α)} (h : heap.length ≤ topk) (hit : Hit α) :
    (pushHit topk heap hit).length = min topk (heap.length + 1) := by
  unfold pushHit
  split
  next =>
    dsimp only
    split
    · rw [length_foldl_siftDown, List.length_append, List.length_singleton]
      omega
    · rw [List.length_append, List.length_singleton]
      omega
  next =>
    split
    · rw [(Sorting.siftDown_perm ..).length_eq, List.length_set]
      omega
    · omega

theorem length_foldl_pushHit {topk : Nat} {hits heap : List (Hit α)} (h : heap.length ≤ topk) :
    (hits.foldl (pushHit topk) heap).length = min topk (heap.length + hits.length) := by
  induction hits generalizing heap with
  | nil =>
    rw [List.foldl_nil, List.length_nil]
    omega
  | cons hit hits ih =>
    have hpush := length_pushHit h hit
    rw [List.foldl_cons, ih (by omega), List.length_cons]
    omega

theorem length_ivfSearch (distfunc : List α → List α → α) (ivf : IVF α) (query : List α)
    {topk : Nat} (htopk : 0 < topk) (map : RowidMap) :
    (ivfSearch distfunc ivf query topk ivfNProbe map).length =
      min topk (hits distfunc ivf query (min ivfNProbe ivf.lists.length) map).length := by
  unfold ivfSearch
  rw [if_neg htopk.ne']
  dsimp only
  rw [(Sorting.drain_perm _ rfl).length_eq, List.append_nil, length_foldl_pushHit (Nat.zero_le _),
    List.length_nil, Nat.zero_add]
  rfl

end Ivf

namespace Knn

open Storage Except ChunkScan

variable {α : Type} [LinearOrder α] [Inhabited α]

/-- No more than `k` rows, nearest first. -/
def Shaped (k : Nat) (rows : List (Rowid × α)) : Prop :=
  rows.length ≤ k ∧ rows.Pairwise fun x y => x.2 ≤ y.2

omit [Inhabited α] in
theorem shaped_of_length_le_one {k : Nat} {rows : List (Rowid × α)} (hk : 1 ≤ k)
    (h : rows.length ≤ 1) : Shaped k rows := by
  refine ⟨h.trans hk, ?_⟩
  match rows, h with
  | [], _ => exact .nil
  | [_], _ => exact List.pairwise_singleton ..

variable [Zero α] [Sub α] [Mul α] (env : Env α) (p : Vec0Vtab) (v : Vec0 α (Index α))
  (args : KnnArgs α)

def KnnArgs.withK (args : KnnArgs α) (k : Nat) : KnnArgs α := { args with k := k }

def preFilter : Index α → Bool
  | .hybrid _ => false
  | _ => true

def AtMostOneHit (query : List α) (map : RowidMap) : Index α → Prop
  | .none => True
  | .kdtree tree | .hybrid tree =>
    ((KdTree.reached query env.fltMax tree.root).filter fun e =>
      !map.preFilter || bsearch e.rowid map.rowids).length ≤ 1
  | .hnsw h =>
    ∀ start, Hnsw.entry h = some start →
      ∀ i j, Bfs.Reach (Hnsw.next h) (Hnsw.descend env.distfunc h query start).1 i →
        Bfs.Reach (Hnsw.next h) (Hnsw.descend env.distfunc h query start).1 j →
        h.nodes[i]?.any (Hnsw.eligible map) → h.nodes[j]?.any (Hnsw.eligible map) → i = j
  | .ivf ivf =>
    ivf.trained = true →
      (Ivf.hits env.distfunc ivf query (min Ivf.ivfNProbe ivf.lists.length) map).length ≤ 1

def FewHits : Prop :=
  ∀ query rowidsIn map, checkQuery p v (args.withK 1) = .ok (query, 1) →
    arrayRowidsIn env p v.shadow args = .ok rowidsIn →
    vec0FilterChunksToRowidMap (scanArgs env p v.shadow args query 1 rowidsIn)
      (scanChunks p v.shadow args (v.dimensions.getD args.vectorColumnIdx 0))
      (preFilter v.index) = .ok map →
    AtMostOneHit env query map v.index

omit [LinearOrder α] [Inhabited α] [Zero α] [Sub α] [Mul α] in
theorem checkQuery_withK {k : Nat} (hk : 1 ≤ k) (hmax : k ≤ 4096) (query : List α) (k' : Nat) :
    checkQuery p v (args.withK k) = .ok (query, k') ↔
      checkQuery p v (args.withK 1) = .ok (query, 1) ∧ k' = k := by
  have hrange : ∀ n : Nat, n ≤ 4096 → (0 ≤ (n : Int) ∧ (n : Int) ≤ kMax) := by
    intro n hn
    rw [kMax]
    omega
  simp only [checkQuery, bind_eq_ok, require_eq_ok, pure_eq_ok, Prod.mk.injEq, KnnArgs.withK,
    Int.toNat_natCast, hrange k hmax, hrange 1 (by decide), true_and]
  constructor
  · rintro ⟨u, hu, column, hcolumn, q, hq, w, rfl, rfl⟩
    exact ⟨⟨u, hu, column, hcolumn, q, hq, w, rfl, trivial⟩, rfl⟩
  · rintro ⟨⟨u, hu, column, hcolumn, q, hq, w, rfl, -⟩, rfl⟩
    exact ⟨u, hu, column, hcolumn, q, hq, w, rfl, rfl⟩

theorem vec0FilterKnn_withK {k : Nat} (hk : 1 ≤ k) (hmax : k ≤ 4096) {data : KnnData α} :
    vec0FilterKnn env p v (args.withK k) = some (.ok data) ↔
      (∃ query rc, checkQuery p v (args.withK 1) = .ok (query, 1) ∧
        arrayRowidsIn env p v.shadow args = .error rc ∧ data = ⟨0, 0, [], 0⟩) ∨
      ∃ query rowidsIn rows, checkQuery p v (args.withK 1) = .ok (query, 1) ∧
        arrayRowidsIn env p v.shadow args = .ok rowidsIn ∧
        searchRows env p v args query k rowidsIn = some (.ok rows) ∧
        data = ⟨k, rows.length, rows, 0⟩ := by
  have hcheck := checkQuery_withK p v args hk hmax
  rw [vec0FilterKnn_eq_ok]
  constructor
  · rintro (⟨query, hquery, -⟩ | ⟨query, k', rc, -, hquery, hin, rfl⟩ |
      ⟨query, k', rowidsIn, rows, -, hquery, hin, hrows, rfl⟩)
    · obtain ⟨-, hzero⟩ := (hcheck query 0).mp hquery
      omega
    · exact .inl ⟨query, rc, ((hcheck query k').mp hquery).1, hin, rfl⟩
    · obtain ⟨hone, rfl⟩ := (hcheck query k').mp hquery
      exact .inr ⟨query, rowidsIn, rows, hone, hin, hrows, rfl⟩
  · rintro (⟨query, rc, hquery, hin, rfl⟩ | ⟨query, rowidsIn, rows, hquery, hin, hrows, rfl⟩)
    · exact .inr (.inl ⟨query, k, rc, hk, (hcheck query k).mpr ⟨hquery, rfl⟩, hin, rfl⟩)
    · exact .inr (.inr ⟨query, k, rowidsIn, rows, hk, (hcheck query k).mpr ⟨hquery, rfl⟩, hin,
        hrows, rfl⟩)

omit [Zero α] in
theorem kdtreeTopk_length_le_one {k : Nat} (hk : 1 ≤ k) (tree : KdTree.KDTree α) (query : List α)
    (map : RowidMap) :
    (KdTree.kdtreeTopk tree ⟨query, kExt * k, map, env.distfunc, env.fltMax⟩).length ≤ 1 ↔
      AtMostOneHit env query map (.kdtree tree) := by
  rw [KdTree.length_kdtreeTopk _ _ (by simp only [kExt]; omega), AtMostOneHit,
    KdTree.SearchArgs.entries, List.length_map, kExt]
  change min (2 * k) (List.length (List.filter (fun e => !map.preFilter || bsearch e.rowid map.rowids)
    (KdTree.reached query env.fltMax tree.root))) ≤ 1 ↔ _
  omega

omit [Zero α] in
theorem ivfSearch_length_le_one {k : Nat} (hk : 1 ≤ k) {ivf : Ivf.IVF α}
    (htrained : ivf.trained = true) (query : List α) (map : RowidMap) :
    (Ivf.ivfSearch env.distfunc ivf query (k * kExt) Ivf.ivfNProbe map).length ≤ 1 ↔
      AtMostOneHit env query map (.ivf ivf) := by
  rw [Ivf.length_ivfSearch _ _ _ (by simp only [kExt]; omega), AtMostOneHit, kExt]
  simp only [htrained, true_imp_iff]
  omega

omit [Zero α] in
theorem hnswSearch_length_le_one {k : Nat} (hk : 1 ≤ k) {h : Hnsw.HNSW α} {query : List α}
    {map : RowidMap} {rows : List (Rowid × α)}
    (hrows : Hnsw.hnswSearch env.distfunc h query Hnsw.efConstruction
      (min (k * kExt) Hnsw.efConstruction) map = some rows) :
    rows.length ≤ 1 ↔ AtMostOneHit env query map (.hnsw h) := by
  obtain ⟨start, hstart, rfl⟩ := (Hnsw.hnswSearch_eq_some ..).mp hrows
  have hlt : (Hnsw.descend env.distfunc h query start).1 < h.nodes.length :=
    (List.getElem?_eq_some_iff.mp
      (Hnsw.descend_mem env.distfunc h query (Hnsw.entry_mem h hstart))).1
  have hone := @Bfs.search_length_le_one _ _ _ _ (Hnsw.visit env.distfunc h query map)
    Hnsw.efConstruction _ _ (fun i => Hnsw.reach_mem h hlt) h.nodes.length
    (Finset.card_range _).le (by decide)
  simp only [Hnsw.isSome_visit] at hone
  rw [List.length_take, (Sorting.exchangeSort_perm ..).length_eq, AtMostOneHit]
  simp only [hstart, Option.some.injEq, forall_eq']
  rw [← hone, kExt, Hnsw.efConstruction]
  omega

theorem searchRows_shape {k : Nat} (hk : 1 ≤ k) {query : List α} {rowidsIn : Option (List Rowid)}
    {rows : List (Rowid × α)}
    (hrows : searchRows env p v args query k rowidsIn = some (.ok rows)) :
    Shaped k rows ∨ ∃ map,
      vec0FilterChunksToRowidMap (scanArgs env p v.shadow args query 1 rowidsIn)
        (scanChunks p v.shadow args (v.dimensions.getD args.vectorColumnIdx 0))
        (preFilter v.index) = .ok map ∧
      (rows.length ≤ 1 ↔ AtMostOneHit env query map v.index) := by
  have hscan : ∀ chunks, vec0FilterKnnChunksIter
      (scanArgs env p v.shadow args query k rowidsIn) chunks = .ok rows → Shaped k rows := by
    intro chunks h
    obtain ⟨hsorted, hsmall⟩ := vec0FilterKnnChunksIter_ok _ h
    refine ⟨?_, hsorted⟩
    have hcard := hsmall.card_eq
    rw [Multiset.coe_card] at hcard
    exact hcard.le.trans (Nat.min_le_left ..)
  unfold searchRows at hrows
  cases hindex : v.index with
  | none =>
    rw [hindex] at hrows
    exact .inl (hscan _ (Option.some.inj hrows))
  | kdtree tree =>
    simp only [hindex, Option.some.injEq, bind_eq_ok, pure_eq_ok] at hrows
    obtain ⟨map, hmap, rfl⟩ := hrows
    exact .inr ⟨map, hmap, kdtreeTopk_length_le_one env hk tree query map⟩
  | hybrid tree =>
    simp only [hindex, Option.some.injEq, bind_eq_ok, pure_eq_ok] at hrows
    obtain ⟨map, hmap, rfl⟩ := hrows
    exact .inr ⟨map, hmap, kdtreeTopk_length_le_one env hk tree query map⟩
  | hnsw h =>
    simp only [hindex] at hrows
    split at hrows
    next => simp at hrows
    next map hmap =>
      obtain ⟨rows', hsearch, heq⟩ := Option.map_eq_some_iff.mp hrows
      obtain rfl := Except.ok.inj heq
      exact .inr ⟨map, hmap, hnswSearch_length_le_one env hk hsearch⟩
  | ivf ivf =>
    simp only [hindex] at hrows
    split at hrows
    next => simp at hrows
    next map hmap =>
      split at hrows
      next htrained =>
        simp only [Option.some.injEq, Except.ok.injEq] at hrows
        subst hrows
        exact .inr ⟨map, hmap, ivfSearch_length_le_one env hk htrained query map⟩
      next => exact .inl (hscan _ (Option.some.inj hrows))

theorem atMostOneHit_of_length_le_one {query : List α} {map : RowidMap}
    {rowidsIn : Option (List Rowid)}
    (hmap : vec0FilterChunksToRowidMap (scanArgs env p v.shadow args query 1 rowidsIn)
      (scanChunks p v.shadow args (v.dimensions.getD args.vectorColumnIdx 0))
      (preFilter v.index) = .ok map)
    (hrows : ∀ rows, searchRows env p v args query 1 rowidsIn = some (.ok rows) →
      rows.length ≤ 1) : AtMostOneHit env query map v.index := by
  unfold searchRows at hrows
  cases hindex : v.index with
  | none => trivial
  | kdtree tree =>
    rw [hindex] at hmap
    refine (kdtreeTopk_length_le_one env le_rfl tree query map).mp (hrows _ ?_)
    simp only [hindex]
    rw [show vec0FilterChunksToRowidMap _ _ true = _ from hmap]
    rfl
  | hybrid tree =>
    rw [hindex] at hmap
    refine (kdtreeTopk_length_le_one env le_rfl tree query map).mp (hrows _ ?_)
    simp only [hindex]
    rw [show vec0FilterChunksToRowidMap _ _ false = _ from hmap]
    rfl
  | hnsw h =>
    rw [hindex] at hmap
    intro start hstart
    obtain ⟨rows, hsearch⟩ : ∃ rows, Hnsw.hnswSearch env.distfunc h query Hnsw.efConstruction
        (min (1 * kExt) Hnsw.efConstruction) map = some rows :=
      ⟨_, (Hnsw.hnswSearch_eq_some env.distfunc h query).mpr ⟨start, hstart, rfl⟩⟩
    refine (hnswSearch_length_le_one env le_rfl hsearch).mp (hrows _ ?_) start hstart
    simp only [hindex]
    rw [show vec0FilterChunksToRowidMap _ _ true = _ from hmap]
    simp only [hsearch, Option.map_some]
  | ivf ivf =>
    rw [hindex] at hmap
    intro htrained
    refine (ivfSearch_length_le_one env le_rfl htrained query map).mp (hrows _ ?_) htrained
    simp only [hindex]
    rw [show vec0FilterChunksToRowidMap _ _ true = _ from hmap]
    simp only [htrained, if_true]

/-- The rows of an answer are no more than asked for and in order, for every `k`, exactly if the
rows are scanned or the index comes upon one of them at most. -/
theorem knn_shape_iff (env : Env α) (p : Vec0Vtab) (v : Vec0 α (Index α)) (args : KnnArgs α) :
    (∀ k, 1 ≤ k → k ≤ 4096 → ∀ data, vec0FilterKnn env p v (args.withK k) = some (.ok data) →
      Shaped k (cursorRows data)) ↔ FewHits env p v args := by
  constructor
  · intro h query rowidsIn map hquery hin hmap
    refine atMostOneHit_of_length_le_one env p v args hmap fun rows hrows => ?_
    have hshape := h 1 le_rfl (by decide) ⟨1, rows.length, rows, 0⟩
      ((vec0FilterKnn_withK env p v args le_rfl (by decide)).mpr
        (.inr ⟨query, rowidsIn, rows, hquery, hin, hrows, rfl⟩))
    rw [cursorRows_eq] at hshape
    exact hshape.1
  · intro h k hk hmax data hdata
    obtain ⟨query, rc, -, -, rfl⟩ | ⟨query, rowidsIn, rows, hquery, hin, hrows, rfl⟩ :=
      (vec0FilterKnn_withK env p v args hk hmax).mp hdata
    · exact shaped_of_length_le_one hk (Nat.zero_le 1)
    · rw [cursorRows_eq]
      obtain hshape | ⟨map, hmap, hlen⟩ := searchRows_shape env p v args hk hrows
      · exact hshape
      · exact shaped_of_length_le_one hk (hlen.mpr (h query rowidsIn map hquery hin hmap))

theorem line_query_too_long :
    Run lineMeta.ops lineTable (lineRun .createHnsw).1 (lineRun .createHnsw).2 ∧
      ∃ data, vec0FilterKnn lineEnv lineTable (lineRun .createHnsw).1 (lineQuery 1) =
          some (.ok data) ∧
        cursorRows data = [(2, 1), (1, 2)] ∧ ¬ Shaped 1 (cursorRows data) := by
  refine ⟨(Run.create _).exec _, ⟨1, 2, [(2, 1), (1, 2)], 0⟩, ?_, rfl, ?_⟩
  · decide +kernel
  · simp [Shaped, cursorRows, cursorRowsFrom, vec0Eof, vec0Next]

end Knn

end SqliteMultimodal.Vec
