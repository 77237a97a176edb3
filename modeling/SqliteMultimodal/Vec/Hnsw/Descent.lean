import SqliteMultimodal.Lib.Fuel
import SqliteMultimodal.Vec.Hnsw.Run

namespace SqliteMultimodal.Vec.Hnsw.Memory

/-- `cur` and `cur_dist` of the search, `ep` and `dist_best` of the insertion.  A node comes with its
place. -/
structure Stand (α D : Type) where
  place : Int
  node : Node α
  dist : D

/-- The variables of the `for` loop over the neighbours. -/
structure Scan (α D : Type) where
  i : Nat
  cur : Stand α D
  changed : Bool

variable {α D : Type}

def standAt (distfunc : List α → List α → D) (query : List α) (place : Int) (node : Node α) :
    Stand α D :=
  ⟨place, node, distfunc node.vec query⟩

section Code

variable [LinearOrder D] (distfunc : List α → List α → D) (nodes : List (Node α)) (query : List α)
  (fuel level : Nat)

def nborsTest (s : Scan α D) : Except Fault Bool := do
  let count ← s.cur.node.count level
  return s.i < count

def nborsTurn (s : Scan α D) : Except Fault (Scan α D) := do
  let nid ← s.cur.node.nbor level s.i
  let n ← load nodes nid
  if n.deleted then return { s with i := s.i + 1 }
  else
    let d := distfunc n.vec query
    if d < s.cur.dist then return ⟨s.i + 1, ⟨nid, n, d⟩, true⟩
    else return { s with i := s.i + 1 }

def nborsLoop (s : Scan α D) : Except Fault (Scan α D) :=
  While.loop (nborsTest level) (nborsTurn distfunc nodes query level) .fuel fuel s

/-- What a turn of the `while` loop does with `cur` and `changed`. -/
def round (x : Stand α D × Bool) : Except Fault (Stand α D × Bool) := do
  let s ← nborsLoop distfunc nodes query fuel level ⟨0, x.1, false⟩
  return (s.cur, s.changed)

def searchTest (x : Stand α D × Bool) : Except Fault Bool := return x.2

def searchLevel (cur : Stand α D) : Except Fault (Stand α D) := do
  let x ← While.loop searchTest (round distfunc nodes query fuel level) .fuel fuel (cur, true)
  return x.1

/-- The level loop of `hnsw_search`. -/
def searchLevels (maxLevel : Nat) (cur : Stand α D) : Except Fault (Stand α D) :=
  (levelsAbove 0 maxLevel).foldlM (fun cur l => searchLevel distfunc nodes query fuel l cur) cur

def addTest (x : Stand α D × Bool) : Except Fault Bool := do
  if x.2 then
    let count ← x.1.node.count level
    return 0 < count
  else return false

def addLevel (curEntry : Int) : Except Fault Int := do
  let ep ← load nodes curEntry
  if ep.deleted then return curEntry
  else
    let x ← While.loop (addTest level) (round distfunc nodes query fuel level) .fuel fuel
      (standAt distfunc query curEntry ep, true)
    return x.1.place

/-- The level loop of `hnsw_add` for a node at this level. -/
def addLevels (maxLevel : Nat) (curEntry : Int) : Except Fault Int :=
  (levelsAbove level maxLevel).foldlM (fun curEntry l => addLevel distfunc nodes query fuel l curEntry)
    curEntry

end Code

structure ValidLists (nodes : List (Node α)) (maxLevel : Nat) : Prop where
  maxLevel_lt : maxLevel < maxLevels
  count_le : ∀ n ∈ nodes, ∀ l ≤ maxLevel, n.nborCount l ≤ maxNeighbors
  nbor : ∀ n ∈ nodes, ∀ l ≤ maxLevel, ∀ i : Nat, i < n.nborCount l →
    0 ≤ n.nbors l i ∧ n.nbors l i < nodes.length

structure Stands (distfunc : List α → List α → D) (nodes : List (Node α)) (query : List α)
    (cur : Stand α D) : Prop where
  node : load nodes cur.place = .ok cur.node
  dist : cur.dist = distfunc cur.node.vec query

def Nearer [LT D] (s s' : Scan α D) : Prop :=
  s'.cur = s.cur ∧ s'.changed = s.changed ∨ s'.changed = true ∧ s'.cur.dist < s.cur.dist

theorem Nearer.refl [LT D] (s : Scan α D) : Nearer s s := .inl ⟨rfl, rfl⟩

theorem Nearer.trans [Preorder D] {s s' s'' : Scan α D} (h : Nearer s s') (h' : Nearer s' s'') :
    Nearer s s'' := by
  obtain ⟨hcur, hchanged⟩ | ⟨hchanged, hlt⟩ := h'
  · rw [Nearer, hcur, hchanged]
    exact h
  · obtain ⟨hcur, -⟩ | ⟨-, hlt'⟩ := h
    · exact .inr ⟨hchanged, hcur ▸ hlt⟩
    · exact .inr ⟨hchanged, hlt.trans hlt'⟩

section Turns

variable [LinearOrder D] (distfunc : List α → List α → D) {nodes : List (Node α)} {maxLevel : Nat}
  (query : List α) {fuel fuel' level : Nat}

omit [LinearOrder D] in
theorem Stands.mem {cur : Stand α D} (h : Stands distfunc nodes query cur) : cur.node ∈ nodes :=
  List.mem_of_getElem? (load_eq_ok.mp h.node).2

omit [LinearOrder D] in
theorem nborsTest_eq (hvalid : ValidLists nodes maxLevel) (hl : level ≤ maxLevel) (s : Scan α D) :
    nborsTest level s = .ok (decide (s.i < s.cur.node.nborCount level)) := by
  rw [nborsTest, count_eq _ (hl.trans_lt hvalid.maxLevel_lt)]
  rfl

theorem nborsTurn_spec (hvalid : ValidLists nodes maxLevel) (hl : level ≤ maxLevel) {s : Scan α D}
    (hs : Stands distfunc nodes query s.cur) (hi : s.i < s.cur.node.nborCount level) :
    ∃ s', nborsTurn distfunc nodes query level s = .ok s' ∧
      Stands distfunc nodes query s'.cur ∧ Nearer s s' ∧ s'.i = s.i + 1 := by
  have hmem := hs.mem distfunc query
  have hcount := hvalid.count_le _ hmem level hl
  obtain ⟨hpos, hlt⟩ := hvalid.nbor _ hmem level hl s.i hi
  obtain ⟨k, hk⟩ := Int.eq_ofNat_of_zero_le hpos
  have hload : load nodes (s.cur.node.nbors level s.i) = .ok (nodes.get ⟨k, by omega⟩) := by
    rw [hk]
    exact load_of_getElem? (List.getElem?_eq_getElem _)
  rw [nborsTurn, nbor_eq _ (hl.trans_lt hvalid.maxLevel_lt) (by omega), Except.ok_bind, hload,
    Except.ok_bind]
  split
  · exact ⟨_, rfl, hs, .refl s, rfl⟩
  · dsimp only
    split
    next hnearer => exact ⟨_, rfl, ⟨hload, rfl⟩, .inr ⟨rfl, hnearer⟩, rfl⟩
    next => exact ⟨_, rfl, hs, .refl s, rfl⟩

theorem nborsLoop_spec (hvalid : ValidLists nodes maxLevel) (hl : level ≤ maxLevel) {s : Scan α D}
    (hs : Stands distfunc nodes query s.cur) (hfuel : maxNeighbors + 1 < fuel) :
    ∃ s', nborsLoop distfunc nodes query fuel level s = .ok s' ∧
      Stands distfunc nodes query s'.cur ∧ Nearer s s' := by
  have hends : ∃ s', While.loop (nborsTest level) (nborsTurn distfunc nodes query level) .fuel fuel s =
      .ok s' ∧ (Stands distfunc nodes query s'.cur ∧ Nearer s s') ∧ nborsTest level s' = .ok false := by
    refine While.loop_ends (Finset.range (maxNeighbors + 1)) (fun s => maxNeighbors - s.i)
      (fun s' => Stands distfunc nodes query s'.cur ∧ Nearer s s') (fun s' _ => ?_)
      (fun s' _ => ⟨_, nborsTest_eq hvalid hl s'⟩) (fun s₁ ⟨hs₁, hnearer⟩ htest => ?_)
      ⟨hs, .refl s⟩ (by rwa [Finset.card_range])
    · exact Finset.mem_range.mpr (Nat.lt_succ_of_le (Nat.sub_le ..))
    · rw [nborsTest_eq hvalid hl, Except.ok.injEq, decide_eq_true_eq] at htest
      obtain ⟨s₂, hturn, hs₂, hnearer', hi⟩ := nborsTurn_spec distfunc query hvalid hl hs₁ htest
      have hcount := hvalid.count_le _ (hs₁.mem distfunc query) level hl
      exact ⟨s₂, hturn, ⟨hs₂, hnearer.trans hnearer'⟩, fun _ => by omega⟩
  obtain ⟨s', hloop, ⟨hs', hnearer⟩, -⟩ := hends
  exact ⟨s', hloop, hs', hnearer⟩

theorem round_spec (hvalid : ValidLists nodes maxLevel) (hl : level ≤ maxLevel)
    {x : Stand α D × Bool} (hx : Stands distfunc nodes query x.1) (hfuel : maxNeighbors + 1 < fuel) :
    ∃ x', round distfunc nodes query fuel level x = .ok x' ∧
      Stands distfunc nodes query x'.1 ∧ (x'.2 = true → x'.1.dist < x.1.dist) := by
  obtain ⟨s, hloop, hs, hnearer⟩ := nborsLoop_spec distfunc query hvalid hl (s := ⟨0, x.1, false⟩) hx
    hfuel
  refine ⟨(s.cur, s.changed), ?_, hs, fun hchanged => ?_⟩
  · rw [round, hloop]
    rfl
  · obtain ⟨-, hfalse⟩ | ⟨-, hlt⟩ := hnearer
    · exact absurd (hfalse.symm.trans hchanged) Bool.false_ne_true
    · exact hlt

theorem rounds_end (hvalid : ValidLists nodes maxLevel) (hl : level ≤ maxLevel)
    (hfuel : maxNeighbors + 1 < fuel) (hfuel' : nodes.length < fuel)
    (test : Stand α D × Bool → Except Fault Bool) (htest : ∀ x, ∃ b, test x = .ok b)
    (hchanged : ∀ x, test x = .ok true → x.2 = true) {x : Stand α D × Bool}
    (hx : Stands distfunc nodes query x.1) :
    ∃ x', While.loop test (round distfunc nodes query fuel level) .fuel fuel x = .ok x' ∧
      Stands distfunc nodes query x'.1 ∧ test x' = .ok false := by
  have hcard : (nodes.map fun n => distfunc n.vec query).toFinset.card < fuel := by
    refine (List.toFinset_card_le _).trans_lt ?_
    rwa [List.length_map]
  refine While.loop_ends _ (fun x => x.1.dist) (fun x => Stands distfunc nodes query x.1)
    (fun x hx => ?_) (fun x _ => htest x) (fun x hx _ => ?_) hx hcard
  · rw [List.mem_toFinset, hx.dist]
    exact List.mem_map_of_mem (hx.mem distfunc query)
  · obtain ⟨x', hround, hx', hlt⟩ := round_spec distfunc query hvalid hl hx hfuel
    exact ⟨x', hround, hx', fun h => hlt (hchanged x' h)⟩

end Turns

section Levels

variable [LinearOrder D] (distfunc : List α → List α → D) {nodes : List (Node α)} {maxLevel : Nat}
  (query : List α) {fuel fuel' level : Nat}

omit [LinearOrder D] in
theorem stands_standAt {place : Int} {node : Node α} (h : load nodes place = .ok node) :
    Stands distfunc nodes query (standAt distfunc query place node) :=
  ⟨h, rfl⟩

theorem searchLevel_spec (hvalid : ValidLists nodes maxLevel) (hl : level ≤ maxLevel)
    (hfuel : maxNeighbors + 1 < fuel) (hfuel' : nodes.length < fuel) {cur : Stand α D}
    (hcur : Stands distfunc nodes query cur) :
    ∃ cur', searchLevel distfunc nodes query fuel level cur = .ok cur' ∧
      Stands distfunc nodes query cur' := by
  obtain ⟨x, hloop, hx, -⟩ := rounds_end distfunc query hvalid hl hfuel hfuel' searchTest
    (fun x => ⟨x.2, rfl⟩) (fun x h => Except.ok.inj h) (x := (cur, true)) hcur
  refine ⟨x.1, ?_, hx⟩
  rw [searchLevel, hloop]
  rfl

omit [LinearOrder D] in
theorem addTest_eq (hl : level < maxLevels) (x : Stand α D × Bool) :
    addTest level x = .ok (x.2 && decide (0 < x.1.node.nborCount level)) := by
  rw [addTest, count_eq _ hl]
  cases x.2 with
  | true => rfl
  | false => rfl

theorem addLevel_spec (hvalid : ValidLists nodes maxLevel) (hl : level ≤ maxLevel)
    (hfuel : maxNeighbors + 1 < fuel) (hfuel' : nodes.length < fuel) {curEntry : Int}
    (hentry : ∃ ep, load nodes curEntry = .ok ep) :
    ∃ curEntry', addLevel distfunc nodes query fuel level curEntry = .ok curEntry' ∧
      ∃ ep, load nodes curEntry' = .ok ep := by
  obtain ⟨ep, hep⟩ := hentry
  rw [addLevel, hep, Except.ok_bind]
  split
  · exact ⟨curEntry, rfl, ep, hep⟩
  · have htest := @addTest_eq α D level (hl.trans_lt hvalid.maxLevel_lt)
    obtain ⟨x, hloop, hx, -⟩ := rounds_end distfunc query hvalid hl hfuel hfuel' (addTest level)
      (fun x => ⟨_, htest x⟩)
      (fun x h => (Bool.and_eq_true_iff.mp (Except.ok.inj ((htest x).symm.trans h))).1)
      (x := (standAt distfunc query curEntry ep, true)) (stands_standAt distfunc query hep)
    refine ⟨x.1.place, ?_, x.1.node, hx.node⟩
    rw [hloop]
    rfl

theorem mem_levelsAbove {l : Nat} (hl : l ∈ levelsAbove level maxLevel) :
    level < l ∧ l ≤ maxLevel := by
  rw [levelsAbove, List.mem_reverse, List.mem_range'_1] at hl
  omega

theorem searchLevels_spec (hvalid : ValidLists nodes maxLevel) (hfuel : maxNeighbors + 1 < fuel)
    (hfuel' : nodes.length < fuel) {cur : Stand α D} (hcur : Stands distfunc nodes query cur) :
    ∃ cur', searchLevels distfunc nodes query fuel maxLevel cur = .ok cur' ∧
      Stands distfunc nodes query cur' :=
  Except.foldlM_ok
    (fun _ _ hl hcur =>
      searchLevel_spec distfunc query hvalid (mem_levelsAbove hl).2 hfuel hfuel' hcur) hcur

theorem addLevels_spec (level : Nat) (hvalid : ValidLists nodes maxLevel)
    (hfuel : maxNeighbors + 1 < fuel) (hfuel' : nodes.length < fuel) {curEntry : Int}
    (hentry : ∃ ep, load nodes curEntry = .ok ep) :
    ∃ curEntry', addLevels distfunc nodes query fuel level maxLevel curEntry = .ok curEntry' ∧
      ∃ ep, load nodes curEntry' = .ok ep :=
  Except.foldlM_ok
    (fun _ _ hl hentry =>
      addLevel_spec distfunc query hvalid (mem_levelsAbove hl).2 hfuel hfuel' hentry) hentry

variable {query}

theorem round_mono (hle : fuel ≤ fuel') {x x' : Stand α D × Bool}
    (h : round distfunc nodes query fuel level x = .ok x') :
    round distfunc nodes query fuel' level x = .ok x' := by
  obtain ⟨s, hs, h⟩ := Except.bind_eq_ok.mp h
  rw [round, nborsLoop, While.loop_mono (fun _ _ h => h) hle hs]
  exact h

theorem searchLevels_mono (hle : fuel ≤ fuel') {cur cur' : Stand α D}
    (h : searchLevels distfunc nodes query fuel maxLevel cur = .ok cur') :
    searchLevels distfunc nodes query fuel' maxLevel cur = .ok cur' := by
  refine Except.foldlM_mono (fun cur l cur' h => ?_) h
  obtain ⟨x, hx, h⟩ := Except.bind_eq_ok.mp h
  rw [searchLevel, While.loop_mono (fun _ _ => round_mono distfunc hle) hle hx]
  exact h

theorem addLevels_mono (hle : fuel ≤ fuel') {curEntry curEntry' : Int}
    (h : addLevels distfunc nodes query fuel level maxLevel curEntry = .ok curEntry') :
    addLevels distfunc nodes query fuel' level maxLevel curEntry = .ok curEntry' := by
  refine Except.foldlM_mono (fun curEntry l curEntry' h => ?_) h
  obtain ⟨ep, hep, h⟩ := Except.bind_eq_ok.mp h
  rw [addLevel, hep, Except.ok_bind]
  split at h
  next hdeleted =>
    rw [if_pos hdeleted]
    exact h
  next hlive =>
    obtain ⟨x, hx, h⟩ := Except.bind_eq_ok.mp h
    rw [if_neg hlive, While.loop_mono (fun _ _ => round_mono distfunc hle) hle hx]
    exact h

end Levels

section Ends

variable [LinearOrder D] (distfunc : List α → List α → D)

def RoundsComeNearer (nodes : List (Node α)) (query : List α) (level : Nat) : Prop :=
  ∀ fuel, maxNeighbors + 1 < fuel → ∀ s : Scan α D, Stands distfunc nodes query s.cur →
    ∃ s', nborsLoop distfunc nodes query fuel level s = .ok s' ∧
      Stands distfunc nodes query s'.cur ∧ Nearer s s'

omit [LinearOrder D] in
theorem ValidLists.concat {nodes : List (Node α)} {maxLevel : Nat}
    (hvalid : ValidLists nodes maxLevel) (mem : Node α) (id : Int) (rowid : Int32) (vec : List α)
    (level : Nat) : ValidLists (nodes ++ [nodeCreate mem id rowid vec level]) maxLevel where
  maxLevel_lt := hvalid.maxLevel_lt
  count_le n hn l hl := by
    obtain hn | hn := List.mem_append.mp hn
    · exact hvalid.count_le n hn l hl
    · rw [List.mem_singleton.mp hn]
      exact Int.natCast_nonneg maxNeighbors
  nbor n hn l hl i hi := by
    obtain hn | hn := List.mem_append.mp hn
    · obtain ⟨hpos, hlt⟩ := hvalid.nbor n hn l hl i hi
      rw [List.length_append]
      omega
    · rw [List.mem_singleton.mp hn] at hi
      exact absurd hi (not_lt.mpr (Int.natCast_nonneg i))

/-- The level loops of a search and of an insertion end wherever they start, however the nodes are
linked.  No list takes more turns than its array has places, no level more rounds than there are
nodes. -/
theorem level_loops_end {h : Graph α} (hvalid : ValidLists h.nodes h.maxLevel) (query : List α)
    {start : Int} {node : Node α} (hstart : load h.nodes start = .ok node) :
    (∃ cur, ∀ fuel, maxNeighbors + 1 < fuel → h.nodes.length < fuel →
        searchLevels distfunc h.nodes query fuel h.maxLevel (standAt distfunc query start node) =
          .ok cur) ∧
      (∀ level ≤ h.maxLevel, RoundsComeNearer distfunc h.nodes query level) ∧
      ∀ (mem : Node α) (rowid : Int32) (level : Nat),
        let nodes := h.nodes ++ [nodeCreate mem h.nodes.length rowid query level]
        (∃ curEntry, ∀ fuel, maxNeighbors + 1 < fuel → nodes.length < fuel →
            addLevels distfunc nodes query fuel level h.maxLevel start = .ok curEntry) ∧
          ∀ level ≤ h.maxLevel, RoundsComeNearer distfunc nodes query level := by
  refine ⟨?_, fun level hl fuel hfuel s hs => nborsLoop_spec distfunc query hvalid hl hs hfuel,
    fun mem rowid level => ?_⟩
  · have hfuel : maxNeighbors + 1 < max (maxNeighbors + 1) h.nodes.length + 1 := by omega
    have hfuel' : h.nodes.length < max (maxNeighbors + 1) h.nodes.length + 1 := by omega
    obtain ⟨cur, hcur, -⟩ := searchLevels_spec distfunc query hvalid hfuel hfuel'
      (stands_standAt distfunc query hstart)
    exact ⟨cur, fun fuel hfuel hfuel' => searchLevels_mono distfunc (by omega) hcur⟩
  · intro nodes
    have hvalid' : ValidLists nodes h.maxLevel := hvalid.concat mem h.nodes.length rowid query level
    have hstart' : load nodes start = .ok node := by
      obtain ⟨hpos, hget⟩ := load_eq_ok.mp hstart
      have hlt := (List.getElem?_eq_some_iff.mp hget).1
      exact load_eq_ok.mpr ⟨hpos, (List.getElem?_append_left hlt).trans hget⟩
    refine ⟨?_, fun level hl fuel hfuel s hs => nborsLoop_spec distfunc query hvalid' hl hs hfuel⟩
    have hfuel : maxNeighbors + 1 < max (maxNeighbors + 1) nodes.length + 1 := by omega
    have hfuel' : nodes.length < max (maxNeighbors + 1) nodes.length + 1 := by omega
    obtain ⟨curEntry, hadd, -⟩ := addLevels_spec distfunc query level hvalid' hfuel hfuel'
      ⟨node, hstart'⟩
    exact ⟨curEntry, fun fuel hfuel hfuel' => addLevels_mono distfunc (by omega) hadd⟩

end Ends

section Sample

def ringNode (id nbor : Int) (vec : List ℤ) : Node ℤ :=
  ⟨id, 0, 1, vec, fun _ _ => nbor, fun _ => 1, false, 0⟩

def ringGraph : Graph ℤ := ⟨1, 4, [ringNode 0 1 [0], ringNode 1 0 [4]], 0, 1⟩

theorem ringGraph_valid : ValidLists ringGraph.nodes ringGraph.maxLevel where
  maxLevel_lt := by decide
  count_le n hn l _ := by
    simp only [ringGraph, List.mem_cons, List.not_mem_nil, or_false] at hn
    obtain rfl | rfl := hn <;> exact Int.ofNat_le.mpr (Nat.succ_le_succ (Nat.zero_le 15))
  nbor n hn l _ i _ := by
    simp only [ringGraph, List.mem_cons, List.not_mem_nil, or_false] at hn
    obtain rfl | rfl := hn <;> exact ⟨by simp [ringNode], by simp [ringNode, ringGraph]⟩

theorem ringGraph_level_loops_end :
    ((∃ cur, ∀ fuel, maxNeighbors + 1 < fuel → ringGraph.nodes.length < fuel →
        searchLevels lineDist ringGraph.nodes [5] fuel ringGraph.maxLevel
          (standAt lineDist [5] 0 (ringNode 0 1 [0])) = .ok cur) ∧
      (∀ level ≤ ringGraph.maxLevel, RoundsComeNearer lineDist ringGraph.nodes [5] level) ∧
      ∀ (mem : Node ℤ) (rowid : Int32) (level : Nat),
        let nodes := ringGraph.nodes ++ [nodeCreate mem ringGraph.nodes.length rowid [5] level]
        (∃ curEntry, ∀ fuel, maxNeighbors + 1 < fuel → nodes.length < fuel →
            addLevels lineDist nodes [5] fuel level ringGraph.maxLevel 0 = .ok curEntry) ∧
          ∀ level ≤ ringGraph.maxLevel, RoundsComeNearer lineDist nodes [5] level) :=
  level_loops_end lineDist ringGraph_valid [5] rfl

example : searchLevels lineDist ringGraph.nodes [5] 20 1 (standAt lineDist [5] 0 (ringNode 0 1 [0])) =
    .ok (standAt lineDist [5] 1 (ringNode 1 0 [4])) := rfl

end Sample

section Refinement

variable [LinearOrder α] (distfunc : List α → List α → α) {nodes : List (Node α)} {query : List α}
  {fuel level maxLevel : Nat}

def Scan.erase (s : Scan α D) : (Int × Node α) × Bool := ((s.cur.place, s.cur.node), s.changed)

def Keeps (distfunc : List α → List α → D) (query : List α) (cur : Stand α D) : Prop :=
  cur.dist = distfunc cur.node.vec query

theorem nborsTurn_cases {s s' : Scan α α} (hs : Keeps distfunc query s.cur)
    (h : nborsTurn distfunc nodes query level s = .ok s') :
    s'.i = s.i + 1 ∧ Keeps distfunc query s'.cur ∧
      ∃ nid n, s.cur.node.nbor level s.i = .ok nid ∧ load nodes nid = .ok n ∧
        s'.erase = if !n.deleted && distfunc n.vec query < distfunc s.cur.node.vec query then
          ((nid, n), true) else s.erase := by
  obtain ⟨nid, hnid, h⟩ := Except.bind_eq_ok.mp h
  obtain ⟨n, hn, h⟩ := Except.bind_eq_ok.mp h
  rw [← hs]
  split at h
  next hdeleted =>
    obtain rfl := Except.pure_eq_ok.mp h
    refine ⟨rfl, hs, nid, n, hnid, hn, ?_⟩
    rw [hdeleted, Bool.not_true, Bool.false_and, if_neg Bool.false_ne_true]
    rfl
  next hlive =>
    rw [Bool.not_eq_true] at hlive
    dsimp only at h
    split at h
    next hlt =>
      obtain rfl := Except.pure_eq_ok.mp h
      refine ⟨rfl, rfl, nid, n, hnid, hn, ?_⟩
      rw [if_pos (by simp [hlive, hlt])]
      rfl
    next hge =>
      obtain rfl := Except.pure_eq_ok.mp h
      refine ⟨rfl, hs, nid, n, hnid, hn, ?_⟩
      rw [if_neg (by simp [hge])]
      rfl

theorem scanNbors_of_nborsLoop {s s' : Scan α α} (hs : Keeps distfunc query s.cur)
    (h : nborsLoop distfunc nodes query fuel level s = .ok s') :
    scanNbors distfunc nodes query level fuel s.i (s.cur.place, s.cur.node) s.changed =
        .ok s'.erase ∧ Keeps distfunc query s'.cur := by
  unfold nborsLoop at h
  generalize fuel = turns at h ⊢
  induction turns generalizing s with
  | zero => simp [While.loop] at h
  | succ turns ih =>
    obtain ⟨_, ⟨⟩, ⟨htest, rfl⟩ | ⟨s₁, htest, hturn, h⟩⟩ := While.loop_cases h
    · obtain ⟨count, hcount, htest⟩ := Except.bind_eq_ok.mp htest
      rw [scanNbors, hcount, Except.ok_bind, if_neg (by simpa using htest)]
      exact ⟨rfl, hs⟩
    · obtain ⟨count, hcount, htest⟩ := Except.bind_eq_ok.mp htest
      obtain ⟨hi, hs₁, nid, n, hnid, hn, herase⟩ := nborsTurn_cases distfunc hs hturn
      obtain ⟨hscan, hkeeps⟩ := ih hs₁ h
      refine ⟨?_, hkeeps⟩
      rw [scanNbors, hcount, Except.ok_bind, if_pos (by simpa using htest), hnid, Except.ok_bind, hn,
        Except.ok_bind, ← hscan, hi]
      split at herase
      next hnearer =>
        rw [if_pos hnearer]
        obtain ⟨hcur, hchanged⟩ := Prod.mk.inj herase
        rw [hcur, hchanged]
      next hfarther =>
        rw [if_neg hfarther]
        obtain ⟨hcur, hchanged⟩ := Prod.mk.inj herase
        rw [hcur, hchanged]

theorem round_cases {x x' : Stand α α × Bool} (hx : Keeps distfunc query x.1)
    (h : round distfunc nodes query fuel level x = .ok x') :
    scanNbors distfunc nodes query level fuel 0 (x.1.place, x.1.node) false =
        .ok ((x'.1.place, x'.1.node), x'.2) ∧ Keeps distfunc query x'.1 := by
  obtain ⟨s, hs, h⟩ := Except.bind_eq_ok.mp h
  obtain rfl := Except.pure_eq_ok.mp h
  exact scanNbors_of_nborsLoop distfunc (s := ⟨0, x.1, false⟩) hx hs

theorem descendLevel_of_searchLevel {cur cur' : Stand α α} (hcur : Keeps distfunc query cur)
    (h : searchLevel distfunc nodes query fuel level cur = .ok cur') :
    descendLevel distfunc nodes query fuel level fuel (cur.place, cur.node) =
        .ok (cur'.place, cur'.node) ∧ Keeps distfunc query cur' := by
  obtain ⟨x, hloop, h⟩ := Except.bind_eq_ok.mp h
  obtain rfl := Except.pure_eq_ok.mp h
  suffices hturns : ∀ turns cur, Keeps distfunc query cur →
      While.loop searchTest (round distfunc nodes query fuel level) .fuel turns (cur, true) = .ok x →
      descendLevel distfunc nodes query fuel level turns (cur.place, cur.node) =
        .ok (x.1.place, x.1.node) ∧ Keeps distfunc query x.1 from hturns fuel cur hcur hloop
  intro turns
  induction turns with
  | zero => exact fun cur _ h => by simp [While.loop] at h
  | succ turns ih =>
    intro cur hcur hloop
    obtain ⟨_, ⟨⟩, ⟨htest, -⟩ | ⟨x₁, -, hround, hloop⟩⟩ := While.loop_cases hloop
    · cases htest
    obtain ⟨hscan, hcur₁⟩ := round_cases distfunc hcur hround
    rw [descendLevel, hscan, Except.ok_bind]
    obtain ⟨cur₁, changed⟩ := x₁
    cases changed with
    | true => exact ih cur₁ hcur₁ hloop
    | false =>
      obtain ⟨_, ⟨⟩, ⟨-, rfl⟩ | ⟨_, htest, -⟩⟩ := While.loop_cases hloop
      · exact ⟨rfl, hcur₁⟩
      · cases htest

theorem improveLevel_of_loop (cur : Stand α α) {x : Stand α α × Bool} {turns : Nat}
    (hcur : Keeps distfunc query cur)
    (h : While.loop (addTest level) (round distfunc nodes query fuel level) .fuel turns (cur, true) =
      .ok x) :
    improveLevel distfunc nodes query fuel level turns (cur.place, cur.node) =
      .ok (x.1.place, x.1.node) := by
  induction turns generalizing cur with
  | zero => simp [While.loop] at h
  | succ turns ih =>
    obtain ⟨_, ⟨⟩, ⟨htest, rfl⟩ | ⟨x₁, htest, hround, h⟩⟩ := While.loop_cases h
    · obtain ⟨count, hcount, htest⟩ := Except.bind_eq_ok.mp htest
      rw [improveLevel, hcount, Except.ok_bind, if_neg (by simpa using htest)]
      rfl
    · obtain ⟨count, hcount, htest⟩ := Except.bind_eq_ok.mp htest
      obtain ⟨hscan, hcur₁⟩ := round_cases distfunc hcur hround
      rw [improveLevel, hcount, Except.ok_bind, if_pos (by simpa using htest), hscan, Except.ok_bind]
      obtain ⟨cur₁, improved⟩ := x₁
      cases improved with
      | true => exact ih cur₁ hcur₁ h
      | false =>
        obtain ⟨_, ⟨⟩, ⟨-, rfl⟩ | ⟨_, htest, -⟩⟩ := While.loop_cases h
        · rfl
        · cases htest

/-- These loops keep the distance beside the node; the ones of the memory model end at the same
node. -/
theorem descend_of_searchLevels (cur : Stand α α) {cur' : Stand α α} (hcur : Keeps distfunc query cur)
    (h : searchLevels distfunc nodes query fuel maxLevel cur = .ok cur') :
    descend distfunc nodes query fuel maxLevel (cur.place, cur.node) =
      .ok (cur'.place, cur'.node) := by
  unfold searchLevels at h
  unfold descend
  generalize levelsAbove 0 maxLevel = levels at h ⊢
  induction levels generalizing cur with
  | nil =>
    obtain rfl := Except.pure_eq_ok.mp h
    rfl
  | cons l levels ih =>
    rw [List.foldlM_cons] at h ⊢
    obtain ⟨cur₁, hlevel, h⟩ := Except.bind_eq_ok.mp h
    obtain ⟨hdescend, hcur₁⟩ := descendLevel_of_searchLevel distfunc hcur hlevel
    rw [hdescend]
    exact ih cur₁ hcur₁ h

theorem improve_of_addLevels {curEntry curEntry' : Int}
    (h : addLevels distfunc nodes query fuel level maxLevel curEntry = .ok curEntry') :
    improve distfunc nodes query fuel level maxLevel curEntry = .ok curEntry' := by
  refine Except.foldlM_mono (fun curEntry l curEntry' h => ?_) h
  obtain ⟨ep, hep, h⟩ := Except.bind_eq_ok.mp h
  rw [hep, Except.ok_bind]
  split at h
  next hdeleted =>
    rw [if_pos hdeleted]
    exact h
  next hlive =>
    obtain ⟨x, hloop, h⟩ := Except.bind_eq_ok.mp h
    have himprove : improveLevel distfunc nodes query fuel l fuel (curEntry, ep) =
        .ok (x.1.place, x.1.node) :=
      improveLevel_of_loop distfunc (standAt distfunc query curEntry ep) rfl hloop
    rw [if_neg hlive, himprove]
    exact h

end Refinement

end SqliteMultimodal.Vec.Hnsw.Memory
