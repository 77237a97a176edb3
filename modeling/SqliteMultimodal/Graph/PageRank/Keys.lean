import Mathlib.Algebra.BigOperators.Ring.Finset
import Mathlib.Algebra.Order.Field.Rat
import SqliteMultimodal.Graph.PageRank.Runs
import SqliteMultimodal.Lib.JsonValue

namespace SqliteMultimodal.Graph.PageRank

section Lengths

variable {α : Type} {tables : Tables}

theorem length_of_writeAt {β : Type} {xs ys : List β} {i : Int} {x : β}
    (h : writeAt xs i x = .ok ys) : ys.length = xs.length := by
  rw [writeAt] at h
  split at h
  next =>
    cases h
    exact List.length_set
  next => cases h

variable [Zero α] [One α] [Add α] [Sub α] [Mul α] [Div α] [NatCast α] {rDamping rEpsilon : α}

theorem length_of_iterationFunc {pOutDegree : List Nat} {pRank : List α} {next : List α × α}
    (h : iterationFunc tables rDamping pOutDegree pRank = .ok next) :
    next.1.length = tables.nodes.length + 1 := by
  rw [iterationFunc, Except.bind_eq_ok] at h
  obtain ⟨pNextRank, hfold, heq⟩ := h
  cases heq
  refine (Except.foldlM_eq (g := List.length) (fun xs ys row _ hrow => ?_) hfold).trans
    List.length_replicate
  simp only [addShare, Except.bind_eq_ok] at hrow
  obtain ⟨_, _, _, _, _, _, hwrite⟩ := hrow
  exact length_of_writeAt hwrite

theorem length_of_ranksFunc [LT α] [DecidableLT α] {nMaxIter : Nat} {pRank : List α}
    (h : ranksFunc tables rDamping nMaxIter rEpsilon = .ok pRank) :
    pRank.length = tables.nodes.length + 1 := by
  rw [ranksFunc, Except.bind_eq_ok] at h
  obtain ⟨pOutDegree, _, h⟩ := h
  obtain ⟨k, _, hheld⟩ := powerLoop_heldAfter
    (iterationFunc tables rDamping pOutDegree) rEpsilon nMaxIter (firstRanks tables)
  rw [hheld] at h
  have hall : ∀ k (xs : List α), xs.length = tables.nodes.length + 1 →
      heldAfter (iterationFunc tables rDamping pOutDegree) k xs = .ok pRank →
      pRank.length = tables.nodes.length + 1 := by
    intro k
    induction k with
    | zero =>
      intro xs hxs heq
      cases heq
      exact hxs
    | succ k ih =>
      intro xs hxs heq
      rw [heldAfter, Except.bind_eq_ok] at heq
      obtain ⟨next, hnext, heq⟩ := heq
      exact ih next.1 (length_of_iterationFunc hnext) heq
  exact hall k _ List.length_replicate h

end Lengths

section Printed

variable {α : Type} {percentF : α → Text} {tables : Tables} {pRank : List α}

def memberText (percentF : α → Text) (m : Text × α) : Text :=
  '"' :: (m.1 ++ '"' :: ':' :: percentF m.2)

def memberOf (pRank : List α) (id : Int) : Except Fault (Text × α) := do
  let rank ← readAt pRank (columnInt id)
  .ok (Text.ofInt (columnInt id), rank)

def printed (percentF : α → Text) (z : Text) (bFirst : Bool) (members : List (Text × α)) :
    Text × Bool :=
  if members = [] then (z, bFirst)
  else (z ++ (if bFirst then [] else [',']) ++
    Text.join ',' (members.map (memberText percentF)), false)

theorem printed_cons (z : Text) (bFirst : Bool) (m : Text × α) (members : List (Text × α)) :
    printed percentF (z ++ (if bFirst then [] else [',']) ++ memberText percentF m) false members =
      printed percentF z bFirst (m :: members) := by
  rw [printed, printed, if_neg (List.cons_ne_nil m members), List.map_cons]
  split
  next h =>
    subst h
    simp [Text.join]
  next h =>
    have hne : members.map (memberText percentF) ≠ [] := by rwa [ne_eq, List.map_eq_nil_iff]
    rw [Text.join_cons ',' _ hne]
    simp only [Bool.false_eq_true, if_false, List.append_assoc, List.singleton_append]

theorem printRow_foldlM (nodes : List Int) (z : Text) (bFirst : Bool) :
    nodes.foldlM (printRow percentF pRank) (z, bFirst) =
      nodes.mapM (memberOf pRank) >>= fun members => .ok (printed percentF z bFirst members) := by
  induction nodes generalizing z bFirst with
  | nil => rfl
  | cons id nodes ih =>
    rw [List.foldlM_cons, List.mapM_cons]
    cases hread : readAt pRank (columnInt id) with
    | error fault =>
      simp only [printRow, memberOf, hread, Except.error_bind]
    | ok rank =>
      have hrow : printRow percentF pRank (z, bFirst) id =
          .ok (z ++ (if bFirst then [] else [',']) ++
            memberText percentF (Text.ofInt (columnInt id), rank), false) := by
        simp only [printRow, hread, Except.ok_bind]
        cases bFirst
        · rfl
        · simp [memberText]
      rw [hrow, Except.ok_bind, ih]
      simp only [memberOf, hread, Except.ok_bind]
      cases hmembers : nodes.mapM (memberOf pRank) with
      | error fault => rfl
      | ok members =>
        simp only [Except.ok_bind, printed_cons]
        rfl

theorem printRanks_eq_ok {zResult : Text} : printRanks percentF tables pRank = .ok zResult ↔
    ∃ members, List.Forall₂ (fun id m => memberOf pRank id = .ok m) tables.nodes members ∧
      zResult = '\x7b' :: (Text.join ',' (members.map (memberText percentF)) ++ ['\x7d']) := by
  have htext : ∀ members : List (Text × α),
      (printed percentF ['\x7b'] true members).1 ++ ['\x7d'] =
        '\x7b' :: (Text.join ',' (members.map (memberText percentF)) ++ ['\x7d']) := by
    intro members
    rw [printed]
    split
    next h =>
      subst h
      rfl
    next => rfl
  simp only [printRanks, printRow_foldlM, Except.bind_eq_ok, Except.mapM_eq_ok]
  constructor
  · rintro ⟨s, ⟨members, hmembers, heq⟩, hresult⟩
    cases heq
    cases hresult
    exact ⟨members, hmembers, htext members⟩
  · rintro ⟨members, hmembers, rfl⟩
    exact ⟨_, ⟨members, hmembers, rfl⟩, congrArg Except.ok (htext members)⟩

end Printed

section Keys

variable {α : Type} {percentF : α → Text} {tables : Tables} {damping epsilon : Option α}
  {maxIter : Option Int}

theorem plain_ofInt (i : Int) : ∀ c ∈ Text.ofInt i, Json.Plain c := by
  have hdigit : ∀ n : Nat, ∀ c ∈ Nat.toDigits 10 n, Json.Plain c := by
    intro n c hc
    have hc := Text.isDigit_of_mem_toDigits hc
    refine ⟨Text.ne_of_isDigit hc rfl, Text.ne_of_isDigit hc rfl, ?_⟩
    simp only [Char.isDigit, Bool.and_eq_true, decide_eq_true_eq, ge_iff_le,
      UInt32.le_iff_toNat_le] at hc
    exact Nat.le_trans (by decide) hc.1
  cases i with
  | ofNat n => exact hdigit n
  | negSucc n =>
    intro c hc
    obtain rfl | hc := List.mem_cons.mp hc
    · decide
    · exact hdigit (n + 1) c hc

theorem forall₂_memberOf {nodes : List Int} {members : List (Text × α)} {pRank : List α}
    (h : List.Forall₂ (fun id m => memberOf pRank id = .ok m) nodes members) :
    (∀ id ∈ nodes, ∃ rank, readAt pRank (columnInt id) = .ok rank) ∧
      ∀ m ∈ members, ∃ id ∈ nodes, m.1 = Text.ofInt (columnInt id) := by
  induction h with
  | nil => exact ⟨fun _ h => absurd h List.not_mem_nil, fun _ h => absurd h List.not_mem_nil⟩
  | @cons id m nodes members hm _ ih =>
    rw [memberOf, Except.bind_eq_ok] at hm
    obtain ⟨rank, hrank, heq⟩ := hm
    cases heq
    refine ⟨List.forall_mem_cons.mpr ⟨⟨rank, hrank⟩, ih.1⟩,
      List.forall_mem_cons.mpr ⟨⟨id, List.mem_cons_self, rfl⟩, fun m hm => ?_⟩⟩
    obtain ⟨j, hj, heq⟩ := ih.2 m hm
    exact ⟨j, List.mem_cons_of_mem id hj, heq⟩

theorem parse_printed (hfmt : ∀ x, Json.PrintsNumber (percentF x)) (members : List (Text × α))
    (hkeys : ∀ m ∈ members, ∃ i, m.1 = Text.ofInt i) :
    Json.parse ('\x7b' :: (Text.join ',' (members.map (memberText percentF)) ++ ['\x7d'])) =
      some (.object (members.map fun m => (m.1, .scalar (.number (percentF m.2))))) := by
  refine Json.parse_numbers hfmt members fun m hm => ?_
  obtain ⟨i, hi⟩ := hkeys m hm
  rw [hi]
  exact plain_ofInt i

variable [Zero α] [One α] [Add α] [Sub α] [Mul α] [Div α] [NatCast α] [LT α] [DecidableLT α]
  [LE α] [DecidableLE α]

def KeyedByIds (percentF : α → Text) (tables : Tables) (damping : Option α) (maxIter : Option Int)
    (epsilon : Option α) : Prop :=
  ∃ answer, graphPageRankFunc percentF tables damping maxIter epsilon = .ok answer ∧
    ∀ zResult, answer = .text zResult → ∃ members, Json.parse zResult = some (.object members) ∧
      ∀ id ∈ tables.nodes, ∃ pRank rank,
        ranksFunc tables (damping.getD defaultDamping) (maxIter.getD defaultMaxIter).toNat
          (epsilon.getD defaultEpsilon) = .ok pRank ∧
        readAt pRank id = .ok rank ∧
        members.filter (fun m => m.1 = Text.ofInt id) =
          [(Text.ofInt id, .scalar (.number (percentF rank)))]

theorem graphPageRankFunc_refused {zMessage : Text}
    (h : refused (damping.getD defaultDamping) (maxIter.getD defaultMaxIter)
      (epsilon.getD defaultEpsilon) = some zMessage) :
    graphPageRankFunc percentF tables damping maxIter epsilon = .ok (.error zMessage) := by
  simp only [graphPageRankFunc, h]

theorem graphPageRankFunc_accepted (percentF : α → Text) (hnodes : tables.nodes ≠ [])
    (h : refused (damping.getD defaultDamping) (maxIter.getD defaultMaxIter)
      (epsilon.getD defaultEpsilon) = none) :
    graphPageRankFunc percentF tables damping maxIter epsilon =
      ranksFunc tables (damping.getD defaultDamping) (maxIter.getD defaultMaxIter).toNat
        (epsilon.getD defaultEpsilon) >>= fun pRank =>
      printRanks percentF tables pRank >>= fun zResult => .ok (.text zResult) := by
  have hlength : tables.nodes.length ≠ 0 := fun h => hnodes (List.length_eq_zero_iff.mp h)
  simp only [graphPageRankFunc, h, hlength, if_false]

theorem inArray_of_keyed (hfmt : ∀ x, Json.PrintsNumber (percentF x))
    (haccepted : refused (damping.getD defaultDamping) (maxIter.getD defaultMaxIter)
      (epsilon.getD defaultEpsilon) = none)
    (h : KeyedByIds percentF tables damping maxIter epsilon) :
    ∀ id ∈ tables.nodes, InArray tables.nodes.length id := by
  intro id hid
  obtain ⟨answer, hanswer, hkeyed⟩ := h
  rw [graphPageRankFunc_accepted percentF (List.ne_nil_of_mem hid) haccepted] at hanswer
  simp only [Except.bind_eq_ok] at hanswer
  obtain ⟨pRank, hrank, zResult, hprint, heq⟩ := hanswer
  obtain ⟨members, hmembers, rfl⟩ := printRanks_eq_ok.mp hprint
  obtain ⟨hread, hkeys⟩ := forall₂_memberOf hmembers
  obtain ⟨values, hparse, hvalues⟩ := hkeyed _ (Except.ok.inj heq).symm
  have hall : ∀ m ∈ members, ∃ i, m.1 = Text.ofInt i := by
    intro m hm
    obtain ⟨j, _, hmj⟩ := hkeys m hm
    exact ⟨_, hmj⟩
  rw [parse_printed hfmt members hall] at hparse
  cases hparse
  obtain ⟨_, rank, _, _, hfilter⟩ := hvalues id hid
  have hmem := List.mem_of_mem_filter (hfilter ▸ List.mem_cons_self)
  obtain ⟨m, hm, hkey⟩ := List.mem_map.mp hmem
  obtain ⟨j, hj, hmj⟩ := hkeys m hm
  have hid : columnInt j = id :=
    Text.ofInt_injective (hmj.symm.trans (congrArg Prod.fst hkey))
  obtain ⟨rank', hrank'⟩ := hread j hj
  exact hid ▸ inArray_of_readAt (length_of_ranksFunc hrank) hrank'

theorem filter_members {nodes : List Int} (hnodup : nodes.Nodup) (value : Int → Json.Value)
    {id : Int} (hid : id ∈ nodes) :
    (nodes.map fun id => (Text.ofInt id, value id)).filter (fun m => m.1 = Text.ofInt id) =
      [(Text.ofInt id, value id)] := by
  have hkey : ((fun m : Text × Json.Value => decide (m.1 = Text.ofInt id)) ∘
      fun id => (Text.ofInt id, value id)) = fun j => decide (j = id) := by
    funext j
    exact decide_eq_decide.mpr ⟨Text.ofInt_injective, congrArg Text.ofInt⟩
  rw [List.filter_map, hkey, List.filter_eq, List.count_eq_one_of_mem hnodup hid]
  rfl

theorem keyed_of_inArray (hcount : tables.nodes.length < 2147483648)
    (hnodup : tables.nodes.Nodup)
    (hstored : ∀ e ∈ tables.edges, e.source ∈ tables.nodes ∧ e.target ∈ tables.nodes)
    (hfmt : ∀ x, Json.PrintsNumber (percentF x))
    (haccepted : refused (damping.getD defaultDamping) (maxIter.getD defaultMaxIter)
      (epsilon.getD defaultEpsilon) = none)
    (hids : ∀ id ∈ tables.nodes, InArray tables.nodes.length id) :
    KeyedByIds percentF tables damping maxIter epsilon := by
  by_cases hnodes : tables.nodes = []
  · refine ⟨.text "\x7b\x7d".toList, ?_, fun zResult heq => ⟨[], ?_, fun id hid => ?_⟩⟩
    · simp only [graphPageRankFunc, haccepted, hnodes, List.length_nil, if_true]
    · cases heq
      exact Json.parse_numbers hfmt [] fun m hm => absurd hm List.not_mem_nil
    · rw [hnodes] at hid
      exact absurd hid List.not_mem_nil
  have hdense : Dense tables := ⟨hcount, fun e he => hids _ (hstored e he).1,
    fun e he => hids _ (hstored e he).2⟩
  obtain ⟨pRank, hrank⟩ := hdense.ranksFunc_ok (damping.getD defaultDamping)
    (maxIter.getD defaultMaxIter).toNat (epsilon.getD defaultEpsilon)
  have hlength := length_of_ranksFunc hrank
  have hread : ∀ id ∈ tables.nodes, readAt pRank id = .ok (pRank.getD id.toNat 0) :=
    fun id hid => readAt_eq 0 hlength (hids id hid)
  have hmembers : List.Forall₂ (fun id m => memberOf pRank id = .ok m) tables.nodes
      (tables.nodes.map fun id => (Text.ofInt id, pRank.getD id.toNat 0)) := by
    refine List.forall₂_map_right_iff.mpr (List.forall₂_same.mpr fun id hid => ?_)
    rw [memberOf, columnInt_eq hcount (hids id hid), hread id hid]
    rfl
  have hparse := parse_printed hfmt
    (tables.nodes.map fun id => (Text.ofInt id, pRank.getD id.toNat 0)) fun m hm => by
      obtain ⟨id, _, rfl⟩ := List.mem_map.mp hm
      exact ⟨id, rfl⟩
  have hprinted : printRanks percentF tables pRank = _ := printRanks_eq_ok.mpr ⟨_, hmembers, rfl⟩
  have hanswer := graphPageRankFunc_accepted percentF hnodes haccepted
  rw [hrank, Except.ok_bind, hprinted, Except.ok_bind] at hanswer
  refine ⟨_, hanswer, fun zResult heq => ⟨_, ?_, fun id hid => ⟨pRank, _, hrank, hread id hid,
    filter_members hnodup (fun id => .scalar (.number (percentF (pRank.getD id.toNat 0)))) hid⟩⟩⟩
  cases heq
  exact hparse.trans (by rw [List.map_map]; rfl)

theorem keyedByIds_iff (hcount : tables.nodes.length < 2147483648) (hnodup : tables.nodes.Nodup)
    (hstored : ∀ e ∈ tables.edges, e.source ∈ tables.nodes ∧ e.target ∈ tables.nodes)
    (hfmt : ∀ x, Json.PrintsNumber (percentF x)) :
    KeyedByIds percentF tables damping maxIter epsilon ↔
      (∃ zMessage, refused (damping.getD defaultDamping) (maxIter.getD defaultMaxIter)
        (epsilon.getD defaultEpsilon) = some zMessage) ∨
      ∀ id ∈ tables.nodes, 0 ≤ id ∧ id ≤ tables.nodes.length := by
  cases hrefused : refused (damping.getD defaultDamping) (maxIter.getD defaultMaxIter)
      (epsilon.getD defaultEpsilon) with
  | some zMessage =>
    refine iff_of_true ⟨_, graphPageRankFunc_refused hrefused, fun zResult heq => ?_⟩
      (.inl ⟨zMessage, rfl⟩)
    cases heq
  | none =>
    constructor
    · exact fun h => .inr (inArray_of_keyed hfmt hrefused h)
    · rintro (⟨_, heq⟩ | hids)
      · cases heq
      · exact keyed_of_inArray hcount hnodup hstored hfmt hrefused hids

end Keys

section Exact

/-- What `%f` prints: six digits behind the point, the last one rounded. -/
def fixedPoint (x : ℚ) : Text :=
  let n := ((if x < 0 then -x else x) * 1000000 + 1 / 2).floor.toNat
  (if decide (x < 0) then ['-'] else []) ++
    (Nat.toDigits 10 (n / 1000000) ++ '.' :: (Nat.toDigits 10 (1000000 + n % 1000000)).tail)

theorem printsNumber_fixedPoint (x : ℚ) : Json.PrintsNumber (fixedPoint x) := by
  refine Json.printsNumber_fraction _ _ ?_ fun c hc => ?_
  · rw [Nat.toDigits_of_base_le (by decide) (Nat.le_add_right_of_le (by decide)),
      List.tail_append_of_ne_nil Nat.toDigits_ne_nil]
    exact List.append_ne_nil_of_right_ne_nil _ (List.cons_ne_nil _ _)
  · exact Text.isDigit_of_mem_toDigits (List.mem_of_mem_tail hc)

def sampleCycle : Tables := ⟨[1, 2], [⟨1, 2⟩, ⟨2, 1⟩]⟩

example : (graphPageRankFunc fixedPoint sampleCycle none (some 2) none).toOption =
    some (.text "\x7b\"1\":0.500000,\"2\":0.500000\x7d".toList) := by
  decide +kernel

theorem keyed_sampleCycle : KeyedByIds fixedPoint sampleCycle none none none :=
  (keyedByIds_iff (by decide) (by decide) (by decide) printsNumber_fixedPoint).mpr
    (.inr (by decide))

theorem not_keyed_gap : ¬ KeyedByIds fixedPoint ⟨[1, 3], [⟨3, 1⟩]⟩ none none none := by
  intro h
  have hids := inArray_of_keyed printsNumber_fixedPoint (by decide +kernel) h 3 (by decide)
  exact absurd hids.2 (by decide)

end Exact

end SqliteMultimodal.Graph.PageRank
