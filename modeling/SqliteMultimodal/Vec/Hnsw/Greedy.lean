import SqliteMultimodal.Vec.Hnsw.Defs
import SqliteMultimodal.Vec.Hnsw.Refine

namespace SqliteMultimodal.Vec.Hnsw.Memory

variable {α : Type}

/-- The neighbours at level `l` are nodes whose own neighbours at this level are known. -/
def LevelOk (known : Nat → HNSWNode α → Prop) (ns : List (HNSWNode α)) (l : Nat) : Prop :=
  ∀ (i : Nat) n, ns[i]? = some n → (n.nborsAt l).length ≤ maxNeighbors ∧
    ∀ j ∈ n.nborsAt l, ∃ m, ns[j]? = some m ∧ known l m

structure CurRep (ms : List (Node α)) (ns : List (HNSWNode α)) (x : Int × Node α) (y : At α) :
    Prop where
  place : x.1 = y.1
  left : ms[y.1]? = some x.2
  right : ns[y.1]? = some y.2

theorem CurRep.nodeRep {known : Nat → HNSWNode α → Prop} {ms : List (Node α)}
    {ns : List (HNSWNode α)} {x : Int × Node α} {y : At α} (h : CurRep ms ns x y)
    (hrep : NodesRep known ms ns) : NodeRep known y.1 x.2 y.2 :=
  hrep.node y.1 x.2 y.2 h.left h.right

theorem count_eq (m : Node α) {l : Nat} (hl : l < maxLevels) : m.count l = .ok (m.nborCount l) :=
  if_pos hl

theorem nbor_eq (m : Node α) {l i : Nat} (hl : l < maxLevels) (hi : i < maxNeighbors) :
    m.nbor l i = .ok (m.nbors l i) :=
  if_pos ⟨hl, hi⟩

section Code

variable [LinearOrder α] (distfunc : List α → List α → α) {known : Nat → HNSWNode α → Prop}
  {ms : List (Node α)} {h : HNSW α} (query : List α) {l : Nat}

theorem scanNbors_spec (hrep : NodesRep known ms h.nodes) (hok : LevelOk known h.nodes l)
    (hl : l < maxLevels) {fuel i : Nat} (hi : i ≤ maxNeighbors) (hfuel : maxNeighbors < fuel + i)
    {x : Int × Node α} {y : At α} (hcur : CurRep ms h.nodes x y) (hknown : known l y.2)
    (changed : Bool) :
    ∃ x', scanNbors distfunc ms query l fuel i x changed =
        .ok (x', (Hnsw.scanNbors distfunc h query l (maxNeighbors - i) i y changed).2) ∧
      CurRep ms h.nodes x' (Hnsw.scanNbors distfunc h query l (maxNeighbors - i) i y changed).1 ∧
      known l (Hnsw.scanNbors distfunc h query l (maxNeighbors - i) i y changed).1.2 := by
  induction fuel generalizing i x y changed with
  | zero => omega
  | succ fuel ih =>
    have hxy := hcur.nodeRep hrep
    have hlinks := hxy.links l hknown
    obtain ⟨hlen, hnbors⟩ := hok y.1 y.2 hcur.right
    rw [scanNbors, count_eq x.2 hl, Except.ok_bind, hlinks.count]
    rcases Nat.lt_or_ge i (y.2.nborsAt l).length with hlt | hge
    · obtain ⟨k, hk⟩ : ∃ k, maxNeighbors - i = k + 1 := ⟨maxNeighbors - (i + 1), by omega⟩
      have hk' : maxNeighbors - (i + 1) = k := by omega
      have hget := List.getElem?_eq_getElem hlt
      obtain ⟨m, hm, hmk⟩ := hnbors _ (List.getElem_mem hlt)
      obtain ⟨c, hc, hcm⟩ := hrep.exists_left hm
      rw [if_pos (Int.ofNat_lt.mpr hlt), nbor_eq x.2 hl (by omega), Except.ok_bind,
        hlinks.nbor i _ hget, load_of_getElem? hc, Except.ok_bind, hcm.deleted, hcm.vec, hxy.vec,
        hk, Hnsw.scanNbors]
      simp only [hget, hm]
      rw [← hk']
      split
      · exact ih (by omega) (by omega) ⟨rfl, hc, hm⟩ hmk true
      · exact ih (by omega) (by omega) hcur hknown changed
    · have hstay : Hnsw.scanNbors distfunc h query l (maxNeighbors - i) i y changed =
          (y, changed) := by
        cases maxNeighbors - i with
        | zero => rfl
        | succ k => simp only [Hnsw.scanNbors, List.getElem?_eq_none hge]
      rw [if_neg (by omega), hstay]
      exact ⟨x, rfl, hcur, hknown⟩

theorem descendLevel_spec (hrep : NodesRep known ms h.nodes) (hok : LevelOk known h.nodes l)
    (hl : l < maxLevels) {fuel : Nat} (hfuel : maxNeighbors < fuel) {turns turns' : Nat}
    {x : Int × Node α} {y : At α} (hcur : CurRep ms h.nodes x y) (hknown : known l y.2)
    (hturns : closer distfunc query h.nodes y.2 < turns)
    (hturns' : closer distfunc query h.nodes y.2 < turns') :
    ∃ x', descendLevel distfunc ms query fuel l turns x = .ok x' ∧
      CurRep ms h.nodes x' (Hnsw.descendLevel distfunc h query l turns' y) ∧
      known l (Hnsw.descendLevel distfunc h query l turns' y).2 := by
  induction turns generalizing turns' x y with
  | zero => omega
  | succ turns ih =>
    obtain ⟨turns', rfl⟩ : ∃ k, turns' = k + 1 := ⟨turns' - 1, by omega⟩
    obtain ⟨x', hscan, hcur', hknown'⟩ :=
      scanNbors_spec distfunc query hrep hok hl (Nat.zero_le _) hfuel hcur hknown false
    rw [Nat.sub_zero] at hscan hcur' hknown'
    rw [descendLevel, hscan, Except.ok_bind, Hnsw.descendLevel]
    dsimp only
    split
    next hchanged =>
      obtain hfalse | hlt := (scanNbors_dist distfunc h query l maxNeighbors 0 y false).2 hchanged
      · simp at hfalse
      · have hmem := List.mem_of_getElem? hcur'.right
        have hcloser := closer_lt distfunc query hmem hlt
        exact ih hcur' hknown' (by omega) (by omega)
    next => exact ⟨x', rfl, hcur', hknown'⟩

theorem improveLevel_eq (nodes : List (Node α)) {fuel : Nat} (hfuel : 0 < fuel) (turns : Nat)
    (x : Int × Node α) :
    improveLevel distfunc nodes query fuel l turns x =
      descendLevel distfunc nodes query fuel l turns x := by
  obtain ⟨fuel, rfl⟩ : ∃ k, fuel = k + 1 := ⟨fuel - 1, by omega⟩
  induction turns generalizing x with
  | zero => rfl
  | succ turns ih =>
    rw [improveLevel, descendLevel]
    cases hcount : x.2.count l with
    | error e =>
      rw [scanNbors, hcount]
      rfl
    | ok count =>
      rw [Except.ok_bind]
      split
      · simp only [ih]
      next hzero =>
        have hstay : scanNbors distfunc nodes query l (fuel + 1) 0 x false = .ok (x, false) := by
          rw [scanNbors, hcount, Except.ok_bind, if_neg]
          · rfl
          · exact hzero
        rw [hstay]
        rfl

theorem levelsAbove_succ {level maxLevel : Nat} (h : level ≤ maxLevel) :
    levelsAbove level (maxLevel + 1) = (maxLevel + 1) :: levelsAbove level maxLevel := by
  rw [levelsAbove, Nat.succ_sub h, List.range'_concat, List.reverse_append, levelsAbove]
  simp only [List.reverse_singleton, List.singleton_append, List.cons.injEq, and_true]
  omega

def DownClosed (known : Nat → HNSWNode α → Prop) : Prop :=
  ∀ l l' n, l' ≤ l → known l n → known l' n

theorem descend_spec (hrep : NodesRep known ms h.nodes) (hdown : DownClosed known)
    {maxLevel : Nat} (hmax : maxLevel < maxLevels) (hok : ∀ l ≤ maxLevel, LevelOk known h.nodes l)
    {fuel : Nat} (hfuel : maxNeighbors < fuel) (hfuel' : h.nodes.length < fuel)
    {x : Int × Node α} {y : At α} (hcur : CurRep ms h.nodes x y) (hknown : known maxLevel y.2) :
    ∃ x', descend distfunc ms query fuel maxLevel x = .ok x' ∧
      CurRep ms h.nodes x' ((List.range maxLevel).reverse.foldl (fun cur l =>
        Hnsw.descendLevel distfunc h query (l + 1) (h.nodes.length + 1) cur) y) := by
  induction maxLevel generalizing x y with
  | zero => exact ⟨x, rfl, hcur⟩
  | succ k ih =>
    have hcloser := closer_le_length distfunc query h.nodes y.2
    obtain ⟨x₁, hx₁, hcur₁, hknown₁⟩ := descendLevel_spec distfunc query hrep (hok _ le_rfl) hmax hfuel
      hcur hknown (Nat.lt_of_le_of_lt hcloser hfuel') (Nat.lt_succ_of_le hcloser)
    obtain ⟨x₂, hx₂, hcur₂⟩ := ih (by omega) (fun l hl => hok l (by omega)) hcur₁
      (hdown _ _ _ (Nat.le_succ k) hknown₁)
    refine ⟨x₂, ?_, ?_⟩
    · rw [descend, levelsAbove_succ (Nat.zero_le k), List.foldlM_cons, hx₁]
      exact hx₂
    · rw [List.range_succ, List.reverse_append]
      exact hcur₂

omit [LinearOrder α] in
theorem downClosed_created : DownClosed (Created (α := α)) :=
  fun _ _ _ hle hl => Nat.lt_of_le_of_lt hle hl

theorem improve_spec (hrep : NodesRep Created ms h.nodes) {levels : List Nat}
    (hlevels : ∀ l ∈ levels, l < maxLevels ∧ LevelOk Created h.nodes l) {fuel : Nat}
    (hfuel : maxNeighbors < fuel) (hfuel' : h.nodes.length < fuel) {e : Nat}
    (he : e < h.nodes.length) :
    ∃ e', levels.foldlM (fun (curEntry : Int) l => do
      let ep ← load ms curEntry
      if ep.deleted then return curEntry
      else
        let (curEntry, _) ← improveLevel distfunc ms query fuel l fuel (curEntry, ep)
        return curEntry) (e : Int) = .ok e' := by
  induction levels generalizing e with
  | nil => exact ⟨e, rfl⟩
  | cons l levels ih =>
    obtain ⟨hl, hok⟩ := hlevels l List.mem_cons_self
    have hrest := fun l' hl' => hlevels l' (List.mem_cons_of_mem l hl')
    have hn := List.getElem?_eq_getElem he
    obtain ⟨m, hm, hmrep⟩ := hrep.exists_left hn
    rw [List.foldlM_cons, load_of_getElem? hm, Except.ok_bind]
    split
    · exact ih hrest he
    · have hcloser := closer_le_length distfunc query h.nodes h.nodes[e]
      obtain ⟨x, hx, hcur, -⟩ := descendLevel_spec distfunc query hrep hok hl hfuel
        (x := ((e : Int), m)) (y := (e, h.nodes[e])) ⟨rfl, hm, hn⟩ hl
        (Nat.lt_of_le_of_lt hcloser hfuel') (Nat.lt_succ_of_le hcloser)
      obtain ⟨e', he'⟩ := ih hrest (List.getElem?_eq_some_iff.mp hcur.right).1
      refine ⟨e', ?_⟩
      rw [improveLevel_eq distfunc query ms (by omega), hx, Except.ok_bind]
      rw [← hcur.place] at he'
      exact he'

end Code

end SqliteMultimodal.Vec.Hnsw.Memory
