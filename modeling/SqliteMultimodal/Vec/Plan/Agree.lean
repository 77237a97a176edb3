import SqliteMultimodal.Vec.Plan.Defs

namespace SqliteMultimodal.Vec.Plan

open Storage (MetadataKind)

inductive MetadataOperator
  | compare (op : CompareOp)
  | isIn
  deriving DecidableEq

inductive Meaning
  | knnMatch (vectorIdx : Nat)
  | knnK
  | rowidIn
  | pointId
  | partition (idx : Int) (op : CompareOp)
  | metadata (idx : Int) (operator : MetadataOperator)
  deriving DecidableEq

def Meaning.kind : Meaning → Char
  | .knnMatch _ => kindKnnMatch
  | .knnK => kindKnnK
  | .rowidIn => kindKnnRowidIn
  | .pointId => kindPointId
  | .partition _ _ => kindKnnPartitonConstraint
  | .metadata _ _ => kindMetadataConstraint

def ConstraintOp.compare : ConstraintOp → Option CompareOp
  | .eq => some .eq
  | .gt => some .gt
  | .le => some .le
  | .lt => some .lt
  | .ge => some .ge
  | .ne => some .ne
  | _ => none

def UserColumn.meaning (x : UserColumn) (op : ConstraintOp) (vtabIn : Bool) : Option Meaning :=
  match x.kind with
  | .vector => if op = .matches then some (.knnMatch x.idx) else none
  | .partition => op.compare.map fun op => .partition x.idx op
  | .auxiliary => none
  | .metadata =>
    if op = .eq ∧ vtabIn then some (.metadata x.idx .isIn)
    else op.compare.map fun op => .metadata x.idx (.compare op)

def IndexConstraint.meaning (p : TableDef) (c : IndexConstraint) : Option Meaning :=
  if c.op = .limit then some .knnK
  else if c.iColumn = vec0ColumnId then
    if c.op = .eq then some (if c.vtabIn then .rowidIn else .pointId) else none
  else if c.iColumn = vec0ColumnKIdx p then
    if c.op = .eq then some .knnK else none
  else (p.userColumn c.iColumn).bind fun x => x.meaning c.op c.vtabIn

def metadataOp : Char → Option MetadataOperator
  | 'g' => some .isIn
  | c => (partitionOp c).map .compare

/-- The block in the place `i` as the searches and their loops read it. -/
def decodeBlock (idxNum : Nat) (idxStr : Text) (i : Nat) : Option Meaning :=
  if blockKind idxStr i = kindKnnMatch then some (.knnMatch idxNum)
  else if blockKind idxStr i = kindKnnK then some .knnK
  else if blockKind idxStr i = kindKnnRowidIn then some .rowidIn
  else if blockKind idxStr i = kindPointId then some .pointId
  else if blockKind idxStr i = kindKnnPartitonConstraint then
    (partitionOp (blockOperator idxStr i)).map fun op => .partition (blockColumn idxStr i) op
  else if blockKind idxStr i = kindMetadataConstraint then
    (metadataOp (blockOperator idxStr i)).map fun op => .metadata (blockColumn idxStr i) op
  else none

/-- The term of the WHERE clause over the chunks for the argument `i`. -/
def Meaning.chunkTerm (i : Nat) : Meaning → Option (Int × CompareOp × Nat)
  | .partition idx op => some (idx, op, i)
  | _ => none

/-- The constraint on metadata for the argument `i`. -/
def Meaning.metadataFilter (i : Nat) : Meaning → Option (Int × MetadataOperator × Nat)
  | .metadata idx operator => some (idx, operator, i)
  | _ => none

def assigned (usage : List ConstraintUsage) : List Nat :=
  (usage.map ConstraintUsage.argvIndex).filter fun n => 0 < n

/-- The constraint in the place `j` may be used and says `m`. -/
def Says (p : TableDef) (cs : List IndexConstraint) (j : Nat) (m : Meaning) : Prop :=
  ∃ c : IndexConstraint, cs[j]? = some c ∧ c.usable = true ∧ c.meaning p = some m

/-- The plan gives the numbers from `1` on to constraints, each once, and its text has a block for
each of them that is read as what the constraint says. -/
structure Agree (p : TableDef) (cs : List IndexConstraint) (plan : IndexInfo) (argc : Nat) :
    Prop where
  length_usage : plan.usage.length = cs.length
  argvIndex : (assigned plan.usage).Perm (List.range' 1 argc)
  length_idxStr : plan.idxStr.length = 1 + 4 * argc
  block : ∀ i < argc, ∃ (j : Nat) (m : Meaning),
    (plan.usage[j]?).map ConstraintUsage.argvIndex = some (i + 1) ∧ Says p cs j m ∧
    decodeBlock plan.idxNum plan.idxStr i = some m

section Text

theorem charAt_append_left {t u : Text} {i : Nat} (h : i < t.length) :
    charAt (t ++ u) i = charAt t i := by
  simp [charAt, List.getElem?_append_left h]

theorem charAt_append_right (t u : Text) (i : Nat) :
    charAt (t ++ u) (t.length + i) = charAt u i := by
  simp [charAt, List.getElem?_append_right]

theorem decodeBlock_append {idxNum i : Nat} {t u : Text} (h : 1 + 4 * (i + 1) ≤ t.length) :
    decodeBlock idxNum (t ++ u) i = decodeBlock idxNum t i := by
  have hkind : blockKind (t ++ u) i = blockKind t i := charAt_append_left (by omega)
  have hoperator : blockOperator (t ++ u) i = blockOperator t i := charAt_append_left (by omega)
  have hcolumn : blockColumn (t ++ u) i = blockColumn t i := by
    rw [blockColumn, blockColumn, charAt_append_left (by omega)]
  rw [decodeBlock, hkind, hoperator, hcolumn]
  rfl

variable {idxNum n : Nat} {t : Text}

theorem block_append (h : t.length = 1 + 4 * n) (a b d e : Char) :
    blockKind (t ++ [a, b, d, e]) n = a ∧ blockColumn (t ++ [a, b, d, e]) n = b.toNat - 65 ∧
      blockOperator (t ++ [a, b, d, e]) n = d := by
  have hat : ∀ i, charAt (t ++ [a, b, d, e]) (1 + n * 4 + i) = charAt [a, b, d, e] i := by
    intro i
    rw [← charAt_append_right t [a, b, d, e] i, h, Nat.mul_comm]
  exact ⟨hat 0, congrArg (fun c : Char => (c.toNat : Int) - 65) (hat 1), hat 2⟩

theorem decodeBlock_knnMatch (h : t.length = 1 + 4 * n) :
    decodeBlock idxNum (t ++ [kindKnnMatch, '_', '_', '_']) n = some (.knnMatch idxNum) := by
  rw [decodeBlock, (block_append h _ _ _ _).1]
  rfl

theorem decodeBlock_knnK (h : t.length = 1 + 4 * n) :
    decodeBlock idxNum (t ++ [kindKnnK, '_', '_', '_']) n = some .knnK := by
  rw [decodeBlock, (block_append h _ _ _ _).1]
  rfl

theorem decodeBlock_rowidIn (h : t.length = 1 + 4 * n) :
    decodeBlock idxNum (t ++ [kindKnnRowidIn, '_', '_', '_']) n = some .rowidIn := by
  rw [decodeBlock, (block_append h _ _ _ _).1]
  rfl

theorem decodeBlock_pointId (h : t.length = 1 + 4 * n) :
    decodeBlock idxNum (t ++ [kindPointId, '_', '_', '_']) n = some .pointId := by
  rw [decodeBlock, (block_append h _ _ _ _).1]
  rfl

theorem toNat_letter :
    ∀ idx < 16, ((Char.ofNat ('A'.toNat + idx)).toNat : Int) - 65 = idx := by
  decide

theorem decodeBlock_partition (h : t.length = 1 + 4 * n) {idx : Nat} (hidx : idx < 16)
    {value : Char} {op : CompareOp} (hvalue : partitionOp value = some op) :
    decodeBlock idxNum
      (t ++ [kindKnnPartitonConstraint, Char.ofNat ('A'.toNat + idx), value, '_']) n =
      some (.partition idx op) := by
  obtain ⟨hkind, hcolumn, hoperator⟩ := block_append h kindKnnPartitonConstraint
    (Char.ofNat ('A'.toNat + idx)) value '_'
  rw [decodeBlock, hkind, hcolumn, hoperator, hvalue, toNat_letter _ hidx]
  rfl

theorem decodeBlock_metadata (h : t.length = 1 + 4 * n) {idx : Nat} (hidx : idx < 16)
    {value : Char} {operator : MetadataOperator} (hvalue : metadataOp value = some operator) :
    decodeBlock idxNum (t ++ [kindMetadataConstraint, Char.ofNat ('A'.toNat + idx), value, '_']) n =
      some (.metadata idx operator) := by
  obtain ⟨hkind, hcolumn, hoperator⟩ := block_append h kindMetadataConstraint
    (Char.ofNat ('A'.toNat + idx)) value '_'
  rw [decodeBlock, hkind, hcolumn, hoperator, hvalue, toNat_letter _ hidx]
  rfl

end Text

section Building

variable {p : TableDef} {cs : List IndexConstraint} {idxNum r i : Nat} {head : Char}
  {ms : List Meaning} {s : Building}

def Meaning.rank : Meaning → Nat
  | .pointId => 0
  | .knnMatch _ => 0
  | .knnK => 1
  | .rowidIn => 2
  | .partition _ _ => 3
  | .metadata _ _ => 4

/-- The plan so far: the constraints that say `ms` have their numbers and blocks, and none of them
comes after those of rank `r` in front of the place `i`. -/
structure Built (p : TableDef) (cs : List IndexConstraint) (idxNum : Nat) (head : Char)
    (r i : Nat) (ms : List Meaning) (s : Building) : Prop where
  length_usage : s.usage.length = cs.length
  next : s.argvIndex = ms.length + 1
  length_idxStr : s.idxStr.length = 1 + 4 * ms.length
  head : charAt s.idxStr 0 = head
  argvIndex : (assigned s.usage).Perm (List.range' 1 ms.length)
  bound : ∀ j u, s.usage[j]? = some u → u.argvIndex ≠ 0 →
    ∃ m : Meaning, Says p cs j m ∧ (m.rank < r ∨ m.rank = r ∧ j < i)
  block : ∀ k m, ms[k]? = some m → decodeBlock idxNum s.idxStr k = some m ∧ ∃ j : Nat,
    (s.usage[j]?).map ConstraintUsage.argvIndex = some (k + 1) ∧ Says p cs j m

def Building.appendBlock (s : Building) (block : Text) : Building :=
  { s with idxStr := s.idxStr ++ block }

theorem Built.mono {r' i' : Nat} (h : Built p cs idxNum head r i ms s)
    (hle : r < r' ∨ r = r' ∧ i ≤ i') : Built p cs idxNum head r' i' ms s where
  length_usage := h.length_usage
  next := h.next
  length_idxStr := h.length_idxStr
  head := h.head
  argvIndex := h.argvIndex
  bound j u hu hne := by
    obtain ⟨m, hm, hlt⟩ := h.bound j u hu hne
    exact ⟨m, hm, by omega⟩
  block := h.block

theorem assigned_cons (u : ConstraintUsage) (usage : List ConstraintUsage) :
    assigned (u :: usage) =
      if 0 < u.argvIndex then u.argvIndex :: assigned usage else assigned usage := by
  simp [assigned, List.filter_cons]

theorem assigned_set {usage : List ConstraintUsage} {j v : Nat} {u : ConstraintUsage} {o : Bool}
    (hj : usage[j]? = some u) (hu : u.argvIndex = 0) (hv : 0 < v) :
    (assigned (usage.set j ⟨v, o⟩)).Perm (v :: assigned usage) := by
  induction usage generalizing j with
  | nil => cases hj
  | cons x usage ih =>
    cases j with
    | zero =>
      obtain rfl : x = u := by simpa using hj
      rw [List.set_cons_zero, assigned_cons, assigned_cons, if_pos hv, hu, if_neg (lt_irrefl 0)]
    | succ j =>
      have hperm := ih (j := j) (by simpa using hj)
      rw [List.set_cons_succ, assigned_cons, assigned_cons]
      split
      next => exact (hperm.cons _).trans (List.Perm.swap _ _ _)
      next => exact hperm

theorem Says.unique {j : Nat} {m m' : Meaning} (h : Says p cs j m) (h' : Says p cs j m') :
    m = m' := by
  obtain ⟨c, hc, -, hm⟩ := h
  obtain ⟨c', hc', -, hm'⟩ := h'
  obtain rfl := Option.some.inj (hc.symm.trans hc')
  exact Option.some.inj (hm.symm.trans hm')

theorem Built.use {j : Nat} {m : Meaning} {block : Text} (h : Built p cs idxNum head r i ms s)
    (hj : Says p cs j m) (hlt : r < m.rank ∨ r = m.rank ∧ i ≤ j) (hlen : block.length = 4)
    (hblock : ∀ (n : Nat) (t : Text), t.length = 1 + 4 * n →
      decodeBlock idxNum (t ++ block) n = some m) :
    Built p cs idxNum head m.rank (j + 1) (ms ++ [m]) ((s.assign j).appendBlock block) := by
  have hlt' : j < s.usage.length := by
    obtain ⟨c, hc, -⟩ := hj
    obtain ⟨hlt, -⟩ := List.getElem?_eq_some_iff.mp hc
    rwa [h.length_usage]
  have hget := List.getElem?_eq_getElem hlt'
  have hzero : (s.usage[j]).argvIndex = 0 := by
    by_contra hne
    obtain ⟨m', hm', hbound⟩ := h.bound j _ hget hne
    obtain rfl := hj.unique hm'
    omega
  constructor
  case length_usage => exact (List.length_set ..).trans h.length_usage
  case next => simp [Building.appendBlock, Building.assign, h.next]
  case length_idxStr =>
    simp only [Building.appendBlock, Building.assign, List.length_append, h.length_idxStr, hlen,
      List.length_singleton]
    omega
  case head =>
    rw [← h.head]
    have hpos : 0 < s.idxStr.length := by rw [h.length_idxStr]; omega
    exact charAt_append_left hpos
  case argvIndex =>
    refine (assigned_set hget hzero (by rw [h.next]; omega)).trans ?_
    rw [List.length_append, List.length_singleton, h.next, List.range'_concat, Nat.one_mul,
      Nat.add_comm 1]
    exact (h.argvIndex.cons _).trans (List.perm_append_singleton _ _).symm
  case bound =>
    intro k u hu hne
    simp only [Building.appendBlock, Building.assign, List.getElem?_set] at hu
    split at hu
    next hk =>
      subst hk
      exact ⟨m, hj, .inr ⟨rfl, Nat.lt_succ_self _⟩⟩
    next hk =>
      obtain ⟨m', hm', hbound⟩ := h.bound k u hu hne
      exact ⟨m', hm', by omega⟩
  case block =>
    intro k m' hk
    obtain hlt | hle := Nat.lt_or_ge k ms.length
    · rw [List.getElem?_append_left hlt] at hk
      obtain ⟨hdecode, j', hj', hm'⟩ := h.block k m' hk
      refine ⟨?_, j', ?_, hm'⟩
      · rw [← hdecode]
        have hlong : 1 + 4 * (k + 1) ≤ s.idxStr.length := by rw [h.length_idxStr]; omega
        exact decodeBlock_append hlong
      · have hne : j ≠ j' := by
          rintro rfl
          rw [hget, Option.map_some, hzero] at hj'
          cases hj'
        simp only [Building.appendBlock, Building.assign, List.getElem?_set_ne hne]
        exact hj'
    · obtain ⟨rfl, rfl⟩ : k = ms.length ∧ m' = m := by
        rw [List.getElem?_append_right hle, List.getElem?_singleton] at hk
        split at hk
        next hk' => exact ⟨by omega, (Option.some.inj hk).symm⟩
        next => cases hk
      refine ⟨hblock _ _ h.length_idxStr, j, ?_, hj⟩
      simp only [Building.appendBlock, Building.assign]
      rw [List.getElem?_set_self hlt', Option.map_some, h.next]

end Building

end SqliteMultimodal.Vec.Plan
