import SqliteMultimodal.Vec.Plan.Agree

namespace SqliteMultimodal.Vec.Plan

variable {p : TableDef} {cs : List IndexConstraint} {c : IndexConstraint} {i : Nat}

section Columns

variable {iColumn : Int} {x : UserColumn}

theorem userColumn_eq_some (h : p.userColumn iColumn = some x) :
    1 ≤ iColumn ∧ iColumn ≤ p.userColumns.length ∧ x ∈ p.userColumns := by
  unfold TableDef.userColumn at h
  split at h
  next hrange => exact ⟨hrange.1, hrange.2, List.mem_of_getElem? h⟩
  next => cases h

theorem columnIdxIs_eq_true {kind : UserColumnKind} (h : columnIdxIs p iColumn kind = true) :
    ∃ x : UserColumn,
      p.userColumn iColumn = some x ∧ x.kind = kind ∧ columnIdx p iColumn = x.idx := by
  unfold columnIdxIs at h
  cases hx : p.userColumn iColumn with
  | none => simp [hx] at h
  | some x =>
    refine ⟨x, rfl, by simpa [hx] using h, ?_⟩
    rw [columnIdx, hx]
    rfl

theorem IndexConstraint.meaning_of_userColumn (hlimit : c.op ≠ .limit)
    (h : p.userColumn c.iColumn = some x) : c.meaning p = x.meaning c.op c.vtabIn := by
  obtain ⟨hpos, hle, -⟩ := userColumn_eq_some h
  have hid : c.iColumn ≠ vec0ColumnId := by unfold vec0ColumnId; omega
  have hk : c.iColumn ≠ vec0ColumnKIdx p := by unfold vec0ColumnKIdx; omega
  rw [IndexConstraint.meaning, if_neg hlimit, if_neg hid, if_neg hk, h]
  rfl

end Columns

section Terms

variable {t t' : Terms}

structure Terms.Sound (p : TableDef) (cs : List IndexConstraint) (t : Terms) : Prop where
  iMatchTerm : ∀ j, t.iMatchTerm = some j → Says p cs j (.knnMatch t.iMatchVectorTerm)
  iLimitTerm : ∀ j, t.iLimitTerm = some j → Says p cs j .knnK
  iRowidTerm : ∀ j, t.iRowidTerm = some j → Says p cs j .pointId
  iKTerm : ∀ j, t.iKTerm = some j → Says p cs j .knnK
  iRowidInTerm : ∀ j, t.iRowidInTerm = some j → Says p cs j .rowidIn

theorem Terms.Sound.init : Terms.init.Sound p cs := by
  constructor <;> intro j hj <;> cases hj

variable (hi : cs[i]? = some c) (husable : c.usable = true)

include hi husable

theorem Terms.Sound.limitTerm (h : t.Sound p cs) : (limitTerm t c i).Sound p cs := by
  unfold Plan.limitTerm
  split
  next hop =>
    refine { h with iLimitTerm := ?_ }
    intro j hj
    cases hj
    exact ⟨c, hi, husable, if_pos hop⟩
  next => exact h

theorem Terms.Sound.matchTerm (h : t.Sound p cs) (hok : matchTerm p t c i = .ok t') :
    t'.Sound p cs := by
  unfold Plan.matchTerm at hok
  split at hok
  next hop =>
    simp only [Except.bind_eq_ok, Except.require_eq_ok, Except.pure_eq_ok] at hok
    obtain ⟨-, -, rfl⟩ := hok
    obtain ⟨x, hx, hkind, hidx⟩ := columnIdxIs_eq_true hop.2
    refine { h with iMatchTerm := ?_ }
    intro j hj
    cases hj
    refine ⟨c, hi, husable, ?_⟩
    rw [IndexConstraint.meaning_of_userColumn (by simp [hop.1]) hx, hidx]
    simp [UserColumn.meaning, hkind, hop.1]
  next =>
    cases hok
    exact h

theorem Terms.Sound.rowidTerm (h : t.Sound p cs) (hok : rowidTerm t c i = .ok t') :
    t'.Sound p cs := by
  unfold Plan.rowidTerm at hok
  split at hok
  next hop =>
    have hmeaning : c.meaning p = some (if c.vtabIn then .rowidIn else .pointId) := by
      rw [IndexConstraint.meaning, if_neg (by simp [hop.1]), if_pos hop.2, if_pos hop.1]
    split at hok
    next hin =>
      simp only [Except.bind_eq_ok, Except.require_eq_ok, Except.pure_eq_ok] at hok
      obtain ⟨-, -, rfl⟩ := hok
      refine { h with iRowidInTerm := ?_ }
      intro j hj
      cases hj
      exact ⟨c, hi, husable, by rw [hmeaning, if_pos hin]⟩
    next hin =>
      cases hok
      refine { h with iRowidTerm := ?_ }
      intro j hj
      cases hj
      exact ⟨c, hi, husable, by rw [hmeaning, if_neg hin]⟩
  next =>
    cases hok
    exact h

theorem Terms.Sound.kTerm (h : t.Sound p cs) : (kTerm p t c i).Sound p cs := by
  unfold Plan.kTerm
  split
  next hop =>
    refine { h with iKTerm := ?_ }
    intro j hj
    cases hj
    refine ⟨c, hi, husable, ?_⟩
    have hid : c.iColumn ≠ vec0ColumnId := by
      rw [hop.2]
      unfold vec0ColumnKIdx vec0ColumnId
      omega
    rw [IndexConstraint.meaning, if_neg (by simp [hop.1]), if_neg hid, if_pos hop.2, if_pos hop.1]
  next => exact h

omit hi husable in
theorem Terms.Sound.auxConstraint (h : t.Sound p cs) : (auxConstraint p t c).Sound p cs := by
  unfold Plan.auxConstraint
  split
  next => exact { h with }
  next => exact h

omit husable in
theorem Terms.Sound.scanConstraint (h : t.Sound p cs) (hok : scanConstraint p t (c, i) = .ok t') :
    t'.Sound p cs := by
  simp only [Plan.scanConstraint] at hok
  split at hok
  next =>
    cases hok
    exact h
  next husable =>
    have husable : c.usable = true := by simpa using husable
    simp only [Except.bind_eq_ok, Except.pure_eq_ok] at hok
    obtain ⟨t₁, hmatch, t₂, hrowid, rfl⟩ := hok
    have hlimit := h.limitTerm hi husable
    have hrowid := (hlimit.matchTerm hi husable hmatch).rowidTerm hi husable hrowid
    exact (hrowid.kTerm hi husable).auxConstraint

omit hi husable in
theorem scanConstraints_sound (hok : cs.zipIdx.foldlM (scanConstraint p) Terms.init = .ok t) :
    t.Sound p cs :=
  Except.foldlM_zipIdx_induct (P := fun _ t => t.Sound p cs)
    (fun _ _ _ _ hi h hok => h.scanConstraint hi hok) hok Terms.Sound.init

end Terms

section Building

variable {idxNum : Nat} {head : Char} {ms : List Meaning} {s s' : Building}

theorem appendchar_kind (s : Building) (kind : Char) :
    (s.appendchar 1 kind).appendchar 3 '_' = s.appendBlock [kind, '_', '_', '_'] := by
  simp [Building.appendchar, Building.appendBlock, List.replicate]

theorem appendchar_block (s : Building) (a b d e : Char) :
    (((s.appendchar 1 a).appendchar 1 b).appendchar 1 d).appendchar 1 e =
      s.appendBlock [a, b, d, e] := by
  simp [Building.appendchar, Building.appendBlock]

theorem assigned_replicate (k : Nat) : assigned (List.replicate k ⟨0, false⟩) = [] := by
  simp [assigned]

theorem Built.start (p : TableDef) (cs : List IndexConstraint) (idxNum : Nat) (head : Char) :
    Built p cs idxNum head 0 0 [] ⟨List.replicate cs.length ⟨0, false⟩, [head], 1⟩ where
  length_usage := List.length_replicate
  next := rfl
  length_idxStr := rfl
  head := rfl
  argvIndex := by rw [assigned_replicate]; exact .nil
  bound j u hu hne := by
    rw [List.getElem?_replicate] at hu
    split at hu
    next =>
      cases hu
      exact absurd rfl hne
    next => cases hu
  block k m hk := by cases hk

theorem Built.kBlock {t : Terms} (ht : t.Sound p cs) (hk : ¬(t.iLimitTerm = none ∧ t.iKTerm = none))
    (h : Built p cs idxNum head 0 i ms s) :
    Built p cs idxNum head 2 0 (ms ++ [.knnK]) (kBlock t s) := by
  have huse : ∀ j, Says p cs j .knnK → Built p cs idxNum head 2 0 (ms ++ [.knnK])
      (((s.assign j).appendchar 1 kindKnnK).appendchar 3 '_') := by
    intro j hj
    rw [appendchar_kind]
    refine (h.use hj (.inl Nat.one_pos) rfl fun _ _ ht => decodeBlock_knnK ht).mono (.inl ?_)
    exact Nat.one_lt_two
  unfold Plan.kBlock
  cases hlimit : t.iLimitTerm with
  | some j => exact huse j (ht.iLimitTerm j hlimit)
  | none =>
    cases hkt : t.iKTerm with
    | some j => exact huse j (ht.iKTerm j hkt)
    | none => exact absurd ⟨hlimit, hkt⟩ hk

theorem Built.rowidInBlock {t : Terms} (ht : t.Sound p cs) (h : Built p cs idxNum head 2 0 ms s) :
    ∃ l, Built p cs idxNum head 3 0 (ms ++ l) (rowidInBlock t s) := by
  unfold Plan.rowidInBlock
  cases hin : t.iRowidInTerm with
  | none =>
    refine ⟨[], ?_⟩
    rw [List.append_nil]
    exact h.mono (.inl (Nat.lt_succ_self _))
  | some j =>
    refine ⟨[.rowidIn], ?_⟩
    have hj := ht.iRowidInTerm j hin
    have huse := h.use hj (.inr ⟨rfl, Nat.zero_le _⟩) rfl fun _ _ ht => decodeBlock_rowidIn ht
    rw [← appendchar_kind] at huse
    exact huse.mono (.inl (Nat.lt_succ_self _))

theorem partitionOperator_eq_some {op : ConstraintOp} {value : Char}
    (h : partitionOperator op = some value) :
    ∃ cmp : CompareOp, op.compare = some cmp ∧ partitionOp value = some cmp := by
  cases op <;> cases h <;> exact ⟨_, rfl, rfl⟩

theorem Built.skip {r : Nat} (h : Built p cs idxNum head r i ms s) :
    ∃ l, Built p cs idxNum head r (i + 1) (ms ++ l) s := by
  refine ⟨[], ?_⟩
  rw [List.append_nil]
  exact h.mono (.inr ⟨rfl, Nat.le_succ i⟩)

theorem Built.partitionConstraint (hi : cs[i]? = some c) (h : Built p cs idxNum head 3 i ms s) :
    ∃ l, Built p cs idxNum head 3 (i + 1) (ms ++ l) (partitionConstraint p s (c, i)) := by
  simp only [Plan.partitionConstraint]
  split
  next => exact h.skip
  next husable =>
    split
    next => exact h.skip
    next hop =>
      split
      next => exact h.skip
      next hpart =>
        split
        next => exact h.skip
        next value hvalue =>
          have hpart : columnIdxIs p c.iColumn .partition = true := by
            simpa [vec0ColumnIdxIsPartition] using hpart
          obtain ⟨x, hx, hkind, hidx⟩ := columnIdxIs_eq_true hpart
          obtain ⟨cmp, hcmp, hdecode⟩ := partitionOperator_eq_some hvalue
          have hlt : x.idx < 16 :=
            (p.partition_lt x (userColumn_eq_some hx).2.2 hkind).trans (by decide)
          have hi : Says p cs i (.partition x.idx cmp) := by
            refine ⟨c, hi, by simpa using husable, ?_⟩
            rw [IndexConstraint.meaning_of_userColumn (fun h => hop (.inl h)) hx]
            simp [UserColumn.meaning, hkind, hcmp]
          rw [appendchar_block, hidx]
          exact ⟨_, h.use hi (.inr ⟨rfl, le_rfl⟩) rfl fun _ _ ht =>
            decodeBlock_partition ht hlt hdecode⟩

theorem metadataOperator_eq_ok {kind : Option Storage.MetadataKind} {vtabIn : Bool}
    {op : ConstraintOp} {value : Char} (h : metadataOperator kind vtabIn op = .ok value)
    {x : UserColumn} (hx : x.kind = .metadata) :
    ∃ operator, x.meaning op vtabIn = some (.metadata x.idx operator) ∧
      metadataOp value = some operator := by
  rw [UserColumn.meaning, hx]
  cases op with
  | eq =>
    cases vtabIn with
    | false =>
      cases h
      exact ⟨.compare .eq, rfl, rfl⟩
    | true =>
      simp only [metadataOperator, if_true, Except.bind_eq_ok, Except.require_eq_ok,
        Except.pure_eq_ok] at h
      obtain ⟨-, -, rfl⟩ := h
      exact ⟨.isIn, rfl, rfl⟩
  | gt | le | lt | ge | ne =>
    cases h
    exact ⟨.compare _, rfl, rfl⟩
  | «matches» | limit | offset | other => cases h

theorem Built.metadataConstraint (hi : cs[i]? = some c) (h : Built p cs idxNum head 4 i ms s)
    (hok : metadataConstraint p s (c, i) = .ok s') :
    ∃ l, Built p cs idxNum head 4 (i + 1) (ms ++ l) s' := by
  simp only [Plan.metadataConstraint] at hok
  split at hok
  next =>
    cases hok
    exact h.skip
  next husable =>
    split at hok
    next =>
      cases hok
      exact h.skip
    next hop =>
      split at hok
      next =>
        cases hok
        exact h.skip
      next hmeta =>
        simp only [Except.bind_eq_ok, Except.require_eq_ok, Except.pure_eq_ok] at hok
        obtain ⟨value, hvalue, -, -, rfl⟩ := hok
        have hmeta : columnIdxIs p c.iColumn .metadata = true := by
          simpa [vec0ColumnIdxIsMetadata] using hmeta
        obtain ⟨x, hx, hkind, hidx⟩ := columnIdxIs_eq_true hmeta
        obtain ⟨operator, hmeaning, hdecode⟩ := metadataOperator_eq_ok hvalue hkind
        have hlt : x.idx < 16 :=
          (p.metadata_lt x (userColumn_eq_some hx).2.2 hkind).trans_le p.metadata_le
        have hi : Says p cs i (.metadata x.idx operator) := by
          refine ⟨c, hi, by simpa using husable, ?_⟩
          rw [IndexConstraint.meaning_of_userColumn (fun h => hop (.inl h)) hx, hmeaning]
        rw [appendchar_block, hidx]
        exact ⟨_, h.use hi (.inr ⟨rfl, le_rfl⟩) rfl fun _ _ ht =>
          decodeBlock_metadata ht hlt hdecode⟩

theorem Built.partitionConstraints (h : Built p cs idxNum head 3 0 ms s) :
    ∃ l, Built p cs idxNum head 4 0 (ms ++ l) (cs.zipIdx.foldl (Plan.partitionConstraint p) s) := by
  have hok :
      cs.zipIdx.foldlM (fun s x => (.ok (Plan.partitionConstraint p s x) : Except Unit _)) s =
        .ok (cs.zipIdx.foldl (Plan.partitionConstraint p) s) := List.foldlM_pure
  obtain ⟨l, hl⟩ := Except.foldlM_zipIdx_induct
    (P := fun i s => ∃ l, Built p cs idxNum head 3 i (ms ++ l) s)
    (fun i c s s' hi ⟨l, hl⟩ hok => by
      cases hok
      obtain ⟨l', hl'⟩ := hl.partitionConstraint hi
      exact ⟨l ++ l', by rwa [← List.append_assoc]⟩)
    hok ⟨[], by rwa [List.append_nil]⟩
  exact ⟨l, hl.mono (.inl (Nat.lt_succ_self _))⟩

theorem Built.metadataConstraints (h : Built p cs idxNum head 4 0 ms s)
    (hok : cs.zipIdx.foldlM (Plan.metadataConstraint p) s = .ok s') :
    ∃ l, Built p cs idxNum head 4 cs.length (ms ++ l) s' :=
  Except.foldlM_zipIdx_induct
    (P := fun i s => ∃ l, Built p cs idxNum head 4 i (ms ++ l) s)
    (fun i c s s' hi ⟨l, hl⟩ hok => by
      obtain ⟨l', hl'⟩ := hl.metadataConstraint hi hok
      exact ⟨l ++ l', by rwa [← List.append_assoc]⟩)
    hok ⟨[], by rwa [List.append_nil]⟩

theorem knnPlan_built {t : Terms} {orderBy : List IndexOrderBy} {iMatchTerm : Nat}
    (ht : t.Sound p cs) (hmatch : t.iMatchTerm = some iMatchTerm)
    (hok : knnPlan p cs orderBy t iMatchTerm ⟨List.replicate cs.length ⟨0, false⟩, [], 0⟩ = .ok s) :
    ∃ l, Built p cs t.iMatchVectorTerm '3' 4 cs.length
      (.knnMatch t.iMatchVectorTerm :: .knnK :: l) s := by
  simp only [knnPlan, Except.bind_eq_ok, Except.require_eq_ok] at hok
  obtain ⟨-, hk, -, -, -, -, -, -, hok⟩ := hok
  have hj := ht.iMatchTerm iMatchTerm hmatch
  have huse := (Built.start p cs t.iMatchVectorTerm '3').use hj
    (.inr ⟨rfl, Nat.zero_le _⟩) rfl fun _ _ ht => decodeBlock_knnMatch ht
  rw [← appendchar_kind] at huse
  obtain ⟨l₁, h₁⟩ := (huse.kBlock ht hk).rowidInBlock ht
  obtain ⟨l₂, h₂⟩ := h₁.partitionConstraints
  obtain ⟨l₃, h₃⟩ := h₂.metadataConstraints hok
  refine ⟨l₁ ++ l₂ ++ l₃, ?_⟩
  simpa using h₃

theorem Built.agree {r : Nat} (h : Built p cs idxNum head r i ms s) (cost rows : Nat) :
    Agree p cs ⟨s.usage, s.idxStr, idxNum, cost, rows⟩ ms.length where
  length_usage := h.length_usage
  argvIndex := h.argvIndex
  length_idxStr := h.length_idxStr
  block i hi := by
    obtain ⟨hdecode, j, hj, hm⟩ := h.block i _ (List.getElem?_eq_getElem hi)
    exact ⟨j, _, hj, hm, hdecode⟩

end Building

section Filter

variable {idxNum argc : Nat} {idxStr : Text}

theorem vec0Filter_of_length (h : idxStr.length = 1 + 4 * argc) :
    vec0Filter idxStr argc =
      if charAt idxStr 0 = '1' then .ok .fullscan
      else if charAt idxStr 0 = '3' then .ok .knn
      else if charAt idxStr 0 = '2' then .ok .point
      else .error sqliteError := by
  have hpos : 0 < idxStr.length := by omega
  have hmod : (idxStr.length - 1) % 4 = 0 := by omega
  have hdiv : (idxStr.length - 1) / 4 = argc := by omega
  rw [vec0Filter, Except.require, if_pos hpos, Except.require, if_pos hmod, Except.require,
    if_pos hdiv]
  rfl

theorem lastOfKind_isSome {kind : Char} {i : Nat} (hi : i < argc)
    (hkind : blockKind idxStr i = kind) : (lastOfKind idxStr argc kind).isSome := by
  have hfold : ∀ (l : List Nat) (found : Option Nat), (found.isSome ∨ i ∈ l) →
      (l.foldl
        (fun found i => if blockKind idxStr i = kind then some i else found) found).isSome := by
    intro l
    induction l with
    | nil => simp
    | cons k l ih =>
      intro found h
      rw [List.foldl_cons]
      apply ih
      split
      next => exact .inl rfl
      next hne =>
        obtain h | h := h
        · exact .inl h
        · obtain rfl | h := List.mem_cons.mp h
          · exact absurd hkind hne
          · exact .inr h
  exact hfold _ _ (.inr (List.mem_range.mpr hi))

theorem decodeBlock_kind {i : Nat} {m : Meaning} (h : decodeBlock idxNum idxStr i = some m) :
    blockKind idxStr i = m.kind := by
  unfold decodeBlock at h
  split_ifs at h with hmatch hk hin hid hpartition hmetadata
  case pos => cases h; exact hmatch
  case pos => cases h; exact hk
  case pos => cases h; exact hin
  case pos => cases h; exact hid
  case pos =>
    obtain ⟨op, -, rfl⟩ := Option.map_eq_some_iff.mp h
    exact hpartition
  case pos =>
    obtain ⟨operator, -, rfl⟩ := Option.map_eq_some_iff.mp h
    exact hmetadata

theorem chunkTerm_eq_none {i : Nat} {m : Meaning} (h : m.kind ≠ kindKnnPartitonConstraint) :
    m.chunkTerm i = none := by
  cases m with
  | partition => exact absurd rfl h
  | _ => rfl

theorem metadataFilter_eq_none {i : Nat} {m : Meaning} (h : m.kind ≠ kindMetadataConstraint) :
    m.metadataFilter i = none := by
  cases m with
  | metadata => exact absurd rfl h
  | _ => rfl

theorem vec0ChunksIter_eq (hlen : idxStr.length = 1 + 4 * argc)
    (hblock : ∀ i < argc, ∃ m : Meaning, decodeBlock idxNum idxStr i = some m) :
    vec0ChunksIter idxStr = .ok ((List.range argc).filterMap fun i =>
      (decodeBlock idxNum idxStr i).bind (Meaning.chunkTerm i)) := by
  have hdiv : (idxStr.length - 1) / 4 = argc := by omega
  rw [vec0ChunksIter, hdiv]
  have hall : ∀ i ∈ List.range argc, ∃ m : Meaning, decodeBlock idxNum idxStr i = some m :=
    fun i hi => hblock i (List.mem_range.mp hi)
  generalize List.range argc = l at hall
  induction l with
  | nil => rfl
  | cons i l ih =>
    obtain ⟨m, hm⟩ := hall i List.mem_cons_self
    have ih := ih fun k hk => hall k (List.mem_cons_of_mem _ hk)
    by_cases hkind : blockKind idxStr i = kindKnnPartitonConstraint
    · have hm' := hm
      rw [decodeBlock, hkind] at hm'
      obtain ⟨op, hop, rfl⟩ := Option.map_eq_some_iff.mp hm'
      rw [List.filter_cons_of_pos (by simpa using hkind), List.mapM_cons, ih, hop,
        List.filterMap_cons, hm]
      rfl
    · have hnone : m.chunkTerm i = none :=
        chunkTerm_eq_none (by rwa [← decodeBlock_kind hm])
      rw [List.filter_cons_of_neg (by simpa using hkind), ih, List.filterMap_cons, hm,
        Option.bind_some, hnone]

theorem metadataFilters_eq
    (hblock : ∀ i < argc, ∃ m : Meaning, decodeBlock idxNum idxStr i = some m) :
    (metadataFilters idxStr argc).map (fun x => (x.1, metadataOp x.2.1, x.2.2)) =
      ((List.range argc).filterMap fun i =>
        (decodeBlock idxNum idxStr i).bind (Meaning.metadataFilter i)).map
          fun x => (x.1, some x.2.1, x.2.2) := by
  have hall : ∀ i ∈ List.range argc, ∃ m : Meaning, decodeBlock idxNum idxStr i = some m :=
    fun i hi => hblock i (List.mem_range.mp hi)
  rw [metadataFilters]
  generalize List.range argc = l at hall
  induction l with
  | nil => rfl
  | cons i l ih =>
    obtain ⟨m, hm⟩ := hall i List.mem_cons_self
    have ih := ih fun k hk => hall k (List.mem_cons_of_mem _ hk)
    by_cases hkind : blockKind idxStr i = kindMetadataConstraint
    · have hm' := hm
      rw [decodeBlock, hkind] at hm'
      obtain ⟨op, hop, rfl⟩ := Option.map_eq_some_iff.mp hm'
      rw [List.filter_cons_of_pos (by simpa using hkind), List.map_cons, List.map_cons, ih, hop,
        List.filterMap_cons, hm]
      rfl
    · have hnone : m.metadataFilter i = none :=
        metadataFilter_eq_none (by rwa [← decodeBlock_kind hm])
      rw [List.filter_cons_of_neg (by simpa using hkind), ih, List.filterMap_cons, hm,
        Option.bind_some, hnone]

/-- What the searches make of a plan for `argc` arguments: the length is right, the assertions
hold, and the loops find the constraints of their blocks. -/
structure Filtered (plan : IndexInfo) (argc : Nat) (kind : QueryPlan) : Prop where
  filter : vec0Filter plan.idxStr argc = .ok kind
  asserts : kind.Asserts plan.idxStr argc
  chunks : vec0ChunksIter plan.idxStr = .ok ((List.range argc).filterMap fun i =>
    (decodeBlock plan.idxNum plan.idxStr i).bind (Meaning.chunkTerm i))
  metadata : (metadataFilters plan.idxStr argc).map (fun x => (x.1, metadataOp x.2.1, x.2.2)) =
    ((List.range argc).filterMap fun i =>
      (decodeBlock plan.idxNum plan.idxStr i).bind (Meaning.metadataFilter i)).map
        fun x => (x.1, some x.2.1, x.2.2)

theorem Agree.filtered {plan : IndexInfo} {kind : QueryPlan} (h : Agree p cs plan argc)
    (hfilter : vec0Filter plan.idxStr argc = .ok kind) (hasserts : kind.Asserts plan.idxStr argc) :
    Filtered plan argc kind := by
  have hblock : ∀ i < argc, ∃ m : Meaning, decodeBlock plan.idxNum plan.idxStr i = some m := by
    intro i hi
    obtain ⟨j, m, -, -, hm⟩ := h.block i hi
    exact ⟨m, hm⟩
  exact ⟨hfilter, hasserts, vec0ChunksIter_eq h.length_idxStr hblock, metadataFilters_eq hblock⟩

end Filter

/-- Whatever constraints a plan is made for, `xFilter` reads from it what they say, argument for
argument. -/
theorem vec0BestIndex_agree (p : TableDef) (cs : List IndexConstraint)
    (orderBy : List IndexOrderBy) (colUsed : Nat) {plan : IndexInfo}
    (h : vec0BestIndex p cs orderBy colUsed = .ok plan) :
    ∃ (argc : Nat) (kind : QueryPlan), Agree p cs plan argc ∧ Filtered plan argc kind := by
  rw [vec0BestIndex, Except.bind_eq_ok] at h
  obtain ⟨t, hscan, h⟩ := h
  have ht := scanConstraints_sound hscan
  split at h
  next iMatchTerm _ hmatch =>
    rw [Except.bind_eq_ok] at h
    obtain ⟨s, hknn, h⟩ := h
    cases h
    obtain ⟨l, hs⟩ := knnPlan_built ht hmatch hknn
    have hagree := hs.agree 30 10
    refine ⟨_, .knn, hagree, hagree.filtered ?_ ?_⟩
    · rw [vec0Filter_of_length hagree.length_idxStr, hs.head]
      rfl
    · have hlen := hagree.length_idxStr
      have hmatch := (hs.block 0 _ rfl).1
      have hk := (hs.block 1 _ rfl).1
      refine ⟨by omega, ?_, ?_⟩
      · exact lastOfKind_isSome (Nat.zero_lt_succ _) (decodeBlock_kind hmatch)
      · exact lastOfKind_isSome (Nat.succ_lt_succ (Nat.zero_lt_succ _)) (decodeBlock_kind hk)
  next iRowidTerm _ hrowid =>
    cases h
    have hs := (Built.start p cs colUsed '2').use (ht.iRowidTerm _ hrowid)
      (.inr ⟨rfl, Nat.zero_le _⟩) rfl fun _ _ ht => decodeBlock_pointId ht
    rw [← appendchar_kind] at hs
    have hagree := hs.agree 10 1
    refine ⟨1, .point, hagree, hagree.filtered ?_ rfl⟩
    rw [vec0Filter_of_length hagree.length_idxStr, hs.head]
    rfl
  next =>
    cases h
    have hs := Built.start p cs 0 '1'
    have hagree := hs.agree 3000000 100000
    refine ⟨0, .fullscan, hagree, hagree.filtered ?_ trivial⟩
    rw [vec0Filter_of_length hagree.length_idxStr, hs.head]
    rfl

def threeColumns : TableDef where
  userColumns := [⟨.vector, 0⟩, ⟨.partition, 0⟩, ⟨.metadata, 0⟩]
  metadataKinds := [.integer]
  partition_lt := by decide
  metadata_lt := by decide
  metadata_le := by decide

def fiveConstraints : List IndexConstraint :=
  [⟨3, .eq, true, true⟩, ⟨2, .gt, true, false⟩, ⟨1, .matches, true, false⟩, ⟨0, .eq, true, true⟩,
    ⟨-1, .limit, true, false⟩]

def fivePlan : IndexInfo where
  usage := [⟨5, true⟩, ⟨4, true⟩, ⟨1, true⟩, ⟨3, true⟩, ⟨2, true⟩]
  idxStr := "3\x7b___\x7d___[___]Ab_&Ag_".toList
  idxNum := 0
  estimatedCost := 30
  estimatedRows := 10

theorem vec0BestIndex_agree_five :
    ∃ (argc : Nat) (kind : QueryPlan), Agree threeColumns fiveConstraints fivePlan argc ∧
      Filtered fivePlan argc kind :=
  vec0BestIndex_agree threeColumns fiveConstraints [] 0 rfl

end SqliteMultimodal.Vec.Plan
