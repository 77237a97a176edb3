import SqliteMultimodal.Graph.Parallel.Pool
import SqliteMultimodal.Graph.Parallel.Queues
import SqliteMultimodal.Graph.Storage

namespace SqliteMultimodal.Graph.Parallel

/-- The test of a row in `parallelPatternWorker`. -/
def isMatch (zValue : Option Text) (row : NodeRow) : Bool :=
  match zValue, row.labels with
  | some zValue, some labels => (Text.strstr zValue labels).isSome
  | _, _ => true

section Range

variable (t : RowTable NodeRow) (nThreads i : Nat)

def nodesPerThread : Nat := t.rows.length / nThreads

def startNode : Nat := i * nodesPerThread t nThreads

def endNode : Nat :=
  if i + 1 = nThreads then t.rows.length else (i + 1) * nodesPerThread t nThreads

def rangeRows : List (Int × NodeRow) :=
  (t.rows.drop (startNode t nThreads i)).take (endNode t nThreads i - startNode t nThreads i)

end Range

/-- A `ParallelPatternMatch`: the rows that its statement has still to return, and its counter. -/
structure PatternMatch where
  rows : List (Int × NodeRow)
  nResults : Nat

/-- Where the thread of the caller is in `graphExecuteParallel` and behind it. -/
inductive Caller
  | schedule (i : Nat)
  | test
  | sum (i totalResults : Nat)
  | returned (totalResults : Nat)
  deriving DecidableEq

/-- A task is the number of its argument. An entry of `results` that was never written is `none`. -/
structure Search where
  zValue : Option Text
  pool : ThreadPool Nat
  args : List PatternMatch
  results : List (Option Int)
  caller : Caller

inductive Move
  | worker (a : Act Nat)
  | row (w : Nat)
  | caller

namespace Search

def start (t : RowTable NodeRow) (zValue : Option Text) (nThreads : Nat) : Search where
  zValue := zValue
  pool := .start nThreads
  args := (List.range nThreads).map fun i => ⟨rangeRows t nThreads i, 0⟩
  results := List.replicate 1000 none
  caller := .schedule 0

def running (m : Search) (w : Nat) : Option (Nat × PatternMatch) :=
  (m.pool.workers[w]?).bind fun worker =>
    if worker.point = .execute then
      worker.task.bind fun i => (m.args[i]?).map fun arg => (i, arg)
    else none

/-- One turn of the loop of `parallelPatternWorker`. -/
def row (m : Search) (w : Nat) : Option Search :=
  (m.running w).bind fun (i, arg) =>
    match arg.rows with
    | [] => none
    | (nodeId, node) :: rows =>
      if isMatch m.zValue node ∧ arg.nResults < 1000 then
        some { m with
          args := m.args.set i ⟨rows, arg.nResults + 1⟩
          results := m.results.set arg.nResults (some nodeId) }
      else some { m with args := m.args.set i ⟨rows, arg.nResults⟩ }

def worker (m : Search) (a : Act Nat) : Option Search :=
  let next := (m.pool.step a).map fun pool => { m with pool }
  match a with
  | .schedule _ => none
  | .execute w => (m.running w).bind fun arg => if arg.2.rows = [] then next else none
  | .pop _ | .steal _ | .wait _ | .wake _ => next

/-- The loop of `graphExecuteParallel` that waits looks at the sizes of the queues only. -/
def allDone (m : Search) : Bool := m.pool.workers.all fun worker => worker.localQueueSize ≤ 0

def call (m : Search) : Option Search :=
  match m.caller with
  | .schedule i =>
    if i < m.args.length then
      (m.pool.schedule i).map fun pool => { m with pool, caller := .schedule (i + 1) }
    else some { m with caller := .test }
  | .test => some { m with caller := if m.allDone then .sum 0 0 else .test }
  | .sum i totalResults =>
    match m.args[i]? with
    | some arg => some { m with caller := .sum (i + 1) (totalResults + arg.nResults) }
    | none => some { m with caller := .returned totalResults }
  | .returned _ => none

def step (m : Search) : Move → Option Search
  | .worker a => m.worker a
  | .row w => m.row w
  | .caller => m.call

/-- The first `*pnResults` entries of `*pResults`. -/
def answer (m : Search) (totalResults : Nat) : List (Option Int) := m.results.take totalResults

end Search

def matching (zValue : Option Text) (rows : List (Int × NodeRow)) : List (Int × NodeRow) :=
  rows.filter fun row => isMatch zValue row.2

theorem matching_hit {zValue : Option Text} {row : Int × NodeRow} (h : isMatch zValue row.2 = true)
    (rows : List (Int × NodeRow)) :
    matching zValue (row :: rows) = row :: matching zValue rows :=
  List.filter_cons_of_pos h

theorem matching_skip {zValue : Option Text} {row : Int × NodeRow}
    (h : isMatch zValue row.2 = false) (rows : List (Int × NodeRow)) :
    matching zValue (row :: rows) = matching zValue rows :=
  List.filter_cons_of_neg (by rw [h]; exact Bool.false_ne_true)

section Range

variable {t : RowTable NodeRow} {nThreads : Nat}

theorem ranges_first {k : Nat} (hk : k < nThreads) :
    (List.range k).flatMap (rangeRows t nThreads) = t.rows.take (startNode t nThreads k) := by
  induction k with
  | zero => simp [startNode]
  | succ k ih =>
    have hstart : startNode t nThreads (k + 1) =
        startNode t nThreads k + nodesPerThread t nThreads := Nat.succ_mul k _
    have hend : endNode t nThreads k = startNode t nThreads (k + 1) :=
      if_neg (Nat.ne_of_lt hk)
    rw [List.range_succ, List.flatMap_append, ih (Nat.lt_of_succ_lt hk), List.flatMap_singleton,
      rangeRows, hend, hstart, Nat.add_sub_cancel_left, ← List.take_add]

theorem ranges_flatten (hn : 0 < nThreads) :
    (List.range nThreads).flatMap (rangeRows t nThreads) = t.rows := by
  obtain ⟨k, rfl⟩ := Nat.exists_eq_succ_of_ne_zero (Nat.ne_of_gt hn)
  have hlast : rangeRows t (k + 1) k = t.rows.drop (startNode t (k + 1) k) := by
    rw [rangeRows, endNode, if_pos rfl, ← List.length_drop, List.take_length]
  rw [List.range_succ, List.flatMap_append, ranges_first (Nat.lt_succ_self k),
    List.flatMap_singleton, hlast, List.take_append_drop]

variable (t nThreads) (zValue : Option Text) (i : Nat)

def found : List (Int × NodeRow) := matching zValue (rangeRows t nThreads i)

variable {t nThreads zValue i}

theorem found_flatten (hn : 0 < nThreads) :
    (List.range nThreads).flatMap (found t nThreads zValue) = matching zValue t.rows := by
  rw [← ranges_flatten (t := t) hn, matching, List.filter_flatMap]
  rfl

theorem found_length_le : (found t nThreads zValue i).length ≤ t.rows.length := by
  refine (List.length_filter_le _ _).trans ?_
  rw [rangeRows, List.length_take, List.length_drop]
  omega

end Range

namespace Search

variable {t : RowTable NodeRow} {zValue : Option Text} {nThreads : Nat} {m m' : Search}

def Settled (m : Search) : Move → Prop
  | .caller => m.caller = .test → m.allDone → ∀ worker ∈ m.pool.workers, worker.task = none
  | _ => True

instance instDecidableSettled (m : Search) : DecidablePred m.Settled
  | .caller => inferInstanceAs (Decidable (m.caller = .test → m.allDone →
    ∀ worker ∈ m.pool.workers, worker.task = none))
  | .worker _ | .row _ => isTrue trivial

def counted (args : List PatternMatch) (i : Nat) : Nat :=
  (args[i]?.map PatternMatch.nResults).getD 0

theorem counted_eq {args : List PatternMatch} {i : Nat} {arg : PatternMatch}
    (h : args[i]? = some arg) : counted args i = arg.nResults := by
  rw [counted, h]
  rfl

theorem counted_set {args : List PatternMatch} {i : Nat} {arg : PatternMatch}
    (h : args[i]? = some arg) (arg' : PatternMatch) (j : Nat) :
    counted (args.set i arg') j = if j = i then arg'.nResults else counted args j := by
  by_cases hj : j = i
  · rw [if_pos hj, hj, counted_eq (List.getElem?_set_self (List.getElem?_eq_some_iff.mp h).1)]
  · rw [if_neg hj, counted, List.getElem?_set_ne (Ne.symm hj), counted]

structure Searching (t : RowTable NodeRow) (zValue : Option Text) (nThreads : Nat) (m : Search) :
    Prop where
  zValue_eq : m.zValue = zValue
  args_length : m.args.length = nThreads
  results_length : m.results.length = 1000
  rest : ∀ i : Nat, ∀ arg, m.args[i]? = some arg →
    arg.nResults ≤ (found t nThreads zValue i).length ∧
      matching zValue arg.rows = (found t nThreads zValue i).drop arg.nResults
  unwritten : ∀ k < 1000, (∀ i, counted m.args i ≤ k) → m.results[k]? = some none
  written : ∀ k, (∃ i, k < counted m.args i) →
    ∃ i, k < counted m.args i ∧
      m.results[k]? = some ((found t nThreads zValue i)[k]?.map Prod.fst)

theorem start_searching : Searching t zValue nThreads (start t zValue nThreads) := by
  have hargs : ∀ (i : Nat) (arg : PatternMatch), (start t zValue nThreads).args[i]? = some arg →
      arg = ⟨rangeRows t nThreads i, 0⟩ := by
    intro i arg h
    rw [start, List.getElem?_map] at h
    obtain ⟨j, hj, rfl⟩ := Option.map_eq_some_iff.mp h
    obtain ⟨hlt, rfl⟩ := List.getElem?_eq_some_iff.mp hj
    rw [List.getElem_range]
  refine ⟨rfl, by rw [start, List.length_map, List.length_range], List.length_replicate,
    fun i arg h => ?_, fun k hk _ => ?_, ?_⟩
  · rw [hargs i arg h]
    exact ⟨Nat.zero_le _, rfl⟩
  · exact List.getElem?_replicate_of_lt hk
  · rintro k ⟨i, hlt⟩
    cases hi : (start t zValue nThreads).args[i]? with
    | none =>
      rw [counted, hi] at hlt
      exact absurd hlt (Nat.not_lt_zero k)
    | some arg =>
      rw [counted_eq hi, hargs i arg hi] at hlt
      exact absurd hlt (Nat.not_lt_zero k)

theorem running_eq_some {w i : Nat} {arg : PatternMatch} (h : m.running w = some (i, arg)) :
    ∃ worker, m.pool.workers[w]? = some worker ∧ worker.task = some i ∧ m.args[i]? = some arg := by
  obtain ⟨worker, hw, h⟩ := Option.bind_eq_some_iff.mp h
  obtain ⟨-, h⟩ := Option.ite_none_right_eq_some.mp h
  obtain ⟨j, hj, h⟩ := Option.bind_eq_some_iff.mp h
  obtain ⟨arg', harg, h⟩ := Option.map_eq_some_iff.mp h
  obtain ⟨rfl, rfl⟩ := Prod.mk.inj h
  exact ⟨worker, hw, hj, harg⟩

theorem row_cases {w : Nat} (h : m.row w = some m') :
    ∃ i arg nodeId node rows, m.args[i]? = some arg ∧ arg.rows = (nodeId, node) :: rows ∧
      m' = if isMatch m.zValue node ∧ arg.nResults < 1000 then
          { m with
            args := m.args.set i ⟨rows, arg.nResults + 1⟩
            results := m.results.set arg.nResults (some nodeId) }
        else { m with args := m.args.set i ⟨rows, arg.nResults⟩ } := by
  obtain ⟨⟨i, arg⟩, hrun, h⟩ := Option.bind_eq_some_iff.mp h
  obtain ⟨-, -, -, harg⟩ := running_eq_some hrun
  simp only at h
  split at h
  next => exact absurd h (Option.some_ne_none m').symm
  next nodeId node rows hrows =>
    refine ⟨i, arg, nodeId, node, rows, harg, hrows, ?_⟩
    split at h
    next hmatch => rw [if_pos hmatch, Option.some.inj h]
    next hmatch => rw [if_neg hmatch, Option.some.inj h]

section Row

variable {i : Nat} {arg : PatternMatch} {nodeId : Int} {node : NodeRow}
  {rows : List (Int × NodeRow)}

theorem Searching.rest_set (h : Searching t zValue nThreads m) {arg' : PatternMatch}
    (hle : arg'.nResults ≤ (found t nThreads zValue i).length)
    (hrest : matching zValue arg'.rows = (found t nThreads zValue i).drop arg'.nResults)
    (j : Nat) (other : PatternMatch)
    (hj : (m.args.set i arg')[j]? = some other) :
    other.nResults ≤ (found t nThreads zValue j).length ∧
      matching zValue other.rows = (found t nThreads zValue j).drop other.nResults := by
  rw [List.getElem?_set] at hj
  split at hj
  next heq =>
    obtain ⟨-, hj⟩ := Option.ite_none_right_eq_some.mp hj
    rw [← heq, ← Option.some.inj hj]
    exact ⟨hle, hrest⟩
  next => exact h.rest j other hj

theorem Searching.skip (h : Searching t zValue nThreads m) (harg : m.args[i]? = some arg)
    (hrows : arg.rows = (nodeId, node) :: rows) (hmatch : isMatch zValue node = false) :
    Searching t zValue nThreads { m with args := m.args.set i ⟨rows, arg.nResults⟩ } := by
  have hcount : ∀ j, counted (m.args.set i ⟨rows, arg.nResults⟩) j = counted m.args j := by
    intro j
    rw [counted_set harg]
    split
    next heq => rw [heq, counted_eq harg]
    next => rfl
  obtain ⟨hle, hrest⟩ := h.rest i arg harg
  rw [hrows, matching_skip hmatch] at hrest
  refine ⟨h.zValue_eq, by rw [List.length_set, h.args_length], h.results_length,
    h.rest_set hle hrest, ?_, ?_⟩
  · simpa only [hcount] using h.unwritten
  · simpa only [hcount] using h.written

theorem Searching.hit (h : Searching t zValue nThreads m) (harg : m.args[i]? = some arg)
    (hrows : arg.rows = (nodeId, node) :: rows) (hmatch : isMatch zValue node = true)
    (hlimit : arg.nResults < 1000) :
    Searching t zValue nThreads { m with
      args := m.args.set i ⟨rows, arg.nResults + 1⟩
      results := m.results.set arg.nResults (some nodeId) } := by
  obtain ⟨hle, hrest⟩ := h.rest i arg harg
  rw [hrows, matching_hit hmatch] at hrest
  have hfound : (found t nThreads zValue i)[arg.nResults]? = some (nodeId, node) := by
    rw [← List.head?_drop, ← hrest, List.head?_cons]
  have hrest' : matching zValue rows = (found t nThreads zValue i).drop (arg.nResults + 1) := by
    rw [← List.tail_drop, ← hrest, List.tail_cons]
  have hcount := counted_set harg ⟨rows, arg.nResults + 1⟩
  have hown : counted m.args i = arg.nResults := counted_eq harg
  refine ⟨h.zValue_eq, by rw [List.length_set, h.args_length],
    by rw [List.length_set, h.results_length],
    h.rest_set (List.getElem?_eq_some_iff.mp hfound).1 hrest', fun k hk hall => ?_, ?_⟩
  · simp only [hcount] at hall
    have hi := hall i
    rw [if_pos rfl] at hi
    rw [List.getElem?_set_ne (Nat.ne_of_lt hi)]
    refine h.unwritten k hk fun j => ?_
    by_cases hj : j = i
    · rw [hj, hown]
      exact Nat.le_of_succ_le hi
    · have := hall j
      rwa [if_neg hj] at this
  · rintro k ⟨j, hk⟩
    simp only [hcount] at hk ⊢
    by_cases hkn : arg.nResults = k
    · refine ⟨i, by rw [if_pos rfl, hkn]; exact Nat.lt_succ_self k, ?_⟩
      rw [← hkn, List.getElem?_set_self (h.results_length ▸ hlimit), hfound]
      rfl
    · have hbefore : k < counted m.args j := by
        by_cases hj : j = i
        · rw [if_pos hj] at hk
          rw [hj, hown]
          exact Nat.lt_of_le_of_ne (Nat.le_of_lt_succ hk) (Ne.symm hkn)
        · rwa [if_neg hj] at hk
      obtain ⟨writer, hwriter, hres⟩ := h.written k ⟨j, hbefore⟩
      refine ⟨writer, ?_, by rw [List.getElem?_set_ne hkn, hres]⟩
      by_cases hw : writer = i
      · rw [if_pos hw]
        rw [hw, hown] at hwriter
        exact Nat.lt_succ_of_lt hwriter
      · rwa [if_neg hw]

theorem Searching.row (h : Searching t zValue nThreads m) (ht : t.rows.length ≤ 1000) {w : Nat}
    (hstep : m.row w = some m') : Searching t zValue nThreads m' := by
  obtain ⟨i, arg, nodeId, node, rows, harg, hrows, rfl⟩ := row_cases hstep
  by_cases hmatch : isMatch zValue node = true
  · obtain ⟨-, hrest⟩ := h.rest i arg harg
    have hlt : arg.nResults < (found t nThreads zValue i).length := by
      rw [hrows, matching_hit hmatch] at hrest
      by_contra hge
      rw [List.drop_eq_nil_of_le (not_lt.mp hge)] at hrest
      exact absurd hrest (List.cons_ne_nil _ _)
    have hlimit := hlt.trans_le (found_length_le.trans ht)
    rw [if_pos ⟨h.zValue_eq ▸ hmatch, hlimit⟩]
    exact h.hit harg hrows hmatch hlimit
  · rw [if_neg (fun hand => hmatch (h.zValue_eq ▸ hand.1))]
    exact h.skip harg hrows (Bool.eq_false_iff.mpr hmatch)

end Row

theorem row_frame {w : Nat} (h : m.row w = some m') :
    m'.pool = m.pool ∧ m'.caller = m.caller ∧ m'.zValue = m.zValue ∧
      ∀ j : Nat, (∀ arg, m.args[j]? = some arg → arg.rows = []) → m'.args[j]? = m.args[j]? := by
  obtain ⟨i, arg, nodeId, node, rows, harg, hrows, rfl⟩ := row_cases h
  have hne : ∀ j : Nat, (∀ arg, m.args[j]? = some arg → arg.rows = []) → i ≠ j := by
    rintro j hj rfl
    exact absurd ((hj arg harg).symm.trans hrows) (List.cons_ne_nil _ _).symm
  split
  · exact ⟨rfl, rfl, rfl, fun j hj => List.getElem?_set_ne (hne j hj)⟩
  · exact ⟨rfl, rfl, rfl, fun j hj => List.getElem?_set_ne (hne j hj)⟩

def Phase (t : RowTable NodeRow) (zValue : Option Text) (nThreads : Nat) (m : Search) : Prop :=
  match m.caller with
  | .schedule i => i ≤ nThreads ∧ m.pool.scheduled = List.range i
  | .test => m.pool.scheduled = List.range nThreads
  | .sum i totalResults => i ≤ nThreads ∧ (∀ j < nThreads, j ∈ m.pool.executed) ∧
    totalResults = ((List.range i).flatMap (found t nThreads zValue)).length
  | .returned totalResults => (∀ j < nThreads, j ∈ m.pool.executed) ∧
    totalResults = ((List.range nThreads).flatMap (found t nThreads zValue)).length

structure Fits (t : RowTable NodeRow) (zValue : Option Text) (nThreads : Nat) (m : Search) :
    Prop where
  searching : Searching t zValue nThreads m
  sound : m.pool.Sound
  short : m.pool.Short
  workers_length : m.pool.workers.length = nThreads
  finished : ∀ i ∈ m.pool.executed, ∀ arg, m.args[i]? = some arg → arg.rows = []
  phase : Phase t zValue nThreads m

theorem start_fits : Fits t zValue nThreads (start t zValue nThreads) :=
  ⟨start_searching, ThreadPool.start_sound nThreads, ThreadPool.start_short nThreads,
    List.length_replicate, fun _ h => absurd h List.not_mem_nil, Nat.zero_le _, rfl⟩

theorem Searching.counted_of_over (h : Searching t zValue nThreads m) {i : Nat}
    {arg : PatternMatch} (harg : m.args[i]? = some arg) (hover : arg.rows = []) :
    arg.nResults = (found t nThreads zValue i).length := by
  obtain ⟨hle, hrest⟩ := h.rest i arg harg
  rw [hover] at hrest
  exact le_antisymm hle (List.drop_eq_nil_iff.mp hrest.symm)

theorem Phase.congr (h : Phase t zValue nThreads m) (hcaller : m'.caller = m.caller)
    (hsched : m'.pool.scheduled = m.pool.scheduled)
    (hexec : ∀ i ∈ m.pool.executed, i ∈ m'.pool.executed) : Phase t zValue nThreads m' := by
  unfold Phase at h ⊢
  rw [hcaller, hsched]
  split at h
  next => exact h
  next => exact h
  next => exact ⟨h.1, fun j hj => hexec j (h.2.1 j hj), h.2.2⟩
  next => exact ⟨fun j hj => hexec j (h.1 j hj), h.2⟩

theorem Fits.row (h : Fits t zValue nThreads m) (ht : t.rows.length ≤ 1000) {w : Nat}
    (hstep : m.row w = some m') : Fits t zValue nThreads m' := by
  obtain ⟨hpool, hcaller, -, hargs⟩ := row_frame hstep
  refine ⟨h.searching.row ht hstep, hpool ▸ h.sound, hpool ▸ h.short, hpool ▸ h.workers_length,
    fun i hi => ?_, h.phase.congr hcaller (by rw [hpool]) fun i hi => by rwa [hpool]⟩
  rw [hpool] at hi
  rw [hargs i (h.finished i hi)]
  exact h.finished i hi

theorem Searching.of_args (h : Searching t zValue nThreads m) (hz : m'.zValue = m.zValue)
    (hargs : m'.args = m.args) (hres : m'.results = m.results) :
    Searching t zValue nThreads m' := by
  obtain ⟨hz', hlen, hreslen, hrest, hun, hwr⟩ := h
  exact ⟨hz.trans hz', hargs ▸ hlen, hres ▸ hreslen, hargs ▸ hrest, hargs ▸ hres ▸ hun,
    hargs ▸ hres ▸ hwr⟩

theorem worker_cases {a : Act Nat} (h : m.worker a = some m') :
    (∀ task, a ≠ .schedule task) ∧ (∃ pool, m.pool.step a = some pool ∧ m' = { m with pool }) ∧
      ∀ w, a = .execute w → ∃ i arg, m.running w = some (i, arg) ∧ arg.rows = [] := by
  cases a with
  | schedule task => exact absurd h (Option.some_ne_none m').symm
  | execute w =>
    obtain ⟨⟨i, arg⟩, hrun, h⟩ := Option.bind_eq_some_iff.mp h
    obtain ⟨hrows, h⟩ := Option.ite_none_right_eq_some.mp h
    obtain ⟨pool, hpool, h⟩ := Option.map_eq_some_iff.mp h
    exact ⟨by rintro _ ⟨⟩, ⟨pool, hpool, h.symm⟩, fun w' hw => ⟨i, arg,
      by rw [← Act.execute.inj hw, hrun], hrows⟩⟩
  | pop w | steal w | wait w | wake w =>
    obtain ⟨pool, hpool, h⟩ := Option.map_eq_some_iff.mp h
    exact ⟨by rintro _ ⟨⟩, ⟨pool, hpool, h.symm⟩, by rintro _ ⟨⟩⟩

theorem Fits.worker (h : Fits t zValue nThreads m) {a : Act Nat} (hstep : m.worker a = some m') :
    Fits t zValue nThreads m' := by
  obtain ⟨ha, ⟨pool, hpool, rfl⟩, hexec⟩ := worker_cases hstep
  obtain ⟨hshort, hlen, hsched, hcase⟩ := ThreadPool.step_frame h.sound h.short ha hpool
  refine ⟨h.searching.of_args rfl rfl rfl, h.sound.step hpool (h.short.cutsOne a), hshort,
    hlen.trans h.workers_length, fun i hi => ?_, h.phase.congr rfl hsched fun i hi => ?_⟩
  · obtain heq | ⟨w, worker, task, rfl, hw, -, htask, heq⟩ := hcase
    · exact h.finished i (heq ▸ hi)
    · rw [heq] at hi
      obtain hi | hi := List.mem_append.mp hi
      · exact h.finished i hi
      · obtain ⟨j, arg, hrun, hrows⟩ := hexec w rfl
        obtain ⟨worker', hw', htask', harg⟩ := running_eq_some hrun
        obtain rfl := Option.some.inj (hw.symm.trans hw')
        obtain rfl := Option.some.inj (htask.symm.trans htask')
        rw [List.mem_singleton.mp hi, harg]
        intro arg' harg'
        rw [← Option.some.inj harg', hrows]
  · obtain heq | ⟨w, worker, task, -, -, -, -, heq⟩ := hcase
    · rwa [heq]
    · rw [heq]
      exact List.mem_append_left _ hi

theorem Fits.of_caller (h : Fits t zValue nThreads m) (caller : Caller)
    (hphase : Phase t zValue nThreads { m with caller }) :
    Fits t zValue nThreads { m with caller } :=
  ⟨h.searching.of_args rfl rfl rfl, h.sound, h.short, h.workers_length, h.finished, hphase⟩

theorem Fits.schedule (h : Fits t zValue nThreads m) {i : Nat} {pool : ThreadPool Nat}
    (hcaller : m.caller = .schedule i) (hi : i < nThreads) (hpool : m.pool.schedule i = some pool) :
    Fits t zValue nThreads { m with pool, caller := .schedule (i + 1) } := by
  have hphase := h.phase
  rw [Phase, hcaller] at hphase
  have hlen : m.pool.scheduled.length < m.pool.workers.length := by
    rwa [hphase.2, List.length_range, h.workers_length]
  obtain ⟨hshort, hworkers, hsched, hexec⟩ :=
    ThreadPool.schedule_frame h.sound h.short hlen hpool
  refine ⟨h.searching.of_args rfl rfl rfl, h.sound.schedule hpool, hshort,
    hworkers.trans h.workers_length, hexec ▸ h.finished, hi, ?_⟩
  rw [hsched, hphase.2, List.range_succ]

theorem Fits.call (h : Fits t zValue nThreads m) (hsettled : m.Settled .caller)
    (hstep : m.call = some m') : Fits t zValue nThreads m' := by
  have hphase := h.phase
  have hlen := h.searching.args_length
  unfold Search.call at hstep
  split at hstep
  next i hcaller =>
    rw [Phase, hcaller] at hphase
    by_cases hi : i < m.args.length
    · rw [if_pos hi] at hstep
      obtain ⟨pool, hpool, rfl⟩ := Option.map_eq_some_iff.mp hstep
      exact h.schedule hcaller (hlen ▸ hi) hpool
    · rw [if_neg hi] at hstep
      obtain rfl := Option.some.inj hstep
      have heq : i = nThreads := le_antisymm hphase.1 (hlen ▸ not_lt.mp hi)
      exact h.of_caller .test (heq ▸ hphase.2)
  next hcaller =>
    rw [Phase, hcaller] at hphase
    obtain rfl := Option.some.inj hstep
    by_cases hdone : m.allDone
    · rw [if_pos hdone]
      refine h.of_caller (.sum 0 0) ⟨Nat.zero_le _, fun j hj => ?_, rfl⟩
      have hsizes : ∀ worker ∈ m.pool.workers, worker.localQueueSize ≤ 0 := fun worker hworker =>
        of_decide_eq_true (List.all_eq_true.mp hdone worker hworker)
      exact h.sound.all_executed hsizes (hsettled hcaller hdone)
        (hphase ▸ List.mem_range.mpr hj)
    · rw [if_neg hdone]
      exact h.of_caller .test hphase
  next i totalResults hcaller =>
    rw [Phase, hcaller] at hphase
    obtain ⟨hi, hexec, htotal⟩ := hphase
    split at hstep
    next arg harg =>
      obtain rfl := Option.some.inj hstep
      have hlt : i < nThreads := hlen ▸ (List.getElem?_eq_some_iff.mp harg).1
      refine h.of_caller _ ⟨hlt, hexec, ?_⟩
      rw [h.searching.counted_of_over harg (h.finished i (hexec i hlt) arg harg), htotal,
        List.range_succ, List.flatMap_append, List.flatMap_singleton, List.length_append]
    next hnone =>
      obtain rfl := Option.some.inj hstep
      have heq : i = nThreads :=
        le_antisymm hi (hlen ▸ List.getElem?_eq_none_iff.mp hnone)
      exact h.of_caller _ ⟨hexec, heq ▸ htotal⟩
  next => exact absurd hstep (Option.some_ne_none m').symm

theorem reached_fits (ht : t.rows.length ≤ 1000)
    (h : Machine.Reached step Settled (start t zValue nThreads) m) : Fits t zValue nThreads m := by
  refine h.invariant start_fits fun s a s' hs hok hstep => ?_
  cases a with
  | worker a => exact hs.worker hstep
  | row w => exact hs.row ht hstep
  | caller => exact hs.call hok hstep

end Search

end SqliteMultimodal.Graph.Parallel
