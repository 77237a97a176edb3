import Mathlib.Data.List.Nodup
import SqliteMultimodal.Graph.Parallel.Pool

universe u

namespace SqliteMultimodal.Graph.Parallel

variable {α : Type u}

namespace Worker

def tasks (worker : Worker α) : List α := worker.localQueue ++ worker.task.toList

structure Fits (worker : Worker α) : Prop where
  size : worker.localQueueSize = worker.localQueue.length
  idle : worker.point ≠ .execute → worker.task = none

theorem init_fits : (init : Worker α).Fits := ⟨rfl, fun _ => rfl⟩

@[simp] theorem signal_tasks (worker : Worker α) : worker.signal.tasks = worker.tasks := by
  unfold signal
  split <;> rfl

theorem Fits.moved {worker : Worker α} (h : worker.Fits) (hpoint : worker.point ≠ .execute)
    (point : Point) : { worker with point := point }.Fits :=
  ⟨h.size, fun _ => h.idle hpoint⟩

theorem Fits.signal {worker : Worker α} (h : worker.Fits) : worker.signal.Fits := by
  unfold Worker.signal
  split
  next hasleep => exact h.moved (by rw [hasleep]; exact Point.noConfusion) _
  next => exact h

theorem Fits.push {worker : Worker α} (h : worker.Fits) (task : α) : (worker.push task).Fits :=
  ⟨by simp only [Worker.push, h.size, List.length_cons]; omega, h.idle⟩

theorem push_tasks (worker : Worker α) (task : α) :
    (worker.push task).tasks = task :: worker.tasks := rfl

theorem Fits.pop {worker : Worker α} (h : worker.Fits) (hpoint : worker.point = .top)
    (stealingEnabled : Bool) : (worker.pop stealingEnabled).Fits := by
  have hidle : worker.point ≠ .execute := by
    rw [hpoint]
    exact Point.noConfusion
  cases hqueue : worker.localQueue with
  | nil =>
    simp only [Worker.pop, hqueue]
    exact ⟨h.size.trans (by rw [hqueue]), fun _ => h.idle hidle⟩
  | cons task rest =>
    simp only [Worker.pop, hqueue]
    refine ⟨?_, fun hne => absurd rfl hne⟩
    simp only [h.size, hqueue, List.length_cons]
    omega

theorem Fits.pop_tasks {worker : Worker α} (h : worker.Fits) (hpoint : worker.point = .top)
    (stealingEnabled : Bool) : (worker.pop stealingEnabled).tasks.Perm worker.tasks := by
  have hnone : worker.task = none := h.idle (by rw [hpoint]; exact Point.noConfusion)
  cases hqueue : worker.localQueue with
  | nil =>
    simp only [Worker.pop, hqueue]
    exact List.Perm.of_eq (by simp [tasks, hqueue])
  | cons task rest =>
    simp only [Worker.pop, hqueue, tasks, hnone, Option.toList_some, Option.toList_none,
      List.append_nil]
    exact List.perm_append_singleton task rest

end Worker

theorem cut_eq {n : Nat} {queue : List α} (h : n ≤ queue.length) :
    cut n queue = some (queue.take n, queue.drop n) := by
  induction n generalizing queue with
  | zero => rfl
  | succ n ih =>
    cases queue with
    | nil => exact absurd h (Nat.not_succ_le_zero n)
    | cons task queue =>
      rw [cut, ih (Nat.le_of_succ_le_succ h)]
      rfl

theorem cut_append (kept stolen : List α) :
    cut kept.length (kept ++ stolen) = some (kept, stolen) := by
  rw [cut_eq (by rw [List.length_append]; exact Nat.le_add_right _ _), List.take_left,
    List.drop_left]

theorem exists_cut {queue : List α} {keep : Nat} (h : keep < queue.length) :
    ∃ kept first lost, queue = kept ++ first :: lost ∧ kept.length = keep := by
  refine ⟨queue.take keep, queue[keep], queue.drop (keep + 1), ?_, ?_⟩
  · rw [← List.drop_eq_getElem_cons h, List.take_append_drop]
  · rw [List.length_take, Nat.min_eq_left (Nat.le_of_lt h)]

namespace ThreadPool

def places (p : ThreadPool α) : List α := p.workers.flatMap Worker.tasks ++ p.executed

/-- The worker whose queue the next section of `w` may cut. -/
def victim (p : ThreadPool α) (w : Nat) : Option (Worker α) :=
  match p.workers[w]? with
  | some worker =>
    match worker.point with
    | .steal i => if i = w then none else p.workers[i]?
    | _ => none
  | none => none

def CutsOne (p : ThreadPool α) : Act α → Prop
  | .steal w => ∀ victim ∈ p.victim w, victim.localQueue.length < 4
  | _ => True

instance instDecidableCutsOne (p : ThreadPool α) : DecidablePred p.CutsOne
  | .steal w =>
    inferInstanceAs (Decidable (∀ victim ∈ p.victim w, victim.localQueue.length < 4))
  | .schedule _ | .pop _ | .execute _ | .wait _ | .wake _ => isTrue trivial

structure Conserved [DecidableEq α] (p : ThreadPool α) : Prop where
  sizes : ∀ worker ∈ p.workers, worker.localQueueSize = worker.localQueue.length
  once : ∀ task ∈ p.scheduled, p.places.count task = 1

structure Sound (p : ThreadPool α) : Prop where
  fits : ∀ worker ∈ p.workers, worker.Fits
  fresh : p.scheduled.Nodup
  placed : p.scheduled.Perm p.places

theorem Sound.conserved [DecidableEq α] {p : ThreadPool α} (h : p.Sound) : p.Conserved :=
  ⟨fun worker hworker => (h.fits worker hworker).size, fun task htask => by
    rw [← h.placed.count_eq, List.count_eq_one_of_mem h.fresh htask]⟩

theorem start_sound (nThreads : Nat) : (start nThreads : ThreadPool α).Sound := by
  refine ⟨fun worker hworker => ?_, List.nodup_nil, ?_⟩
  · rw [List.eq_of_mem_replicate hworker]
    exact Worker.init_fits
  · have hempty : (List.replicate nThreads (Worker.init : Worker α)).flatMap Worker.tasks = [] :=
      List.flatMap_eq_nil_iff.mpr fun worker hworker => by
        rw [List.eq_of_mem_replicate hworker]
        rfl
    rw [places, start, hempty]
    exact List.Perm.refl []

section Set

variable {workers : List (Worker α)} {w : Nat} {worker : Worker α}

theorem set_tasks (h : workers[w]? = some worker) (worker' : Worker α) :
    (worker.tasks ++ (workers.set w worker').flatMap Worker.tasks).Perm
      (worker'.tasks ++ workers.flatMap Worker.tasks) := by
  induction workers generalizing w with
  | nil => exact absurd h (Option.some_ne_none worker).symm
  | cons first rest ih =>
    cases w with
    | zero =>
      obtain rfl := Option.some.inj h
      rw [List.set_cons_zero, List.flatMap_cons, List.flatMap_cons]
      exact List.perm_append_comm_assoc _ _ _
    | succ w =>
      rw [List.set_cons_succ, List.flatMap_cons, List.flatMap_cons]
      refine (List.perm_append_comm_assoc _ _ _).trans ?_
      exact ((ih h).append_left _).trans (List.perm_append_comm_assoc _ _ _)

theorem set_fits (h : ∀ worker ∈ workers, worker.Fits) (hworker : worker.Fits) (w : Nat) :
    ∀ worker' ∈ workers.set w worker, worker'.Fits := by
  intro worker' hmem
  obtain hmem | rfl := List.mem_or_eq_of_mem_set hmem
  · exact h worker' hmem
  · exact hworker

end Set

variable {p p' : ThreadPool α}

theorem Sound.set (h : p.Sound) {w : Nat} {worker worker' : Worker α}
    (hw : p.workers[w]? = some worker) (hfits : worker'.Fits)
    (htasks : worker'.tasks.Perm worker.tasks) :
    { p with workers := p.workers.set w worker' }.Sound := by
  refine ⟨set_fits h.fits hfits w, h.fresh, h.placed.trans (List.Perm.append_right _ ?_)⟩
  have hset := (set_tasks hw worker').trans (htasks.append_right _)
  exact ((List.perm_append_left_iff _).mp hset).symm

theorem Sound.moved (h : p.Sound) {w : Nat} {worker : Worker α}
    (hw : p.workers[w]? = some worker) (hpoint : worker.point ≠ .execute) (point : Point) :
    { p with workers := p.workers.set w { worker with point := point } }.Sound :=
  h.set hw ((h.fits worker (List.mem_of_getElem? hw)).moved hpoint point) (List.Perm.refl _)

theorem Sound.executed (h : p.Sound) {w : Nat} {worker : Worker α} {task : α}
    (hw : p.workers[w]? = some worker) (htask : worker.task = some task) :
    { p with workers := p.workers.set w worker.done, executed := p.executed ++ [task] }.Sound := by
  have hfits := h.fits worker (List.mem_of_getElem? hw)
  have hdone : worker.done.Fits := ⟨hfits.size, fun _ => rfl⟩
  refine ⟨set_fits h.fits hdone w, h.fresh, h.placed.trans ?_⟩
  have hset := set_tasks hw worker.done
  simp only [Worker.tasks, Worker.done, htask, Option.toList_some, Option.toList_none,
    List.append_nil, List.append_assoc] at hset
  have hrest := (List.perm_append_left_iff worker.localQueue).mp hset
  simp only [places]
  rw [← List.append_assoc]
  refine (hrest.symm.append_right p.executed).trans ?_
  exact (List.perm_append_singleton task _).symm

section Schedule

variable [DecidableEq α]

theorem schedule_cases {task : α} (h : p.schedule task = some p') :
    ∃ worker, task ∉ p.scheduled ∧ p.workers[p.targetWorker]? = some worker ∧
      p' = { p with
        workers := (p.workers.set p.targetWorker (worker.push task)).map Worker.signal
        scheduled := p.scheduled ++ [task] } := by
  unfold ThreadPool.schedule at h
  split at h
  · exact absurd h (Option.some_ne_none p').symm
  next hfresh =>
    split at h
    · exact absurd h (Option.some_ne_none p').symm
    next worker hw =>
      split at h
      · exact ⟨worker, hfresh, hw, (Option.some.inj h).symm⟩
      · exact absurd h (Option.some_ne_none p').symm

theorem Sound.schedule (h : p.Sound) {task : α} (hstep : p.schedule task = some p') :
    p'.Sound := by
  obtain ⟨worker, hfresh, hw, rfl⟩ := schedule_cases hstep
  have hfits := (h.fits worker (List.mem_of_getElem? hw)).push task
  refine ⟨?_, ?_, ?_⟩
  · intro worker' hmem
    obtain ⟨before, hbefore, rfl⟩ := List.mem_map.mp hmem
    exact (set_fits h.fits hfits _ before hbefore).signal
  · exact List.nodup_append.mpr ⟨h.fresh, List.nodup_singleton task, fun a ha b hb hab =>
      hfresh (List.mem_singleton.mp hb ▸ hab ▸ ha)⟩
  · have hset := set_tasks hw (worker.push task)
    rw [Worker.push_tasks, List.cons_append] at hset
    have htasks := (List.perm_append_left_iff worker.tasks).mp
      (hset.trans List.perm_middle.symm)
    simp only [places, List.flatMap_map, Worker.signal_tasks]
    exact (List.perm_append_singleton task _).trans
      ((h.placed.cons task).trans (htasks.symm.append_right p.executed))

end Schedule

section Steal

variable {w i : Nat} {worker victim : Worker α}

theorem steal_cases (h : p.steal w worker i = some p') :
    (∃ point, p' = { p with workers := p.workers.set w { worker with point := point } } ∧
      ∀ victim, p.workers[i]? = some victim → i ≠ w → victim.localQueueSize ≤ 1) ∨
    ∃ victim, p.workers[i]? = some victim ∧ i ≠ w ∧ 1 < victim.localQueueSize := by
  cases hi : p.workers[i]? with
  | none =>
    simp only [ThreadPool.steal, hi] at h
    exact Or.inl ⟨_, (Option.some.inj h).symm,
      fun victim heq => absurd heq (Option.some_ne_none victim).symm⟩
  | some victim =>
    simp only [ThreadPool.steal, hi] at h
    by_cases hsame : i = w
    · rw [if_pos hsame] at h
      exact Or.inl ⟨_, (Option.some.inj h).symm, fun _ _ hne => absurd hsame hne⟩
    · by_cases hsize : 1 < victim.localQueueSize
      · exact Or.inr ⟨victim, rfl, hsame, hsize⟩
      · rw [if_neg hsame, if_neg hsize] at h
        refine Or.inl ⟨_, (Option.some.inj h).symm, fun v hv _ => ?_⟩
        rw [← Option.some.inj hv]
        exact Int.not_lt.mp hsize

theorem steal_eq {kept stolen : List α} (hi : p.workers[i]? = some victim) (hne : i ≠ w)
    (hsize : 1 < victim.localQueueSize)
    (hcut : cut (victim.localQueueSize - victim.localQueueSize / 2).toNat victim.localQueue =
      some (kept, stolen)) :
    p.steal w worker i = some { p with
      workers := (p.workers.set i (victim.robbed kept (victim.localQueueSize / 2))).set w
        (worker.thief i stolen (victim.localQueueSize / 2)) } := by
  simp only [ThreadPool.steal, hi, if_neg hne, if_pos hsize, hcut]

theorem Sound.theft (h : p.Sound) (hw : p.workers[w]? = some worker)
    (hpoint : worker.point = .steal i) (hi : p.workers[i]? = some victim) (hne : i ≠ w)
    (hsize : 1 < victim.localQueueSize) (hstep : p.steal w worker i = some p') :
    ∃ lost : List α, lost.length + 1 = victim.localQueue.length / 2 ∧
      (lost ++ p'.places).Perm p.places ∧ p'.scheduled = p.scheduled ∧
      ∀ worker ∈ p'.workers, worker.Fits := by
  have hworker := h.fits worker (List.mem_of_getElem? hw)
  have hvictim := h.fits victim (List.mem_of_getElem? hi)
  have hnone : worker.task = none := hworker.idle (by rw [hpoint]; exact Point.noConfusion)
  have hlen := hvictim.size
  obtain ⟨kept, first, lost, hqueue, hkept⟩ := exists_cut
    (show (victim.localQueueSize - victim.localQueueSize / 2).toNat < victim.localQueue.length by
      omega)
  rw [steal_eq hi hne hsize (by rw [← hkept, hqueue, cut_append])] at hstep
  obtain rfl := Option.some.inj hstep
  have hcount : victim.localQueue.length = kept.length + (lost.length + 1) := by
    rw [hqueue, List.length_append, List.length_cons]
  have hrobbed : (victim.robbed kept (victim.localQueueSize / 2)).Fits :=
    ⟨by simp only [Worker.robbed]; omega, hvictim.idle⟩
  have hthief : (worker.thief i (first :: lost) (victim.localQueueSize / 2)).Fits :=
    ⟨hworker.size, fun hexec => absurd rfl hexec⟩
  refine ⟨lost, by omega, ?_, rfl, set_fits (set_fits h.fits hrobbed i) hthief w⟩
  have htaken := set_tasks hi (victim.robbed kept (victim.localQueueSize / 2))
  have hstill : (p.workers.set i (victim.robbed kept (victim.localQueueSize / 2)))[w]? =
      some worker := by rw [List.getElem?_set_ne hne, hw]
  have hhanded := set_tasks hstill (worker.thief i (first :: lost) (victim.localQueueSize / 2))
  classical
  simp only [List.perm_iff_count, List.count_append, places, Worker.tasks, Worker.robbed,
    Worker.thief, hqueue, hnone, List.head?_cons, Option.toList_none, Option.toList_some,
    List.count_nil, List.count_cons] at htaken hhanded ⊢
  intro task
  have htaken := htaken task
  have hhanded := hhanded task
  omega

theorem victim_eq (hw : p.workers[w]? = some worker) (hpoint : worker.point = .steal i)
    (hne : i ≠ w) : p.victim w = p.workers[i]? := by
  simp only [victim, hw, hpoint, if_neg hne]

end Steal

variable [DecidableEq α] {a : Act α} {w : Nat}

theorem step_cases (h : p.step a = some p') :
    (∃ task, a = .schedule task ∧ p.schedule task = some p') ∨
    (∃ w worker, a = .pop w ∧ p.workers[w]? = some worker ∧ worker.point = .top ∧
      p' = { p with workers := p.workers.set w (worker.pop p.stealingEnabled) }) ∨
    (∃ w worker i, a = .steal w ∧ p.workers[w]? = some worker ∧ worker.point = .steal i ∧
      p.steal w worker i = some p') ∨
    (∃ w worker task, a = .execute w ∧ p.workers[w]? = some worker ∧ worker.point = .execute ∧
      worker.task = some task ∧
      p' = { p with workers := p.workers.set w worker.done, executed := p.executed ++ [task] }) ∨
    (∃ w worker point, (a = .wait w ∨ a = .wake w) ∧ p.workers[w]? = some worker ∧
      (worker.point = .wait ∨ worker.point = .asleep) ∧ (point = .asleep ∨ point = .top) ∧
      p' = { p with workers := p.workers.set w { worker with point := point } }) := by
  cases a with
  | schedule task => exact Or.inl ⟨task, rfl, h⟩
  | pop w =>
    obtain ⟨worker, hw, h⟩ := Option.bind_eq_some_iff.mp h
    obtain ⟨hpoint, h⟩ := Option.ite_none_right_eq_some.mp h
    exact Or.inr (Or.inl ⟨w, worker, rfl, hw, hpoint, (Option.some.inj h).symm⟩)
  | steal w =>
    obtain ⟨worker, hw, h⟩ := Option.bind_eq_some_iff.mp h
    split at h
    next i hpoint => exact Or.inr (Or.inr (Or.inl ⟨w, worker, i, rfl, hw, hpoint, h⟩))
    next => exact absurd h (Option.some_ne_none p').symm
  | execute w =>
    obtain ⟨worker, hw, h⟩ := Option.bind_eq_some_iff.mp h
    obtain ⟨hpoint, h⟩ := Option.ite_none_right_eq_some.mp h
    obtain ⟨task, htask, h⟩ := Option.map_eq_some_iff.mp h
    exact Or.inr (Or.inr (Or.inr (Or.inl ⟨w, worker, task, rfl, hw, hpoint, htask, h.symm⟩)))
  | wait w =>
    obtain ⟨worker, hw, h⟩ := Option.bind_eq_some_iff.mp h
    obtain ⟨hpoint, h⟩ := Option.ite_none_right_eq_some.mp h
    refine Or.inr (Or.inr (Or.inr (Or.inr ⟨w, worker, _, Or.inl rfl, hw, Or.inl hpoint, ?_,
      (Option.some.inj h).symm⟩)))
    split
    · exact Or.inl rfl
    · exact Or.inr rfl
  | wake w =>
    obtain ⟨worker, hw, h⟩ := Option.bind_eq_some_iff.mp h
    obtain ⟨hpoint, h⟩ := Option.ite_none_right_eq_some.mp h
    exact Or.inr (Or.inr (Or.inr (Or.inr ⟨w, worker, _, Or.inr rfl, hw, Or.inr hpoint, Or.inr rfl,
      (Option.some.inj h).symm⟩)))

theorem Sound.steal {i : Nat} {worker : Worker α} (h : p.Sound) (hw : p.workers[w]? = some worker)
    (hpoint : worker.point = .steal i) (hstep : p.steal w worker i = some p') :
    (p.CutsOne (.steal w) → p'.Sound) ∧ (p'.Conserved → p.CutsOne (.steal w)) := by
  have hidle : worker.point ≠ .execute := by
    rw [hpoint]
    exact Point.noConfusion
  obtain ⟨point, rfl, hsmall⟩ | ⟨victim, hi, hne, hsize⟩ := steal_cases hstep
  · refine ⟨fun _ => h.moved hw hidle point, fun _ victim hvictim => ?_⟩
    have hne : i ≠ w := by
      rintro rfl
      simp [ThreadPool.victim, hw, hpoint] at hvictim
    rw [victim_eq hw hpoint hne] at hvictim
    have hlen := (h.fits victim (List.mem_of_getElem? hvictim)).size
    have hone := hsmall victim hvictim hne
    omega
  · obtain ⟨lost, hlost, hplaces, hsched, hfits⟩ := h.theft hw hpoint hi hne hsize hstep
    rw [CutsOne, victim_eq hw hpoint hne, hi]
    constructor
    · intro hcut
      have hshort := hcut victim rfl
      have hnil : lost = [] := List.eq_nil_of_length_eq_zero (by omega)
      rw [hnil, List.nil_append] at hplaces
      exact ⟨hfits, hsched ▸ h.fresh, hsched ▸ h.placed.trans hplaces.symm⟩
    · rintro hkept v hv
      obtain rfl := Option.some.inj hv
      by_contra hlong
      obtain ⟨task, htask⟩ := List.exists_mem_of_ne_nil lost
        (List.ne_nil_of_length_pos (by omega))
      have hmem : task ∈ p.scheduled :=
        (hplaces.trans h.placed.symm).mem_iff.mp (List.mem_append_left _ htask)
      have hall := (hplaces.trans h.placed.symm).count_eq task
      rw [List.count_append, List.count_eq_one_of_mem h.fresh hmem,
        hkept.once task (hsched ▸ hmem)] at hall
      have hpos := List.count_pos_iff.mpr htask
      omega

theorem Sound.step (h : p.Sound) (hstep : p.step a = some p') (hcut : p.CutsOne a) : p'.Sound := by
  obtain ⟨task, rfl, hstep⟩ | ⟨w, worker, rfl, hw, hpoint, rfl⟩ |
    ⟨w, worker, i, rfl, hw, hpoint, hstep⟩ | ⟨w, worker, task, rfl, hw, hpoint, htask, rfl⟩ |
    ⟨w, worker, point, -, hw, hpoint, -, rfl⟩ := step_cases hstep
  · exact h.schedule hstep
  · have hfits := h.fits worker (List.mem_of_getElem? hw)
    exact h.set hw (hfits.pop hpoint _) (hfits.pop_tasks hpoint _)
  · exact (h.steal hw hpoint hstep).1 hcut
  · exact h.executed hw htask
  · exact h.moved hw (by obtain hpoint | hpoint := hpoint <;> rw [hpoint] <;> decide) point

theorem Sound.conserved_iff (h : p.Sound) (hstep : p.step a = some p') :
    p'.Conserved ↔ p.CutsOne a := by
  refine ⟨fun hkept => ?_, fun hcut => (h.step hstep hcut).conserved⟩
  cases a with
  | steal w =>
    obtain ⟨worker, hw, hsteal⟩ := Option.bind_eq_some_iff.mp hstep
    split at hsteal
    next i hpoint => exact (h.steal hw hpoint hsteal).2 hkept
    next => exact absurd hsteal (Option.some_ne_none p').symm
  | schedule | pop | execute | wait | wake => trivial

theorem reached_sound {nThreads : Nat}
    (h : Machine.Reached ThreadPool.step CutsOne (start nThreads) p) : p.Sound :=
  h.invariant (start_sound nThreads) fun _ _ _ hs hcut hstep => hs.step hstep hcut

/-- No task is lost or executed twice, as long as every theft cuts one task off. -/
theorem tasks_conserved {nThreads : Nat}
    (h : Machine.Reached ThreadPool.step CutsOne (start nThreads) p) :
    p.Conserved ∧ ∀ a p', p.step a = some p' → (p'.Conserved ↔ p.CutsOne a) :=
  ⟨(reached_sound h).conserved, fun _ _ hstep => (reached_sound h).conserved_iff hstep⟩

def oneStolen : List (Act Nat) :=
  [.schedule 0, .schedule 1, .schedule 2, .pop 1, .execute 1, .pop 1, .steal 1, .execute 1]

theorem tasks_conserved_one_stolen :
    ∃ p : ThreadPool Nat, Machine.run ThreadPool.step (start 2) oneStolen = some p ∧
      p.executed = [1, 0] ∧ p.Conserved ∧
      ∀ a p', p.step a = some p' → (p'.Conserved ↔ p.CutsOne a) := by
  exact ⟨_, rfl, rfl, tasks_conserved (Machine.Reached.run .start oneStolen
    (show Machine.run ThreadPool.step (start 2) oneStolen = some _ from rfl) (by decide))⟩

def twoStolen : List (Act Nat) :=
  (List.range 8).map .schedule ++ (List.replicate 4 [.pop 0, .execute 0]).flatten ++
    [.pop 0, .steal 0, .steal 0, .execute 0, .pop 1, .execute 1, .pop 1, .execute 1]

theorem stolen_task_lost :
    ∃ p : ThreadPool Nat, Machine.Reached ThreadPool.step (fun _ _ => True) (start 2) p ∧
      p.scheduled = List.range 8 ∧ p.places = [6, 4, 2, 0, 3, 7, 5] ∧ ¬p.Conserved := by
  refine ⟨_, Machine.Reached.run .start twoStolen rfl fun _ _ => trivial, rfl, rfl,
    fun h => ?_⟩
  exact absurd (h.once 1 (by decide)) (by decide)

end ThreadPool

end SqliteMultimodal.Graph.Parallel
