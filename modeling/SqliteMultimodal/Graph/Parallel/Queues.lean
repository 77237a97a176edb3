import Mathlib.Algebra.Order.Group.Int
import SqliteMultimodal.Graph.Parallel.Tasks

namespace SqliteMultimodal.Graph.Parallel

namespace ThreadPool

variable {α : Type} {p p' : ThreadPool α}

section Target

theorem target_fold (workers : List (Worker α × Nat)) (best : Int × Nat) :
    let last := workers.foldl (fun min worker =>
      if worker.1.localQueueSize < min.1 then (worker.1.localQueueSize, worker.2) else min) best
    last.1 ≤ best.1 ∧ (∀ worker ∈ workers, last.1 ≤ worker.1.localQueueSize) ∧
      (last = best ∨ ∃ worker ∈ workers, last = (worker.1.localQueueSize, worker.2)) := by
  induction workers generalizing best with
  | nil => exact ⟨le_refl _, fun _ h => absurd h List.not_mem_nil, Or.inl rfl⟩
  | cons worker workers ih =>
    rw [List.foldl_cons]
    obtain ⟨hbest, hall, hsome⟩ := ih
      (if worker.1.localQueueSize < best.1 then (worker.1.localQueueSize, worker.2) else best)
    by_cases hlt : worker.1.localQueueSize < best.1
    · simp only [if_pos hlt] at hbest hall hsome ⊢
      refine ⟨hbest.trans (le_of_lt hlt), List.forall_mem_cons.mpr ⟨hbest, hall⟩, Or.inr ?_⟩
      obtain heq | ⟨w, hw, heq⟩ := hsome
      · exact ⟨worker, List.mem_cons_self, heq⟩
      · exact ⟨w, List.mem_cons_of_mem _ hw, heq⟩
    · simp only [if_neg hlt] at hbest hall hsome ⊢
      refine ⟨hbest, List.forall_mem_cons.mpr ⟨hbest.trans (not_lt.mp hlt), hall⟩, ?_⟩
      exact hsome.imp_right fun ⟨w, hw, heq⟩ => ⟨w, List.mem_cons_of_mem _ hw, heq⟩

theorem targetWorker_le {worker target : Worker α} (hworker : worker ∈ p.workers)
    (hsize : worker.localQueueSize < intMax) (htarget : p.workers[p.targetWorker]? = some target) :
    target.localQueueSize ≤ worker.localQueueSize := by
  obtain ⟨-, hall, hsome⟩ := target_fold p.workers.zipIdx (intMax, 0)
  obtain ⟨i, hi⟩ := List.mem_iff_getElem?.mp hworker
  have hle := hall (worker, i) (List.mem_zipIdx_iff_getElem?.mpr hi)
  obtain heq | ⟨w, hw, heq⟩ := hsome
  · rw [heq] at hle
    exact absurd hsize (not_lt.mpr hle)
  · have hi := List.mem_zipIdx_iff_getElem?.mp hw
    have htw : p.targetWorker = w.2 := congrArg Prod.snd heq
    rw [htw, hi] at htarget
    obtain rfl := Option.some.inj htarget
    rw [heq] at hle
    exact hle

end Target

def Short (p : ThreadPool α) : Prop := ∀ worker ∈ p.workers, worker.localQueue.length ≤ 1

theorem exists_empty (hsound : p.Sound) (hlen : p.scheduled.length < p.workers.length) :
    ∃ worker ∈ p.workers, worker.localQueue = [] := by
  by_contra hfull
  simp only [not_exists, not_and] at hfull
  have hle : ∀ workers : List (Worker α), (∀ worker ∈ workers, worker.localQueue ≠ []) →
      workers.length ≤ (workers.flatMap Worker.tasks).length := by
    intro workers h
    induction workers with
    | nil => exact Nat.zero_le _
    | cons worker workers ih =>
      have hpos := List.length_pos_iff.mpr (h worker List.mem_cons_self)
      have hrest := ih fun w hw => h w (List.mem_cons_of_mem _ hw)
      rw [List.flatMap_cons, List.length_append, Worker.tasks, List.length_append,
        List.length_cons]
      omega
  have hplaces := hsound.placed.length_eq
  rw [places, List.length_append] at hplaces
  have := hle p.workers hfull
  omega

theorem schedule_frame [DecidableEq α] {task : α} (hsound : p.Sound) (hshort : p.Short)
    (hlen : p.scheduled.length < p.workers.length) (h : p.schedule task = some p') :
    p'.Short ∧ p'.workers.length = p.workers.length ∧ p'.scheduled = p.scheduled ++ [task] ∧
      p'.executed = p.executed := by
  obtain ⟨target, -, htarget, rfl⟩ := schedule_cases h
  obtain ⟨worker, hworker, hempty⟩ := exists_empty hsound hlen
  have hsize := (hsound.fits worker hworker).size
  rw [hempty, List.length_nil] at hsize
  have hle := targetWorker_le hworker (hsize.trans_lt (show (0 : Int) < intMax by decide)) htarget
  have htsize := (hsound.fits target (List.mem_of_getElem? htarget)).size
  refine ⟨fun w hw => ?_, by simp, rfl, rfl⟩
  obtain ⟨before, hbefore, rfl⟩ := List.mem_map.mp hw
  have hsignal : before.signal.localQueue = before.localQueue := by
    unfold Worker.signal
    split <;> rfl
  rw [hsignal]
  obtain hmem | rfl := List.mem_or_eq_of_mem_set hbefore
  · exact hshort before hmem
  · rw [Worker.push, List.length_cons]
    rw [hsize] at hle
    simp at hle
    omega

theorem Short.cutsOne [DecidableEq α] (h : p.Short) (a : Act α) : p.CutsOne a := by
  cases a with
  | steal w =>
    intro victim hvictim
    unfold ThreadPool.victim at hvictim
    split at hvictim
    next worker hw =>
      split at hvictim
      next i hi =>
        split at hvictim
        next => exact absurd hvictim (Option.not_mem_none victim)
        next => exact Nat.lt_of_le_of_lt (h victim (List.mem_of_getElem? hvictim)) (by decide)
      next => exact absurd hvictim (Option.not_mem_none victim)
    next => exact absurd hvictim (Option.not_mem_none victim)
  | schedule | pop | execute | wait | wake => trivial

theorem Short.set (h : p.Short) {worker worker' : Worker α} {w : Nat}
    (hw : p.workers[w]? = some worker)
    (hle : worker'.localQueue.length ≤ worker.localQueue.length) :
    ∀ worker ∈ p.workers.set w worker', worker.localQueue.length ≤ 1 := by
  intro v hv
  obtain hv | rfl := List.mem_or_eq_of_mem_set hv
  · exact h v hv
  · exact hle.trans (h worker (List.mem_of_getElem? hw))

theorem step_frame [DecidableEq α] {a : Act α} (hsound : p.Sound) (hshort : p.Short)
    (ha : ∀ task, a ≠ .schedule task) (h : p.step a = some p') :
    p'.Short ∧ p'.workers.length = p.workers.length ∧ p'.scheduled = p.scheduled ∧
      (p'.executed = p.executed ∨ ∃ w worker task, a = .execute w ∧
        p.workers[w]? = some worker ∧ worker.point = .execute ∧ worker.task = some task ∧
        p'.executed = p.executed ++ [task]) := by
  obtain ⟨task, rfl, h⟩ | ⟨w, worker, rfl, hw, hpoint, rfl⟩ |
    ⟨w, worker, i, rfl, hw, hpoint, h⟩ | ⟨w, worker, task, rfl, hw, hpoint, htask, rfl⟩ |
    ⟨w, worker, point, -, hw, hpoint, -, rfl⟩ := step_cases h
  · exact absurd rfl (ha task)
  · refine ⟨hshort.set hw ?_, List.length_set, rfl, Or.inl rfl⟩
    unfold Worker.pop
    split
    next task rest hqueue =>
      rw [hqueue, List.length_cons]
      exact Nat.le_succ _
    next => exact le_refl _
  · obtain ⟨point, rfl, -⟩ | ⟨victim, hi, -, hsize⟩ := steal_cases h
    · exact ⟨hshort.set hw (le_refl _), List.length_set, rfl, Or.inl rfl⟩
    · have hone := hshort victim (List.mem_of_getElem? hi)
      rw [(hsound.fits victim (List.mem_of_getElem? hi)).size] at hsize
      omega
  · exact ⟨hshort.set hw (le_refl _), List.length_set, rfl,
      Or.inr ⟨w, worker, task, rfl, hw, hpoint, htask, rfl⟩⟩
  · exact ⟨hshort.set hw (le_refl _), List.length_set, rfl, Or.inl rfl⟩

theorem start_short (nThreads : Nat) : (start nThreads : ThreadPool α).Short := by
  intro worker hworker
  rw [List.eq_of_mem_replicate hworker]
  exact Nat.zero_le 1

theorem Sound.all_executed (h : p.Sound) (hqueue : ∀ worker ∈ p.workers, worker.localQueueSize ≤ 0)
    (htask : ∀ worker ∈ p.workers, worker.task = none) {task : α} (hmem : task ∈ p.scheduled) :
    task ∈ p.executed := by
  have hempty : p.workers.flatMap Worker.tasks = [] := by
    refine List.flatMap_eq_nil_iff.mpr fun worker hworker => ?_
    have hsize := (h.fits worker hworker).size ▸ hqueue worker hworker
    have hnil : worker.localQueue = [] := List.eq_nil_of_length_eq_zero (by omega)
    rw [Worker.tasks, hnil, htask worker hworker]
    rfl
  have hplaced := h.placed.mem_iff.mp hmem
  rwa [places, hempty] at hplaced

end ThreadPool

end SqliteMultimodal.Graph.Parallel
