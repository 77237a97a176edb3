import SqliteMultimodal.Lib.Machine

/-! The thread pool of `graph-parallel.c`. A step is one section under the mutex of the pool, or the
execution of the task a worker holds; between two steps any other worker may run. -/

universe u

namespace SqliteMultimodal.Graph.Parallel

/-- Where a thread is in `workerThreadMain`. -/
inductive Point
  | top
  | steal (i : Nat)
  | execute
  | wait
  | asleep
  deriving DecidableEq, Repr

structure Worker (α : Type u) where
  localQueue : List α
  localQueueSize : Int
  tasksExecuted : Nat
  tasksStolen : Nat
  task : Option α
  point : Point
  deriving Repr

/-- `scheduled` and `executed` are history; no section reads them. -/
structure ThreadPool (α : Type u) where
  workers : List (Worker α)
  stealingEnabled : Bool
  scheduled : List α
  executed : List α
  deriving Repr

inductive Act (α : Type u)
  | schedule (task : α)
  | pop (w : Nat)
  | steal (w : Nat)
  | execute (w : Nat)
  | wait (w : Nat)
  | wake (w : Nat)
  deriving Repr

variable {α : Type u}

def intMax : Int := 2147483647

namespace Worker

def init : Worker α := ⟨[], 0, 0, 0, none, .top⟩

def signal (worker : Worker α) : Worker α :=
  if worker.point = .asleep then { worker with point := .top } else worker

def push (worker : Worker α) (task : α) : Worker α :=
  { worker with
    localQueue := task :: worker.localQueue
    localQueueSize := worker.localQueueSize + 1 }

def pop (worker : Worker α) (stealingEnabled : Bool) : Worker α :=
  match worker.localQueue with
  | task :: rest =>
    { worker with
      localQueue := rest
      localQueueSize := worker.localQueueSize - 1
      task := some task
      point := .execute }
  | [] => { worker with point := if stealingEnabled then .steal 0 else .wait }

def robbed (victim : Worker α) (kept : List α) (stealCount : Int) : Worker α :=
  { victim with
    localQueue := kept
    localQueueSize := victim.localQueueSize - stealCount }

def thief (worker : Worker α) (i : Nat) (stolen : List α) (stealCount : Int) : Worker α :=
  { worker with
    task := stolen.head?
    tasksStolen := worker.tasksStolen + stealCount.toNat
    point := if stolen = [] then .steal (i + 1) else .execute }

def done (worker : Worker α) : Worker α :=
  { worker with
    task := none
    tasksExecuted := worker.tasksExecuted + 1
    point := .top }

end Worker

/-- The queue up to the link that is reached by following `pNext` so many times, and what hangs on
that link. There is no link behind the end. -/
def cut : Nat → List α → Option (List α × List α)
  | 0, queue => some ([], queue)
  | _ + 1, [] => none
  | n + 1, task :: queue => (cut n queue).map fun parts => (task :: parts.1, parts.2)

namespace ThreadPool

def start (nThreads : Nat) : ThreadPool α := ⟨List.replicate nThreads .init, true, [], []⟩

def targetWorker (p : ThreadPool α) : Nat :=
  (p.workers.zipIdx.foldl (fun min worker =>
    if worker.1.localQueueSize < min.1 then (worker.1.localQueueSize, worker.2) else min)
    (intMax, 0)).2

/-- A task is allocated for one call. A counter at `INT_MAX` cannot be incremented. -/
def schedule [DecidableEq α] (p : ThreadPool α) (task : α) : Option (ThreadPool α) :=
  if task ∈ p.scheduled then none
  else
    match p.workers[p.targetWorker]? with
    | none => none
    | some worker =>
      if worker.localQueueSize < intMax then
        some { p with
          workers := (p.workers.set p.targetWorker (worker.push task)).map Worker.signal
          scheduled := p.scheduled ++ [task] }
      else none

def steal (p : ThreadPool α) (w : Nat) (worker : Worker α) (i : Nat) : Option (ThreadPool α) :=
  let skip := some { p with workers := p.workers.set w { worker with point := .steal (i + 1) } }
  match p.workers[i]? with
  | none => some { p with workers := p.workers.set w { worker with point := .wait } }
  | some victim =>
    if i = w then skip
    else if victim.localQueueSize > 1 then
      let stealCount := victim.localQueueSize / 2
      match cut (victim.localQueueSize - stealCount).toNat victim.localQueue with
      | none => none
      | some (kept, stolen) =>
        let victim := victim.robbed kept stealCount
        let worker := worker.thief i stolen stealCount
        some { p with workers := (p.workers.set i victim).set w worker }
    else skip

def step [DecidableEq α] (p : ThreadPool α) : Act α → Option (ThreadPool α)
  | .schedule task => p.schedule task
  | .pop w => (p.workers[w]?).bind fun worker =>
    if worker.point = .top then
      some { p with workers := p.workers.set w (worker.pop p.stealingEnabled) }
    else none
  | .steal w => (p.workers[w]?).bind fun worker =>
    match worker.point with
    | .steal i => p.steal w worker i
    | _ => none
  | .execute w => (p.workers[w]?).bind fun worker =>
    if worker.point = .execute then
      worker.task.map fun task =>
        { p with workers := p.workers.set w worker.done, executed := p.executed ++ [task] }
    else none
  | .wait w => (p.workers[w]?).bind fun worker =>
    if worker.point = .wait then
      let point := if worker.localQueue = [] then .asleep else .top
      some { p with workers := p.workers.set w { worker with point := point } }
    else none
  | .wake w => (p.workers[w]?).bind fun worker =>
    if worker.point = .asleep then
      some { p with workers := p.workers.set w { worker with point := .top } }
    else none

end ThreadPool

end SqliteMultimodal.Graph.Parallel
