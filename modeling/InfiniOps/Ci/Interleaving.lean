/-
InfiniOps.Ci.Interleaving — the scheduler under concurrent callers.

The state is what the threads share and where each thread stands (`Pc`).
One step of a thread is one region that nothing can interrupt: a region
under `Scheduler._lock` or `ResourcePool._lock`, or one call of
`executor.submit`. `_try_schedule` holds `Scheduler._lock` from `loop` to
`launch`, but every pass of its loop is two steps, so that a finishing job
can release its GPUs between the pop and the decision; a detection made
before the decision may then be out of date, which the arbitrary
`Detection` of the decision covers.

`_run_job` is its body, which may take any course, and its `finally` block:
release (`run`), record the state (`record`), then `_try_schedule`.

A step exists only where no call raises; what an exception does is in
`Scheduler`. Fields marked as bookkeeping are read by no step and serve
the statements only: a clock that counts steps, the time of the last
release and of a job's last failed check, and the logs of the jobs that
`allocate` selected and of those that were released.
-/
import InfiniOps.Ci.Scheduler

namespace InfiniOps.Ci.Interleaving

/-- A job in the queue. -/
structure Queued where
  req : JobRequest
  /-- Bookkeeping: when `allocate` last failed for it. -/
  failedAt : Option Nat := none
  deriving DecidableEq

/-- What the threads share. -/
structure Shared where
  queue : List Queued := []
  /-- Whether `Scheduler._lock` is held across steps. -/
  lock : Bool := false
  jobs : String → Option JobEntry := fun _ => none
  pool : ResourcePool := {}
  /-- The executor's work queue. -/
  executor : List Task := []
  /-- Bookkeeping: the number of steps so far. -/
  clock : Nat := 1
  /-- Bookkeeping: when GPUs were last released. -/
  lastRelease : Nat := 0
  /-- Bookkeeping: the jobs that `allocate` selected. -/
  selected : List Task := []
  /-- Bookkeeping: the jobs that released. -/
  released : List Task := []

/-- Where a thread stands. -/
inductive Pc where
  /-- Before the locked part of `submit`. -/
  | submit (req : JobRequest)
  /-- Before `_try_schedule` acquires the lock. -/
  | schedule
  /-- At the head of the loop. -/
  | loop (remaining : List Queued) (toLaunch : List Task)
  /-- Between the pop and the outcome of `allocate`. -/
  | consider (q : Queued) (remaining : List Queued) (toLaunch : List Task)
  /-- Behind the lock, submitting to the executor. -/
  | launch (toLaunch : List Task)
  /-- In `_run_job`, before the release. -/
  | run (t : Task)
  /-- In the `finally` block, before the state is recorded. -/
  | record (t : Task) (state : JobState)
  | done
  deriving DecidableEq

namespace Pc

/-- One step of a thread; `none` if it has to wait, is done, or a call
would raise. `d` is what detection returns and `state` how a job ends, if
the step asks. -/
def step (cfg : Config) (d : Detection) (state : JobState) (sh : Shared) : Pc → Option (Shared × Pc)
  | .submit req =>
    if sh.lock then none
    else if sh.queue.length ≥ maxQueueSize then some (sh, .done)
    else
      some ({ sh with
        jobs := Function.update sh.jobs req.jobId
          (some { request := req, state := .queued, gpuIds := [] })
        queue := sh.queue ++ [{ req }] }, .schedule)
  | .schedule =>
    if sh.lock then none else some ({ sh with lock := true }, .loop [] [])
  | .loop remaining toLaunch =>
    match sh.queue with
    | q :: queue => some ({ sh with queue }, .consider q remaining toLaunch)
    | [] => some ({ sh with queue := remaining, lock := false }, .launch toLaunch)
  | .consider q remaining toLaunch =>
    match Ci.consider cfg d sh.pool q.req, sh.jobs q.req.jobId with
    | .ok (pool, gpuIds, true), some entry =>
      let t : Task := { req := q.req, gpuIds }
      some ({ sh with
        pool
        jobs := markRunning sh.jobs entry q.req gpuIds
        selected := sh.selected ++ [t] }, .loop remaining (toLaunch ++ [t]))
    | .ok (pool, _, false), _ =>
      some ({ sh with pool }, .loop (remaining ++ [{ q with failedAt := some sh.clock }]) toLaunch)
    | _, _ => none
  | .launch (t :: toLaunch) => some ({ sh with executor := sh.executor ++ [t] }, .launch toLaunch)
  | .launch [] => some (sh, .done)
  | .run t =>
    some ({ sh with
      pool := sh.pool.release t.gpuIds
      lastRelease := sh.clock
      released := sh.released ++ [t] }, .record t state)
  | .record t state =>
    if sh.lock then none
    else
      some ({ sh with
        jobs := Function.update sh.jobs t.req.jobId
          ((sh.jobs t.req.jobId).map fun e => { e with state }) }, .schedule)
  | .done => none

/-- The jobs selected by `allocate` that a thread has in its hands and has
not released. -/
def tasks : Pc → List Task
  | .loop _ toLaunch | .consider _ _ toLaunch | .launch toLaunch => toLaunch
  | .run t => [t]
  | .submit _ | .schedule | .record _ _ | .done => []

/-- The jobs that a thread has found to lack resources and will put back. -/
def remaining : Pc → List Queued
  | .loop remaining _ | .consider _ remaining _ => remaining
  | .submit _ | .schedule | .launch _ | .run _ | .record _ _ | .done => []

/-- Whether the thread holds `Scheduler._lock`. -/
def holds : Pc → Bool
  | .loop _ _ | .consider _ _ _ => true
  | .submit _ | .schedule | .launch _ | .run _ | .record _ _ | .done => false

/-- Whether the thread is going to consider the whole queue. -/
def pending : Pc → Bool
  | .schedule | .record _ _ => true
  | .submit _ | .loop _ _ | .consider _ _ _ | .launch _ | .run _ | .done => false

/-- Whether the thread is between its queue append or its release and the
return of the `_try_schedule` that follows. -/
def scheduling : Pc → Bool
  | .schedule | .loop _ _ | .consider _ _ _ | .launch _ | .record _ _ => true
  | .submit _ | .run _ | .done => false

end Pc

/-- The shared state and the threads. -/
structure Sys where
  sh : Shared
  threads : List Pc

/-- Every step counts. -/
def Shared.tick (sh : Shared) : Shared := { sh with clock := sh.clock + 1 }

/-- The steps: a thread's own, a new caller of `submit`, and the executor
starting a job on a thread. -/
inductive Step (cfg : Config) : Sys → Unit → Sys → Prop where
  | thread {sh sh' : Shared} {pre post : List Pc} {pc pc' : Pc} (d : Detection) (state : JobState)
      (h : pc.step cfg d state sh = some (sh', pc')) :
      Step cfg ⟨sh, pre ++ pc :: post⟩ () ⟨sh'.tick, pre ++ pc' :: post⟩
  | arrive {sh : Shared} {threads : List Pc} (req : JobRequest) :
      Step cfg ⟨sh, threads⟩ () ⟨sh.tick, threads ++ [.submit req]⟩
  | start {sh : Shared} {threads : List Pc} {t : Task} {rest : List Task}
      (h : sh.executor = t :: rest) :
      Step cfg ⟨sh, threads⟩ () ⟨{ sh with executor := rest }.tick, threads ++ [.run t]⟩

/-- The system starts with a new scheduler over a pool with nothing
allocated, and no threads. -/
def lts (cfg : Config) : Lts Sys Unit where
  init s := (∃ pool : ResourcePool, pool.allocated = ∅ ∧ s.sh = { pool }) ∧ s.threads = []
  step := Step cfg

/-- The jobs selected by `allocate` that have not executed their release:
in a thread's hands or in the executor's work queue. -/
def inFlight (s : Sys) : List Task := s.sh.executor ++ s.threads.flatMap Pc.tasks

/-- No thread is between its append or release and the return of its
`_try_schedule`. -/
def Quiet (s : Sys) : Prop := ∀ pc ∈ s.threads, pc.scheduling = false

end InfiniOps.Ci.Interleaving
