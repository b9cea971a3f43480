/-
InfiniOps.Ci.Scheduler — the job scheduler of the CI runner agent
(`Scheduler` in `.ci/agent.py`), one call at a time.

`scheduleLoop` is the loop of `_try_schedule` with its containers: the
queue it pops from, `remaining`, and `to_launch`. A call inside the loop
may raise; the exception leaves the loop where it is, so the job just
popped and the two local containers are gone, while `_jobs` and the pool
keep what was done to them. `trySchedule` puts the outcome back into the
scheduler.

`Op` lists what happens to a scheduler: `submit` appends to the queue, a
finishing `_run_job` releases its GPUs and records its state, and
`_try_schedule` follows both. The concurrent reading of the same code is
in `Interleaving`.
-/
import InfiniOps.Ci.Resource
import InfiniOps.Lib.Transition

namespace InfiniOps.Ci

structure JobRequest where
  jobId : String
  jobName : String
  deriving DecidableEq, Repr

/-- The `STATE_…` constants that a job entry takes. -/
inductive JobState where
  | queued | running | success | failure
  deriving DecidableEq, Repr

/-- An entry of `_jobs`. -/
structure JobEntry where
  request : JobRequest
  state : JobState
  gpuIds : List Int
  deriving DecidableEq

/-- A job handed to the executor. -/
structure Task where
  req : JobRequest
  gpuIds : List Int
  deriving DecidableEq

/-- `_config` and `_dry_run`, as far as the scheduler reads them. -/
structure Config where
  /-- `config["jobs"]`: the resources of each job. -/
  jobs : String → Option Resources
  dryRun : Bool := false
  /-- `str.lower`, by default that of ASCII texts. -/
  lower : List Char → List Char := List.map Char.toLower

/-- `config["jobs"].get(name, {}).get("resources", {})`. -/
def Config.resources (cfg : Config) (name : String) : Resources := (cfg.jobs name).getD {}

/-- `MAX_QUEUE_SIZE`. -/
def maxQueueSize : Nat := 100

/-- The mutable state of `Scheduler`. `running` are the jobs handed to the
executor and not yet released. -/
structure Scheduler where
  queue : List JobRequest := []
  jobs : String → Option JobEntry := fun _ => none
  pool : ResourcePool := {}
  running : List Task := []

/-- The calls made for one popped job: both parsers, then `allocate`. -/
def consider (cfg : Config) (d : Detection) (pool : ResourcePool) (req : JobRequest) :
    Except PyExc (ResourcePool × List Int × Bool) := do
  let resources := cfg.resources req.jobName
  let gpuCount ← parseGpuRequirement resources
  let memoryMb ← parseMemoryRequirement cfg.lower resources
  if cfg.dryRun then
    return (pool, [], true)
  else
    pool.allocate d gpuCount memoryMb

/-- What the loop has changed so far. -/
structure LoopState where
  jobs : String → Option JobEntry
  pool : ResourcePool
  remaining : List JobRequest := []
  toLaunch : List Task := []

/-- How the loop ended: what it left in `_queue`, its state, and the
exception if it raised. -/
structure LoopResult where
  queue : List JobRequest
  st : LoopState
  raised : Option PyExc

/-- `self._jobs[req.job_id]` set to running on the given GPUs. -/
def markRunning (jobs : String → Option JobEntry) (entry : JobEntry) (req : JobRequest)
    (gpuIds : List Int) : String → Option JobEntry :=
  Function.update jobs req.jobId (some { entry with state := .running, gpuIds })

/-- `while self._queue:`. The `i`-th pass sees the `i`-th detection. -/
def scheduleLoop (cfg : Config) : List JobRequest → (Nat → Detection) → LoopState → LoopResult
  | [], _, st => { queue := [], st, raised := none }
  | req :: queue, ds, st =>
    match consider cfg (ds 0) st.pool req with
    | .error e => { queue, st, raised := some e }
    | .ok (pool, gpuIds, true) =>
      match st.jobs req.jobId with
      | none => { queue, st := { st with pool }, raised := some .keyError }
      | some entry =>
        scheduleLoop cfg queue (fun i => ds (i + 1))
          { st with
            pool
            jobs := markRunning st.jobs entry req gpuIds
            toLaunch := st.toLaunch ++ [{ req, gpuIds }] }
    | .ok (pool, _, false) =>
      scheduleLoop cfg queue (fun i => ds (i + 1))
        { st with pool, remaining := st.remaining ++ [req] }

namespace Scheduler

/-- `_try_schedule`: the new state, and the exception if it raised. The
executor accepts each job of `to_launch`. -/
def trySchedule (cfg : Config) (ds : Nat → Detection) (s : Scheduler) : Scheduler × Option PyExc :=
  let r := scheduleLoop cfg s.queue ds { jobs := s.jobs, pool := s.pool }
  match r.raised with
  | some e => ({ s with queue := r.queue, jobs := r.st.jobs, pool := r.st.pool }, some e)
  | none =>
    ({ queue := r.st.remaining
       jobs := r.st.jobs
       pool := r.st.pool
       running := s.running ++ r.st.toLaunch }, none)

/-- The locked part of `submit`. A full queue raises `QueueFullError` and
changes nothing. -/
def enqueue (s : Scheduler) (req : JobRequest) : Scheduler :=
  if s.queue.length ≥ maxQueueSize then s
  else
    { s with
      jobs := Function.update s.jobs req.jobId (some { request := req, state := .queued, gpuIds := [] })
      queue := s.queue ++ [req] }

/-- The `finally` block of `_run_job`, up to its `_try_schedule`, for the
`i`-th running job: release, then record the state. -/
def complete (s : Scheduler) (i : Nat) (state : JobState) : Scheduler :=
  match s.running[i]? with
  | none => s
  | some t =>
    { s with
      pool := s.pool.release t.gpuIds
      jobs := Function.update s.jobs t.req.jobId
        ((s.jobs t.req.jobId).map fun e => { e with state })
      running := s.running.eraseIdx i }

end Scheduler

/-- What happens to a scheduler. -/
inductive Op where
  | enqueue (req : JobRequest)
  | complete (i : Nat) (state : JobState)
  | trySchedule (ds : Nat → Detection)

def Op.apply (cfg : Config) : Op → Scheduler → Scheduler
  | .enqueue req, s => s.enqueue req
  | .complete i state, s => s.complete i state
  | .trySchedule ds, s => (s.trySchedule cfg ds).1

/-- A scheduler from its construction on, over any pool with nothing
allocated. -/
def schedulerLts (cfg : Config) : Lts Scheduler Op where
  init s := s.queue = [] ∧ s.running = [] ∧ s.pool.allocated = ∅
  step s op t := t = op.apply cfg s

/-! ## What a call must not do -/

/-- The calls made for a job return: both texts parse, and the detections
that `allocate` makes do not raise. -/
def JobOk (cfg : Config) (d : Detection) (req : JobRequest) : Prop :=
  ∃ gpuCount memoryMb,
    parseGpuRequirement (cfg.resources req.jobName) = .ok gpuCount ∧
    parseMemoryRequirement cfg.lower (cfg.resources req.jobName) = .ok memoryMb ∧
    (cfg.dryRun = true ∨
      (0 < gpuCount → ∃ gpus, d.gpus = .ok gpus) ∧
      (ResourcePool.wantsMemory memoryMb = true → ∃ sysRes, d.system = .ok sysRes))

/-- The calls made for every queued job return. -/
def CallsReturn (cfg : Config) (ds : Nat → Detection) (s : Scheduler) : Prop :=
  ∀ i (h : i < s.queue.length), JobOk cfg (ds i) s.queue[i]

/-- From `s` to `t` no job is lost and no GPU is leaked: every job queued
before is still queued, in the same order, or has been handed to the
executor once and is running; and the GPUs allocated are those of the jobs
handed to the executor and not yet released. -/
structure Conserved (s t : Scheduler) : Prop where
  jobs : ∃ launched : List Task,
    t.running = s.running ++ launched ∧
    t.queue.Sublist s.queue ∧
    (t.queue ++ launched.map Task.req).Perm s.queue ∧
    ∀ l ∈ launched, (t.jobs l.req.jobId).map JobEntry.state = some .running
  gpus : ∀ g, g ∈ t.pool.allocated ↔ ∃ task ∈ t.running, g ∈ task.gpuIds

end InfiniOps.Ci
