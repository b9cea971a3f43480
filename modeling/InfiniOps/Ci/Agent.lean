/-
InfiniOps.Ci.Agent — what the runner agent keeps about its jobs, and what it
tells about them (`get_job`, `get_status` and `wait_all` of `Scheduler` in
`.ci/agent.py`).

Of `_jobs`, `Interleaving` has what scheduling decides by. `Agent` adds the
rest of the dictionary: the order in which jobs were entered, which is the
order in which Python goes through it, and the `result` of each. The id of
a job is drawn at random, and taken to be new; so an entry is never
replaced.

`_run_job` ends with a result of its own job, or without one; the state it
records is that of the result, or a failure (`JobRecord.ofResult`).
-/
import InfiniOps.Ci.Interleaving
import InfiniOps.Ci.JobStatus

namespace InfiniOps.Ci

/-- The constant of a state. -/
def JobState.status : JobState → JobStatus
  | .queued => .queued
  | .running => .running
  | .success => .success
  | .failure => .failure

/-- `state in (STATE_SUCCESS, STATE_FAILURE)`. -/
def JobState.terminal : JobState → Bool
  | .success | .failure => true
  | .queued | .running => false

/-- How far a job has come. -/
def JobState.rank : JobState → Nat
  | .queued => 0
  | .running => 1
  | .success | .failure => 2

namespace Interleaving

/-- An entry of `_jobs`, with its result. -/
structure Entry extends JobEntry where
  result : Option JobResult
  deriving DecidableEq

/-- The agent's threads and the rest of `_jobs`. -/
structure Agent where
  sys : Sys
  /-- The requests in `_jobs`, in the order of insertion. -/
  accepted : List JobRequest := []
  /-- The `result` fields. -/
  results : String → Option JobResult := fun _ => none
  /-- Bookkeeping: the ids that were drawn for jobs so far. -/
  drawn : List String := []

/-! ## Steps -/

namespace Pc

/-- The request that the thread is going to submit. -/
def arriving : Pc → List JobRequest
  | .submit req => [req]
  | _ => []

/-- What a step from here to there enters into `_jobs`. -/
def accepts : Pc → Pc → List JobRequest
  | .submit req, .schedule => [req]
  | _, _ => []

/-- `self._jobs[req.job_id]["result"] = result`. -/
def writes (result : Option JobResult) (results : String → Option JobResult) :
    Pc → String → Option JobResult
  | .record t _ => Function.update results t.req.jobId result
  | _ => results

/-- The state recorded is that of the result, which is about the job. -/
def Reports (result : Option JobResult) : Pc → Prop
  | .record t state =>
    state.status = (JobRecord.ofResult result).state ∧
      ∀ r ∈ result, r.jobId = t.req.jobId ∧ r.jobName = t.req.jobName
  | _ => True

end Pc

/-- A request is about to be submitted. -/
def Agent.arrive (a : Agent) (req : JobRequest) : Agent where
  sys := ⟨a.sys.sh.tick, a.sys.threads ++ [.submit req]⟩
  accepted := a.accepted
  results := a.results
  drawn := req.jobId :: a.drawn

/-- The requests that are about to be submitted. -/
def arriving (threads : List Pc) : List JobRequest := threads.flatMap Pc.arriving

/-- The steps of `Interleaving.Step`, where the id of a new job is new. -/
inductive Agent.Step (cfg : Config) : Agent → Unit → Agent → Prop where
  | thread {sh sh' : Shared} {pre post : List Pc} {pc pc' : Pc} {accepted : List JobRequest}
      {results : String → Option JobResult} {drawn : List String} (d : Detection)
      (state : JobState) (result : Option JobResult)
      (h : pc.step cfg d state sh = some (sh', pc')) (hreports : pc.Reports result) :
      Step cfg ⟨⟨sh, pre ++ pc :: post⟩, accepted, results, drawn⟩ ()
        ⟨⟨sh'.tick, pre ++ pc' :: post⟩, accepted ++ pc.accepts pc', pc.writes result results, drawn⟩
  | arrive {sh : Shared} {threads : List Pc} {accepted : List JobRequest}
      {results : String → Option JobResult} {drawn : List String} (req : JobRequest)
      (hfresh : req.jobId ∉ drawn) :
      Step cfg ⟨⟨sh, threads⟩, accepted, results, drawn⟩ ()
        ⟨⟨sh.tick, threads ++ [.submit req]⟩, accepted, results, req.jobId :: drawn⟩
  | start {sh : Shared} {threads : List Pc} {accepted : List JobRequest}
      {results : String → Option JobResult} {drawn : List String} {t : Task} {rest : List Task}
      (h : sh.executor = t :: rest) :
      Step cfg ⟨⟨sh, threads⟩, accepted, results, drawn⟩ ()
        ⟨⟨{ sh with executor := rest }.tick, threads ++ [.run t]⟩, accepted, results, drawn⟩

/-- An agent from its construction on. -/
def agentLts (cfg : Config) : Lts Agent Unit where
  init a := (lts cfg).init a.sys ∧ a.accepted = [] ∧ a.results = (fun _ => none) ∧ a.drawn = []
  step := Agent.Step cfg

/-! ## What the agent tells -/

namespace Agent

variable (a : Agent)

/-- The state of a job. -/
def state (req : JobRequest) : Option JobState := (a.sys.sh.jobs req.jobId).map JobEntry.state

/-- `self._jobs.values()`. -/
def entries : List Entry :=
  a.accepted.filterMap fun req =>
    (a.sys.sh.jobs req.jobId).map fun e => ⟨e, a.results req.jobId⟩

/-- What `get_job` returns. `returncode` is one of the fields that a result
adds. -/
structure JobInfo where
  jobId : String
  jobName : String
  state : JobStatus
  returncode : Option Int
  deriving DecidableEq

/-- `get_job`. The fields of a result replace those of the request and the
state. -/
def getJob (jobId : String) : Option JobInfo :=
  (a.sys.sh.jobs jobId).map fun entry =>
    match a.results jobId with
    | none => ⟨entry.request.jobId, entry.request.jobName, entry.state.status, none⟩
    | some result => ⟨result.jobId, result.jobName, result.state, some result.returncode⟩

/-- What `get_status` returns about the jobs. -/
structure Status where
  queued : List JobRequest
  running : List (JobRequest × List Int)
  completed : List JobResult
  deriving DecidableEq

/-- `entry["result"].to_dict()`, where `None` has no such method. -/
def completedResult (entry : Entry) : Except PyExc JobResult :=
  match entry.result with
  | some result => .ok result
  | none => .error (.other "AttributeError")

/-- `self._jobs[r.job_id]["request"]`. -/
def queuedRequest (q : Queued) : Except PyExc JobRequest :=
  match a.sys.sh.jobs q.req.jobId with
  | some entry => .ok entry.request
  | none => .error .keyError

/-- `l[-20:]`. -/
def last20 {α : Type} (l : List α) : List α := l.drop (l.length - 20)

/-- The locked part of `get_status`. -/
def getStatus : Except PyExc Status := do
  let queued ← a.sys.sh.queue.mapM a.queuedRequest
  let running := a.entries.filter fun entry => entry.state = .running
  let completed ← (a.entries.filter fun entry => entry.state.terminal).mapM completedResult
  return {
    queued
    running := running.map fun entry => (entry.request, entry.gpuIds)
    completed := last20 completed }

/-- `pending` in `wait_all`. -/
def pending : Bool := a.entries.any fun entry => entry.state = .queued || entry.state = .running

/-- What `wait_all` returns once it has found no job pending. -/
def waitResult : List JobResult := a.entries.filterMap Entry.result

end Agent

/-! ## Where the jobs are -/

/-- The requests that a thread has taken from the queue and not decided, or
will put back. -/
def Pc.hands : Pc → List JobRequest
  | .loop remaining _ => remaining.map Queued.req
  | .consider q remaining _ => remaining.map Queued.req ++ [q.req]
  | _ => []

/-- The jobs that are selected and not recorded yet. -/
def Pc.working : Pc → List Task
  | .loop _ toLaunch | .consider _ _ toLaunch | .launch toLaunch => toLaunch
  | .run t | .record t _ => [t]
  | _ => []

/-- The jobs that wait: in the hands of the thread in the loop, then in the
queue. -/
def waitingJobs (s : Sys) : List JobRequest :=
  s.threads.flatMap Pc.hands ++ s.sh.queue.map Queued.req

/-- The jobs between the decision of `allocate` and the record of their
state. -/
def workingJobs (s : Sys) : List Task := s.sh.executor ++ s.threads.flatMap Pc.working

end Interleaving

end InfiniOps.Ci
