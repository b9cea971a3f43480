/-
InfiniOps.Ci.RemoteDispatch — jobs that are sent to agents on other
machines (`cmd_run`, `dispatch_remote_job` and `poll_remote_job` in
`.ci/agent.py`, and the handlers of `/api/run` and `/api/job` that answer
them).

A `World` has any number of agents, each with its threads and whatever else
is submitted to it, the HTTP exchanges that the client started, and the
client. The client dispatches one job after the other, then polls for all
of them at once, and exits when each has a result. Between any two of its
steps the agents may take any number of theirs. An exchange may fail at any
point: a request that is not served, an error status, an answer that is
late or lost.

The steps of an agent are those of `Agent`: job ids are new, and no call
raises. The texts that are printed and the logs that are fetched for them
are left out.
-/
import InfiniOps.Ci.Agent
import InfiniOps.Ci.Webhook

namespace InfiniOps.Ci.Remote

open Interleaving

/-! ## The command line -/

/-- A job and the URL of the agent it is for. -/
structure Target where
  name : String
  url : String
  deriving DecidableEq

/-- What `cmd_run` selects jobs by: the configuration and its arguments. -/
structure CmdRun where
  jobs : OrderedDict String CiJob
  /-- `agents[platform]["url"]`. -/
  agents : String → Option String
  platform : Option String
  job : Option String
  dryRun : Bool

/-- The agent of a job; `none` where `cmd_run` exits with 1. -/
def CmdRun.target (c : CmdRun) (name : String) : Option Target :=
  let platform := ((c.jobs.get? name).bind CiJob.platform).getD ""
  let url := (c.agents platform).getD ""
  if url = "" then none else some ⟨name, url⟩

/-- `resolve_job_names` with the arguments. -/
def CmdRun.jobNames (c : CmdRun) (h : WebhookHost) : Except HandlerExc (List String) :=
  resolveJobNames h { platform := pyOr c.platform "", jobs := c.jobs }
    (match c.job with
      | some job => .str job
      | none => .null)

/-- `jobs_to_dispatch`; `none` where `cmd_run` exits with 1 before it
dispatches any. -/
def CmdRun.jobsToDispatch (c : CmdRun) (h : WebhookHost) : Option (List Target) :=
  match c.jobNames h with
  | .ok (name :: names) => (name :: names).mapM c.target
  | _ => none

/-- The jobs that requests are sent for; a dry run only prints them. -/
def CmdRun.todo (c : CmdRun) (jobsToDispatch : List Target) : List Target :=
  if c.dryRun then [] else jobsToDispatch

/-! ## Exchanges -/

inductive Ask where
  /-- `POST /api/run`. -/
  | run (job : String)
  /-- `GET /api/job/{id}`. -/
  | job (jobId : String)
  deriving DecidableEq

inductive Reply where
  /-- An error status, or nothing that can be read. -/
  | failed
  | jobIds (ids : List String)
  | info (info : Agent.JobInfo)
  deriving DecidableEq

structure Exchange where
  url : String
  ask : Ask
  /-- `job_names` in the handler, once it has resolved them. -/
  names : Option (List String) := none
  /-- The requests that the handler has submitted so far. -/
  reqs : List JobRequest := []
  reply : Option Reply := none
  deriving DecidableEq

/-- The job that is asked for. -/
def Exchange.dispatched (e : Exchange) : Option Target :=
  match e.ask with
  | .run job => some ⟨job, e.url⟩
  | .job _ => none

/-- The jobs that its agent was given. -/
def Exchange.submitted (e : Exchange) : List Target := e.reqs.map fun req => ⟨req.jobName, e.url⟩

/-- What `dispatch_remote_job` makes of the responses that a server sends.
It reads the first; an error status raises. -/
def firstJobId (sent : List Response) : Option String :=
  match sent with
  | [] => none
  | r :: _ =>
    if 400 ≤ r.status then none
    else
      match r.data.lookup "job_ids" with
      | some (.list (.str jobId :: _)) => some jobId
      | _ => none

/-! ## The client -/

/-- A call of `poll_remote_job` that has not returned. -/
structure Poll where
  target : Target
  jobId : String
  /-- Bookkeeping: the exchange that the job was dispatched in. -/
  sentIn : Nat
  /-- The exchange whose reply it waits for. -/
  asked : Option Nat := none

inductive Outcome where
  | error
  | timeout
  | info (info : Agent.JobInfo)

/-- An entry of `results`. -/
structure Result where
  target : Target
  /-- Bookkeeping: the exchange that the job was dispatched in. -/
  sentIn : Nat
  outcome : Outcome

/-- `r.get("state") == STATE_SUCCESS`. -/
def Result.passed (r : Result) : Bool :=
  match r.outcome with
  | .info info => info.state = .success
  | .error | .timeout => false

/-- `cmd_run` from its first dispatch on. `call` is the exchange in which
the first of `todo` is being dispatched. -/
structure Client where
  todo : List Target
  call : Option Nat := none
  polls : List Poll := []
  results : List Result := []

/-- The exit code, once every job has a result. -/
def Client.exitCode (c : Client) : Option Nat :=
  if c.todo.isEmpty && c.polls.isEmpty then some (if c.results.all Result.passed then 0 else 1)
  else none

/-- The targets whose dispatch has not begun. -/
def Client.unsent (c : Client) : List Target :=
  match c.call with
  | some _ => c.todo.tail
  | none => c.todo

/-! ## The world -/

structure World where
  /-- The agents, by URL. -/
  agents : String → Agent
  exchanges : List Exchange := []
  client : Client

/-- The answer to `GET /api/job/{id}`. -/
def jobReply (a : Agent) (jobId : String) : Reply :=
  match a.getJob jobId with
  | some info => .info info
  | none => .failed

/-- The steps of the agents, of the exchanges and of the client. -/
inductive Step (hosts : String → WebhookHost) (srv : String → Server) :
    World → Unit → World → Prop where
  /-- An agent goes on, or somebody else submits a job to it. -/
  | agent {w : World} {a : Agent} (url : String)
      (h : Agent.Step (srv url).config (w.agents url) () a) :
      Step hosts srv w () { w with agents := Function.update w.agents url a }
  /-- The handler of `/api/run` resolves the job that it is asked for. -/
  | resolve {w : World} {k : Nat} {e : Exchange} {job : String} {names : List String}
      (he : w.exchanges[k]? = some e) (hask : e.ask = .run job) (hnames : e.names = none)
      (hreply : e.reply = none)
      (hresolve : resolveJobNames (hosts e.url) (srv e.url) (.str job) = .ok names) :
      Step hosts srv w ()
        { w with exchanges := w.exchanges.set k { e with names := some names } }
  /-- `for name in job_names`: it submits a request for the next name, once
  the ones before are accepted. -/
  | serve {w : World} {k : Nat} {e : Exchange} {names : List String} (req : JobRequest)
      (he : w.exchanges[k]? = some e) (hnames : e.names = some names) (hreply : e.reply = none)
      (hnext : names[e.reqs.length]? = some req.jobName)
      (haccepted : ∀ r ∈ e.reqs, r ∈ (w.agents e.url).accepted)
      (hfresh : req.jobId ∉ (w.agents e.url).drawn) :
      Step hosts srv w ()
        { w with
          agents := Function.update w.agents e.url ((w.agents e.url).arrive req)
          exchanges := w.exchanges.set k { e with reqs := e.reqs ++ [req] } }
  /-- All are accepted, and the handler answers with their ids. -/
  | answerRun {w : World} {k : Nat} {e : Exchange} {names : List String}
      (he : w.exchanges[k]? = some e) (hnames : e.names = some names) (hreply : e.reply = none)
      (hlength : e.reqs.length = names.length)
      (haccepted : ∀ r ∈ e.reqs, r ∈ (w.agents e.url).accepted) :
      Step hosts srv w ()
        { w with
          exchanges :=
            w.exchanges.set k { e with reply := some (.jobIds (e.reqs.map JobRequest.jobId)) } }
  /-- The handler of `/api/job` looks a job up. -/
  | answerJob {w : World} {k : Nat} {e : Exchange} {jobId : String}
      (he : w.exchanges[k]? = some e) (hask : e.ask = .job jobId) (hreply : e.reply = none)
      (hlock : (w.agents e.url).sys.sh.lock = false) :
      Step hosts srv w ()
        { w with
          exchanges :=
            w.exchanges.set k { e with reply := some (jobReply (w.agents e.url) jobId) } }
  /-- A handler answers with an error status, or raises. -/
  | fail {w : World} {k : Nat} {e : Exchange} (he : w.exchanges[k]? = some e)
      (hreply : e.reply = none) :
      Step hosts srv w () { w with exchanges := w.exchanges.set k { e with reply := some .failed } }
  /-- `dispatch_remote_job` sends its request. -/
  | send {w : World} {t : Target} {todo : List Target} (htodo : w.client.todo = t :: todo)
      (hcall : w.client.call = none) :
      Step hosts srv w ()
        { w with
          exchanges := w.exchanges ++ [{ url := t.url, ask := .run t.name }]
          client := { w.client with call := some w.exchanges.length } }
  /-- It returns an id. -/
  | sent {w : World} {t : Target} {todo : List Target} {k : Nat} {e : Exchange} {jobId : String}
      {ids : List String} (htodo : w.client.todo = t :: todo) (hcall : w.client.call = some k)
      (he : w.exchanges[k]? = some e) (hreply : e.reply = some (.jobIds (jobId :: ids)))
      (hne : jobId ≠ "") :
      Step hosts srv w ()
        { w with
          client :=
            { w.client with
              todo
              call := none
              polls := w.client.polls ++ [{ target := t, jobId, sentIn := k }] } }
  /-- It returns `None`. -/
  | sendFailed {w : World} {t : Target} {todo : List Target} {k : Nat}
      (htodo : w.client.todo = t :: todo) (hcall : w.client.call = some k) :
      Step hosts srv w ()
        { w with
          client :=
            { w.client with
              todo
              call := none
              results := w.client.results ++ [{ target := t, sentIn := k, outcome := .error }] } }
  /-- `poll_remote_job` sends a request, once all jobs are dispatched. -/
  | poll {w : World} {pre post : List Poll} {p : Poll} (htodo : w.client.todo = [])
      (hpolls : w.client.polls = pre ++ p :: post) (hasked : p.asked = none) :
      Step hosts srv w ()
        { w with
          exchanges := w.exchanges ++ [{ url := p.target.url, ask := .job p.jobId }]
          client :=
            { w.client with
              polls := pre ++ { p with asked := some w.exchanges.length } :: post } }
  /-- The reply has no final state, or there is none. -/
  | pollAgain {w : World} {pre post : List Poll} {p : Poll}
      (hpolls : w.client.polls = pre ++ p :: post) :
      Step hosts srv w ()
        { w with client := { w.client with polls := pre ++ { p with asked := none } :: post } }
  /-- The reply has one. -/
  | pollDone {w : World} {pre post : List Poll} {p : Poll} {k : Nat} {e : Exchange}
      {info : Agent.JobInfo} (hpolls : w.client.polls = pre ++ p :: post)
      (hasked : p.asked = some k) (he : w.exchanges[k]? = some e)
      (hreply : e.reply = some (.info info))
      (hfinal : info.state = .success ∨ info.state = .failure) :
      Step hosts srv w ()
        { w with
          client :=
            { w.client with
              polls := pre ++ post
              results := w.client.results ++ [⟨p.target, p.sentIn, .info info⟩] } }
  /-- The deadline has passed. -/
  | pollTimeout {w : World} {pre post : List Poll} {p : Poll}
      (hpolls : w.client.polls = pre ++ p :: post) (hasked : p.asked = none) :
      Step hosts srv w ()
        { w with
          client :=
            { w.client with
              polls := pre ++ post
              results := w.client.results ++ [⟨p.target, p.sentIn, .timeout⟩] } }

/-- A client that is about to dispatch, and agents in any state that they
reach by themselves. -/
def worldLts (hosts : String → WebhookHost) (srv : String → Server) (targets : List Target) :
    Lts World Unit where
  init w := (∀ url, (agentLts (srv url).config).Reachable (w.agents url)) ∧ w.exchanges = [] ∧
    w.client = { todo := targets }
  step := Step hosts srv

end InfiniOps.Ci.Remote
