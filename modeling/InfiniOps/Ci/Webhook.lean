/-
InfiniOps.Ci.Webhook — the POST side of the agent's webhook server
(`WebhookHandler` in `.ci/agent.py`).

A handler sends responses, changes the scheduler and may raise; an
exception ends the request, with what was sent before it. `WebhookHost` has
what is outside of the handler: the JSON decoder and the hash, either of
which may be any function, the texts of values, and what the other threads
do to the scheduler in the meantime.

The requests for jobs carry more than the scheduler reads (the branch, the
commit, the image tag); of these only the id and the name are modelled.

`Answered` is what a client is promised, and `Regular` the calls that keep
the promise.
-/
import InfiniOps.Ci.DockerArgs
import InfiniOps.Ci.SchedulerTheorems
import InfiniOps.Lib.OrderedDict
import InfiniOps.Lib.Traced

namespace InfiniOps.Ci

/-! ## Values and exceptions -/

/-- A decoded JSON value. -/
inductive Json where
  | null
  | bool (b : Bool)
  | int (n : Int)
  | float (x : PyFloat)
  | str (s : String)
  | list (l : List Json)
  | dict (entries : List (String × Json))

inductive HandlerExc where
  | attributeError
  | typeError
  | valueError (message : String)
  | queueFull (message : String)
  /-- An exception of a call that is not looked into. -/
  | other (e : PyExc)

/-- A value as a condition. -/
def Json.truthy : Json → Bool
  | .null => false
  | .bool b => b
  | .int n => n ≠ 0
  | .float x => x ≠ .fin 0
  | .str s => s ≠ ""
  | .list l => !l.isEmpty
  | .dict entries => !entries.isEmpty

/-- `v.get(key, default)`. Only a mapping has it. -/
def Json.get (v : Json) (key : String) (default : Json) : Except HandlerExc Json :=
  match v with
  | .dict entries => .ok ((entries.lookup key).getD default)
  | _ => .error .attributeError

/-- `v.removeprefix(pre)`. Only a text has it. -/
def Json.removePrefix (v : Json) (pre : String) : Except HandlerExc Json :=
  match v with
  | .str s => .ok (.str ((afterPrefix pre s).getD s))
  | _ => .error .attributeError

/-- A status and the fields of a JSON body. -/
structure Response where
  status : Nat
  data : List (String × Json)

/-- The job is said to be accepted. -/
def Response.accepted (r : Response) : Bool :=
  match r.data.lookup "accepted" with
  | some (.bool b) => b
  | _ => false

/-- `json.loads`. -/
inductive Loaded where
  | value (v : Json)
  | decodeError
  | raised (e : PyExc)

/-! ## Surroundings -/

/-- `Content-Length` and the like; `stream` is what follows the headers. -/
structure Request where
  path : String
  header : String → Option String
  stream : List UInt8

/-- What `AgentServer` holds. -/
structure Server where
  platform : String
  jobs : OrderedDict String CiJob
  webhookSecret : Option String := none
  apiToken : Option String := none
  dryRun : Bool := false

/-- The configuration of its scheduler. -/
def Server.config (srv : Server) : Config where
  jobs name := (srv.jobs.get? name).map CiJob.resources
  dryRun := srv.dryRun

/-- What happens outside of the handler. -/
structure WebhookHost where
  hmacSha256 : String → List UInt8 → List UInt8
  loads : List UInt8 → Loaded
  /-- `str(v)`. -/
  str : Json → String
  /-- `repr(v)`. -/
  repr : Json → String
  /-- `get_git_commit()`. -/
  gitCommit : Except PyExc String
  /-- The id of the `i`-th job request. -/
  newId : Nat → String
  /-- What other threads do before the `i`-th submission takes the lock. -/
  before : Nat → Scheduler → Scheduler
  /-- What they do before it schedules. -/
  between : Nat → Scheduler → Scheduler
  /-- What its detections return. -/
  detections : Nat → Nat → Detection

abbrev Handler := Traced Response Scheduler HandlerExc

/-- `_respond_json`. -/
def respondJson (status : Nat) (data : List (String × Json)) : Handler Unit :=
  Traced.emit ⟨status, data⟩

section

variable (h : WebhookHost) (srv : Server)

/-! ## Authentication -/

def isAscii (c : Char) : Bool := c.toNat < 128

/-- `hmac.compare_digest` of two texts. -/
def compareDigest (a b : String) : Except HandlerExc Bool :=
  if a.toList.all isAscii ∧ b.toList.all isAscii then .ok (a = b) else .error .typeError

/-- `bytes.hex`. -/
def hexdigest (bytes : List UInt8) : String :=
  .ofList (bytes.flatMap fun b => [Nat.digitChar (b.toNat / 16), Nat.digitChar (b.toNat % 16)])

/-- `verify_signature`. -/
def verifySignature (secret : String) (body : List UInt8) (signatureHeader : String) :
    Except HandlerExc Bool :=
  if signatureHeader = "" then .ok false
  else compareDigest ("sha256=" ++ hexdigest (h.hmacSha256 secret body)) signatureHeader

/-- Without a secret every request is authentic. -/
def checkSignature (req : Request) (body : List UInt8) : Except HandlerExc Bool :=
  if pyOr srv.webhookSecret "" = "" then .ok true
  else verifySignature h (pyOr srv.webhookSecret "") body
    ((req.header "X-Hub-Signature-256").getD "")

/-- `_verify_api_token`, before its response. -/
def apiTokenValid (req : Request) : Bool :=
  pyOr srv.apiToken "" = "" ∨
    (req.header "Authorization").getD "" = "Bearer " ++ pyOr srv.apiToken ""

/-! ## Submission -/

/-- `resolve_job_names`. A list or a mapping cannot be looked up. -/
def resolveJobNames (job : Json) : Except HandlerExc (List String) :=
  if job.truthy then
    match job with
    | .list _ => .error .typeError
    | .dict _ => .error .typeError
    | .str name =>
      if name ∈ srv.jobs.keys then .ok [name]
      else .error (.valueError ("job " ++ h.repr job ++ " not found in config"))
    | _ => .error (.valueError ("job " ++ h.repr job ++ " not found in config"))
  else if srv.platform = "" then .ok srv.jobs.keys
  else
    let matching := srv.jobs.entries.filter fun (_, cfg) => cfg.platform = some srv.platform
    if matching = [] then
      .error (.valueError ("no jobs for platform " ++ h.repr (.str srv.platform)))
    else .ok (matching.map Prod.fst)

/-- `Scheduler.submit` of the `i`-th request, up to its exception. -/
def submit (i : Nat) (name : String) (s : Scheduler) : Scheduler × Except HandlerExc String :=
  let req : JobRequest := ⟨h.newId i, name⟩
  let s := h.before i s
  if s.queue.length ≥ maxQueueSize then
    (s, .error (.queueFull ("queue full (" ++ toString maxQueueSize ++ " jobs), try again later")))
  else
    match (h.between i (s.enqueue req)).trySchedule srv.config (h.detections i) with
    | (s, none) => (s, .ok req.jobId)
    | (s, some e) => (s, .error (.other e))

/-- `for name in job_names`, from the `i`-th request on. -/
def submitLoop : List String → Nat → List String → Handler (List String)
  | [], _, jobIds => pure jobIds
  | name :: names, i, jobIds => do
    match ← Traced.step (submit h srv i name) with
    | .ok jid => submitLoop names (i + 1) (jobIds ++ [jid])
    | .error (.queueFull message) => do
      respondJson 503 [("error", .str message)]
      return jobIds
    | .error e => Traced.raise e

/-- `_submit_jobs`. -/
def submitJobs (job : Json) : Handler (List String) :=
  match resolveJobNames h srv job with
  | .error (.valueError message) => do
    respondJson 400 [("error", .str message)]
    return []
  | .error e => Traced.raise e
  | .ok names => submitLoop h srv names 0 []

/-- The last two lines of both handlers. -/
def acceptJobs (job : Json) : Handler Unit := do
  let jobIds ← submitJobs h srv job
  respondJson 200 [("accepted", .bool true), ("job_ids", .list (jobIds.map .str))]

/-! ## The handlers -/

/-- `_parse_push`. -/
def parsePush (payload : Json) : Except HandlerExc (Json × Json) := do
  let ref ← payload.get "ref" (.str "")
  let branch ← ref.removePrefix "refs/heads/"
  let sha ← payload.get "after" (.str "")
  return (branch, sha)

/-- `_parse_pull_request`. -/
def parsePullRequest (payload : Json) : Except HandlerExc (Json × Json) := do
  let pr ← payload.get "pull_request" (.dict [])
  let head ← pr.get "head" (.dict [])
  let branch ← head.get "ref" (.str "")
  let sha ← head.get "sha" (.str "")
  return (branch, sha)

/-- `action in ("opened", "synchronize")`. -/
def Json.isHandledAction : Json → Bool
  | .str s => s = "opened" ∨ s = "synchronize"
  | _ => false

/-- The end of `_handle_webhook`. -/
def acceptBranch (branch sha : Json) : Handler Unit :=
  if !branch.truthy || !sha.truthy then
    respondJson 400 [("error", .str "could not extract branch/sha")]
  else acceptJobs h srv .null

/-- `_handle_webhook`, once the payload is decoded. -/
def handleEvent (eventType : String) (payload : Json) : Handler Unit := do
  if eventType = "push" then
    let (branch, sha) ← Traced.ofExcept (parsePush payload)
    acceptBranch h srv branch sha
  else if eventType = "pull_request" then
    let action ← Traced.ofExcept (payload.get "action" (.str ""))
    if action.isHandledAction then
      let (branch, sha) ← Traced.ofExcept (parsePullRequest payload)
      acceptBranch h srv branch sha
    else respondJson 200 [("msg", .str ("ignored PR action: " ++ h.str action))]
  else respondJson 200 [("msg", .str ("ignored event: " ++ eventType))]

/-- `try: payload = json.loads(body)` and what follows it, in both handlers. -/
def withPayload (body : List UInt8) (next : Json → Handler Unit) : Handler Unit :=
  match h.loads body with
  | .decodeError => respondJson 400 [("error", .str "invalid JSON")]
  | .raised e => Traced.raise (.other e)
  | .value payload => next payload

/-- `_handle_webhook`. -/
def handleWebhook (req : Request) (body : List UInt8) : Handler Unit := do
  let valid ← Traced.ofExcept (checkSignature h srv req body)
  if !valid then respondJson 401 [("error", .str "invalid signature")]
  else
    let eventType := (req.header "X-GitHub-Event").getD ""
    if eventType = "ping" then respondJson 200 [("msg", .str "pong")]
    else withPayload h body (handleEvent h srv eventType)

/-- `_handle_api_run`, once the payload is decoded. -/
def runPayload (payload : Json) : Handler Unit := do
  let branch ← Traced.ofExcept (payload.get "branch" (.str ""))
  let sha ← Traced.ofExcept (payload.get "commit_sha" (.str ""))
  let job ← Traced.ofExcept (payload.get "job" .null)
  if !branch.truthy then respondJson 400 [("error", .str "branch is required")]
  else
    let _ ← Traced.ofExcept
      (if sha.truthy then .ok sha else (h.gitCommit.map .str).mapError .other)
    acceptJobs h srv job

/-- `_handle_api_run`. -/
def handleApiRun (req : Request) (body : List UInt8) : Handler Unit :=
  if !apiTokenValid srv req then respondJson 401 [("error", .str "unauthorized")]
  else withPayload h body (runPayload h srv)

/-- `MAX_CONTENT_LENGTH`. -/
def maxContentLength : Int := 1 * 1024 * 1024

/-- `int(self.headers.get("Content-Length", 0))`. -/
def contentLength (req : Request) : Except HandlerExc Int :=
  match req.header "Content-Length" with
  | none => .ok 0
  | some text => (pyIntOfString text.toList).mapError .other

/-- `self.rfile.read(n)`, where -1 is everything. -/
def readBody (stream : List UInt8) (n : Int) : Except HandlerExc (List UInt8) :=
  if n < -1 then .error (.valueError "read length must be non-negative or -1")
  else if n = -1 then .ok stream
  else .ok (stream.take n.toNat)

/-- `do_POST`. -/
def doPost (req : Request) : Handler Unit := do
  let length ← Traced.ofExcept (contentLength req)
  if length > maxContentLength then respondJson 413 [("error", .str "payload too large")]
  else
    let body ← Traced.ofExcept (readBody req.stream length)
    if req.path = "/webhook" then handleWebhook h srv req body
    else if req.path = "/api/run" then handleApiRun h srv req body
    else respondJson 404 [("error", .str "not found")]

end

/-! ## What a client is promised -/

/-- One response, and no error next to an acceptance. -/
structure Answered (sent : List Response) : Prop where
  one : sent.length = 1
  consistent : ∀ r ∈ sent, ∀ r' ∈ sent, 400 ≤ r.status → r'.accepted = false

/-- Other threads leave every queued job its entry. -/
structure WebhookHost.KeepsEntries (h : WebhookHost) : Prop where
  before : ∀ i s, Registered s.jobs s.queue → Registered (h.before i s).jobs (h.before i s).queue
  between : ∀ i s, Registered s.jobs s.queue → Registered (h.between i s).jobs (h.between i s).queue

/-- A request to a server, in a state of its scheduler. Every queued job has
an entry, as in all states that a scheduler reaches. -/
structure PostCall where
  host : WebhookHost
  srv : Server
  req : Request
  scheduler : Scheduler
  registered : Registered scheduler.jobs scheduler.queue
  keepsEntries : host.KeepsEntries

/-- The responses to it. -/
def PostCall.responses (x : PostCall) : List Response :=
  (doPost x.host x.srv x.req).sent x.scheduler

section

variable (h : WebhookHost) (srv : Server)

/-- The jobs that a request is for. -/
def selectedJobs (job : Json) : List String :=
  if job.truthy then
    match job with
    | .str name => if name ∈ srv.jobs.keys then [name] else []
    | _ => []
  else if srv.platform = "" then srv.jobs.keys
  else (srv.jobs.entries.filter fun (_, cfg) => cfg.platform = some srv.platform).map Prod.fst

/-- At each submission the queue has room, and the calls that scheduling
makes for the queued jobs return. -/
def RoomForAll : List String → Nat → Scheduler → Prop
  | [], _, _ => True
  | name :: names, i, s =>
    let queued := h.between i ((h.before i s).enqueue ⟨h.newId i, name⟩)
    (h.before i s).queue.length < maxQueueSize ∧
      CallsReturn srv.config (h.detections i) queued ∧
      RoomForAll names (i + 1) (queued.trySchedule srv.config (h.detections i)).1

/-- A job that is named is known, and a platform that is named has one. -/
def JobsFound (job : Json) : Prop :=
  job.truthy = true ∨ srv.platform ≠ "" → selectedJobs srv job ≠ []

/-- The request is for known jobs, and there is room for them. -/
def Submittable (job : Json) (s : Scheduler) : Prop :=
  JobsFound srv job ∧ RoomForAll h srv (selectedJobs srv job) 0 s

/-- A mapping, whose `ref` is a text. If it names a branch, with a commit,
there is room for the jobs of the platform. -/
def PushRegular (payload : Json) (s : Scheduler) : Prop :=
  ∃ entries ref, payload = .dict entries ∧
    (entries.lookup "ref").getD (.str "") = .str ref ∧
    (ref ≠ "" → ref ≠ "refs/heads/" →
      ((entries.lookup "after").getD (.str "")).truthy = true → Submittable h srv .null s)

/-- A mapping, with mappings for `pull_request` and its `head`. -/
def PullRequestRegular (payload : Json) (s : Scheduler) : Prop :=
  ∃ entries pr head, payload = .dict entries ∧
    (entries.lookup "pull_request").getD (.dict []) = .dict pr ∧
    (pr.lookup "head").getD (.dict []) = .dict head ∧
    (((head.lookup "ref").getD (.str "")).truthy = true →
      ((head.lookup "sha").getD (.str "")).truthy = true → Submittable h srv .null s)

/-- The payload has the shape that its event is read with. -/
structure EventRegular (eventType : String) (payload : Json) (s : Scheduler) : Prop where
  push : eventType = "push" → PushRegular h srv payload s
  pullRequest : eventType = "pull_request" → ∃ entries, payload = .dict entries ∧
    (((entries.lookup "action").getD (.str "")).isHandledAction = true →
      PullRequestRegular h srv payload s)

/-- The signature is ASCII and the body decodes or fails as JSON. -/
structure WebhookRegular (req : Request) (body : List UInt8) (s : Scheduler) : Prop where
  signature : pyOr srv.webhookSecret "" ≠ "" →
    ((req.header "X-Hub-Signature-256").getD "").toList.all isAscii
  decodes : checkSignature h srv req body = .ok true →
    (req.header "X-GitHub-Event").getD "" ≠ "ping" → ∀ e, h.loads body ≠ .raised e
  event : checkSignature h srv req body = .ok true →
    (req.header "X-GitHub-Event").getD "" ≠ "ping" → ∀ payload, h.loads body = .value payload →
      EventRegular h srv ((req.header "X-GitHub-Event").getD "") payload s

/-- A mapping, whose job is known. -/
def PayloadRegular (payload : Json) (s : Scheduler) : Prop :=
  ∃ entries, payload = .dict entries ∧
    (((entries.lookup "branch").getD (.str "")).truthy = true →
      (((entries.lookup "commit_sha").getD (.str "")).truthy = false →
        ∃ commit, h.gitCommit = .ok commit) ∧
      Submittable h srv ((entries.lookup "job").getD .null) s)

/-- The body decodes or fails as JSON, to a mapping. -/
structure ApiRunRegular (req : Request) (body : List UInt8) (s : Scheduler) : Prop where
  decodes : apiTokenValid srv req = true → ∀ e, h.loads body ≠ .raised e
  payload : apiTokenValid srv req = true → ∀ payload, h.loads body = .value payload →
    PayloadRegular h srv payload s

end

/-- A length that can be read, and a regular request on either path. -/
def PostCall.Regular (x : PostCall) : Prop :=
  ∃ length, contentLength x.req = .ok length ∧ -1 ≤ length ∧
    (length ≤ maxContentLength → ∀ body, readBody x.req.stream length = .ok body →
      (x.req.path = "/webhook" → WebhookRegular x.host x.srv x.req body x.scheduler) ∧
      (x.req.path = "/api/run" → ApiRunRegular x.host x.srv x.req body x.scheduler))

end InfiniOps.Ci
