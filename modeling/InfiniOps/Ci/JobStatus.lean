/-
InfiniOps.Ci.JobStatus — what GitHub is told about a job, and what the
agent records (`Scheduler._run_job` in `.ci/agent.py`,
`post_commit_status` in `.ci/github_status.py`).

`runJob` takes the outcome of every call that it makes from a `Calls`: a
post is accepted, rejected or raises, and every other step succeeds or
raises. The messages of the computation are the statuses that GitHub
accepted.

`agrees_iff` says when the two agree. They do not where the result is a
success and the final post raises: the handler posts an error, but the
state that is recorded is that of the result.
-/
import InfiniOps.Ci.Scheduler
import InfiniOps.Lib.Except
import InfiniOps.Lib.Traced

namespace InfiniOps.Ci

/-- The `STATE_…` constants. -/
inductive JobStatus where
  | queued | running | pending | success | failure | error
  deriving DecidableEq, Repr

/-- The text of a constant. -/
def JobStatus.name : JobStatus → String
  | .queued => "queued"
  | .running => "running"
  | .pending => "pending"
  | .success => "success"
  | .failure => "failure"
  | .error => "error"

/-- A request with the commit that it is about. -/
structure CommitRequest extends JobRequest where
  commitSha : String
  deriving DecidableEq, Repr

structure JobResult where
  jobId : String
  jobName : String
  commitSha : String
  returncode : Int
  deriving DecidableEq, Repr

/-- `JobResult.state`. -/
def JobResult.state (result : JobResult) : JobStatus :=
  if result.returncode = 0 then .success else .failure

/-- A result for a request. -/
def CommitRequest.result (req : CommitRequest) (returncode : Int) : JobResult :=
  ⟨req.jobId, req.jobName, req.commitSha, returncode⟩

/-! ## Commit statuses -/

/-- The fields of the scheduler that reporting reads, and `GITHUB_TOKEN`. -/
structure Reporter where
  noStatus : Bool := false
  dryRun : Bool := false
  statusPrefix : String
  owner : String
  repo : String
  token : String
  deriving DecidableEq, Repr

/-- The body of a status request. -/
structure CommitStatus where
  state : JobStatus
  context : String
  description : String
  deriving DecidableEq, Repr

/-- `build_status_context`. -/
def buildStatusContext (statusPrefix jobName : String) : String := statusPrefix ++ "/" ++ jobName

/-- What comes of `urlopen`. A response that is cut off or late raises
neither of the two exceptions that are caught. -/
inductive Reply (E : Type) where
  | answered (status : Nat)
  | httpError
  | urlError
  | raised (e : E)

variable {E : Type}

/-- `post_commit_status`, by what comes of the request. -/
def postCommitStatus (r : Reporter) (sha : String) (reply : Reply E) : Except E Bool :=
  if r.token = "" then .ok false
  else if r.owner = "" ∨ r.repo = "" ∨ sha = "" then .ok false
  else
    match reply with
    | .answered status => .ok (200 ≤ status ∧ status < 300)
    | .httpError => .ok false
    | .urlError => .ok false
    | .raised e => .error e

/-! ## A run -/

/-- The steps between the first and the last post, but for `proc.wait`. -/
inductive RunStep where
  | jobConfig | buildResultsDir | buildDockerArgs | startClock
  | printDryRun
  | makeDirectory | popen | copyOutput | closeOutput | fallbackTimeout
  | kill | waitKilled | appendTimeout | decodeTail
  | stopClock | jobResult
  deriving DecidableEq, Repr

/-- What comes of `proc.wait(timeout=…)`. -/
inductive WaitOutcome (E : Type) where
  | exited (returncode : Int)
  | timedOut
  | raised (e : E)

/-- The outcome of every call. -/
structure Calls (E : Type) where
  pendingReply : Reply E
  step : RunStep → Except E Unit
  wait : WaitOutcome E
  /-- `f"{duration:.0f}"`. -/
  durationText : String
  finalReply : Reply E
  /-- The handler's `print`. -/
  print : Except E Unit
  /-- The handler's `JobResult`. -/
  failedResult : Except E Unit
  errorReply : Reply E
  release : Except E Unit
  trySchedule : Except E Unit

/-- The container, or the dry run. -/
def Calls.runContainer (c : Calls E) (dryRun : Bool) : Except E Int :=
  if dryRun then do
    c.step .printDryRun
    pure 0
  else do
    c.step .makeDirectory
    c.step .popen
    c.step .copyOutput
    c.step .closeOutput
    c.step .fallbackTimeout
    let returncode ← match c.wait with
      | .exited returncode => pure returncode
      | .timedOut => do
        c.step .kill
        c.step .waitKilled
        c.step .appendTimeout
        pure (-9)
      | .raised e => .error e
    if returncode ≠ 0 then c.step .decodeTail
    pure returncode

/-- From the first post to the last: the return code of the result. -/
def Calls.execute (c : Calls E) (dryRun : Bool) : Except E Int := do
  c.step .jobConfig
  c.step .buildResultsDir
  c.step .buildDockerArgs
  c.step .startClock
  let returncode ← c.runContainer dryRun
  c.step .stopClock
  c.step .jobResult
  pure returncode

/-- The entry of the job in `_jobs`. -/
structure JobRecord where
  result : Option JobResult := none
  state : JobStatus := .running
  deriving DecidableEq, Repr

/-- The local variable `result`, and the entry of the job. -/
structure RunState where
  result : Option JobResult := none
  record : JobRecord := {}
  deriving DecidableEq, Repr

/-- A part of a run. Its messages are the statuses that GitHub accepted. -/
abbrev Worker (E : Type) := Traced CommitStatus RunState E

section Run

variable (r : Reporter) (req : CommitRequest) (c : Calls E)

/-- What a post comes to, where statuses are wanted. -/
def Reporter.outcome (reply : Reply E) : Except E Bool :=
  if r.noStatus then .ok false else postCommitStatus r req.commitSha reply

/-- A post under the context of the job. The description is cut off. -/
def Reporter.post (state : JobStatus) (description : String) (reply : Reply E) : Worker E Unit := do
  let accepted ← Traced.ofExcept (r.outcome req reply)
  if accepted then
    Traced.emit ⟨state, buildStatusContext r.statusPrefix req.jobName,
      String.ofList (description.toList.take 140)⟩
  else pure ()

def setResult (result : JobResult) : Worker E Unit :=
  Traced.step fun s => ({ s with result := some result }, ())

/-- The `try` block. -/
def tryBlock : Worker E Unit := do
  r.post req .pending ("Running " ++ req.jobName ++ "...") c.pendingReply
  let returncode ← Traced.ofExcept (c.execute r.dryRun)
  let result := req.result returncode
  setResult result
  r.post req result.state
    (req.jobName ++ ": " ++ result.state.name ++ " in " ++ c.durationText ++ "s") c.finalReply

/-- Without a result yet, the handler makes one. -/
def failResult (s : Option JobResult) : Worker E Unit :=
  match s with
  | some _ => pure ()
  | none => do
    Traced.ofExcept c.failedResult
    setResult (req.result (-1))

/-- The `except` block. -/
def exceptBlock : Worker E Unit := do
  Traced.ofExcept c.print
  let result ← Traced.step fun s => (s, s.result)
  failResult req c result
  r.post req .error (req.jobName ++ ": internal error") c.errorReply

/-- The entry that the `finally` block leaves. -/
def JobRecord.ofResult (result : Option JobResult) : JobRecord where
  result := result
  state :=
    match result with
    | some result => result.state
    | none => .failure

/-- The `finally` block. -/
def finallyBlock : Worker E Unit := do
  Traced.ofExcept c.release
  Traced.step fun s => ({ s with record := .ofResult s.result }, ())
  Traced.ofExcept c.trySchedule

/-- `_run_job`. -/
def runJob : Worker E (Option JobResult) := do
  Traced.tryFinally (Traced.tryExcept (tryBlock r req c) fun _ => exceptBlock r req c)
    (finallyBlock c)
  Traced.step fun s => (s, s.result)

/-- The status that GitHub shows for the job, and the state recorded for it,
do not contradict each other, and there are a result and a final state. -/
def Agrees (accepted : List CommitStatus) (record : JobRecord) : Prop :=
  record.result.isSome ∧ (record.state = .success ∨ record.state = .failure) ∧
  (record.state = .success → ∀ status ∈ accepted.getLast?,
    status.state ≠ .failure ∧ status.state ≠ .error) ∧
  (record.state = .failure → ∀ status ∈ accepted.getLast?, status.state ≠ .success)

/-- A run from the time that the job is handed to it. -/
def RunAgrees : Prop :=
  Agrees (runJob r req c {}).1 (runJob r req c {}).2.1.record

/-! ## The blocks, by the outcomes -/

variable {r req c}

/-- The statuses that a post adds. -/
def Reporter.told (r : Reporter) (req : CommitRequest) (state : JobStatus) (description : String)
    (accepted : Bool) : List CommitStatus :=
  if accepted then
    [⟨state, buildStatusContext r.statusPrefix req.jobName,
      String.ofList (description.toList.take 140)⟩]
  else []

theorem post_of_ok {reply : Reply E} {accepted : Bool} (h : r.outcome req reply = .ok accepted)
    (state : JobStatus) (description : String) (s : RunState) :
    r.post req state description reply s = (r.told req state description accepted, s, .ok ()) := by
  rw [Reporter.post, Traced.bind_ofExcept, h]
  cases accepted <;> rfl

theorem post_of_error {reply : Reply E} {e : E} (h : r.outcome req reply = .error e)
    (state : JobStatus) (description : String) (s : RunState) :
    r.post req state description reply s = ([], s, .error e) := by
  rw [Reporter.post, Traced.bind_ofExcept, h]

/-- The final post, after the result is fixed. -/
def finalPost (r : Reporter) (req : CommitRequest) (c : Calls E) (returncode : Int) : Worker E Unit :=
  r.post req (req.result returncode).state (req.jobName ++ ": " ++ (req.result returncode).state.name
    ++ " in " ++ c.durationText ++ "s") c.finalReply

theorem tryBlock_of_ok {accepted : Bool} {returncode : Int}
    (hpending : r.outcome req c.pendingReply = .ok accepted)
    (hexecute : c.execute r.dryRun = .ok returncode) (s : RunState) :
    tryBlock r req c s
      = (r.told req .pending ("Running " ++ req.jobName ++ "...") accepted
          ++ (finalPost r req c returncode { s with result := some (req.result returncode) }).1,
        (finalPost r req c returncode { s with result := some (req.result returncode) }).2) := by
  rw [tryBlock, Traced.bind_of_ok (post_of_ok hpending _ _ _), Traced.bind_ofExcept, hexecute]
  rfl

/-- Neither the first post nor a step before the result raises. -/
def ReachesResult (r : Reporter) (req : CommitRequest) (c : Calls E) : Prop :=
  (∃ accepted, r.outcome req c.pendingReply = .ok accepted) ∧
    ∃ returncode, c.execute r.dryRun = .ok returncode

/-- Before the result, GitHub has been told nothing but that the job is
pending. -/
theorem tryBlock_of_not_reachesResult (h : ¬ ReachesResult r req c) (s : RunState) :
    ∃ told e, tryBlock r req c s = (told, s, .error e) ∧
      ∀ status ∈ told, status.state = .pending := by
  cases hpending : r.outcome req c.pendingReply with
  | error e =>
    exact ⟨[], e, Traced.bind_of_error (post_of_error hpending _ _ _), by simp⟩
  | ok accepted =>
    cases hexecute : c.execute r.dryRun with
    | ok returncode => exact absurd ⟨⟨accepted, hpending⟩, returncode, hexecute⟩ h
    | error e =>
      refine ⟨r.told req .pending ("Running " ++ req.jobName ++ "...") accepted, e, ?_, ?_⟩
      · rw [tryBlock, Traced.bind_of_ok (post_of_ok hpending _ _ _), Traced.bind_ofExcept,
          hexecute, List.append_nil]
      · cases accepted <;> simp [Reporter.told]

/-- The `try` statement without its `finally`. -/
def guarded (r : Reporter) (req : CommitRequest) (c : Calls E) : Worker E Unit :=
  Traced.tryExcept (tryBlock r req c) fun _ => exceptBlock r req c

theorem exceptBlock_of_error {e : E} (h : c.print = .error e) (s : RunState) :
    exceptBlock r req c s = ([], s, .error e) := by
  rw [exceptBlock, Traced.bind_ofExcept, h]

theorem exceptBlock_of_result {u : Unit} (h : c.print = .ok u) {s : RunState} {result : JobResult}
    (hresult : s.result = some result) :
    exceptBlock r req c s
      = r.post req .error (req.jobName ++ ": internal error") c.errorReply s := by
  rw [exceptBlock, Traced.bind_ofExcept, h]
  dsimp only
  rw [Traced.bind_step, hresult]
  rfl

theorem exceptBlock_of_none {u : Unit} (h : c.print = .ok u) {s : RunState}
    (hresult : s.result = none) :
    exceptBlock r req c s = match c.failedResult with
      | .error e => ([], s, .error e)
      | .ok _ => r.post req .error (req.jobName ++ ": internal error") c.errorReply
          { s with result := some (req.result (-1)) } := by
  rw [exceptBlock, Traced.bind_ofExcept, h]
  dsimp only
  rw [Traced.bind_step, hresult, failResult]
  cases c.failedResult <;> rfl

/-- What the `finally` block does to the entry. -/
theorem finallyBlock_run (s : RunState) :
    (finallyBlock c s).1 = [] ∧ (finallyBlock c s).2.1.record = match c.release with
      | .ok _ => .ofResult s.result
      | .error _ => s.record := by
  rw [finallyBlock, Traced.bind_ofExcept]
  cases c.release <;> exact ⟨rfl, rfl⟩

theorem post_record (state : JobStatus) (description : String) (reply : Reply E) (s : RunState) :
    (r.post req state description reply s).2.1 = s := by
  cases h : r.outcome req reply with
  | ok accepted => rw [post_of_ok h]
  | error e => rw [post_of_error h]

/-- Only the `finally` block writes the entry. -/
theorem guarded_record (s : RunState) : (guarded r req c s).2.1.record = s.record := by
  have hexcept : ∀ s, (exceptBlock r req c s).2.1.record = s.record := by
    intro s
    cases hprint : c.print with
    | error e => rw [exceptBlock_of_error hprint]
    | ok u =>
      cases hresult : s.result with
      | some result => rw [exceptBlock_of_result hprint hresult, post_record]
      | none =>
        rw [exceptBlock_of_none hprint hresult]
        cases c.failedResult with
        | error e => rfl
        | ok u => dsimp only; rw [post_record]
  have htry : (tryBlock r req c s).2.1.record = s.record := by
    by_cases hreaches : ReachesResult r req c
    · obtain ⟨⟨accepted, hpending⟩, returncode, hexecute⟩ := hreaches
      rw [tryBlock_of_ok hpending hexecute, finalPost, post_record]
    · obtain ⟨told, e, hrun, -⟩ := tryBlock_of_not_reachesResult hreaches s
      rw [hrun]
  cases hrun : tryBlock r req c s with
  | mk told rest =>
    obtain ⟨s', ending⟩ := rest
    rw [hrun] at htry
    cases ending with
    | ok u => rw [guarded, Traced.tryExcept_of_ok _ hrun]; exact htry
    | error e => rw [guarded, Traced.tryExcept_of_error _ hrun, hexcept]; exact htry

/-- A run, from its `try` statement. -/
theorem runAgrees_iff_guarded :
    RunAgrees r req c ↔ c.release = .ok () ∧
      Agrees (guarded r req c {}).1 (.ofResult (guarded r req c {}).2.1.result) := by
  have hfinally := finallyBlock_run (c := c) (guarded r req c {}).2.1
  have hrun := Traced.tryFinally_run (guarded r req c) (finallyBlock c) {}
  have hreturn : RunAgrees r req c ↔
      Agrees (Traced.tryFinally (guarded r req c) (finallyBlock c) {}).1
        (Traced.tryFinally (guarded r req c) (finallyBlock c) {}).2.1.record := by
    rw [RunAgrees, runJob, ← guarded]
    cases hprotected : Traced.tryFinally (guarded r req c) (finallyBlock c) {} with
    | mk told rest =>
      obtain ⟨s', ending⟩ := rest
      cases ending with
      | ok u => rw [Traced.bind_of_ok hprotected]; simp [Traced.step]
      | error e => rw [Traced.bind_of_error hprotected]
  rw [hreturn, hrun.1, hrun.2, hfinally.1, hfinally.2, List.append_nil, guarded_record]
  cases c.release with
  | ok u => simp
  | error e => simp [Agrees]

/-! ## When they agree -/

theorem result_state (result : JobResult) :
    result.state = .success ∧ result.returncode = 0 ∨
      result.state = .failure ∧ result.returncode ≠ 0 := by
  by_cases hcode : result.returncode = 0 <;> simp [JobResult.state, hcode]

/-- Whatever is the last accepted status of a failed run, it is no success. -/
theorem agrees_of_states {told : List CommitStatus} {result : JobResult}
    (h : ∀ status ∈ told.getLast?, status.state = .pending ∨ status.state = result.state) :
    Agrees told (.ofResult (some result)) := by
  refine ⟨rfl, ?_, ?_, ?_⟩
  · rcases result_state result with ⟨hstate, -⟩ | ⟨hstate, -⟩
    · exact .inl hstate
    · exact .inr hstate
  · intro hsuccess status hstatus
    have hstate : result.state = .success := hsuccess
    rcases h status hstatus with hlast | hlast
    · simp [hlast]
    · simp [hlast, hstate]
  · intro hfailure status hstatus
    have hstate : result.state = .failure := hfailure
    rcases h status hstatus with hlast | hlast
    · simp [hlast]
    · simp [hlast, hstate]

/-- Without a success to contradict, an error may stand last. -/
theorem agrees_of_failure {told : List CommitStatus} {result : JobResult}
    (hcode : result.returncode ≠ 0) (h : ∀ status ∈ told.getLast?, status.state ≠ .success) :
    Agrees told (.ofResult (some result)) := by
  have hstate : result.state = .failure := by simp [JobResult.state, hcode]
  refine ⟨rfl, .inr hstate, ?_, fun _ => h⟩
  intro hsuccess
  have hsuccess' : result.state = .success := hsuccess
  rw [hstate] at hsuccess'
  cases hsuccess'

theorem told_state {state : JobStatus} {description : String} {accepted : Bool} :
    ∀ status ∈ r.told req state description accepted, status.state = state := by
  cases accepted <;> simp [Reporter.told]

theorem post_state {state : JobStatus} {description : String} {reply : Reply E} {s : RunState} :
    ∀ status ∈ (r.post req state description reply s).1, status.state = state := by
  cases h : r.outcome req reply with
  | ok accepted =>
    rw [post_of_ok h]
    exact told_state
  | error e =>
    rw [post_of_error h]
    simp

/-- The result is a success, and an error is the last that GitHub accepts. -/
def Overruled (r : Reporter) (req : CommitRequest) (c : Calls E) : Prop :=
  (∃ accepted, r.outcome req c.pendingReply = .ok accepted) ∧ c.execute r.dryRun = .ok 0 ∧
    (∃ e, r.outcome req c.finalReply = .error e) ∧ c.print = .ok () ∧
    r.outcome req c.errorReply = .ok true

/-- With a result, the handler posts an error or nothing. -/
theorem exceptBlock_told (r : Reporter) (req : CommitRequest) (c : Calls E) {s : RunState}
    {result : JobResult} (hresult : s.result = some result) :
    ∃ told, (exceptBlock r req c s).1 = r.told req .error (req.jobName ++ ": internal error") told ∧
      (exceptBlock r req c s).2.1 = s ∧
      (told = true ↔ c.print = .ok () ∧ r.outcome req c.errorReply = .ok true) := by
  cases hprint : c.print with
  | error e =>
    rw [exceptBlock_of_error hprint]
    exact ⟨false, rfl, rfl, by simp⟩
  | ok u =>
    rw [exceptBlock_of_result hprint hresult]
    cases herror : r.outcome req c.errorReply with
    | error e =>
      rw [post_of_error herror]
      exact ⟨false, rfl, rfl, by simp⟩
    | ok told =>
      rw [post_of_ok herror]
      exact ⟨told, rfl, rfl, by simp⟩

/-- After an error, a success contradicts the last status and a failure does not. -/
theorem agrees_error_iff {earlier : List CommitStatus} {error : CommitStatus} {result : JobResult}
    (herror : error.state = .error) :
    Agrees (earlier ++ [error]) (.ofResult (some result)) ↔ result.returncode ≠ 0 := by
  have hlast : (earlier ++ [error]).getLast? = some error := List.getLast?_concat
  constructor
  · rintro ⟨-, -, hsuccess, -⟩ hcode
    have hstate : result.state = .success := by simp [JobResult.state, hcode]
    exact (hsuccess hstate error hlast).2 herror
  · intro hcode
    refine agrees_of_failure hcode fun status hstatus => ?_
    rw [hlast] at hstatus
    rw [← Option.some.inj hstatus, herror]
    simp

/-- Once there is a result, only a success that is overruled contradicts it. -/
theorem agrees_of_reachesResult (h : ReachesResult r req c) :
    Agrees (guarded r req c {}).1 (.ofResult (guarded r req c {}).2.1.result) ↔
      ¬ Overruled r req c := by
  obtain ⟨⟨accepted, hpending⟩, returncode, hexecute⟩ := h
  have htry := tryBlock_of_ok hpending hexecute {}
  cases hfinal : r.outcome req c.finalReply with
  | ok final =>
    have hoverruled : ¬ Overruled r req c := by
      rintro ⟨-, -, ⟨e, he⟩, -⟩
      rw [hfinal] at he
      cases he
    rw [finalPost, post_of_ok hfinal] at htry
    rw [guarded, Traced.tryExcept_of_ok _ htry]
    refine iff_of_true (agrees_of_states fun status hstatus => ?_) hoverruled
    rcases List.mem_append.mp (List.mem_of_getLast? hstatus) with hmem | hmem
    · exact .inl (told_state status hmem)
    · exact .inr (told_state status hmem)
  | error e =>
    rw [finalPost, post_of_error hfinal, List.append_nil] at htry
    obtain ⟨told, htold, hstate, herror⟩ :=
      exceptBlock_told r req c (s := ⟨some (req.result returncode), {}⟩) rfl
    have hoverruled : Overruled r req c ↔ returncode = 0 ∧ told = true := by
      rw [herror, Overruled, hexecute, Except.ok.injEq]
      exact ⟨fun ⟨_, hcode, _, hhandler⟩ => ⟨hcode, hhandler⟩,
        fun ⟨hcode, hhandler⟩ => ⟨⟨accepted, hpending⟩, hcode, ⟨e, hfinal⟩, hhandler⟩⟩
    rw [guarded, Traced.tryExcept_of_error _ htry, htold, hstate, hoverruled]
    cases told with
    | false =>
      refine iff_of_true (agrees_of_states fun status hstatus => ?_) (by simp)
      rcases List.mem_append.mp (List.mem_of_getLast? hstatus) with hmem | hmem
      · exact .inl (told_state status hmem)
      · cases hmem
    | true =>
      -- the error is the last status, whatever the result
      rw [and_iff_left rfl]
      exact agrees_error_iff rfl

/-- Without a result from the `try` block, the handler has to make one. -/
theorem agrees_of_not_reachesResult (h : ¬ ReachesResult r req c) :
    Agrees (guarded r req c {}).1 (.ofResult (guarded r req c {}).2.1.result) ↔
      c.print = .ok () ∧ c.failedResult = .ok () := by
  obtain ⟨told, e, htry, hpending⟩ := tryBlock_of_not_reachesResult h {}
  rw [guarded, Traced.tryExcept_of_error _ htry]
  cases hprint : c.print with
  | error e' =>
    rw [exceptBlock_of_error hprint]
    simp [Agrees, JobRecord.ofResult]
  | ok u =>
    rw [exceptBlock_of_none hprint rfl]
    cases c.failedResult with
    | error e' => simp [Agrees, JobRecord.ofResult]
    | ok u =>
      have hcode : (req.result (-1)).returncode ≠ 0 := by simp [CommitRequest.result]
      dsimp only
      rw [post_record]
      refine iff_of_true (agrees_of_failure hcode fun status hstatus => ?_) ⟨rfl, rfl⟩
      rcases List.mem_append.mp (List.mem_of_getLast? hstatus) with hmem | hmem
      · simp [hpending status hmem]
      · simp [post_state status hmem]

/-- The record and the last accepted status agree just if the GPUs can be
released, a run that comes to no result is handled without a further
exception, and no success is overruled. -/
theorem runAgrees_iff (r : Reporter) (req : CommitRequest) (c : Calls E) :
    RunAgrees r req c ↔ c.release = .ok () ∧
      (¬ ReachesResult r req c → c.print = .ok () ∧ c.failedResult = .ok ()) ∧
      ¬ Overruled r req c := by
  rw [runAgrees_iff_guarded]
  by_cases hreaches : ReachesResult r req c
  · rw [agrees_of_reachesResult hreaches]
    simp [hreaches]
  · have hoverruled : ¬ Overruled r req c := by
      rintro ⟨haccepted, hexecute, -⟩
      exact hreaches ⟨haccepted, 0, hexecute⟩
    rw [agrees_of_not_reachesResult hreaches]
    simp [hreaches, hoverruled]

/-- A job that succeeds, and a reply to its final post that is cut off. -/
def cutOff : Calls String where
  pendingReply := .answered 201
  step _ := .ok ()
  wait := .exited 0
  durationText := "42"
  finalReply := .raised "Remote end closed connection without response"
  print := .ok ()
  failedResult := .ok ()
  errorReply := .answered 201
  release := .ok ()
  trySchedule := .ok ()

/-- GitHub shows an error last; the job is recorded as a success. -/
theorem cutOff_not_runAgrees :
    ¬ RunAgrees ⟨false, false, "ci/infiniops", "InfiniTensor", "InfiniOps", "token"⟩
      ⟨⟨"1f2e3d4c", "nvidia_gpu"⟩, "0123456789abcdef"⟩ cutOff := by
  intro h
  have hlast := h.2.2.1 rfl ⟨.error, "ci/infiniops/nvidia_gpu", "nvidia_gpu: internal error"⟩ rfl
  exact hlast.2 rfl

end Run

end InfiniOps.Ci
