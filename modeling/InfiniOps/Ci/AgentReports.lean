/-
InfiniOps.Ci.AgentReports — what the agent tells about its jobs is so.

With the ledger (`AgentTheorems`) the lists of `get_status` are read off:
the queue is every job in state queued, the running ones are those that
work, and the completed ones are the last twenty of the rest. The one way
in which the call fails is a job that was recorded without a result
(`getStatus_ok_iff`). When `wait_all` finds no job pending, nothing waits,
nothing runs and no GPU is held (`waitAll_drained`).
-/
import InfiniOps.Ci.AgentTheorems

namespace InfiniOps.Ci.Interleaving

namespace Ledger

variable {a : Agent} (hl : Ledger a)
include hl

/-- The entries are those of the accepted jobs, in their order. -/
theorem map_request_entries : a.entries.map (fun e => e.request) = a.accepted := by
  have hall : ∀ l : List JobRequest, (∀ req ∈ l, req ∈ a.accepted) →
      (l.filterMap fun req => (a.sys.sh.jobs req.jobId).map fun e =>
        (⟨e, a.results req.jobId⟩ : Entry)).map (fun e => e.request) = l := by
    intro l hmem
    induction l with
    | nil => rfl
    | cons req l ih =>
      obtain ⟨entry, hentry, hrequest⟩ := hl.entered req (hmem req (by simp))
      rw [List.filterMap_cons_some (by rw [hentry, Option.map_some]), List.map_cons,
        ih fun r hr => hmem r (by simp [hr]), hrequest]
  exact hall a.accepted fun _ => id

theorem mem_entries {e : Entry} :
    e ∈ a.entries ↔ e.request ∈ a.accepted ∧ a.entry e.request = some e := by
  rw [Agent.entries, List.mem_filterMap]
  constructor
  · rintro ⟨req, hreq, he⟩
    obtain ⟨entry, hentry, hrequest⟩ := hl.entered req hreq
    have he' : a.entry req = some e := he
    rw [hentry, Option.map_some, Option.some.injEq] at he
    have hsame : e.request = req := by rw [← he, hrequest]
    rw [hsame]
    exact ⟨hreq, he'⟩
  · rintro ⟨hreq, he⟩
    exact ⟨e.request, hreq, he⟩

theorem state_of_mem {e : Entry} (he : e ∈ a.entries) : a.state e.request = some e.state := by
  have hentry := (hl.mem_entries.mp he).2
  rw [Agent.entry, Option.map_eq_some_iff] at hentry
  obtain ⟨entry, hentry, hsame⟩ := hentry
  rw [Agent.state, hentry, Option.map_some]
  exact congrArg (fun e : Entry => some e.state) hsame

theorem result_of_mem {e : Entry} (he : e ∈ a.entries) : e.result = a.results e.request.jobId := by
  have hentry := (hl.mem_entries.mp he).2
  rw [Agent.entry, Option.map_eq_some_iff] at hentry
  obtain ⟨entry, hentry, hsame⟩ := hentry
  exact congrArg Entry.result hsame.symm

/-- The entries in a state are those of the jobs in that state. -/
theorem map_filter_entries (p : JobState → Bool) :
    (a.entries.filter fun e => p e.state).map (fun e => e.request) =
      a.accepted.filter fun req => (a.state req).any p := by
  conv_rhs => rw [← hl.map_request_entries, List.filter_map]
  congr 1
  refine List.filter_congr fun e he => ?_
  simp [hl.state_of_mem he]

theorem map_results_entries (p : JobState → Bool) :
    (a.entries.filter fun e => p e.state).map Entry.result =
      (a.accepted.filter fun req => (a.state req).any p).map fun req => a.results req.jobId := by
  rw [← hl.map_filter_entries, List.map_map]
  refine List.map_congr_left fun e he => ?_
  exact hl.result_of_mem (List.mem_filter.mp he).1

end Ledger

/-! ## `get_status` -/

/-- The job has a final state. -/
def Agent.completed (a : Agent) : List JobRequest :=
  a.accepted.filter fun req => (a.state req).any JobState.terminal

theorem exists_map_eq_some {α β : Type} {l : List α} {f : α → Option β} :
    (∃ bs : List β, l.map f = bs.map some) ↔ ∀ a ∈ l, f a ≠ none := by
  induction l with
  | nil => simp
  | cons a l ih =>
    rw [List.forall_mem_cons, ← ih]
    constructor
    · rintro ⟨bs, h⟩
      cases bs with
      | nil => simp at h
      | cons b bs =>
        rw [List.map_cons, List.map_cons, List.cons.injEq] at h
        exact ⟨by simp [h.1], bs, h.2⟩
    · rintro ⟨ha, bs, h⟩
      obtain ⟨b, hb⟩ := Option.ne_none_iff_exists'.mp ha
      exact ⟨b :: bs, by rw [List.map_cons, List.map_cons, hb, h]⟩

theorem completedResult_eq_ok {e : Entry} {r : JobResult} :
    Agent.completedResult e = .ok r ↔ e.result = some r := by
  rw [Agent.completedResult]
  cases e.result <;> simp

theorem map_completedResult {l : List Entry} {rs : List JobResult} :
    l.map Agent.completedResult = rs.map .ok ↔ l.map Entry.result = rs.map some := by
  induction l generalizing rs with
  | nil => cases rs <;> simp
  | cons e l ih =>
    cases rs with
    | nil => simp
    | cons r rs => simp [completedResult_eq_ok, ih]

section Status

variable {a : Agent} (hl : Ledger a)
include hl

/-- The queued jobs have entries, so this part never raises. -/
theorem mapM_queuedRequest :
    a.sys.sh.queue.mapM a.queuedRequest = .ok (a.sys.sh.queue.map Queued.req) := by
  rw [mapM_eq_ok, List.map_map]
  refine List.map_congr_left fun q hq => ?_
  have hmem : q.req ∈ waitingJobs a.sys := by
    rw [waitingJobs]
    exact List.mem_append_right _ (List.mem_map_of_mem hq)
  obtain ⟨entry, hentry, hrequest⟩ := hl.entered q.req (hl.mem_waiting.mp hmem).1
  rw [Agent.queuedRequest, hentry]
  simp [hrequest]

/-- The results of the completed jobs, when `get_status` returns. -/
theorem getStatus_eq_ok {status : Agent.Status} :
    a.getStatus = .ok status ↔ ∃ completed,
      a.completed.map (fun req => a.results req.jobId) = completed.map some ∧
      status = {
        queued := a.sys.sh.queue.map Queued.req
        running := (a.entries.filter fun e => e.state = .running).map fun e =>
          (e.request, e.gpuIds)
        completed := Agent.last20 completed } := by
  rw [Agent.getStatus, mapM_queuedRequest hl, ok_bind, bind_eq_ok]
  simp only [mapM_eq_ok, map_completedResult, hl.map_results_entries]
  refine exists_congr fun completed => and_congr_right fun _ => ?_
  exact ⟨fun h => (Except.ok.inj h).symm, fun h => h ▸ rfl⟩

end Status

/-- `get_status` never raises but where a job was recorded as a failure
without a result. -/
theorem getStatus_ok_iff {a : Agent} (hl : Ledger a) :
    (∃ status, a.getStatus = .ok status) ↔
      ∀ req ∈ a.accepted, a.state req = some .failure → a.results req.jobId ≠ none := by
  have hmap : (∃ status, a.getStatus = .ok status) ↔ ∃ completed : List JobResult,
      a.completed.map (fun req => a.results req.jobId) = completed.map some := by
    simp only [getStatus_eq_ok hl]
    exact ⟨fun ⟨_, completed, hmap, _⟩ => ⟨completed, hmap⟩,
      fun ⟨completed, hmap⟩ => ⟨_, completed, hmap, rfl⟩⟩
  rw [hmap, exists_map_eq_some]
  constructor
  · intro hsome req hreq hstate
    exact hsome req (by simp [Agent.completed, hreq, hstate, JobState.terminal])
  · intro hfailed req hreq hnone
    obtain ⟨haccepted, hterminal⟩ := List.mem_filter.mp hreq
    cases hstate : a.state req with
    | none => simp [hstate] at hterminal
    | some state =>
      have hresult := hl.results req haccepted state hstate
      rw [hstate, Option.any_some] at hterminal
      rw [if_pos hterminal, hnone] at hresult
      -- without a result the state is a failure
      have hfailure : state = .failure := by
        have hstatus := hresult.1
        cases state <;> cases hstatus
        rfl
      exact hfailed req haccepted (hfailure ▸ hstate) hnone

/-- While the lock is free, the queue is all that waits. -/
theorem waiting_of_unlocked {s : Sys} (hmutex : s.threads.countP Pc.holds = if s.sh.lock then 1 else 0)
    (hlock : s.sh.lock = false) : waitingJobs s = s.sh.queue.map Queued.req := by
  rw [hlock, if_neg Bool.false_ne_true] at hmutex
  rw [waitingJobs, flatMap_hands_eq_nil hmutex, List.nil_append]

/-- A job that is in flight is between its decision and its record. -/
theorem mem_working_of_inFlight {s : Sys} {t : Task} (ht : t ∈ inFlight s) : t ∈ workingJobs s := by
  rw [inFlight, List.mem_append, List.mem_flatMap] at ht
  rw [workingJobs, List.mem_append, List.mem_flatMap]
  refine ht.imp_right ?_
  rintro ⟨pc, hpc, hmem⟩
  refine ⟨pc, hpc, ?_⟩
  cases pc <;> first | exact hmem | cases hmem

/-- The entry of a job at work. -/
theorem Ledger.mem_entries_of_working {a : Agent} (hl : Ledger a) {t : Task}
    (ht : t ∈ workingJobs a.sys) :
    ∃ e ∈ a.entries, e.state = .running ∧ e.request = t.req ∧ e.gpuIds = t.gpuIds := by
  obtain ⟨haccepted, hstate⟩ := hl.mem_working ht
  obtain ⟨gpuIds, hentry⟩ := hl.entry_of_state haccepted hstate
  have hgpus := hl.gpus t ht
  rw [hentry, Option.map_some, Option.some.injEq] at hgpus
  refine ⟨⟨⟨t.req, .running, gpuIds⟩, a.results t.req.jobId⟩, ?_, rfl, rfl, hgpus⟩
  rw [hl.mem_entries]
  refine ⟨haccepted, ?_⟩
  rw [Agent.entry, hentry, Option.map_some]

/-- What a caller of `get_status` is told, at every point of every
interleaving at which it can have the lock. The call raises exactly if some
job was recorded as a failure without a result. Otherwise the queued jobs
are all those in state queued, in the order of acceptance; the running ones
are all those in state running, and between them hold every GPU allocated;
and the completed ones are the last twenty of the rest. -/
theorem getStatus_tells (cfg : Config) (a : Agent) (h : (agentLts cfg).Reachable a)
    (hlock : a.sys.sh.lock = false) :
    ((∃ status, a.getStatus = .ok status) ↔
      ∀ req ∈ a.accepted, a.state req = some .failure → a.results req.jobId ≠ none) ∧
    ∀ status, a.getStatus = .ok status →
      status.queued = Roster.inState a.accepted a.state (some .queued) ∧
      status.running.map Prod.fst = Roster.inState a.accepted a.state (some .running) ∧
      (∀ g ∈ a.sys.sh.pool.allocated, ∃ p ∈ status.running, g ∈ p.2) ∧
      status.completed = Agent.last20 (a.completed.filterMap fun req => a.results req.jobId) := by
  have hl := ledger_of_reachable h
  refine ⟨getStatus_ok_iff hl, fun status hstatus => ?_⟩
  obtain ⟨completed, hcompleted, rfl⟩ := (getStatus_eq_ok hl).mp hstatus
  refine ⟨?_, ?_, ?_, ?_⟩
  · rw [← hl.queued]
    exact (waiting_of_unlocked (awake_of_reachable (reachable_sys h)).mutex hlock).symm
  · rw [List.map_map]
    refine (hl.map_filter_entries fun state => state = .running).trans ?_
    refine List.filter_congr fun req _ => ?_
    cases a.state req <;> simp
  · intro g hg
    obtain ⟨t, ht, hgpu⟩ := ((balanced_of_reachable (reachable_sys h)).owns.covers g).mp hg
    obtain ⟨e, he, hstate, -, hgpus⟩ := hl.mem_entries_of_working (mem_working_of_inFlight ht)
    refine ⟨(e.request, e.gpuIds), List.mem_map_of_mem ?_, hgpus ▸ hgpu⟩
    simp [he, hstate]
  · have hresults : (a.completed.filterMap fun req => a.results req.jobId) = completed := by
      have hmap := congrArg (List.filterMap id) hcompleted
      simpa [List.filterMap_map, Function.comp_def] using hmap
    rw [hresults]

open OneJob in
theorem getStatus_tells_queued :
    ((∃ status, queuedAgent.getStatus = .ok status) ↔
      ∀ req ∈ queuedAgent.accepted, queuedAgent.state req = some .failure →
        queuedAgent.results req.jobId ≠ none) ∧
    ∀ status, queuedAgent.getStatus = .ok status →
      status.queued = Roster.inState queuedAgent.accepted queuedAgent.state (some .queued) ∧
      status.running.map Prod.fst =
        Roster.inState queuedAgent.accepted queuedAgent.state (some .running) ∧
      (∀ g ∈ queuedAgent.sys.sh.pool.allocated, ∃ p ∈ status.running, g ∈ p.2) ∧
      status.completed =
        Agent.last20 (queuedAgent.completed.filterMap fun req => queuedAgent.results req.jobId) :=
  getStatus_tells LostJobs.cfg queuedAgent queuedAgent_reachable rfl

/-! ## `wait_all` -/

theorem Ledger.not_pending {a : Agent} (hl : Ledger a) (hdone : a.pending = false) :
    ∀ req ∈ a.accepted, a.state req ≠ some .queued ∧ a.state req ≠ some .running := by
  intro req hreq
  obtain ⟨entry, hentry, hrequest⟩ := hl.entered req hreq
  have hmem : (⟨entry, a.results req.jobId⟩ : Entry) ∈ a.entries := by
    rw [Agent.entries, List.mem_filterMap]
    exact ⟨req, hreq, by rw [hentry, Option.map_some]⟩
  have hstate : a.state req = some entry.state := by rw [Agent.state, hentry, Option.map_some]
  rw [Agent.pending, List.any_eq_false] at hdone
  have hnot := hdone _ hmem
  simp only [Bool.or_eq_true, decide_eq_true_eq, not_or] at hnot
  rw [hstate]
  simpa using hnot

/-- The results that `wait_all` returns are those of the accepted jobs, in
their order. -/
theorem Ledger.waitResult {a : Agent} (hl : Ledger a) :
    a.waitResult = a.accepted.filterMap fun req => a.results req.jobId := by
  have hmap := hl.map_results_entries fun _ => true
  have hleft : a.entries.filter (fun _ => true) = a.entries := List.filter_true _
  have hright : (a.accepted.filter fun req => (a.state req).any fun _ => true) = a.accepted := by
    rw [List.filter_eq_self]
    intro req hreq
    obtain ⟨entry, hentry, -⟩ := hl.entered req hreq
    rw [Agent.state, hentry, Option.map_some, Option.any_some]
  rw [hleft, hright] at hmap
  have hjoin := congrArg (List.filterMap id) hmap
  simpa [Agent.waitResult, List.filterMap_map, Function.comp_def] using hjoin

/-- When `wait_all` finds no job pending, no job waits, none is at work and
no GPU is held. Whatever happens until it takes the lock again, what it
then returns starts with the results of all jobs accepted before, in their
order, and each of these jobs has a final state. -/
theorem waitAll_drained (cfg : Config) (a b : Agent) (steps : List Unit)
    (h : (agentLts cfg).Reachable a) (hdone : a.pending = false)
    (hrun : (agentLts cfg).Run a steps b) :
    waitingJobs a.sys = [] ∧ workingJobs a.sys = [] ∧ a.sys.sh.pool.allocated = ∅ ∧
      (∀ req ∈ a.accepted, ∃ state, b.state req = some state ∧
        Reported req state (b.results req.jobId)) ∧
      ∃ newer, b.waitResult = (a.accepted.filterMap fun req => a.results req.jobId) ++ newer := by
  have hl := ledger_of_reachable h
  have hl' := ledger_of_reachable (h.run hrun)
  have hforward := forward_of_run h hrun
  have hnot := hl.not_pending hdone
  have hworking : workingJobs a.sys = [] := by
    have hrunning := hl.running
    have hnone : Roster.inState a.accepted a.state (some .running) = [] :=
      List.filter_eq_nil_iff.mpr fun req hreq => by simpa using (hnot req hreq).2
    rw [hnone, List.perm_nil, List.map_eq_nil_iff] at hrunning
    exact hrunning
  have hfinal : ∀ req ∈ a.accepted, ∃ e, b.entry req = some e ∧ e.state.terminal = true ∧
      e.result = a.results req.jobId := by
    intro req hreq
    obtain ⟨e, he, hstate, hresult⟩ := hl.entry hreq
    have hterminal : e.state.terminal = true := by
      have hreqnot := hnot req hreq
      rw [hstate] at hreqnot
      cases hcase : e.state <;> simp_all [JobState.terminal]
    obtain ⟨e', he', hlater⟩ := hforward.entries req hreq e he
    exact ⟨e', he', hlater.final hterminal ▸ hterminal, hlater.final hterminal ▸ hresult⟩
  refine ⟨?_, hworking, ?_, ?_, ?_⟩
  · rw [hl.queued]
    exact List.filter_eq_nil_iff.mpr fun req hreq => by simpa using (hnot req hreq).1
  · refine Finset.eq_empty_of_forall_notMem fun g hg => ?_
    obtain ⟨t, ht, -⟩ := ((balanced_of_reachable (reachable_sys h)).owns.covers g).mp hg
    have hmem := mem_working_of_inFlight ht
    rw [hworking] at hmem
    cases hmem
  · intro req hreq
    obtain ⟨e, he, hterminal, -⟩ := hfinal req hreq
    obtain ⟨e', he', hstate, -⟩ := hl'.entry (hforward.accepted.subset hreq)
    cases he.symm.trans he'
    have hreported := hl'.results req (hforward.accepted.subset hreq) _ hstate
    rw [if_pos hterminal] at hreported
    exact ⟨_, hstate, hreported⟩
  · obtain ⟨newer, hnewer⟩ := hforward.accepted
    refine ⟨newer.filterMap fun req => b.results req.jobId, ?_⟩
    rw [hl'.waitResult, ← hnewer, List.filterMap_append]
    congr 1
    refine List.filterMap_congr fun req hreq => ?_
    obtain ⟨e, he, -, hresult⟩ := hfinal req hreq
    obtain ⟨e', he', -, hresult'⟩ := hl'.entry (hforward.accepted.subset hreq)
    cases he.symm.trans he'
    exact hresult'.symm.trans hresult

namespace OneJob

open LostJobs (cfg train busy idle)

/-- What `train` comes to. -/
def passed : JobResult := ⟨train.jobId, train.jobName, "0123456789abcdef", 0⟩

/-- `train` has been run and recorded. -/
def recordedAgent : Agent where
  sys :=
    ⟨{ granted.sh with
        lock := false
        pool := granted.sh.pool.release [0]
        jobs := Function.update granted.sh.jobs train.jobId
          ((granted.sh.jobs train.jobId).map fun e => { e with state := .success })
        clock := 12
        lastRelease := 10
        released := [{ req := train, gpuIds := [0] }] }, [.done, .schedule]⟩
  accepted := [train]
  results := Function.update (fun _ => none) train.jobId (some passed)
  drawn := [train.jobId]

theorem recordedAgent_reachable : (agentLts cfg).Reachable recordedAgent := by
  have h1 := Lts.Reachable.step grantedAgent_reachable
    (agent_step _ [train] _ _ (idle 0) rfl (by simp))
  have h2 := Lts.Reachable.step h1 (agent_step _ [train] _ _ (idle 0) rfl (by simp))
  have h3 := Lts.Reachable.step h2 (agent_step _ [train] _ _ (idle 0) rfl (by simp))
  have h4 := Lts.Reachable.step h3 (Agent.Step.start rfl)
  have h5 := Lts.Reachable.step h4 (@Agent.Step.thread cfg _ _ [.done] [] (.run ⟨train, [0]⟩)
    (.record ⟨train, [0]⟩ .success) [train] _ _ (idle 0) .success none rfl trivial)
  have h6 := Lts.Reachable.step h5 (@Agent.Step.thread cfg _ _ [.done] []
    (.record ⟨train, [0]⟩ .success) .schedule [train] _ _ (idle 0) .success (some passed) rfl
    ⟨rfl, by simp [passed]⟩)
  exact h6

end OneJob

open OneJob in
theorem waitAll_drained_recorded :
    waitingJobs recordedAgent.sys = [] ∧ workingJobs recordedAgent.sys = [] ∧
      recordedAgent.sys.sh.pool.allocated = ∅ ∧
      (∀ req ∈ recordedAgent.accepted, ∃ state, recordedAgent.state req = some state ∧
        Reported req state (recordedAgent.results req.jobId)) ∧
      ∃ newer, recordedAgent.waitResult =
        (recordedAgent.accepted.filterMap fun req => recordedAgent.results req.jobId) ++ newer :=
  waitAll_drained LostJobs.cfg recordedAgent recordedAgent [] recordedAgent_reachable (by decide)
    (.nil _)

end InfiniOps.Ci.Interleaving
