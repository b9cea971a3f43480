/-
InfiniOps.Ci.AgentTheorems — every job is in one place, and its entry says
which.

`Move` says once what a thread's step does to the jobs: it leaves them
alone, or one of them is accepted, granted its GPUs, or recorded. From it,
`Ledger` is an invariant: the jobs that wait are the accepted jobs in state
queued, in the order of acceptance; those selected and not recorded are the
ones in state running; the others have a final state with its result. All
of this is about runs in which no call raises and every job id is new.
-/
import InfiniOps.Ci.Agent
import InfiniOps.Ci.InterleavingTheorems
import InfiniOps.Lib.Roster

namespace InfiniOps.Ci.Interleaving

/-! ## What one step does to the jobs -/

/-- The kinds of step of a thread. -/
inductive Move (sh : Shared) : Pc → Shared → Pc → Prop where
  | quiet {sh' : Shared} {pc pc' : Pc} (hjobs : sh'.jobs = sh.jobs) (haccepts : pc.accepts pc' = [])
      (hwrites : ∀ result results, pc.writes result results = results)
      (harriving : pc'.arriving = [])
      (hwaiting : pc.holds = true ∧
          pc'.hands ++ sh'.queue.map Queued.req = pc.hands ++ sh.queue.map Queued.req ∨
        pc'.hands = [] ∧ pc.hands = [] ∧ sh'.queue = sh.queue)
      (hworking : (sh'.executor ++ pc'.working).Perm (sh.executor ++ pc.working)) :
      Move sh pc sh' pc'
  | accepts (req : JobRequest) (hlock : sh.lock = false) :
      Move sh (.submit req)
        { sh with
          jobs := Function.update sh.jobs req.jobId
            (some { request := req, state := .queued, gpuIds := [] })
          queue := sh.queue ++ [{ req }] } .schedule
  | grants {q : Queued} {remaining : List Queued} {toLaunch : List Task} {entry : JobEntry}
      (pool : ResourcePool) (gpuIds : List Int) (hentry : sh.jobs q.req.jobId = some entry) :
      Move sh (.consider q remaining toLaunch)
        { sh with
          pool
          jobs := markRunning sh.jobs entry q.req gpuIds
          selected := sh.selected ++ [{ req := q.req, gpuIds }] }
        (.loop remaining (toLaunch ++ [{ req := q.req, gpuIds }]))
  | records (t : Task) (state : JobState) :
      Move sh (.record t state)
        { sh with
          jobs := Function.update sh.jobs t.req.jobId
            ((sh.jobs t.req.jobId).map fun e => { e with state }) } .schedule

theorem step_move {cfg : Config} {d : Detection} {state : JobState} {sh sh' : Shared} {pc pc' : Pc}
    (h : pc.step cfg d state sh = some (sh', pc')) : Move sh pc sh' pc' := by
  cases pc with
  | submit req =>
    simp only [Pc.step] at h
    split at h
    · cases h
    · rename_i hlock
      split at h
      · cases h
        exact .quiet rfl rfl (fun _ _ => rfl) rfl (.inr ⟨rfl, rfl, rfl⟩) (.refl _)
      · cases h
        exact .accepts req (by simpa using hlock)
  | schedule =>
    simp only [Pc.step] at h
    split at h
    · cases h
    · cases h
      exact .quiet rfl rfl (fun _ _ => rfl) rfl (.inr ⟨rfl, rfl, rfl⟩) (.refl _)
  | loop remaining toLaunch =>
    simp only [Pc.step] at h
    split at h
    · rename_i q queue hqueue
      cases h
      refine .quiet rfl rfl (fun _ _ => rfl) rfl (.inl ⟨rfl, ?_⟩) (.refl _)
      simp [Pc.hands, hqueue]
    · rename_i hqueue
      cases h
      refine .quiet rfl rfl (fun _ _ => rfl) rfl (.inl ⟨rfl, ?_⟩) (.refl _)
      simp [Pc.hands, hqueue]
  | consider q remaining toLaunch =>
    simp only [Pc.step] at h
    split at h
    · rename_i hentry
      cases h
      exact .grants _ _ hentry
    · cases h
      refine .quiet rfl rfl (fun _ _ => rfl) rfl (.inl ⟨rfl, ?_⟩) (.refl _)
      simp [Pc.hands]
    · cases h
  | launch toLaunch =>
    cases toLaunch with
    | nil =>
      cases h
      exact .quiet rfl rfl (fun _ _ => rfl) rfl (.inr ⟨rfl, rfl, rfl⟩) (.refl _)
    | cons t toLaunch =>
      cases h
      refine .quiet rfl rfl (fun _ _ => rfl) rfl (.inr ⟨rfl, rfl, rfl⟩) ?_
      simp [Pc.working]
  | run t =>
    cases h
    exact .quiet rfl rfl (fun _ _ => rfl) rfl (.inr ⟨rfl, rfl, rfl⟩) (.refl _)
  | record t state =>
    simp only [Pc.step] at h
    split at h
    · cases h
    · cases h
      exact .records t state
  | done => cases h

/-! ## The jobs by their entries -/

/-- The recorded state is that of the result, which is about the job. -/
def Reported (req : JobRequest) (state : JobState) (result : Option JobResult) : Prop :=
  state.status = (JobRecord.ofResult result).state ∧
    ∀ r ∈ result, r.jobId = req.jobId ∧ r.jobName = req.jobName

/-- The state of a result is final. -/
theorem Reported.terminal {req : JobRequest} {state : JobState} {result : Option JobResult}
    (h : Reported req state result) : state.terminal = true := by
  have hstatus := h.1
  cases result with
  | none =>
    cases state <;> cases hstatus
    rfl
  | some r =>
    rcases result_state r with ⟨hr, -⟩ | ⟨hr, -⟩ <;> rw [JobRecord.ofResult, hr] at hstatus <;>
      cases state <;> cases hstatus <;> rfl

/-- Every job is in one place, and its entry says which. -/
structure Ledger (a : Agent) : Prop where
  /-- The ids of accepted and of arriving jobs differ. -/
  ids : ((a.accepted ++ arriving a.sys.threads).map JobRequest.jobId).Nodup
  drawn : ∀ req ∈ a.accepted ++ arriving a.sys.threads, req.jobId ∈ a.drawn
  entered : ∀ req ∈ a.accepted, ∃ entry, a.sys.sh.jobs req.jobId = some entry ∧ entry.request = req
  /-- There are no other entries. -/
  unknown : ∀ jobId, (∀ req ∈ a.accepted, req.jobId ≠ jobId) →
    a.sys.sh.jobs jobId = none ∧ a.results jobId = none
  queued : waitingJobs a.sys = Roster.inState a.accepted a.state (some .queued)
  running : ((workingJobs a.sys).map Task.req).Perm (Roster.inState a.accepted a.state (some .running))
  gpus : ∀ t ∈ workingJobs a.sys, (a.sys.sh.jobs t.req.jobId).map JobEntry.gpuIds = some t.gpuIds
  results : ∀ req ∈ a.accepted, ∀ state, a.state req = some state →
    if state.terminal then Reported req state (a.results req.jobId)
    else a.results req.jobId = none

/-- A thread that does not hold the lock has taken nothing from the queue. -/
theorem Pc.hands_of_not_holds {pc : Pc} (h : pc.holds = false) : pc.hands = [] := by
  cases pc with
  | loop _ _ => cases h
  | consider _ _ _ => cases h
  | _ => rfl

theorem flatMap_hands_eq_nil {threads : List Pc} (h : threads.countP Pc.holds = 0) :
    threads.flatMap Pc.hands = [] := by
  rw [List.flatMap_eq_nil_iff]
  intro pc hpc
  exact Pc.hands_of_not_holds (by simpa using List.countP_eq_zero.mp h pc hpc)

section Thread

variable {sh sh' : Shared} {pre post : List Pc} {pc pc' : Pc}

/-- The jobs that wait, when a thread stands out. -/
theorem waiting_thread (sh : Shared) (pre post : List Pc) (pc : Pc) :
    waitingJobs ⟨sh, pre ++ pc :: post⟩ = pre.flatMap Pc.hands ++
      (pc.hands ++ (post.flatMap Pc.hands ++ sh.queue.map Queued.req)) := by
  simp [waitingJobs]

theorem working_thread (sh : Shared) (pre post : List Pc) (pc : Pc) :
    (workingJobs ⟨sh, pre ++ pc :: post⟩).Perm
      ((sh.executor ++ pc.working) ++ (pre.flatMap Pc.working ++ post.flatMap Pc.working)) := by
  unfold workingJobs
  simp only [List.flatMap_append, List.flatMap_cons, List.append_assoc]
  exact (List.perm_append_comm_assoc _ _ _).append_left _

theorem arriving_thread (pre post : List Pc) (pc : Pc) :
    arriving (pre ++ pc :: post) = arriving pre ++ (pc.arriving ++ arriving post) := by
  simp [arriving]

/-- Next to the thread in the loop, no other has taken jobs from the queue. -/
theorem others_hands (hmutex : (pre ++ pc :: post).countP Pc.holds = if sh.lock then 1 else 0)
    (hholds : pc.holds = true) : pre.flatMap Pc.hands = [] ∧ post.flatMap Pc.hands = [] := by
  rw [List.countP_append, List.countP_cons, hholds] at hmutex
  have hle : (if sh.lock then 1 else 0) ≤ 1 := by split <;> omega
  have hpre : pre.countP Pc.holds = 0 := by simp only [if_true] at hmutex; omega
  have hpost : post.countP Pc.holds = 0 := by simp only [if_true] at hmutex; omega
  exact ⟨flatMap_hands_eq_nil hpre, flatMap_hands_eq_nil hpost⟩

theorem waiting_of_holds (hmutex : (pre ++ pc :: post).countP Pc.holds = if sh.lock then 1 else 0)
    (hholds : pc.holds = true) :
    waitingJobs ⟨sh', pre ++ pc' :: post⟩ = pc'.hands ++ sh'.queue.map Queued.req := by
  obtain ⟨hpre, hpost⟩ := others_hands hmutex hholds
  rw [waiting_thread, hpre, hpost, List.nil_append, List.nil_append]

end Thread

/-! ## The ledger is kept -/

/-- The entries after that of `x` was replaced. -/
structure Replaced (a : Agent) (x : JobRequest) (entry : JobEntry) (b : Agent) : Prop where
  jobs : b.sys.sh.jobs = Function.update a.sys.sh.jobs x.jobId (some entry)
  results : ∀ jobId, jobId ≠ x.jobId → b.results jobId = a.results jobId

namespace Replaced

variable {a b : Agent} {x : JobRequest} {entry : JobEntry} (h : Replaced a x entry b)
include h

theorem jobs_self : b.sys.sh.jobs x.jobId = some entry := by rw [h.jobs, Function.update_self]

theorem jobs_other {jobId : String} (hne : jobId ≠ x.jobId) :
    b.sys.sh.jobs jobId = a.sys.sh.jobs jobId := by rw [h.jobs, Function.update_of_ne hne]

theorem state_self : b.state x = some entry.state := by rw [Agent.state, h.jobs_self, Option.map_some]

theorem state_other {req : JobRequest} (hne : req.jobId ≠ x.jobId) : b.state req = a.state req := by
  rw [Agent.state, Agent.state, h.jobs_other hne]

end Replaced

namespace Ledger

variable {a b : Agent} (hl : Ledger a)
include hl

theorem ids_accepted : (a.accepted.map JobRequest.jobId).Nodup := by
  have hids := hl.ids
  rw [List.map_append] at hids
  exact hids.of_append_left

theorem nodup_accepted : a.accepted.Nodup := hl.ids_accepted.of_map _

theorem jobId_ne {r x : JobRequest} (hr : r ∈ a.accepted) (hx : x ∈ a.accepted) (hne : r ≠ x) :
    r.jobId ≠ x.jobId :=
  fun hid => hne (List.inj_on_of_nodup_map hl.ids_accepted hr hx hid)

theorem mem_waiting {r : JobRequest} :
    r ∈ waitingJobs a.sys ↔ r ∈ a.accepted ∧ a.state r = some .queued := by
  rw [hl.queued, Roster.mem_inState]

theorem mem_working {t : Task} (h : t ∈ workingJobs a.sys) :
    t.req ∈ a.accepted ∧ a.state t.req = some .running := by
  rw [← Roster.mem_inState]
  exact hl.running.mem_iff.mp (List.mem_map_of_mem h)

theorem entry_of_state {r : JobRequest} (hr : r ∈ a.accepted) {state : JobState}
    (hstate : a.state r = some state) :
    ∃ gpuIds, a.sys.sh.jobs r.jobId = some ⟨r, state, gpuIds⟩ := by
  obtain ⟨⟨request, state', gpuIds⟩, hentry, hrequest⟩ := hl.entered r hr
  rw [Agent.state, hentry, Option.map_some, Option.some.injEq] at hstate
  cases hrequest
  cases hstate
  exact ⟨gpuIds, hentry⟩

/-- The entry of one accepted job is replaced. What is left to show is about
that job and about where the jobs are. -/
theorem replaced {x : JobRequest} {entry : JobEntry} (hreplaced : Replaced a x entry b)
    (hx : x ∈ a.accepted) (hrequest : entry.request = x) (haccepted : b.accepted = a.accepted)
    (harriving : arriving b.sys.threads = arriving a.sys.threads) (hdrawn : b.drawn = a.drawn)
    (hqueued : waitingJobs b.sys = Roster.inState a.accepted b.state (some .queued))
    (hrunning : ((workingJobs b.sys).map Task.req).Perm
      (Roster.inState a.accepted b.state (some .running)))
    (hgpus : ∀ t ∈ workingJobs b.sys, (b.sys.sh.jobs t.req.jobId).map JobEntry.gpuIds = some t.gpuIds)
    (hresult : if entry.state.terminal then Reported x entry.state (b.results x.jobId)
      else b.results x.jobId = none) : Ledger b := by
  refine ⟨?_, ?_, ?_, ?_, ?_, ?_, hgpus, ?_⟩
  · rw [haccepted, harriving]
    exact hl.ids
  · rw [haccepted, harriving, hdrawn]
    exact hl.drawn
  · intro req hreq
    rw [haccepted] at hreq
    by_cases heq : req = x
    · subst heq
      exact ⟨entry, hreplaced.jobs_self, hrequest⟩
    · rw [hreplaced.jobs_other (hl.jobId_ne hreq hx heq)]
      exact hl.entered req hreq
  · intro jobId hother
    rw [haccepted] at hother
    rw [hreplaced.jobs_other (hother x hx).symm, hreplaced.results _ (hother x hx).symm]
    exact hl.unknown jobId hother
  · rw [haccepted]
    exact hqueued
  · rw [haccepted]
    exact hrunning
  · intro req hreq state hstate
    rw [haccepted] at hreq
    by_cases heq : req = x
    · subst heq
      rw [hreplaced.state_self, Option.some.injEq] at hstate
      subst hstate
      exact hresult
    · have hid := hl.jobId_ne hreq hx heq
      rw [hreplaced.state_other hid] at hstate
      rw [hreplaced.results _ hid]
      exact hl.results req hreq state hstate

/-- No entry changes and no job moves from one place to another. -/
theorem same (hjobs : b.sys.sh.jobs = a.sys.sh.jobs) (hresults : b.results = a.results)
    (haccepted : b.accepted = a.accepted)
    (hids : ((a.accepted ++ arriving b.sys.threads).map JobRequest.jobId).Nodup)
    (hdrawn : ∀ req ∈ a.accepted ++ arriving b.sys.threads, req.jobId ∈ b.drawn)
    (hwaiting : waitingJobs b.sys = waitingJobs a.sys) (hworking : (workingJobs b.sys).Perm (workingJobs a.sys)) :
    Ledger b := by
  have hstate : b.state = a.state := by
    funext req
    rw [Agent.state, Agent.state, hjobs]
  refine ⟨?_, ?_, ?_, ?_, ?_, ?_, ?_, ?_⟩
  · rw [haccepted]
    exact hids
  · rw [haccepted]
    exact hdrawn
  · rw [haccepted, hjobs]
    exact hl.entered
  · rw [haccepted, hjobs, hresults]
    exact hl.unknown
  · rw [haccepted, hstate, hwaiting]
    exact hl.queued
  · rw [haccepted, hstate]
    exact (hworking.map _).trans hl.running
  · intro t ht
    rw [hjobs]
    exact hl.gpus t (hworking.mem_iff.mp ht)
  · rw [haccepted, hstate, hresults]
    exact hl.results

end Ledger

section Steps

variable {sh sh' : Shared} {pre post : List Pc} {accepted : List JobRequest}
  {results : String → Option JobResult} {drawn : List String}

/-- The agent where thread `pc` stands out. -/
abbrev Agent.at (sh : Shared) (pre post : List Pc) (accepted : List JobRequest)
    (results : String → Option JobResult) (drawn : List String) (pc : Pc) : Agent :=
  ⟨⟨sh, pre ++ pc :: post⟩, accepted, results, drawn⟩

theorem Ledger.quiet {pc pc' : Pc} (hl : Ledger (.at sh pre post accepted results drawn pc))
    (hmutex : (pre ++ pc :: post).countP Pc.holds = if sh.lock then 1 else 0)
    (hjobs : sh'.jobs = sh.jobs) (harriving : pc'.arriving = [])
    (hwaiting : pc.holds = true ∧
        pc'.hands ++ sh'.queue.map Queued.req = pc.hands ++ sh.queue.map Queued.req ∨
      pc'.hands = [] ∧ pc.hands = [] ∧ sh'.queue = sh.queue)
    (hworking : (sh'.executor ++ pc'.working).Perm (sh.executor ++ pc.working)) :
    Ledger (.at sh'.tick pre post accepted results drawn pc') := by
  have hless : (arriving (pre ++ pc' :: post)).Sublist (arriving (pre ++ pc :: post)) := by
    rw [arriving_thread, arriving_thread, harriving]
    exact (List.sublist_append_right _ _).append_left _
  refine hl.same hjobs rfl rfl ?_ ?_ ?_ ?_
  · exact hl.ids.sublist (.map _ (.append_left hless _))
  · exact fun r hr => hl.drawn r ((List.Sublist.append_left hless _).subset hr)
  · rcases hwaiting with ⟨hholds, hmoved⟩ | ⟨hhands', hhands, hqueue⟩
    · rw [waiting_of_holds hmutex hholds, waiting_of_holds hmutex hholds]
      exact hmoved
    · rw [waiting_thread, waiting_thread, hhands, hhands', show sh'.tick.queue = sh.queue from hqueue]
  · exact (working_thread _ _ _ _).trans
      ((hworking.append_right _).trans (working_thread _ _ _ _).symm)

theorem Ledger.accepts {req : JobRequest}
    (hl : Ledger (.at sh pre post accepted results drawn (.submit req)))
    (hmutex : (pre ++ .submit req :: post).countP Pc.holds = if sh.lock then 1 else 0)
    (hlock : sh.lock = false)
    (hjobs : sh'.jobs = Function.update sh.jobs req.jobId
      (some { request := req, state := .queued, gpuIds := [] }))
    (hqueue : sh'.queue = sh.queue ++ [⟨req, none⟩]) (hexecutor : sh'.executor = sh.executor) :
    Ledger (.at sh'.tick pre post (accepted ++ [req]) results drawn .schedule) := by
  have hids := hl.ids
  simp only [arriving_thread, Pc.arriving] at hids
  have hfresh : ∀ r ∈ accepted, r.jobId ≠ req.jobId := by
    intro r hr hid
    rw [List.map_append, List.nodup_append] at hids
    exact hids.2.2 _ (List.mem_map_of_mem hr) _ (List.mem_map_of_mem (by simp)) hid
  have hreplaced : Replaced (.at sh pre post accepted results drawn (.submit req)) req ⟨req, .queued, []⟩
      (.at sh'.tick pre post (accepted ++ [req]) results drawn .schedule) := ⟨hjobs, fun _ _ => rfl⟩
  have hsame : ∀ r ∈ accepted, Agent.state (.at sh'.tick pre post (accepted ++ [req]) results drawn
      .schedule) r = Agent.state (.at sh pre post accepted results drawn (.submit req)) r :=
    fun r hr => hreplaced.state_other (hfresh r hr)
  rw [hlock] at hmutex
  have hidle : (pre ++ .submit req :: post).flatMap Pc.hands = [] := flatMap_hands_eq_nil hmutex
  have hmoved : (accepted ++ arriving (pre ++ .submit req :: post)).Perm
      ((accepted ++ [req]) ++ arriving (pre ++ .schedule :: post)) := by
    simp only [arriving_thread, Pc.arriving, List.nil_append, List.append_assoc]
    exact (List.perm_append_comm_assoc _ _ _).append_left _
  refine ⟨?_, ?_, ?_, ?_, ?_, ?_, ?_, ?_⟩
  · exact ((hmoved.map _).nodup_iff).mp hl.ids
  · exact fun r hr => hl.drawn r (hmoved.mem_iff.mpr hr)
  · intro r hr
    rcases List.mem_append.mp hr with hr | hr
    · rw [hreplaced.jobs_other (hfresh r hr)]
      exact hl.entered r hr
    · rw [List.mem_singleton.mp hr]
      exact ⟨_, hreplaced.jobs_self, rfl⟩
  · intro jobId hother
    have hne : req.jobId ≠ jobId := hother req (by simp)
    rw [hreplaced.jobs_other hne.symm]
    exact hl.unknown jobId fun r hr => hother r (by simp [hr])
  · have hqueued := hl.queued
    simp only [waitingJobs, hidle, List.nil_append] at hqueued
    rw [Roster.inState_append hsame, ← hqueued, hreplaced.state_self, if_pos rfl]
    have hidle' : (pre ++ Pc.schedule :: post).flatMap Pc.hands = [] := by
      simpa [Pc.hands] using hidle
    simp [waitingJobs, hidle', Shared.tick, hqueue]
  · rw [Roster.inState_append hsame, hreplaced.state_self, if_neg (by simp), List.append_nil]
    refine List.Perm.trans (List.Perm.of_eq ?_) hl.running
    simp [workingJobs, Pc.working, Shared.tick, hexecutor]
  · intro t ht
    have ht' : t ∈ workingJobs ⟨sh, pre ++ .submit req :: post⟩ := by
      simpa [workingJobs, Pc.working, Shared.tick, hexecutor] using ht
    rw [hreplaced.jobs_other (hfresh _ (hl.mem_working ht').1)]
    exact hl.gpus t ht'
  · intro r hr state hstate
    rcases List.mem_append.mp hr with hr | hr
    · rw [hsame r hr] at hstate
      exact hl.results r hr state hstate
    · rw [List.mem_singleton.mp hr] at hstate ⊢
      rw [hreplaced.state_self, Option.some.injEq] at hstate
      subst hstate
      exact (hl.unknown req.jobId hfresh).2

theorem Ledger.grants {q : Queued} {remaining : List Queued} {toLaunch : List Task}
    {entry : JobEntry} {gpuIds : List Int}
    (hl : Ledger (.at sh pre post accepted results drawn (.consider q remaining toLaunch)))
    (hmutex : (pre ++ .consider q remaining toLaunch :: post).countP Pc.holds =
      if sh.lock then 1 else 0)
    (hentry : sh.jobs q.req.jobId = some entry)
    (hjobs : sh'.jobs = markRunning sh.jobs entry q.req gpuIds) (hqueue : sh'.queue = sh.queue)
    (hexecutor : sh'.executor = sh.executor) :
    Ledger (.at sh'.tick pre post accepted results drawn
      (.loop remaining (toLaunch ++ [{ req := q.req, gpuIds }]))) := by
  have hbefore : waitingJobs ⟨sh, pre ++ .consider q remaining toLaunch :: post⟩ =
      remaining.map Queued.req ++ q.req :: sh.queue.map Queued.req := by
    rw [waiting_of_holds hmutex rfl]
    simp [Pc.hands]
  have hmem : q.req ∈ waitingJobs ⟨sh, pre ++ .consider q remaining toLaunch :: post⟩ := by
    rw [hbefore]
    simp
  obtain ⟨hx, hstate⟩ := hl.mem_waiting.mp hmem
  have hrequest : entry.request = q.req := by
    obtain ⟨entry', hentry', hrequest⟩ := hl.entered q.req hx
    have hsame := hentry.symm.trans hentry'
    rw [Option.some.inj hsame, hrequest]
  have hreplaced : Replaced (.at sh pre post accepted results drawn (.consider q remaining toLaunch))
      q.req { entry with state := .running, gpuIds } (.at sh'.tick pre post accepted results drawn
        (.loop remaining (toLaunch ++ [{ req := q.req, gpuIds }]))) := ⟨hjobs, fun _ _ => rfl⟩
  have hsame := fun (r : JobRequest) (hr : r ∈ accepted) (hne : r ≠ q.req) =>
    hreplaced.state_other (hl.jobId_ne hr hx hne)
  have hmoved : (workingJobs ⟨sh'.tick, pre ++ .loop remaining (toLaunch ++ [⟨q.req, gpuIds⟩]) ::
      post⟩).Perm (⟨q.req, gpuIds⟩ :: workingJobs ⟨sh, pre ++ .consider q remaining toLaunch ::
        post⟩) := by
    refine (working_thread _ _ _ _).trans (List.Perm.trans ?_ ((working_thread _ _ _ _).symm.cons _))
    show ((sh'.executor ++ (toLaunch ++ [_])) ++ _).Perm (_ :: ((sh.executor ++ toLaunch) ++ _))
    rw [hexecutor, ← List.append_assoc sh.executor, ← List.cons_append]
    exact (List.perm_append_singleton _ _).append_right _
  refine hl.replaced hreplaced hx hrequest rfl ?_ rfl ?_ ?_ ?_ ?_
  · simp [arriving, Pc.arriving]
  · -- the job leaves the ones that wait, wherever it stood among them
    rw [Roster.inState_leave hl.nodup_accepted hsame (by rw [hreplaced.state_self]; simp),
      ← hl.queued, hbefore, List.erase_append_right, List.erase_cons_head,
      waiting_of_holds hmutex rfl, show sh'.tick.queue = sh.queue from hqueue]
    · rfl
    · have hnodup : (waitingJobs ⟨sh, pre ++ .consider q remaining toLaunch :: post⟩).Nodup := by
        rw [hl.queued]
        exact hl.nodup_accepted.filter _
      rw [hbefore, List.nodup_append] at hnodup
      exact fun hq => hnodup.2.2 _ hq _ (by simp) rfl
  · refine (hmoved.map Task.req).trans ?_
    refine (hl.running.cons q.req).trans (Roster.inState_join hl.nodup_accepted hx hsame ?_ ?_).symm
    · rw [hstate]
      simp
    · rw [hreplaced.state_self]
  · intro t ht
    rcases List.mem_cons.mp (hmoved.mem_iff.mp ht) with rfl | ht
    · rw [hreplaced.jobs_self]
      rfl
    · obtain ⟨haccepted, hrunning⟩ := hl.mem_working ht
      have hne : t.req ≠ q.req := by
        intro heq
        rw [heq, hstate] at hrunning
        cases hrunning
      rw [hreplaced.jobs_other (hl.jobId_ne haccepted hx hne)]
      exact hl.gpus t ht
  · simpa [JobState.terminal] using hl.results q.req hx _ hstate

theorem Ledger.records {t : Task} {state : JobState} {result : Option JobResult}
    (hl : Ledger (.at sh pre post accepted results drawn (.record t state)))
    (hreported : Reported t.req state result)
    (hjobs : sh'.jobs = Function.update sh.jobs t.req.jobId
      ((sh.jobs t.req.jobId).map fun e => { e with state }))
    (hqueue : sh'.queue = sh.queue) (hexecutor : sh'.executor = sh.executor) :
    Ledger (.at sh'.tick pre post accepted (Function.update results t.req.jobId result) drawn
      .schedule) := by
  have hmoved : (workingJobs ⟨sh, pre ++ .record t state :: post⟩).Perm
      (t :: workingJobs ⟨sh'.tick, pre ++ .schedule :: post⟩) := by
    refine (working_thread _ _ _ _).trans (List.Perm.trans ?_ ((working_thread _ _ _ _).symm.cons _))
    show ((sh.executor ++ [t]) ++ _).Perm (_ :: ((sh'.executor ++ []) ++ _))
    rw [hexecutor, List.append_nil, ← List.cons_append]
    exact (List.perm_append_singleton _ _).append_right _
  have hmem := hmoved.mem_iff.mpr (List.mem_cons_self ..)
  obtain ⟨hx, hstate⟩ := hl.mem_working hmem
  obtain ⟨gpuIds, hentry⟩ := hl.entry_of_state hx hstate
  have hentry' : sh.jobs t.req.jobId = some ⟨t.req, .running, gpuIds⟩ := hentry
  rw [hentry', Option.map_some] at hjobs
  have hreplaced : Replaced (.at sh pre post accepted results drawn (.record t state)) t.req
      ⟨t.req, state, gpuIds⟩ (.at sh'.tick pre post accepted
        (Function.update results t.req.jobId result) drawn .schedule) :=
    ⟨hjobs, fun jobId hne => Function.update_of_ne hne _ _⟩
  have hsame := fun (r : JobRequest) (hr : r ∈ accepted) (hne : r ≠ t.req) =>
    hreplaced.state_other (hl.jobId_ne hr hx hne)
  have hterminal := hreported.terminal
  refine hl.replaced hreplaced hx rfl rfl ?_ rfl ?_ ?_ ?_ ?_
  · simp [arriving, Pc.arriving]
  · -- the job neither was nor is in state queued
    refine Eq.trans ?_ (hl.queued.trans (Roster.inState_congr ?_))
    · simp [waitingJobs, Pc.hands, Shared.tick, hqueue]
    · intro r hr
      by_cases hne : r = t.req
      · rw [hne, hreplaced.state_self, hstate]
        cases state <;> simp [JobState.terminal] at hterminal ⊢
      · rw [hsame r hr hne]
  · rw [Roster.inState_leave hl.nodup_accepted hsame (by
      rw [hreplaced.state_self]
      cases state <;> simp [JobState.terminal] at hterminal ⊢)]
    have hleft := ((hmoved.map Task.req).symm.trans hl.running).erase t.req
    rwa [List.map_cons, List.erase_cons_head] at hleft
  · intro u hu
    have hu' := hl.gpus u (hmoved.mem_iff.mpr (List.mem_cons_of_mem _ hu))
    by_cases hid : u.req.jobId = t.req.jobId
    · rw [hid] at hu' ⊢
      rw [hreplaced.jobs_self]
      rw [hentry] at hu'
      exact hu'
    · rw [hreplaced.jobs_other hid]
      exact hu'
  · rw [if_pos hterminal]
    show Reported t.req state (Function.update results t.req.jobId result t.req.jobId)
    rw [Function.update_self]
    exact hreported

end Steps

/-- The agent's threads run as in `Interleaving`. -/
theorem reachable_sys {cfg : Config} {a : Agent} (h : (agentLts cfg).Reachable a) :
    (lts cfg).Reachable a.sys := by
  induction h with
  | init h => exact .init h.1
  | step _ hstep ih =>
    cases hstep with
    | thread d state result h => exact .step ih (.thread d state h)
    | arrive req => exact .step ih (.arrive req)
    | start h => exact .step ih (.start h)

theorem ledger_init {cfg : Config} {a : Agent} (h : (agentLts cfg).init a) : Ledger a := by
  obtain ⟨⟨sh, threads⟩, accepted, results, drawn⟩ := a
  obtain ⟨⟨⟨pool, -, hsh⟩, hthreads⟩, haccepted, hresults, hdrawn⟩ := h
  cases hsh
  cases hthreads
  cases haccepted
  cases hresults
  cases hdrawn
  exact ⟨List.nodup_nil, by simp [arriving], by simp, fun _ _ => ⟨rfl, rfl⟩, rfl, .nil,
    by simp [workingJobs], by simp⟩

theorem Ledger.step {cfg : Config} {a b : Agent} (hl : Ledger a)
    (hmutex : a.sys.threads.countP Pc.holds = if a.sys.sh.lock then 1 else 0)
    (hstep : Agent.Step cfg a () b) : Ledger b := by
  cases hstep with
  | thread d state result h hreports =>
    cases step_move h with
    | quiet hjobs haccepts hwrites harriving hwaiting hworking =>
      rw [haccepts, hwrites, List.append_nil]
      exact hl.quiet hmutex hjobs harriving hwaiting hworking
    | accepts req hlock => exact hl.accepts hmutex hlock rfl rfl rfl
    | grants pool gpuIds hentry =>
      rw [show Pc.accepts (.consider _ _ _) _ = [] from rfl, List.append_nil]
      exact hl.grants hmutex hentry rfl rfl rfl
    | records t state =>
      rw [show Pc.accepts (.record _ _) _ = [] from rfl, List.append_nil]
      exact hl.records hreports rfl rfl rfl
  | @arrive sh threads accepted _ drawn req hfresh =>
    have harriving : accepted ++ arriving (threads ++ [.submit req]) =
        (accepted ++ arriving threads) ++ [req] := by
      simp [arriving, Pc.arriving]
    refine hl.same rfl rfl rfl ?_ ?_ ?_ ?_
    · show ((accepted ++ arriving (threads ++ [.submit req])).map JobRequest.jobId).Nodup
      rw [harriving, List.map_append, List.nodup_append]
      refine ⟨hl.ids, by simp, ?_⟩
      intro jobId hid jobId' hid' heq
      obtain ⟨r, hr, rfl⟩ := List.mem_map.mp hid
      rw [List.map_singleton, List.mem_singleton] at hid'
      exact hfresh ((heq.trans hid') ▸ hl.drawn r hr)
    · show ∀ r ∈ accepted ++ arriving (threads ++ [.submit req]), r.jobId ∈ req.jobId :: drawn
      rw [harriving]
      intro r hr
      rcases List.mem_append.mp hr with hr | hr
      · exact List.mem_cons_of_mem _ (hl.drawn r hr)
      · rw [List.mem_singleton.mp hr]
        exact List.mem_cons_self
    · simp [waitingJobs, Pc.hands, Shared.tick]
    · simp [workingJobs, Pc.working, Shared.tick]
  | start h =>
    refine hl.same rfl rfl rfl ?_ ?_ ?_ ?_
    · simpa [arriving, Pc.arriving] using hl.ids
    · simpa [arriving, Pc.arriving] using hl.drawn
    · simp [waitingJobs, Pc.hands, Shared.tick]
    · simp only [workingJobs, Shared.tick, h, List.flatMap_append, List.flatMap_cons, List.flatMap_nil,
        Pc.working, List.append_nil, ← List.append_assoc, List.cons_append]
      exact List.perm_append_singleton _ _

theorem ledger_of_reachable {cfg : Config} {a : Agent} (h : (agentLts cfg).Reachable a) :
    Ledger a := by
  induction h with
  | init h => exact ledger_init h
  | step h hstep ih => exact ih.step (awake_of_reachable (reachable_sys h)).mutex hstep

/-- In every state of every interleaving: the jobs that wait are the
accepted ones in state queued, in the order of acceptance; those between
the decision and the record are the ones in state running, with the GPUs of
their entries; and every other accepted job has the final state of its
result, or a failure without one. -/
theorem jobs_in_one_place (cfg : Config) (a : Agent) (h : (agentLts cfg).Reachable a) :
    waitingJobs a.sys = Roster.inState a.accepted a.state (some .queued) ∧
      ((workingJobs a.sys).map Task.req).Perm (Roster.inState a.accepted a.state (some .running)) ∧
      (∀ t ∈ workingJobs a.sys, (a.sys.sh.jobs t.req.jobId).map JobEntry.gpuIds = some t.gpuIds) ∧
      ∀ req ∈ a.accepted, a.state req = some .queued ∨ a.state req = some .running ∨
        ∃ state, a.state req = some state ∧ Reported req state (a.results req.jobId) := by
  have hl := ledger_of_reachable h
  refine ⟨hl.queued, hl.running, hl.gpus, fun req hreq => ?_⟩
  obtain ⟨entry, hentry, -⟩ := hl.entered req hreq
  have hstate : a.state req = some entry.state := by rw [Agent.state, hentry, Option.map_some]
  have hresult := hl.results req hreq entry.state hstate
  rw [hstate]
  cases hcase : entry.state with
  | queued => exact .inl rfl
  | running => exact .inr (.inl rfl)
  | success => exact .inr (.inr ⟨_, rfl, by simpa [hcase, JobState.terminal] using hresult⟩)
  | failure => exact .inr (.inr ⟨_, rfl, by simpa [hcase, JobState.terminal] using hresult⟩)

/-! ## One job that is granted a GPU -/

namespace OneJob

open LostJobs (cfg train busy idle)

/-- A lone thread takes a step other than a record. -/
theorem agent_step {cfg : Config} {sh sh' : Shared} (pc : Pc) {pc' : Pc} (accepted : List JobRequest)
    (results : String → Option JobResult) (drawn : List String) (d : Detection)
    (h : pc.step cfg d .success sh = some (sh', pc')) (hrecord : ∀ t state, pc ≠ .record t state) :
    (agentLts cfg).step ⟨⟨sh, [pc]⟩, accepted, results, drawn⟩ ()
      ⟨⟨sh'.tick, [pc']⟩, accepted ++ pc.accepts pc', results, drawn⟩ := by
  have hwrites : pc.writes none results = results := by
    cases pc with
    | record t state => exact absurd rfl (hrecord t state)
    | _ => rfl
  have hreports : pc.Reports none := by
    cases pc with
    | record t state => exact absurd rfl (hrecord t state)
    | _ => trivial
  have hstep := @Agent.Step.thread cfg sh sh' [] [] pc pc' accepted results drawn d .success none h
    hreports
  rwa [hwrites] at hstep

/-- `train` is accepted and not considered yet. -/
def queuedAgent : Agent where
  sys := ⟨{ popped with queue := [{ req := train }], lock := false, clock := 3 }, [.schedule]⟩
  accepted := [train]
  drawn := [train.jobId]

theorem queuedAgent_reachable : (agentLts cfg).Reachable queuedAgent := by
  have h0 : (agentLts cfg).Reachable ⟨⟨{}, []⟩, [], fun _ => none, []⟩ :=
    .init ⟨⟨⟨{}, rfl, rfl⟩, rfl⟩, rfl, rfl, rfl⟩
  have h1 := Lts.Reachable.step h0 (.arrive train (List.not_mem_nil))
  have h2 := Lts.Reachable.step h1 (agent_step (.submit train) [] _ _ (busy 0) rfl (by simp))
  exact h2

/-- `granted`, with the rest of `_jobs`. -/
def grantedAgent : Agent := { sys := granted, accepted := [train], drawn := [train.jobId] }

theorem granted_run : (agentLts cfg).Run queuedAgent [(), (), ()] grantedAgent := by
  have hstep : (Pc.consider { req := train } [] []).step cfg (idle 0) .success popped =
      some ({ granted.sh with clock := 5 }, .loop [] [{ req := train, gpuIds := [0] }]) := by
    have hconsider : consider cfg (idle 0) popped.pool train = _ := consider_train
    simp only [Pc.step, hconsider]
    rfl
  refine .cons (agent_step _ [train] _ _ (busy 0) rfl (by simp)) ?_
  refine .cons (agent_step _ [train] _ _ (busy 0) rfl (by simp)) ?_
  exact .cons (agent_step _ [train] _ _ (idle 0) hstep (by simp)) (.nil _)

theorem grantedAgent_reachable : (agentLts cfg).Reachable grantedAgent :=
  queuedAgent_reachable.run granted_run

end OneJob

open OneJob in
theorem jobs_in_one_place_granted :
    waitingJobs grantedAgent.sys =
        Roster.inState grantedAgent.accepted grantedAgent.state (some .queued) ∧
      ((workingJobs grantedAgent.sys).map Task.req).Perm
        (Roster.inState grantedAgent.accepted grantedAgent.state (some .running)) ∧
      (∀ t ∈ workingJobs grantedAgent.sys,
        (grantedAgent.sys.sh.jobs t.req.jobId).map JobEntry.gpuIds = some t.gpuIds) ∧
      ∀ req ∈ grantedAgent.accepted, grantedAgent.state req = some .queued ∨
        grantedAgent.state req = some .running ∨ ∃ state, grantedAgent.state req = some state ∧
          Reported req state (grantedAgent.results req.jobId) :=
  jobs_in_one_place LostJobs.cfg grantedAgent grantedAgent_reachable

/-! ## What comes of an entry -/

/-- What an entry may be later: its state only moves forward, the GPUs stay
once they are granted, and a final entry stays as it is. -/
structure Later (e e' : Entry) : Prop where
  request : e'.request = e.request
  forward : e.state.rank ≤ e'.state.rank
  gpus : e.state ≠ .queued → e'.gpuIds = e.gpuIds
  final : e.state.terminal = true → e' = e

theorem Later.refl (e : Entry) : Later e e := ⟨rfl, le_rfl, fun _ => rfl, fun _ => rfl⟩

theorem Later.trans {e e' e'' : Entry} (h : Later e e') (h' : Later e' e'') : Later e e'' := by
  refine ⟨h'.request.trans h.request, h.forward.trans h'.forward, ?_, ?_⟩
  · intro hstarted
    refine (h'.gpus ?_).trans (h.gpus hstarted)
    intro hqueued
    have hforward := h.forward
    rw [hqueued] at hforward
    cases hstate : e.state <;> simp_all [JobState.rank]
  · intro hfinal
    have hsame := h.final hfinal
    subst hsame
    exact h'.final hfinal

/-- The entry of a job. -/
def Agent.entry (a : Agent) (req : JobRequest) : Option Entry :=
  (a.sys.sh.jobs req.jobId).map fun e => ⟨e, a.results req.jobId⟩

/-- No accepted job is dropped, and the entries only move forward. -/
structure Forward (a b : Agent) : Prop where
  accepted : a.accepted <+: b.accepted
  entries : ∀ req ∈ a.accepted, ∀ e, a.entry req = some e → ∃ e', b.entry req = some e' ∧ Later e e'

theorem Forward.refl (a : Agent) : Forward a a :=
  ⟨List.prefix_refl _, fun _ _ e he => ⟨e, he, .refl e⟩⟩

theorem Forward.trans {a b c : Agent} (h : Forward a b) (h' : Forward b c) : Forward a c := by
  refine ⟨h.accepted.trans h'.accepted, fun req hreq e he => ?_⟩
  obtain ⟨e', he', hlater⟩ := h.entries req hreq e he
  obtain ⟨e'', he'', hlater'⟩ := h'.entries req (h.accepted.subset hreq) e' he'
  exact ⟨e'', he'', hlater.trans hlater'⟩

/-- One entry is replaced by a later one, or entered. -/
theorem Forward.replaced {a b : Agent} {x : JobRequest} {entry : JobEntry}
    (hreplaced : Replaced a x entry b) (haccepted : a.accepted <+: b.accepted)
    (hlater : ∀ r ∈ a.accepted, r.jobId = x.jobId → ∀ e, a.entry r = some e →
      Later e ⟨entry, b.results x.jobId⟩) : Forward a b := by
  refine ⟨haccepted, fun r hr e he => ?_⟩
  by_cases hid : r.jobId = x.jobId
  · refine ⟨⟨entry, b.results x.jobId⟩, ?_, hlater r hr hid e he⟩
    rw [Agent.entry, hid, hreplaced.jobs_self, Option.map_some]
  · refine ⟨e, ?_, .refl e⟩
    rw [Agent.entry, hreplaced.jobs_other hid, hreplaced.results _ hid]
    exact he

theorem Forward.same {a b : Agent} (hjobs : b.sys.sh.jobs = a.sys.sh.jobs)
    (hresults : b.results = a.results) (haccepted : b.accepted = a.accepted) : Forward a b := by
  refine ⟨haccepted ▸ List.prefix_refl _, fun r _ e he => ⟨e, ?_, .refl e⟩⟩
  rw [Agent.entry, hjobs, hresults]
  exact he

section Steps

variable {sh sh' : Shared} {pre post : List Pc} {accepted : List JobRequest}
  {results : String → Option JobResult} {drawn : List String}

theorem Forward.accepts {req : JobRequest}
    (hl : Ledger (.at sh pre post accepted results drawn (.submit req)))
    (hjobs : sh'.jobs = Function.update sh.jobs req.jobId
      (some { request := req, state := .queued, gpuIds := [] })) :
    Forward (.at sh pre post accepted results drawn (.submit req))
      (.at sh'.tick pre post (accepted ++ [req]) results drawn .schedule) := by
  have hreplaced : Replaced (.at sh pre post accepted results drawn (.submit req)) req ⟨req, .queued, []⟩
      (.at sh'.tick pre post (accepted ++ [req]) results drawn .schedule) := ⟨hjobs, fun _ _ => rfl⟩
  refine .replaced hreplaced (List.prefix_append _ _) fun r hr hid => ?_
  have hids := hl.ids
  simp only [arriving_thread, Pc.arriving, List.map_append, List.nodup_append] at hids
  exact absurd hid (hids.2.2 _ (List.mem_map_of_mem hr) _ (by simp))

theorem Forward.grants {q : Queued} {remaining : List Queued} {toLaunch : List Task}
    {entry : JobEntry} {gpuIds : List Int}
    (hl : Ledger (.at sh pre post accepted results drawn (.consider q remaining toLaunch)))
    (hentry : sh.jobs q.req.jobId = some entry)
    (hjobs : sh'.jobs = markRunning sh.jobs entry q.req gpuIds) :
    Forward (.at sh pre post accepted results drawn (.consider q remaining toLaunch))
      (.at sh'.tick pre post accepted results drawn
        (.loop remaining (toLaunch ++ [{ req := q.req, gpuIds }]))) := by
  have hreplaced : Replaced (.at sh pre post accepted results drawn (.consider q remaining toLaunch))
      q.req { entry with state := .running, gpuIds } (.at sh'.tick pre post accepted results drawn
        (.loop remaining (toLaunch ++ [{ req := q.req, gpuIds }]))) := ⟨hjobs, fun _ _ => rfl⟩
  have hmem : q.req ∈ waitingJobs ⟨sh, pre ++ .consider q remaining toLaunch :: post⟩ := by
    simp [waitingJobs, Pc.hands]
  have hqueued : entry.state = .queued := by
    have hstate := (hl.mem_waiting.mp hmem).2
    have hentry' : (Agent.at sh pre post accepted results drawn
      (.consider q remaining toLaunch)).sys.sh.jobs q.req.jobId = some entry := hentry
    rwa [Agent.state, hentry', Option.map_some, Option.some.injEq] at hstate
  refine .replaced hreplaced (List.prefix_refl _) fun r hr hid e he => ?_
  have he' : some (⟨entry, results r.jobId⟩ : Entry) = some e := by
    rw [← he, Agent.entry, hid]
    show _ = (sh.jobs q.req.jobId).map _
    rw [hentry, Option.map_some]
  cases he'
  refine ⟨rfl, ?_, fun hstarted => absurd hqueued hstarted, fun hfinal => ?_⟩
  · rw [hqueued]
    exact Nat.zero_le _
  · rw [hqueued] at hfinal
    cases hfinal

theorem Forward.records {t : Task} {state : JobState} {result : Option JobResult}
    (hl : Ledger (.at sh pre post accepted results drawn (.record t state)))
    (hreported : Reported t.req state result)
    (hjobs : sh'.jobs = Function.update sh.jobs t.req.jobId
      ((sh.jobs t.req.jobId).map fun e => { e with state })) :
    Forward (.at sh pre post accepted results drawn (.record t state))
      (.at sh'.tick pre post accepted (Function.update results t.req.jobId result)
        drawn .schedule) := by
  have hmem : t ∈ workingJobs ⟨sh, pre ++ .record t state :: post⟩ := by
    simp [workingJobs, Pc.working]
  obtain ⟨hx, hstate⟩ := hl.mem_working hmem
  obtain ⟨gpuIds, hentry⟩ := hl.entry_of_state hx hstate
  have hentry' : sh.jobs t.req.jobId = some ⟨t.req, .running, gpuIds⟩ := hentry
  rw [hentry', Option.map_some] at hjobs
  have hreplaced : Replaced (.at sh pre post accepted results drawn (.record t state)) t.req
      ⟨t.req, state, gpuIds⟩ (.at sh'.tick pre post accepted
        (Function.update results t.req.jobId result) drawn .schedule) :=
    ⟨hjobs, fun jobId hne => Function.update_of_ne hne _ _⟩
  refine .replaced hreplaced (List.prefix_refl _) fun r hr hid e he => ?_
  have he' : some (⟨⟨t.req, .running, gpuIds⟩, results r.jobId⟩ : Entry) = some e := by
    rw [← he, Agent.entry, hid, hentry, Option.map_some]
  cases he'
  refine ⟨rfl, ?_, fun _ => rfl, fun hfinal => by cases hfinal⟩
  have hterminal := hreported.terminal
  cases state <;> simp [JobState.terminal, JobState.rank] at hterminal ⊢

end Steps

theorem Forward.step {cfg : Config} {a b : Agent} (hl : Ledger a) (hstep : Agent.Step cfg a () b) :
    Forward a b := by
  cases hstep with
  | thread d state result h hreports =>
    cases step_move h with
    | quiet hjobs haccepts hwrites =>
      rw [haccepts, hwrites, List.append_nil]
      exact .same hjobs rfl rfl
    | accepts req => exact .accepts hl rfl
    | grants pool gpuIds hentry =>
      rw [show Pc.accepts (.consider _ _ _) _ = [] from rfl, List.append_nil]
      exact .grants hl hentry rfl
    | records t state =>
      rw [show Pc.accepts (.record _ _) _ = [] from rfl, List.append_nil]
      exact .records hl hreports rfl
  | arrive req hfresh => exact .same rfl rfl rfl
  | start h => exact .same rfl rfl rfl

theorem forward_of_run {cfg : Config} {a b : Agent} {steps : List Unit}
    (h : (agentLts cfg).Reachable a) (hrun : (agentLts cfg).Run a steps b) : Forward a b :=
  hrun.relates .refl (fun _ _ _ => .trans)
    (fun _ _ _ hr hstep => .step (ledger_of_reachable hr) hstep) h

/-- The entry of an accepted job. -/
theorem Ledger.entry {a : Agent} (hl : Ledger a) {req : JobRequest} (hreq : req ∈ a.accepted) :
    ∃ e, a.entry req = some e ∧ a.state req = some e.state ∧ e.result = a.results req.jobId := by
  obtain ⟨entry, hentry, -⟩ := hl.entered req hreq
  refine ⟨⟨entry, a.results req.jobId⟩, ?_, ?_, rfl⟩
  · rw [Agent.entry, hentry, Option.map_some]
  · rw [Agent.state, hentry, Option.map_some]

/-- Over any run from any reachable state: no accepted job is dropped or
moved behind a later one, its request stays, its state only moves from
queued over running to a final one, its GPUs do not change once granted,
and nothing in an entry changes once the state is final. -/
theorem entries_only_move_forward (cfg : Config) (a b : Agent) (steps : List Unit)
    (h : (agentLts cfg).Reachable a) (hrun : (agentLts cfg).Run a steps b) :
    a.accepted <+: b.accepted ∧
      ∀ req ∈ a.accepted, ∃ e e', a.entry req = some e ∧ b.entry req = some e' ∧ Later e e' := by
  have hforward := forward_of_run h hrun
  refine ⟨hforward.accepted, fun req hreq => ?_⟩
  obtain ⟨e, he, -, -⟩ := (ledger_of_reachable h).entry hreq
  obtain ⟨e', he', hlater⟩ := hforward.entries req hreq e he
  exact ⟨e, e', he, he', hlater⟩

open OneJob in
theorem entries_only_move_forward_granted :
    queuedAgent.accepted <+: grantedAgent.accepted ∧ ∀ req ∈ queuedAgent.accepted, ∃ e e',
      queuedAgent.entry req = some e ∧ grantedAgent.entry req = some e' ∧ Later e e' :=
  entries_only_move_forward LostJobs.cfg queuedAgent grantedAgent [(), (), ()]
    queuedAgent_reachable granted_run

end InfiniOps.Ci.Interleaving
