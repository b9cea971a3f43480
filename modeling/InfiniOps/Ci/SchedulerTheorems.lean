/-
InfiniOps.Ci.SchedulerTheorems — what `_try_schedule` conserves.

`consider_isOk_iff` says when the calls made for one job return. The loop
raises exactly if one of them does (`scheduleLoop_raised_iff`), and then
stops with the jobs behind it still queued and the job itself nowhere
(`scheduleLoop_raises`). Otherwise it ends with every popped job in
`remaining` or `to_launch` and grants only free GPUs
(`scheduleLoop_returns`). So from every reachable state a call of
`_try_schedule` conserves jobs and GPUs if and only if no call made for a
queued job raises (`trySchedule_conserved_iff`).

The invariant that carries a run is `Scheduler.Good`: the GPUs allocated
are owned, disjointly, by the running jobs, and every queued job has its
entry in `_jobs`.
-/
import InfiniOps.Ci.Scheduler

namespace InfiniOps.Ci

/-! ## One job -/

theorem consider_isOk_iff (cfg : Config) (d : Detection) (pool : ResourcePool)
    (req : JobRequest) :
    (∃ r, consider cfg d pool req = .ok r) ↔ JobOk cfg d req := by
  cases hgpu : parseGpuRequirement (cfg.resources req.jobName) with
  | error e => simp [consider, JobOk, hgpu, bind, Except.bind]
  | ok gpuCount =>
    cases hmem : parseMemoryRequirement cfg.lower (cfg.resources req.jobName) with
    | error e => simp [consider, JobOk, hgpu, hmem, bind, Except.bind]
    | ok memoryMb =>
      cases hdry : cfg.dryRun with
      | true => simp [consider, JobOk, hgpu, hmem, hdry, bind, Except.bind, pure, Except.pure]
      | false =>
        simp only [consider, JobOk, hgpu, hmem, hdry, bind, Except.bind, Bool.false_eq_true,
          if_false, false_or, ResourcePool.allocate_isOk_iff, Except.ok.injEq]
        constructor
        · exact fun h => ⟨gpuCount, memoryMb, rfl, rfl, h⟩
        · rintro ⟨_, _, rfl, rfl, h⟩
          exact h

/-- What a job is given was free and is allocated now; a job that has to
wait is given nothing. -/
theorem consider_spec {cfg : Config} {d : Detection} {pool pool' : ResourcePool}
    {req : JobRequest} {ids : List Int} {ok : Bool}
    (h : consider cfg d pool req = .ok (pool', ids, ok)) :
    pool'.allocated = pool.allocated ∪ ids.toFinset ∧ (∀ g ∈ ids, g ∉ pool.allocated) ∧
      (ok = false → ids = []) := by
  unfold consider at h
  cases hgpu : parseGpuRequirement (cfg.resources req.jobName) with
  | error e => simp [hgpu, bind, Except.bind] at h
  | ok gpuCount =>
    cases hmem : parseMemoryRequirement cfg.lower (cfg.resources req.jobName) with
    | error e => simp [hgpu, hmem, bind, Except.bind] at h
    | ok memoryMb =>
      cases hdry : cfg.dryRun with
      | true =>
        simp [hgpu, hmem, hdry, bind, Except.bind, pure, Except.pure] at h
        obtain ⟨rfl, rfl, -⟩ := h
        simp
      | false =>
        simp only [hgpu, hmem, hdry, bind, Except.bind, Bool.false_eq_true, if_false] at h
        exact ResourcePool.allocate_spec h

/-! ## The loop -/

/-- Every queued job has an entry. -/
def Registered (jobs : String → Option JobEntry) (queue : List JobRequest) : Prop :=
  ∀ req ∈ queue, (jobs req.jobId).isSome

/-- Entries are overwritten, never removed. -/
theorem Registered.update {jobs : String → Option JobEntry} {queue : List JobRequest}
    (h : Registered jobs queue) (id : String) {entry : Option JobEntry}
    (hentry : (jobs id).isSome → entry.isSome) :
    Registered (Function.update jobs id entry) queue := by
  intro r hr
  by_cases hid : r.jobId = id
  · subst hid
    rw [Function.update_self]
    exact hentry (h r hr)
  · rw [Function.update_of_ne hid]
    exact h r hr

theorem Registered.subset {jobs : String → Option JobEntry} {queue rest : List JobRequest}
    (h : Registered jobs queue) (hsub : rest ⊆ queue) : Registered jobs rest :=
  fun req hreq => h req (hsub hreq)

/-- Every job to launch is recorded as running. -/
def AllRunning (jobs : String → Option JobEntry) (tasks : List Task) : Prop :=
  ∀ t ∈ tasks, (jobs t.req.jobId).map JobEntry.state = some .running

theorem AllRunning.markRunning {jobs : String → Option JobEntry} {tasks : List Task}
    (h : AllRunning jobs tasks) (entry : JobEntry) (req : JobRequest) (ids : List Int) :
    AllRunning (Ci.markRunning jobs entry req ids) (tasks ++ [{ req, gpuIds := ids }]) := by
  intro t ht
  unfold Ci.markRunning
  by_cases hid : t.req.jobId = req.jobId
  · simp [hid]
  · rw [Function.update_of_ne hid]
    rcases List.mem_append.mp ht with ht | ht
    · exact h t ht
    · rw [List.mem_singleton.mp ht] at hid
      exact absurd rfl hid

/-- What the loop keeps true of its containers, with the jobs popped so far
in `popped` and the jobs running before the call in `running`. -/
structure LoopGood (popped : List JobRequest) (running : List Task) (st : LoopState) : Prop where
  split : (st.remaining ++ st.toLaunch.map Task.req).Perm popped
  remaining : st.remaining.Sublist popped
  registered : Registered st.jobs st.remaining
  marked : AllRunning st.jobs st.toLaunch
  owns : Owns Task.gpuIds st.pool.allocated (st.toLaunch ++ running)

namespace LoopGood

variable {popped : List JobRequest} {running : List Task} {st : LoopState} {req : JobRequest}
  {pool : ResourcePool} {ids : List Int}

/-- The job is given GPUs that were free. -/
theorem grant (h : LoopGood popped running st) (entry : JobEntry)
    (hfree : ∀ g ∈ ids, g ∉ st.pool.allocated)
    (halloc : pool.allocated = st.pool.allocated ∪ ids.toFinset) :
    LoopGood (popped ++ [req]) running
      { st with
        pool
        jobs := markRunning st.jobs entry req ids
        toLaunch := st.toLaunch ++ [{ req, gpuIds := ids }] } := by
  refine ⟨?_, h.remaining.trans (by simp), h.registered.update _ fun _ => rfl,
    h.marked.markRunning entry req ids, ?_⟩
  · simp only [List.map_append, List.map_cons, List.map_nil, ← List.append_assoc]
    exact h.split.append_right [req]
  · show Owns Task.gpuIds pool.allocated _
    rw [halloc]
    have hgrant := h.owns.grant (t := { req, gpuIds := ids }) hfree
    refine hgrant.perm ?_
    rw [List.append_assoc, List.singleton_append]
    exact List.perm_middle.symm

/-- The job has to wait. -/
theorem refuse (h : LoopGood popped running st) (hreg : (st.jobs req.jobId).isSome)
    (hsame : pool.allocated = st.pool.allocated) :
    LoopGood (popped ++ [req]) running { st with pool, remaining := st.remaining ++ [req] } := by
  refine ⟨?_, h.remaining.append (List.Sublist.refl _), ?_, h.marked, ?_⟩
  · have hmove : (st.remaining ++ [req] ++ st.toLaunch.map Task.req).Perm
        (st.remaining ++ st.toLaunch.map Task.req ++ [req]) := by
      rw [List.append_assoc, List.append_assoc]
      exact List.perm_append_comm.append_left _
    exact hmove.trans (h.split.append_right [req])
  · intro r hr
    rcases List.mem_append.mp hr with hr | hr
    · exact h.registered r hr
    · rw [List.mem_singleton.mp hr]
      exact hreg
  · show Owns Task.gpuIds pool.allocated _
    rw [hsame]
    exact h.owns

end LoopGood

/-- A loop that does not raise ends with all it popped in its two
containers. -/
theorem scheduleLoop_returns (cfg : Config) (running : List Task) (queue : List JobRequest)
    (ds : Nat → Detection) (st : LoopState) (popped : List JobRequest)
    (hgood : LoopGood popped running st) (hreg : Registered st.jobs queue)
    (hraised : (scheduleLoop cfg queue ds st).raised = none) :
    LoopGood (popped ++ queue) running (scheduleLoop cfg queue ds st).st := by
  induction queue generalizing ds st popped with
  | nil =>
    rw [List.append_nil]
    exact hgood
  | cons req queue ih =>
    have hentry : (st.jobs req.jobId).isSome := hreg req (by simp)
    have hreg' : Registered st.jobs queue := hreg.subset (List.subset_cons_self req queue)
    have hpopped : popped ++ req :: queue = (popped ++ [req]) ++ queue := by simp
    rw [hpopped]
    cases hconsider : consider cfg (ds 0) st.pool req with
    | error e => simp [scheduleLoop, hconsider] at hraised
    | ok r =>
      obtain ⟨pool, ids, ok⟩ := r
      obtain ⟨halloc, hfree, hnone⟩ := consider_spec hconsider
      cases ok with
      | true =>
        obtain ⟨entry, hentry⟩ := Option.isSome_iff_exists.mp hentry
        simp only [scheduleLoop, hconsider, hentry] at hraised ⊢
        exact ih _ _ _ (hgood.grant entry hfree halloc) (hreg'.update _ fun _ => rfl) hraised
      | false =>
        simp only [scheduleLoop, hconsider] at hraised ⊢
        exact ih _ _ _ (hgood.refuse hentry (by simp [halloc, hnone rfl])) hreg' hraised

/-- If the calls for some job do not all return, the loop raises and leaves
fewer jobs queued than it found. -/
theorem scheduleLoop_raises (cfg : Config) (queue : List JobRequest) (ds : Nat → Detection)
    (st : LoopState) (hbad : ∃ i, ∃ h : i < queue.length, ¬ JobOk cfg (ds i) queue[i]) :
    (scheduleLoop cfg queue ds st).raised ≠ none ∧
      (scheduleLoop cfg queue ds st).queue.length < queue.length := by
  induction queue generalizing ds st with
  | nil =>
    obtain ⟨i, h, -⟩ := hbad
    exact absurd h (Nat.not_lt_zero i)
  | cons req queue ih =>
    cases hconsider : consider cfg (ds 0) st.pool req with
    | error e => simp [scheduleLoop, hconsider]
    | ok r =>
      obtain ⟨pool, ids, ok⟩ := r
      have hhead : JobOk cfg (ds 0) req := (consider_isOk_iff cfg (ds 0) st.pool req).mp ⟨_, hconsider⟩
      have hbad' : ∃ i, ∃ h : i < queue.length, ¬ JobOk cfg (ds (i + 1)) queue[i] := by
        obtain ⟨i, h, hi⟩ := hbad
        cases i with
        | zero => exact absurd hhead hi
        | succ i => exact ⟨i, by simpa using h, hi⟩
      cases ok with
      | true =>
        cases hentry : st.jobs req.jobId with
        | none => simp [scheduleLoop, hconsider, hentry]
        | some entry =>
          simp only [scheduleLoop, hconsider, hentry]
          obtain ⟨hraised, hlen⟩ := ih (fun i => ds (i + 1)) _ hbad'
          exact ⟨hraised, by simp only [List.length_cons]; omega⟩
      | false =>
        simp only [scheduleLoop, hconsider]
        obtain ⟨hraised, hlen⟩ := ih (fun i => ds (i + 1)) _ hbad'
        exact ⟨hraised, by simp only [List.length_cons]; omega⟩

/-- What is still queued when the loop ends, even by an exception, has its
entry if it had one before. -/
theorem scheduleLoop_registered (cfg : Config) (queue : List JobRequest) (ds : Nat → Detection)
    (st : LoopState) (hreg : Registered st.jobs (st.remaining ++ queue)) :
    Registered (scheduleLoop cfg queue ds st).st.jobs
      ((scheduleLoop cfg queue ds st).st.remaining ++ (scheduleLoop cfg queue ds st).queue) := by
  induction queue generalizing ds st with
  | nil => exact hreg
  | cons req queue ih =>
    have hpopped : Registered st.jobs (st.remaining ++ queue) :=
      hreg.subset (((List.sublist_cons_self req queue).append_left _).subset)
    cases hconsider : consider cfg (ds 0) st.pool req with
    | error e =>
      simp only [scheduleLoop, hconsider]
      exact hpopped
    | ok r =>
      obtain ⟨pool, ids, ok⟩ := r
      cases ok with
      | true =>
        cases hentry : st.jobs req.jobId with
        | none =>
          simp only [scheduleLoop, hconsider, hentry]
          exact hpopped
        | some entry =>
          simp only [scheduleLoop, hconsider, hentry]
          exact ih _ _ (hpopped.update _ fun _ => rfl)
      | false =>
        simp only [scheduleLoop, hconsider]
        refine ih _ _ ?_
        rw [List.append_assoc]
        exact hreg

/-- The loop ends without an exception if and only if the calls made for
every job return. -/
theorem scheduleLoop_raised_iff (cfg : Config) (queue : List JobRequest) (ds : Nat → Detection)
    (st : LoopState) (hreg : Registered st.jobs queue) :
    (scheduleLoop cfg queue ds st).raised = none ↔
      ∀ i (h : i < queue.length), JobOk cfg (ds i) queue[i] := by
  constructor
  · intro hraised
    by_contra hbad
    simp only [not_forall] at hbad
    exact (scheduleLoop_raises cfg queue ds st hbad).1 hraised
  · intro hok
    induction queue generalizing ds st with
    | nil => rfl
    | cons req queue ih =>
      have htail : ∀ i (h : i < queue.length), JobOk cfg (ds (i + 1)) queue[i] := by
        intro i h
        exact hok (i + 1) (by simpa using h)
      have hreg' : Registered st.jobs queue := hreg.subset (List.subset_cons_self req queue)
      obtain ⟨⟨pool, ids, ok⟩, hconsider⟩ :=
        (consider_isOk_iff cfg (ds 0) st.pool req).mpr (hok 0 (by simp))
      cases ok with
      | true =>
        obtain ⟨entry, hentry⟩ := Option.isSome_iff_exists.mp (hreg req (by simp))
        simp only [scheduleLoop, hconsider, hentry]
        exact ih _ _ (hreg'.update _ fun _ => rfl) htail
      | false =>
        simp only [scheduleLoop, hconsider]
        exact ih _ _ hreg' htail

/-! ## One call of `_try_schedule` -/

/-- The invariant of a run: the running jobs own the GPUs allocated, and
every queued job has its entry. -/
structure Scheduler.Good (s : Scheduler) : Prop where
  owns : Owns Task.gpuIds s.pool.allocated s.running
  registered : Registered s.jobs s.queue

theorem Scheduler.Good.loopGood {s : Scheduler} (h : s.Good) :
    LoopGood [] s.running { jobs := s.jobs, pool := s.pool } :=
  ⟨by simp, by simp, by simp [Registered], by simp [AllRunning], by simpa using h.owns⟩

/-- The state after a call in which nothing raised. -/
theorem Scheduler.trySchedule_returns {cfg : Config} {ds : Nat → Detection} {s : Scheduler}
    (h : s.Good) (hok : CallsReturn cfg ds s) :
    ∃ st, LoopGood s.queue s.running st ∧ s.trySchedule cfg ds =
      ({ queue := st.remaining, jobs := st.jobs, pool := st.pool,
         running := s.running ++ st.toLaunch }, none) := by
  have hraised := (scheduleLoop_raised_iff cfg s.queue ds { jobs := s.jobs, pool := s.pool }
    h.registered).mpr hok
  have hgood := scheduleLoop_returns cfg s.running s.queue ds _ [] h.loopGood h.registered hraised
  refine ⟨_, hgood, ?_⟩
  unfold trySchedule
  simp only [hraised]

theorem Scheduler.Good.conserved {cfg : Config} {ds : Nat → Detection} {s : Scheduler}
    (h : s.Good) (hok : CallsReturn cfg ds s) : Conserved s (s.trySchedule cfg ds).1 := by
  obtain ⟨st, hgood, heq⟩ := Scheduler.trySchedule_returns h hok
  rw [heq]
  refine ⟨⟨st.toLaunch, rfl, hgood.remaining, hgood.split, hgood.marked⟩, ?_⟩
  exact (hgood.owns.perm List.perm_append_comm).covers

/-- A call that raised has lost the job it was considering. -/
theorem Scheduler.not_conserved {cfg : Config} {ds : Nat → Detection} {s : Scheduler}
    (hbad : ¬ CallsReturn cfg ds s) : ¬ Conserved s (s.trySchedule cfg ds).1 := by
  intro hcons
  simp only [CallsReturn, not_forall] at hbad
  obtain ⟨hraised, hlen⟩ :=
    scheduleLoop_raises cfg s.queue ds { jobs := s.jobs, pool := s.pool } hbad
  obtain ⟨e, he⟩ := Option.ne_none_iff_exists'.mp hraised
  obtain ⟨launched, hrunning, -, hperm, -⟩ := hcons.jobs
  unfold trySchedule at hrunning hperm
  simp only [he] at hrunning hperm
  have hnone : launched = [] := by simpa using hrunning
  have hsame := hperm.length_eq
  rw [hnone, List.map_nil, List.append_nil] at hsame
  omega

theorem Scheduler.trySchedule_raised (cfg : Config) (ds : Nat → Detection) (s : Scheduler) :
    (s.trySchedule cfg ds).2
      = (scheduleLoop cfg s.queue ds { jobs := s.jobs, pool := s.pool }).raised := by
  unfold trySchedule
  cases hraised : (scheduleLoop cfg s.queue ds { jobs := s.jobs, pool := s.pool }).raised with
  | none => simp only [hraised]
  | some e => simp only [hraised]

theorem Scheduler.trySchedule_raised_iff (cfg : Config) (ds : Nat → Detection) {s : Scheduler}
    (hreg : Registered s.jobs s.queue) :
    (s.trySchedule cfg ds).2 = none ↔ CallsReturn cfg ds s := by
  rw [trySchedule_raised]
  exact scheduleLoop_raised_iff cfg s.queue ds _ hreg

theorem Scheduler.trySchedule_registered (cfg : Config) (ds : Nat → Detection) {s : Scheduler}
    (hreg : Registered s.jobs s.queue) :
    Registered (s.trySchedule cfg ds).1.jobs (s.trySchedule cfg ds).1.queue := by
  have hloop := scheduleLoop_registered cfg s.queue ds { jobs := s.jobs, pool := s.pool } hreg
  unfold trySchedule
  cases hraised : (scheduleLoop cfg s.queue ds { jobs := s.jobs, pool := s.pool }).raised with
  | none =>
    simp only [hraised]
    exact hloop.subset (List.subset_append_left _ _)
  | some e =>
    simp only [hraised]
    exact hloop.subset (List.subset_append_right _ _)

theorem Scheduler.enqueue_registered {s : Scheduler} (hreg : Registered s.jobs s.queue)
    (req : JobRequest) : Registered (s.enqueue req).jobs (s.enqueue req).queue := by
  unfold Scheduler.enqueue
  split
  · exact hreg
  · have hqueue : Registered (Function.update s.jobs req.jobId (some ⟨req, .queued, []⟩)) s.queue :=
      hreg.update req.jobId fun _ => rfl
    intro r hr
    rcases List.mem_append.mp hr with hr | hr
    · exact hqueue r hr
    · simp [List.mem_singleton.mp hr]

theorem Scheduler.complete_registered {s : Scheduler} (hreg : Registered s.jobs s.queue) (i : Nat)
    (state : JobState) : Registered (s.complete i state).jobs (s.complete i state).queue := by
  unfold Scheduler.complete
  split
  · exact hreg
  · exact hreg.update _ fun hsome => by simpa using hsome

/-! ## Runs -/

/-- Every queued job has its entry, also after calls that raised. -/
theorem Scheduler.registered_of_reachable {cfg : Config} {s : Scheduler}
    (h : (schedulerLts cfg).Reachable s) : Registered s.jobs s.queue := by
  refine h.invariant (P := fun s => Registered s.jobs s.queue) ?_ ?_
  · rintro s ⟨hqueue, -, -⟩
    simp [hqueue, Registered]
  · rintro s op t hreg rfl
    cases op with
    | enqueue req => exact enqueue_registered hreg req
    | complete i state => exact complete_registered hreg i state
    | trySchedule ds => exact trySchedule_registered cfg ds hreg

theorem Scheduler.Good.enqueue {s : Scheduler} (h : s.Good) (req : JobRequest) :
    (s.enqueue req).Good := by
  refine ⟨?_, enqueue_registered h.registered req⟩
  unfold Scheduler.enqueue
  split
  · exact h.owns
  · exact h.owns

theorem Scheduler.Good.complete {s : Scheduler} (h : s.Good) (i : Nat) (state : JobState) :
    (s.complete i state).Good := by
  refine ⟨?_, complete_registered h.registered i state⟩
  unfold Scheduler.complete
  split
  · exact h.owns
  · rename_i t ht
    obtain ⟨hi, rfl⟩ := List.getElem?_eq_some_iff.mp ht
    exact (h.owns.perm (List.getElem_cons_eraseIdx_perm hi).symm).release

theorem Scheduler.Good.trySchedule {cfg : Config} {ds : Nat → Detection} {s : Scheduler}
    (h : s.Good) (hok : CallsReturn cfg ds s) : (s.trySchedule cfg ds).1.Good := by
  obtain ⟨st, hgood, heq⟩ := Scheduler.trySchedule_returns h hok
  rw [heq]
  exact ⟨hgood.owns.perm List.perm_append_comm, hgood.registered⟩

/-- A step is good if it is no call of `_try_schedule`, or one in which
nothing raises. -/
def GoodStep (cfg : Config) (s : Scheduler) : Op → Prop
  | .enqueue _ => True
  | .complete _ _ => True
  | .trySchedule ds => CallsReturn cfg ds s

theorem Scheduler.good_of_reachable {cfg : Config} {s : Scheduler}
    (h : ((schedulerLts cfg).restrict (GoodStep cfg)).Reachable s) : s.Good := by
  refine h.invariant ?_ ?_
  · rintro s ⟨hqueue, hrunning, halloc⟩
    refine ⟨?_, by simp [hqueue, Registered]⟩
    rw [hrunning, halloc]
    exact .nil
  · rintro s op t hgood ⟨hstep, rfl⟩
    cases op with
    | enqueue req => exact hgood.enqueue req
    | complete i state => exact hgood.complete i state
    | trySchedule ds => exact hgood.trySchedule hstep

/-- Jobs and GPUs are conserved by a call of `_try_schedule` if and only if
no call made for a queued job raises, in every state that such calls
reach. -/
theorem trySchedule_conserved_iff (cfg : Config) (s : Scheduler)
    (h : ((schedulerLts cfg).restrict (GoodStep cfg)).Reachable s) (ds : Nat → Detection) :
    Conserved s (s.trySchedule cfg ds).1 ↔ CallsReturn cfg ds s := by
  constructor
  · intro hcons
    by_contra hbad
    exact Scheduler.not_conserved hbad hcons
  · exact (Scheduler.good_of_reachable h).conserved

/-! ## A failing call -/

namespace LostJobs

/-- Two jobs: one wants a GPU, the other a memory that does not parse. -/
def cfg : Config where
  jobs name :=
    if name = "train" then some {}
    else if name = "big" then some { memory := some (.str "lotsgb") }
    else none

def train : JobRequest := { jobId := "00000001", jobName := "train" }

def big : JobRequest := { jobId := "00000002", jobName := "big" }

/-- Nothing free. -/
def busy : Nat → Detection := fun _ => { gpus := .ok [], system := .ok { availableMemoryMb := .fin 0 } }

/-- GPU 0 is idle. -/
def idle : Nat → Detection := fun _ =>
  { gpus := .ok [{ index := 0, utilizationPct := .fin 0 }]
    system := .ok { availableMemoryMb := .fin 0 } }

/-- `train` is submitted while no GPU is free, then `big` is appended. -/
def s : Scheduler :=
  (((({} : Scheduler).enqueue train).trySchedule cfg busy).1).enqueue big

theorem parse_train : parseGpuRequirement (cfg.resources "train") = .ok 1 ∧
    parseMemoryRequirement cfg.lower (cfg.resources "train") = .ok (.fin 0) := by
  constructor <;> rfl

theorem callsReturn_train (ds : Nat → Detection) (hgpus : ∃ gpus, (ds 0).gpus = .ok gpus) :
    CallsReturn cfg ds (({} : Scheduler).enqueue train) := by
  intro i hi
  have hzero : i = 0 := by
    have hlen : (({} : Scheduler).enqueue train).queue.length = 1 := rfl
    omega
  subst hzero
  exact ⟨1, .fin 0, parse_train.1, parse_train.2, .inr ⟨fun _ => hgpus, fun h => by cases h⟩⟩

theorem reach {t : Scheduler} (op : Op)
    (h : ((schedulerLts cfg).restrict (GoodStep cfg)).Reachable t) (hgood : GoodStep cfg t op) :
    ((schedulerLts cfg).restrict (GoodStep cfg)).Reachable (op.apply cfg t) :=
  .step h ⟨hgood, rfl⟩

theorem train_reachable : ((schedulerLts cfg).restrict (GoodStep cfg)).Reachable
    (({} : Scheduler).enqueue train) :=
  reach (.enqueue train) (.init ⟨rfl, rfl, rfl⟩) trivial

theorem s_reachable : ((schedulerLts cfg).restrict (GoodStep cfg)).Reachable s := by
  have hcall := reach (.trySchedule busy) train_reachable (callsReturn_train busy ⟨_, rfl⟩)
  exact reach (.enqueue big) hcall trivial

end LostJobs

open LostJobs in
/-- The call that follows raises at `big`: it leaves nothing queued and
nothing handed to the executor, and GPU 0 allocated. -/
theorem trySchedule_loses_jobs :
    ((schedulerLts cfg).restrict (GoodStep cfg)).Reachable s ∧
      s.queue = [train, big] ∧
      (s.trySchedule cfg idle).1.queue = [] ∧
      (s.trySchedule cfg idle).1.running = [] ∧
      0 ∈ (s.trySchedule cfg idle).1.pool.allocated ∧
      ¬ Conserved s (s.trySchedule cfg idle).1 := by
  refine ⟨s_reachable, rfl, by decide +kernel, by decide +kernel, by decide +kernel, ?_⟩
  apply Scheduler.not_conserved
  intro hok
  obtain ⟨_, _, -, hmem, -⟩ := hok 1 (by decide +kernel)
  cases hmem

open LostJobs in
/-- With only `train` queued the call conserves. -/
theorem trySchedule_conserves_train :
    Conserved (({} : Scheduler).enqueue train)
      ((({} : Scheduler).enqueue train).trySchedule cfg idle).1 := by
  exact (trySchedule_conserved_iff cfg _ train_reachable idle).mpr (callsReturn_train idle ⟨_, rfl⟩)

end InfiniOps.Ci
