/-
InfiniOps.Ci.InterleavingTheorems — GPU exclusion and no lost wakeup, over
every interleaving.

`step_branch` says once what a thread's step can be, `Branch.effect` what
it does to the jobs in flight: nothing, grant free GPUs to one job, or
release those of one. From it, `Balanced` is an invariant (`balanced_of_reachable`): the GPUs allocated
are owned, disjointly, by the jobs in flight, and every job that was ever
selected is in flight or was released once.

For the wakeups the invariant is `Awake`. A job that waits, in the queue
or in the hands of the thread that holds the lock, has failed its last
check after the last release, or else some thread is still going to
consider the whole queue. Since a release and an append leave their own
thread in such a place, and the lock keeps it out of the way of a running
loop, each step keeps this (`Awake.thread`); when no thread is scheduling,
only the first case remains (`no_lost_wakeup`).

The last section ties the model to the atomic one: a `_try_schedule` that
runs without interruption does what `Scheduler.trySchedule` does.
-/
import InfiniOps.Ci.Interleaving
import InfiniOps.Ci.SchedulerTheorems

namespace InfiniOps.Ci.Interleaving

/-! ## The branches of a step -/

/-- Where a step can go, with the guards it has passed. -/
inductive Branch (cfg : Config) (d : Detection) (sh : Shared) : Pc → Shared → Pc → Prop where
  | full (req : JobRequest) : Branch cfg d sh (.submit req) sh .done
  | append (req : JobRequest) (jobs : String → Option JobEntry) (hlock : sh.lock = false) :
      Branch cfg d sh (.submit req) { sh with jobs, queue := sh.queue ++ [{ req }] } .schedule
  | acquire (hlock : sh.lock = false) :
      Branch cfg d sh .schedule { sh with lock := true } (.loop [] [])
  | pop {q : Queued} {queue remaining : List Queued} {toLaunch : List Task}
      (hqueue : sh.queue = q :: queue) :
      Branch cfg d sh (.loop remaining toLaunch) { sh with queue } (.consider q remaining toLaunch)
  | putBack {remaining : List Queued} {toLaunch : List Task} (hqueue : sh.queue = []) :
      Branch cfg d sh (.loop remaining toLaunch) { sh with queue := remaining, lock := false }
        (.launch toLaunch)
  | grant {q : Queued} {remaining : List Queued} {toLaunch : List Task} {pool : ResourcePool}
      {gpuIds : List Int} (jobs : String → Option JobEntry)
      (hconsider : consider cfg d sh.pool q.req = .ok (pool, gpuIds, true)) :
      Branch cfg d sh (.consider q remaining toLaunch)
        { sh with pool, jobs, selected := sh.selected ++ [{ req := q.req, gpuIds }] }
        (.loop remaining (toLaunch ++ [{ req := q.req, gpuIds }]))
  | refuse {q : Queued} {remaining : List Queued} {toLaunch : List Task} {pool : ResourcePool}
      {gpuIds : List Int} (hconsider : consider cfg d sh.pool q.req = .ok (pool, gpuIds, false)) :
      Branch cfg d sh (.consider q remaining toLaunch) { sh with pool }
        (.loop (remaining ++ [{ q with failedAt := some sh.clock }]) toLaunch)
  | launch (t : Task) (toLaunch : List Task) :
      Branch cfg d sh (.launch (t :: toLaunch)) { sh with executor := sh.executor ++ [t] }
        (.launch toLaunch)
  | finish : Branch cfg d sh (.launch []) sh .done
  | release (t : Task) (state : JobState) :
      Branch cfg d sh (.run t)
        { sh with
          pool := sh.pool.release t.gpuIds
          lastRelease := sh.clock
          released := sh.released ++ [t] } (.record t state)
  | record (t : Task) (state : JobState) (jobs : String → Option JobEntry)
      (hlock : sh.lock = false) :
      Branch cfg d sh (.record t state) { sh with jobs } .schedule

theorem step_branch {cfg : Config} {d : Detection} {state : JobState} {sh sh' : Shared}
    {pc pc' : Pc} (h : pc.step cfg d state sh = some (sh', pc')) : Branch cfg d sh pc sh' pc' := by
  cases pc with
  | submit req =>
    simp only [Pc.step] at h
    split at h
    · cases h
    · rename_i hlock
      split at h
      · cases h
        exact .full req
      · cases h
        exact .append req _ (by simpa using hlock)
  | schedule =>
    simp only [Pc.step] at h
    split at h
    · cases h
    · rename_i hlock
      cases h
      exact .acquire (by simpa using hlock)
  | loop remaining toLaunch =>
    simp only [Pc.step] at h
    split at h
    · rename_i hqueue
      cases h
      exact .pop hqueue
    · rename_i hqueue
      cases h
      exact .putBack hqueue
  | consider q remaining toLaunch =>
    simp only [Pc.step] at h
    split at h
    · rename_i hconsider _
      cases h
      exact .grant _ hconsider
    · rename_i hconsider
      cases h
      exact .refuse hconsider
    · cases h
  | launch toLaunch =>
    cases toLaunch with
    | nil =>
      cases h
      exact .finish
    | cons t toLaunch =>
      cases h
      exact .launch t toLaunch
  | run t =>
    cases h
    exact .release t state
  | record t state =>
    simp only [Pc.step] at h
    split at h
    · cases h
    · rename_i hlock
      cases h
      exact .record t state _ (by simpa using hlock)
  | done => cases h

/-! ## What one step does to the jobs in flight -/

/-- The three kinds of step. -/
inductive Effect (sh : Shared) (pc : Pc) (sh' : Shared) (pc' : Pc) : Prop where
  | keeps (halloc : sh'.pool.allocated = sh.pool.allocated)
      (hselected : sh'.selected = sh.selected) (hreleased : sh'.released = sh.released)
      (htasks : (sh'.executor ++ pc'.tasks).Perm (sh.executor ++ pc.tasks))
  | grants (t : Task) (hfree : ∀ g ∈ t.gpuIds, g ∉ sh.pool.allocated)
      (halloc : sh'.pool.allocated = sh.pool.allocated ∪ t.gpuIds.toFinset)
      (hselected : sh'.selected = sh.selected ++ [t]) (hreleased : sh'.released = sh.released)
      (htasks : (sh'.executor ++ pc'.tasks).Perm (t :: (sh.executor ++ pc.tasks)))
  | releases (t : Task) (halloc : sh'.pool.allocated = sh.pool.allocated \ t.gpuIds.toFinset)
      (hselected : sh'.selected = sh.selected) (hreleased : sh'.released = sh.released ++ [t])
      (htasks : (t :: (sh'.executor ++ pc'.tasks)).Perm (sh.executor ++ pc.tasks))

theorem Branch.effect {cfg : Config} {d : Detection} {sh sh' : Shared} {pc pc' : Pc}
    (h : Branch cfg d sh pc sh' pc') : Effect sh pc sh' pc' := by
  cases h with
  | full req => exact .keeps rfl rfl rfl (.refl _)
  | append req jobs => exact .keeps rfl rfl rfl (.refl _)
  | acquire => exact .keeps rfl rfl rfl (.refl _)
  | pop => exact .keeps rfl rfl rfl (.refl _)
  | putBack => exact .keeps rfl rfl rfl (.refl _)
  | @grant q _ toLaunch _ gpuIds _ hconsider =>
    obtain ⟨halloc, hfree, -⟩ := consider_spec hconsider
    refine .grants ⟨q.req, gpuIds⟩ hfree halloc rfl rfl ?_
    show (sh.executor ++ (toLaunch ++ [_])).Perm (_ :: (sh.executor ++ toLaunch))
    rw [← List.append_assoc]
    exact List.perm_append_singleton _ _
  | @refuse _ _ _ pool _ hconsider =>
    obtain ⟨halloc, -, hnone⟩ := consider_spec hconsider
    have hsame : pool.allocated = sh.pool.allocated := by simp [halloc, hnone rfl]
    exact .keeps hsame rfl rfl (.refl _)
  | launch t toLaunch =>
    refine .keeps rfl rfl rfl ?_
    simp [Pc.tasks]
  | finish => exact .keeps rfl rfl rfl (.refl _)
  | release t state =>
    refine .releases t rfl rfl rfl ?_
    simp only [Pc.tasks, List.append_nil]
    exact (List.perm_append_singleton t _).symm
  | record t state jobs => exact .keeps rfl rfl rfl (.refl _)

/-! ## GPU exclusion -/

/-- The jobs in flight own the GPUs allocated, and every job selected so
far is in flight or was released. -/
structure Balanced (s : Sys) : Prop where
  owns : Owns Task.gpuIds s.sh.pool.allocated (inFlight s)
  log : s.sh.selected.Perm (s.sh.released ++ inFlight s)

/-- The jobs in flight, with those of one thread brought to the front. -/
theorem inFlight_perm (sh : Shared) (pre post : List Pc) (pc : Pc) :
    (inFlight ⟨sh, pre ++ pc :: post⟩).Perm
      ((sh.executor ++ pc.tasks) ++ (pre.flatMap Pc.tasks ++ post.flatMap Pc.tasks)) := by
  unfold inFlight
  simp only [List.flatMap_append, List.flatMap_cons, List.append_assoc]
  exact (List.perm_append_comm_assoc _ _ _).append_left _

theorem Balanced.thread {sh sh' : Shared} {pre post : List Pc} {pc pc' : Pc}
    (hb : Balanced ⟨sh, pre ++ pc :: post⟩) (he : Effect sh pc sh' pc') :
    Balanced ⟨sh'.tick, pre ++ pc' :: post⟩ := by
  have hbefore := inFlight_perm sh pre post pc
  have hafter : (inFlight ⟨sh'.tick, pre ++ pc' :: post⟩).Perm
      ((sh'.executor ++ pc'.tasks) ++ (pre.flatMap Pc.tasks ++ post.flatMap Pc.tasks)) :=
    inFlight_perm sh'.tick pre post pc'
  have howns := hb.owns.perm hbefore
  have hlog := hb.log.trans (hbefore.append_left _)
  cases he with
  | keeps halloc hselected hreleased htasks =>
    have hsame := (htasks.append_right _).symm.trans hafter.symm
    refine ⟨?_, ?_⟩
    · rw [show sh'.tick.pool.allocated = sh.pool.allocated from halloc]
      exact howns.perm hsame
    · rw [show sh'.tick.selected = sh.selected from hselected,
        show sh'.tick.released = sh.released from hreleased]
      exact hlog.trans (hsame.append_left _)
  | grants t hfree halloc hselected hreleased htasks =>
    have hmore := (htasks.append_right _).symm.trans hafter.symm
    refine ⟨?_, ?_⟩
    · rw [show sh'.tick.pool.allocated = _ from halloc]
      exact (howns.grant hfree).perm hmore
    · rw [show sh'.tick.selected = _ from hselected,
        show sh'.tick.released = sh.released from hreleased]
      have hone := hlog.append_right [t]
      refine hone.trans ?_
      rw [List.append_assoc]
      exact ((List.perm_append_singleton t _).trans hmore).append_left _
  | releases t halloc hselected hreleased htasks =>
    have hless := htasks.append_right (pre.flatMap Pc.tasks ++ post.flatMap Pc.tasks)
    rw [List.cons_append] at hless
    refine ⟨?_, ?_⟩
    · rw [show sh'.tick.pool.allocated = _ from halloc]
      exact (howns.perm hless.symm).release.perm hafter.symm
    · rw [show sh'.tick.selected = sh.selected from hselected,
        show sh'.tick.released = _ from hreleased, List.append_assoc, List.singleton_append]
      exact hlog.trans ((hless.symm.trans (hafter.symm.cons t)).append_left _)

theorem inFlight_arrive (sh : Shared) (threads : List Pc) (req : JobRequest) :
    inFlight ⟨sh.tick, threads ++ [.submit req]⟩ = inFlight ⟨sh, threads⟩ := by
  simp [inFlight, Shared.tick, Pc.tasks]

/-- The executor's next job moves to a thread of its own. -/
theorem inFlight_start {sh : Shared} {threads : List Pc} {t : Task} {rest : List Task}
    (h : sh.executor = t :: rest) :
    (inFlight ⟨sh, threads⟩).Perm
      (inFlight ⟨{ sh with executor := rest }.tick, threads ++ [.run t]⟩) := by
  simp only [inFlight, Shared.tick, Pc.tasks, h, List.flatMap_append, List.flatMap_cons,
    List.flatMap_nil, List.cons_append, ← List.append_assoc, List.append_nil]
  exact (List.perm_append_singleton t _).symm

theorem Balanced.perm {sh sh' : Shared} {threads threads' : List Pc} (hb : Balanced ⟨sh, threads⟩)
    (hp : (inFlight ⟨sh, threads⟩).Perm (inFlight ⟨sh', threads'⟩))
    (hpool : sh'.pool = sh.pool) (hselected : sh'.selected = sh.selected)
    (hreleased : sh'.released = sh.released) : Balanced ⟨sh', threads'⟩ := by
  refine ⟨?_, ?_⟩
  · rw [hpool]
    exact hb.owns.perm hp
  · rw [hselected, hreleased]
    exact hb.log.trans (hp.append_left _)

theorem balanced_of_reachable {cfg : Config} {s : Sys} (h : (lts cfg).Reachable s) :
    Balanced s := by
  refine h.invariant ?_ ?_
  · intro s hinit
    obtain ⟨sh, threads⟩ := s
    obtain ⟨⟨pool, hpool, hsh⟩, hthreads⟩ := hinit
    cases hsh
    cases hthreads
    refine ⟨?_, .refl _⟩
    show Owns Task.gpuIds pool.allocated []
    rw [hpool]
    exact .nil
  · intro s _ t hb hstep
    cases hstep with
    | thread d state h => exact hb.thread (step_branch h).effect
    | arrive req =>
      refine hb.perm ?_ rfl rfl rfl
      rw [inFlight_arrive]
    | start hexec => exact hb.perm (inFlight_start hexec) rfl rfl rfl

/-- At every point of every interleaving: the jobs that were selected by
`allocate` and have not released hold disjoint GPUs, together exactly the
allocated ones; and each job that was ever selected is one of them or has
released, once. -/
theorem gpu_mutual_exclusion (cfg : Config) (s : Sys) (h : (lts cfg).Reachable s) :
    (inFlight s).Pairwise (fun a b => a.gpuIds.Disjoint b.gpuIds) ∧
      (∀ g, g ∈ s.sh.pool.allocated ↔ ∃ t ∈ inFlight s, g ∈ t.gpuIds) ∧
      s.sh.selected.Perm (s.sh.released ++ inFlight s) := by
  have hb := balanced_of_reachable h
  exact ⟨hb.owns.disjoint, hb.owns.covers, hb.log⟩

/-! ## A job that is granted a GPU -/

namespace OneJob

open LostJobs (cfg train busy idle)

/-- A lone thread takes a step. -/
theorem reachable_step {sh sh' : Shared} {pc pc' : Pc} (hr : (lts cfg).Reachable ⟨sh, [pc]⟩)
    (d : Detection) (h : pc.step cfg d .success sh = some (sh', pc')) :
    (lts cfg).Reachable ⟨sh'.tick, [pc']⟩ :=
  .step hr (@Step.thread cfg sh sh' [] [] pc pc' d .success h)

/-- After `train` is appended and popped, before it is decided. -/
def popped : Shared where
  lock := true
  jobs := Function.update (fun _ => none) train.jobId (some ⟨train, .queued, []⟩)
  clock := 5

theorem popped_reachable :
    (lts cfg).Reachable ⟨popped, [.consider { req := train } [] []]⟩ := by
  have h0 : (lts cfg).Reachable ⟨{}, []⟩ := .init ⟨⟨{}, rfl, rfl⟩, rfl⟩
  have h1 : (lts cfg).Reachable ⟨_, [.submit train]⟩ := .step h0 (.arrive train)
  have h2 := reachable_step h1 (busy 0) rfl
  have h3 := reachable_step h2 (busy 0) rfl
  exact reachable_step h3 (busy 0) rfl

/-- GPU 0 was idle. -/
def granted : Sys where
  sh :=
    { popped with
      pool := { allocated := {0} }
      jobs := markRunning popped.jobs ⟨train, .queued, []⟩ train [0]
      selected := [{ req := train, gpuIds := [0] }]
      clock := 6 }
  threads := [.loop [] [{ req := train, gpuIds := [0] }]]

theorem consider_train :
    consider cfg (idle 0) {} train = .ok ({ allocated := {0} }, [0], true) := by
  decide +kernel

theorem granted_reachable : (lts cfg).Reachable granted := by
  have hstep : (Pc.consider { req := train } [] []).step cfg (idle 0) .success popped =
      some ({ granted.sh with clock := 5 }, .loop [] [{ req := train, gpuIds := [0] }]) := by
    have hconsider : consider cfg (idle 0) popped.pool train = _ := consider_train
    simp only [Pc.step, hconsider]
    rfl
  exact reachable_step popped_reachable (idle 0) hstep

end OneJob

open OneJob in
theorem gpu_mutual_exclusion_granted :
    (inFlight granted).Pairwise (fun a b => a.gpuIds.Disjoint b.gpuIds) ∧
      (∀ g, g ∈ granted.sh.pool.allocated ↔ ∃ t ∈ inFlight granted, g ∈ t.gpuIds) ∧
      granted.sh.selected.Perm (granted.sh.released ++ inFlight granted) :=
  gpu_mutual_exclusion LostJobs.cfg granted granted_reachable

/-! ## No lost wakeup -/

/-- The last failed check of `q` came after the last release. -/
def Queued.Fresh (q : Queued) (lastRelease : Nat) : Prop :=
  ∃ t, q.failedAt = some t ∧ lastRelease < t

/-- Some thread is going to consider the whole queue. -/
def Alert (threads : List Pc) : Prop := ∃ pc ∈ threads, pc.pending = true

/-- A waiting job is fresh or about to be considered. While the lock is
held the jobs in the queue are the loop's own concern. -/
structure Awake (s : Sys) : Prop where
  clock : s.sh.lastRelease < s.sh.clock
  mutex : s.threads.countP Pc.holds = if s.sh.lock then 1 else 0
  queue : s.sh.lock = false → ∀ q ∈ s.sh.queue, q.Fresh s.sh.lastRelease ∨ Alert s.threads
  held : ∀ pc ∈ s.threads, ∀ q ∈ pc.remaining, q.Fresh s.sh.lastRelease ∨ Alert s.threads

/-- What one step does to the waiting jobs. -/
inductive Wake (sh : Shared) (pc : Pc) (sh' : Shared) (pc' : Pc) : Prop where
  /-- Whoever holds the lock may pop, and may put a job it just checked
  into its hands; the others leave the queue alone. -/
  | quiet (hclock : sh'.clock = sh.clock) (hlock : sh'.lock = sh.lock)
      (hholds : pc'.holds = pc.holds) (hlast : sh'.lastRelease = sh.lastRelease)
      (hpending : pc.pending = true → pc'.pending = true)
      (hqueue : pc.holds = true ∨ sh'.queue = sh.queue)
      (hremaining : ∀ q ∈ pc'.remaining, q ∈ pc.remaining ∨ q.failedAt = some sh.clock)
  /-- An append or a release. -/
  | alert (hclock : sh'.clock = sh.clock) (hlock : sh'.lock = sh.lock)
      (hholds : pc.holds = false)
      (hlast : sh'.lastRelease = sh.lastRelease ∨ sh'.lastRelease = sh.clock)
      (hpending : pc'.pending = true)
  | acquire (hclock : sh'.clock = sh.clock) (hlock : sh.lock = false) (hlock' : sh'.lock = true)
      (hholds : pc.holds = false) (hholds' : pc'.holds = true)
      (hlast : sh'.lastRelease = sh.lastRelease) (hremaining : pc'.remaining = [])
  | putBack (hclock : sh'.clock = sh.clock) (hlock' : sh'.lock = false)
      (hholds : pc.holds = true) (hholds' : pc'.holds = false)
      (hlast : sh'.lastRelease = sh.lastRelease) (hqueue : sh'.queue = pc.remaining)

/-- A thread that does not hold the lock has no job in its hands to put
back. -/
theorem Pc.remaining_of_not_holds {pc : Pc} (h : pc.holds = false) : pc.remaining = [] := by
  cases pc with
  | loop _ _ => cases h
  | consider _ _ _ => cases h
  | _ => rfl

theorem Pc.not_holds_of_pending {pc : Pc} (h : pc.pending = true) : pc.holds = false := by
  cases pc with
  | loop _ _ => cases h
  | consider _ _ _ => cases h
  | _ => rfl

theorem Pc.scheduling_of_holds {pc : Pc} (h : pc.holds = true) : pc.scheduling = true := by
  cases pc with
  | loop _ _ => rfl
  | consider _ _ _ => rfl
  | _ => cases h

theorem Pc.scheduling_of_pending {pc : Pc} (h : pc.pending = true) : pc.scheduling = true := by
  cases pc with
  | schedule => rfl
  | record _ _ => rfl
  | _ => cases h

theorem Branch.wake {cfg : Config} {d : Detection} {sh sh' : Shared} {pc pc' : Pc}
    (h : Branch cfg d sh pc sh' pc') : Wake sh pc sh' pc' := by
  have hnone : ∀ q ∈ ([] : List Queued), q ∈ pc.remaining ∨ q.failedAt = some sh.clock := by simp
  cases h with
  | full req => exact .quiet rfl rfl rfl rfl (fun hp => by cases hp) (.inr rfl) hnone
  | append req jobs => exact .alert rfl rfl rfl (.inl rfl) rfl
  | acquire hlock => exact .acquire rfl hlock rfl rfl rfl rfl rfl
  | pop => exact .quiet rfl rfl rfl rfl (fun hp => by cases hp) (.inl rfl) fun q hq => .inl hq
  | putBack => exact .putBack rfl rfl rfl rfl rfl rfl
  | grant => exact .quiet rfl rfl rfl rfl (fun hp => by cases hp) (.inl rfl) fun q hq => .inl hq
  | refuse =>
    refine .quiet rfl rfl rfl rfl (fun hp => by cases hp) (.inl rfl) ?_
    intro r hr
    rcases List.mem_append.mp hr with hr | hr
    · exact .inl hr
    · rw [List.mem_singleton.mp hr]
      exact .inr rfl
  | launch t toLaunch => exact .quiet rfl rfl rfl rfl (fun hp => by cases hp) (.inr rfl) hnone
  | finish => exact .quiet rfl rfl rfl rfl (fun hp => by cases hp) (.inr rfl) hnone
  | release t state => exact .alert rfl rfl rfl (.inr rfl) rfl
  | record t state jobs => exact .quiet rfl rfl rfl rfl (fun _ => rfl) (.inr rfl) hnone

/-- Whoever holds the lock is the only one. -/
theorem Awake.lock_of_holds {s : Sys} (ha : Awake s) {pc : Pc} (hpc : pc ∈ s.threads)
    (hholds : pc.holds = true) : s.sh.lock = true := by
  by_contra hlock
  have hcount := ha.mutex
  rw [if_neg hlock, List.countP_eq_zero] at hcount
  exact hcount pc hpc hholds

/-- While nobody holds the lock, nobody has jobs to put back. -/
theorem Awake.remaining_of_unlocked {s : Sys} (ha : Awake s) (hlock : s.sh.lock = false) {pc : Pc}
    (hpc : pc ∈ s.threads) : pc.remaining = [] := by
  have hcount := ha.mutex
  rw [hlock, if_neg Bool.false_ne_true, List.countP_eq_zero] at hcount
  exact Pc.remaining_of_not_holds (by simpa using hcount pc hpc)

section Thread

variable {sh sh' : Shared} {pre post : List Pc} {pc pc' : Pc}

theorem mem_of_mem_replaced {p : Pc} (hp : p ∈ pre ++ pc' :: post) :
    p = pc' ∨ p ∈ pre ++ pc :: post := by
  simp only [List.mem_append, List.mem_cons] at hp ⊢
  tauto

theorem countP_holds_replaced :
    (pre ++ pc' :: post).countP Pc.holds + (if pc.holds then 1 else 0)
      = (pre ++ pc :: post).countP Pc.holds + (if pc'.holds then 1 else 0) := by
  simp only [List.countP_append, List.countP_cons]
  omega

theorem Alert.replaced (hpending : pc.pending = true → pc'.pending = true)
    (h : Alert (pre ++ pc :: post)) : Alert (pre ++ pc' :: post) := by
  obtain ⟨p, hp, hpend⟩ := h
  simp only [List.mem_append, List.mem_cons] at hp
  rcases hp with hp | rfl | hp
  · exact ⟨p, by simp [hp], hpend⟩
  · exact ⟨pc', by simp, hpending hpend⟩
  · exact ⟨p, by simp [hp], hpend⟩

/-- The thread that puts its jobs back was not the one that was going to
consider the queue. -/
theorem Alert.replaced_of_holds (hholds : pc.holds = true) (h : Alert (pre ++ pc :: post)) :
    Alert (pre ++ pc' :: post) := by
  refine h.replaced ?_
  intro hpend
  have hno := Pc.not_holds_of_pending hpend
  rw [hholds] at hno
  cases hno

variable (ha : Awake ⟨sh, pre ++ pc :: post⟩) (hw : Wake sh pc sh' pc')
include ha hw

theorem Awake.clock_step : sh'.lastRelease < sh'.clock + 1 := by
  have hclock : sh.lastRelease < sh.clock := ha.clock
  cases hw with
  | quiet hclk _ _ hlast => omega
  | alert hclk _ _ hlast => omega
  | acquire hclk _ _ _ _ hlast => omega
  | putBack hclk _ _ _ hlast => omega

theorem Awake.mutex_step :
    (pre ++ pc' :: post).countP Pc.holds = if sh'.lock then 1 else 0 := by
  have hmutex : (pre ++ pc :: post).countP Pc.holds = if sh.lock then 1 else 0 := ha.mutex
  have hreplaced := @countP_holds_replaced pre post pc pc'
  cases hw with
  | quiet _ hlock hholds =>
    rw [hholds] at hreplaced
    rw [hlock]
    omega
  | alert _ hlock hholds _ hpending =>
    rw [hholds, Pc.not_holds_of_pending hpending] at hreplaced
    rw [hlock]
    omega
  | acquire _ hlock hlock' hholds hholds' =>
    rw [hlock] at hmutex
    rw [hholds, hholds', hmutex] at hreplaced
    rw [hlock']
    simpa using hreplaced
  | putBack _ hlock' hholds hholds' =>
    rw [ha.lock_of_holds (by simp) hholds] at hmutex
    rw [hholds, hholds', hmutex] at hreplaced
    rw [hlock']
    simpa using hreplaced

theorem Awake.queue_step (hunlocked : sh'.lock = false) :
    ∀ q ∈ sh'.queue, q.Fresh sh'.lastRelease ∨ Alert (pre ++ pc' :: post) := by
  intro q hq
  cases hw with
  | quiet _ hlock _ hlast hpending hqueue =>
    have hbefore : sh.lock = false := hlock ▸ hunlocked
    rw [hlast]
    rcases hqueue with hholds | hqueue
    · have hlocked : sh.lock = true := ha.lock_of_holds (by simp) hholds
      rw [hbefore] at hlocked
      cases hlocked
    · exact (ha.queue hbefore q (hqueue ▸ hq)).imp_right (.replaced hpending)
  | alert _ _ _ _ hpending => exact .inr ⟨pc', by simp, hpending⟩
  | acquire _ _ hlock' =>
    rw [hlock'] at hunlocked
    cases hunlocked
  | putBack _ _ hholds _ hlast hqueue =>
    have hq : q ∈ pc.remaining := hqueue ▸ hq
    rw [hlast]
    exact (ha.held pc (by simp) q hq).imp_right (.replaced_of_holds hholds)

theorem Awake.held_step : ∀ p ∈ pre ++ pc' :: post, ∀ q ∈ p.remaining,
    q.Fresh sh'.lastRelease ∨ Alert (pre ++ pc' :: post) := by
  have hmutex := ha.mutex_step hw
  intro p hp q hq
  cases hw with
  | quiet _ _ _ hlast hpending _ hremaining =>
    rw [hlast]
    rcases mem_of_mem_replaced hp with rfl | hp
    · rcases hremaining q hq with hq | hq
      · exact (ha.held pc (by simp) q hq).imp_right (.replaced hpending)
      · exact .inl ⟨sh.clock, hq, ha.clock⟩
    · exact (ha.held p hp q hq).imp_right (.replaced hpending)
  | alert _ _ _ _ hpending => exact .inr ⟨pc', by simp, hpending⟩
  | acquire _ hlock _ _ _ _ hremaining =>
    -- nobody held the lock before, and the thread that takes it starts
    -- with empty hands
    have hempty : p.remaining = [] := by
      rcases mem_of_mem_replaced hp with rfl | hp
      · exact hremaining
      · exact ha.remaining_of_unlocked hlock hp
    rw [hempty] at hq
    cases hq
  | putBack _ hlock' =>
    rw [hlock', if_neg Bool.false_ne_true, List.countP_eq_zero] at hmutex
    have hempty := Pc.remaining_of_not_holds (by simpa using hmutex p hp)
    rw [hempty] at hq
    cases hq

theorem Awake.thread : Awake ⟨sh'.tick, pre ++ pc' :: post⟩ := by
  have hclock := ha.clock_step hw
  have hmutex := ha.mutex_step hw
  have hqueue := ha.queue_step hw
  have hheld := ha.held_step hw
  exact ⟨hclock, hmutex, hqueue, hheld⟩

end Thread

/-- A thread that joins holds nothing. -/
theorem Awake.join {sh sh' : Shared} {threads : List Pc} {pc : Pc} (ha : Awake ⟨sh, threads⟩)
    (hholds : pc.holds = false) (hclock : sh'.clock = sh.clock) (hlock : sh'.lock = sh.lock)
    (hlast : sh'.lastRelease = sh.lastRelease) (hqueue : sh'.queue = sh.queue) :
    Awake ⟨sh'.tick, threads ++ [pc]⟩ := by
  have hbefore : sh.lastRelease < sh.clock := ha.clock
  have halert : Alert threads → Alert (threads ++ [pc]) := by
    intro hal
    obtain ⟨p, hp, hpend⟩ := hal
    exact ⟨p, by simp [hp], hpend⟩
  refine ⟨?_, ?_, ?_, ?_⟩
  · show sh'.lastRelease < sh'.clock + 1
    omega
  · show _ = if sh'.lock then 1 else 0
    rw [List.countP_append, hlock, ← ha.mutex]
    simp [hholds]
  · intro hunlocked q hq
    show q.Fresh sh'.lastRelease ∨ _
    rw [hlast]
    exact (ha.queue (hlock ▸ hunlocked) q (hqueue ▸ hq)).imp_right halert
  · intro p hp q hq
    show q.Fresh sh'.lastRelease ∨ _
    rw [hlast]
    rcases List.mem_append.mp hp with hp | hp
    · exact (ha.held p hp q hq).imp_right halert
    · rw [List.mem_singleton.mp hp, Pc.remaining_of_not_holds hholds] at hq
      cases hq

theorem awake_of_reachable {cfg : Config} {s : Sys} (h : (lts cfg).Reachable s) : Awake s := by
  refine h.invariant ?_ ?_
  · intro s hinit
    obtain ⟨sh, threads⟩ := s
    obtain ⟨⟨pool, -, hsh⟩, hthreads⟩ := hinit
    cases hsh
    cases hthreads
    exact ⟨Nat.zero_lt_one, rfl, by simp, by simp⟩
  · intro s _ t ha hstep
    cases hstep with
    | thread d state h => exact ha.thread (step_branch h).wake
    | arrive req => exact ha.join rfl rfl rfl rfl rfl
    | start hexec => exact ha.join rfl rfl rfl rfl rfl

/-- When no thread is between its append or its release and the return of
its `_try_schedule`, every job still queued failed its last check after
the last release. -/
theorem no_lost_wakeup (cfg : Config) (s : Sys) (h : (lts cfg).Reachable s) (hquiet : Quiet s) :
    ∀ q ∈ s.sh.queue, ∃ t, q.failedAt = some t ∧ s.sh.lastRelease < t := by
  have ha := awake_of_reachable h
  have hlock : s.sh.lock = false := by
    by_contra hlocked
    have hcount := ha.mutex
    rw [if_pos (by simpa using hlocked)] at hcount
    obtain ⟨pc, hpc, hholds⟩ := List.countP_pos_iff.mp (by rw [hcount]; exact Nat.one_pos)
    have hbusy := Pc.scheduling_of_holds hholds
    rw [hquiet pc hpc] at hbusy
    cases hbusy
  intro q hq
  rcases ha.queue hlock q hq with hfresh | halert
  · exact hfresh
  · obtain ⟨pc, hpc, hpend⟩ := halert
    have hbusy := Pc.scheduling_of_pending hpend
    rw [hquiet pc hpc] at hbusy
    cases hbusy

namespace OneJob

open LostJobs (cfg train busy)

/-- No GPU was idle, and the call has returned. -/
def waiting : Sys where
  sh :=
    { popped with
      queue := [{ req := train, failedAt := some 5 }]
      lock := false
      clock := 8 }
  threads := [.done]

theorem waiting_reachable : (lts cfg).Reachable waiting := by
  have h1 := reachable_step popped_reachable (busy 0) rfl
  have h2 := reachable_step h1 (busy 0) rfl
  exact reachable_step h2 (busy 0) rfl

end OneJob

open OneJob in
/-- `train` waits, and nothing was released since it was checked. -/
theorem no_lost_wakeup_waiting :
    waiting.sh.queue ≠ [] ∧
      ∀ q ∈ waiting.sh.queue, ∃ t, q.failedAt = some t ∧ waiting.sh.lastRelease < t := by
  refine ⟨by simp [waiting], ?_⟩
  exact no_lost_wakeup LostJobs.cfg waiting waiting_reachable (by simp [Quiet, waiting, Pc.scheduling])

/-! ## A call that is not interrupted -/

/-- The scheduler as the atomic model sees it, its running jobs being those
in the executor's work queue. -/
def Shared.toScheduler (sh : Shared) : Scheduler where
  queue := sh.queue.map Queued.req
  jobs := sh.jobs
  pool := sh.pool
  running := sh.executor

/-- The labels carry nothing; only their number counts. -/
def Steps (cfg : Config) (s t : Sys) : Prop := ∃ labels, (lts cfg).Run s labels t

theorem Steps.refl (cfg : Config) (s : Sys) : Steps cfg s s := ⟨[], .nil s⟩

theorem Steps.cons {cfg : Config} {sh sh' : Shared} {pre post : List Pc} {pc pc' : Pc} {t : Sys}
    (d : Detection) (h : pc.step cfg d .success sh = some (sh', pc'))
    (hrun : Steps cfg ⟨sh'.tick, pre ++ pc' :: post⟩ t) :
    Steps cfg ⟨sh, pre ++ pc :: post⟩ t := by
  obtain ⟨labels, hrun⟩ := hrun
  exact ⟨() :: labels, .cons (.thread d .success h) hrun⟩

theorem Steps.trans {cfg : Config} {s t u : Sys} (h : Steps cfg s t) (h' : Steps cfg t u) :
    Steps cfg s u := by
  obtain ⟨labels, hrun⟩ := h
  obtain ⟨labels', hrun'⟩ := h'
  exact ⟨labels ++ labels', hrun.append hrun'⟩

section Pass

variable {cfg : Config} {d : Detection} {sh : Shared} {q : Queued} {queue : List Queued}
  {pool : ResourcePool} {gpuIds : List Int} (pre post : List Pc) (remaining : List Queued)
  (toLaunch : List Task)

/-- One pass of the loop that grants the job its GPUs. -/
theorem pass_grant {entry : JobEntry} (hqueue : sh.queue = q :: queue)
    (hconsider : consider cfg d sh.pool q.req = .ok (pool, gpuIds, true))
    (hentry : sh.jobs q.req.jobId = some entry) :
    ∃ sh' : Shared, Steps cfg ⟨sh, pre ++ .loop remaining toLaunch :: post⟩
        ⟨sh', pre ++ .loop remaining (toLaunch ++ [{ req := q.req, gpuIds }]) :: post⟩ ∧
      sh'.queue = queue ∧ sh'.pool = pool ∧ sh'.executor = sh.executor ∧
      sh'.jobs = markRunning sh.jobs entry q.req gpuIds := by
  let popped : Shared := { sh with queue }.tick
  have hpop : (Pc.loop remaining toLaunch).step cfg d .success sh =
      some ({ sh with queue }, .consider q remaining toLaunch) := by
    simp only [Pc.step, hqueue]
  have hgrant : (Pc.consider q remaining toLaunch).step cfg d .success popped =
      some ({ popped with
        pool
        jobs := markRunning popped.jobs entry q.req gpuIds
        selected := popped.selected ++ [{ req := q.req, gpuIds }] },
        .loop remaining (toLaunch ++ [{ req := q.req, gpuIds }])) := by
    simp only [Pc.step, popped, Shared.tick, hconsider, hentry]
  exact ⟨_, .cons d hpop (.cons d hgrant (.refl _ _)), rfl, rfl, rfl, rfl⟩

/-- One pass of the loop that puts the job aside. -/
theorem pass_refuse (hqueue : sh.queue = q :: queue)
    (hconsider : consider cfg d sh.pool q.req = .ok (pool, gpuIds, false)) :
    ∃ (sh' : Shared) (q' : Queued), Steps cfg ⟨sh, pre ++ .loop remaining toLaunch :: post⟩
        ⟨sh', pre ++ .loop (remaining ++ [q']) toLaunch :: post⟩ ∧
      sh'.queue = queue ∧ sh'.pool = pool ∧ sh'.executor = sh.executor ∧
      sh'.jobs = sh.jobs ∧ q'.req = q.req := by
  let popped : Shared := { sh with queue }.tick
  have hpop : (Pc.loop remaining toLaunch).step cfg d .success sh =
      some ({ sh with queue }, .consider q remaining toLaunch) := by
    simp only [Pc.step, hqueue]
  have hrefuse : (Pc.consider q remaining toLaunch).step cfg d .success popped =
      some ({ popped with pool },
        .loop (remaining ++ [{ q with failedAt := some popped.clock }]) toLaunch) := by
    simp only [Pc.step, popped, Shared.tick, hconsider]
  exact ⟨_, _, .cons d hpop (.cons d hrefuse (.refl _ _)), rfl, rfl, rfl, rfl, rfl⟩

end Pass

/-- The loop of one thread, from its head to the end of the locked region. -/
theorem loop_steps (cfg : Config) (pre post : List Pc) (queue : List Queued) (ds : Nat → Detection)
    (st : LoopState) (sh : Shared) (remaining : List Queued)
    (hqueue : sh.queue = queue) (hjobs : sh.jobs = st.jobs) (hpool : sh.pool = st.pool)
    (hremaining : remaining.map Queued.req = st.remaining)
    (hreturns : (scheduleLoop cfg (queue.map Queued.req) ds st).raised = none) :
    ∃ sh' : Shared, Steps cfg ⟨sh, pre ++ .loop remaining st.toLaunch :: post⟩
        ⟨sh', pre ++ .launch (scheduleLoop cfg (queue.map Queued.req) ds st).st.toLaunch :: post⟩ ∧
      sh'.lock = false ∧
      sh'.toScheduler =
        { queue := (scheduleLoop cfg (queue.map Queued.req) ds st).st.remaining
          jobs := (scheduleLoop cfg (queue.map Queued.req) ds st).st.jobs
          pool := (scheduleLoop cfg (queue.map Queued.req) ds st).st.pool
          running := sh.executor } := by
  induction queue generalizing ds st sh remaining with
  | nil =>
    refine ⟨{ sh with queue := remaining, lock := false }.tick, ?_, rfl, ?_⟩
    · refine .cons (ds 0) ?_ (.refl _ _)
      simp only [Pc.step, hqueue, scheduleLoop, List.map_nil]
    · simp [Shared.toScheduler, Shared.tick, scheduleLoop, hjobs, hpool, hremaining]
  | cons q queue ih =>
    rw [List.map_cons] at hreturns ⊢
    cases hconsider : consider cfg (ds 0) st.pool q.req with
    | error e => simp [scheduleLoop, hconsider] at hreturns
    | ok r =>
      obtain ⟨pool, gpuIds, ok⟩ := r
      have hconsider' := hconsider
      rw [← hpool] at hconsider'
      cases ok with
      | true =>
        cases hentry : st.jobs q.req.jobId with
        | none => simp [scheduleLoop, hconsider, hentry] at hreturns
        | some entry =>
          simp only [scheduleLoop, hconsider, hentry] at hreturns ⊢
          obtain ⟨sh₁, hpass, hqueue₁, hpool₁, hexec, hjobs₁⟩ :=
            pass_grant pre post remaining st.toLaunch hqueue hconsider' (hjobs ▸ hentry)
          rw [hjobs] at hjobs₁
          obtain ⟨sh', hsteps, hlock, hview⟩ := ih (fun i => ds (i + 1))
            { st with
              pool
              jobs := markRunning st.jobs entry q.req gpuIds
              toLaunch := st.toLaunch ++ [{ req := q.req, gpuIds }] } sh₁ remaining hqueue₁ hjobs₁
            hpool₁ hremaining hreturns
          rw [hexec] at hview
          exact ⟨sh', hpass.trans hsteps, hlock, hview⟩
      | false =>
        simp only [scheduleLoop, hconsider] at hreturns ⊢
        obtain ⟨sh₁, q', hpass, hqueue₁, hpool₁, hexec, hjobs₁, hreq⟩ :=
          pass_refuse pre post remaining st.toLaunch hqueue hconsider'
        rw [hjobs] at hjobs₁
        obtain ⟨sh', hsteps, hlock, hview⟩ := ih (fun i => ds (i + 1))
          { st with pool, remaining := st.remaining ++ [q.req] } sh₁ (remaining ++ [q']) hqueue₁
          hjobs₁ hpool₁ (by simp [hremaining, hreq]) hreturns
        rw [hexec] at hview
        exact ⟨sh', hpass.trans hsteps, hlock, hview⟩

/-- The submissions to the executor. -/
theorem launch_steps (cfg : Config) (d : Detection) (pre post : List Pc) (toLaunch : List Task)
    (sh : Shared) :
    ∃ sh' : Shared, Steps cfg ⟨sh, pre ++ .launch toLaunch :: post⟩ ⟨sh', pre ++ .done :: post⟩ ∧
      sh'.lock = sh.lock ∧
      sh'.toScheduler =
        { sh.toScheduler with running := sh.executor ++ toLaunch } := by
  induction toLaunch generalizing sh with
  | nil => exact ⟨sh.tick, .cons d rfl (.refl _ _), rfl, by simp [Shared.toScheduler, Shared.tick]⟩
  | cons t toLaunch ih =>
    obtain ⟨sh', hsteps, hlock, hview⟩ := ih { sh with executor := sh.executor ++ [t] }.tick
    refine ⟨sh', .cons d rfl hsteps, hlock, ?_⟩
    rw [hview]
    simp [Shared.toScheduler, Shared.tick]

/-- A `_try_schedule` in which nothing raises and that no other thread
interrupts does what the atomic one does. -/
theorem trySchedule_steps (cfg : Config) (ds : Nat → Detection) (sh : Shared) (pre post : List Pc)
    (hfree : sh.lock = false) (hreturns : (sh.toScheduler.trySchedule cfg ds).2 = none) :
    ∃ sh' : Shared, Steps cfg ⟨sh, pre ++ .schedule :: post⟩ ⟨sh', pre ++ .done :: post⟩ ∧
      sh'.lock = false ∧ sh'.toScheduler = (sh.toScheduler.trySchedule cfg ds).1 := by
  have hraised : (scheduleLoop cfg (sh.queue.map Queued.req) ds
      { jobs := sh.jobs, pool := sh.pool }).raised = none := by
    rw [Scheduler.trySchedule_raised] at hreturns
    exact hreturns
  obtain ⟨sh₁, hloop, hlock₁, hview₁⟩ := loop_steps cfg pre post sh.queue ds
    { jobs := sh.jobs, pool := sh.pool } { sh with lock := true }.tick [] rfl rfl rfl rfl hraised
  obtain ⟨sh₂, hlaunch, hlock₂, hview₂⟩ := launch_steps cfg (ds 0) pre post
    (scheduleLoop cfg (sh.queue.map Queued.req) ds { jobs := sh.jobs, pool := sh.pool }).st.toLaunch
    sh₁
  have hacquire : Pc.schedule.step cfg (ds 0) .success sh = some ({ sh with lock := true }, .loop [] []) := by
    simp only [Pc.step, hfree, Bool.false_eq_true, if_false]
  refine ⟨sh₂, (Steps.cons (ds 0) hacquire hloop).trans hlaunch, hlock₂.trans hlock₁, ?_⟩
  have hexec : sh₁.executor = sh.executor := congrArg Scheduler.running hview₁
  rw [hview₂, hview₁, hexec]
  simp only [Scheduler.trySchedule, Shared.toScheduler, hraised]

end InfiniOps.Ci.Interleaving
