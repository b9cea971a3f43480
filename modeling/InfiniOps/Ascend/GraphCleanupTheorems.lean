/-
InfiniOps.Ascend.GraphCleanupTheorems — deferred cleanup runs each cleanup
once.

`Refines` relates a state of the thread to a stack of scopes: the frames
of the control stack are its entries, and the chain of `previous` pointers
from the active scope on is the list of those that are not ending
(`Objects`). Every step is one of the stack of scopes, or none, and makes
the state smaller (`Refines.advances`). So the run ends, without undefined
behaviour, and its log is one of the stack of scopes. That it is the log of
this program is a matter of the control stack alone (`Asked`).
-/
import InfiniOps.Ascend.CleanupScopes
import Mathlib.Tactic.Ring

namespace InfiniOps.Ascend.Cleanup

open History

/-- The scopes that are not gone. -/
def entries : List Frame → List Entry
  | [] => []
  | .code _ :: rest => entries rest
  | .block scope :: rest => ⟨scope, false⟩ :: entries rest
  | .destructor scope _ _ :: rest => ⟨scope, true⟩ :: entries rest

theorem liveScopes_entries (control : List Frame) :
    liveScopes (entries control) = blocks control := by
  induction control with
  | nil => rfl
  | cons frame rest ih => cases frame <;> simp [entries, liveScopes, blocks, ih]

/-- The objects of the scopes. The loop of a destructor goes over what its
vector held when it began. -/
def Objects (heap : ScopeId → Option DeferredAclCleanupScope) (pending : ScopeId → List Callback) :
    List Frame → Prop
  | [] => True
  | .code _ :: rest => Objects heap pending rest
  | .block scope :: rest =>
    heap scope = some ⟨(blocks rest).head?, pending scope⟩ ∧ Objects heap pending rest
  | .destructor scope i stop :: rest =>
    (∃ object, heap scope = some object ∧ object.callbacks.length = stop ∧
      object.callbacks.drop i = pending scope) ∧ Objects heap pending rest

structure Refines (s : State) (x : Scopes) : Prop where
  stack : x.stack = entries s.control
  active : s.active = (blocks s.control).head?
  objects : Objects s.heap x.pending s.control
  nextScope : x.nextScope = s.nextScope
  nextTicket : x.nextTicket = s.nextTicket
  incoming : x.incoming = none

/-! ## Objects -/

section Objects

variable {heap heap' : ScopeId → Option DeferredAclCleanupScope}
  {pending pending' : ScopeId → List Callback} {control : List Frame}

/-- Other objects make no difference. -/
theorem Objects.congr (h : Objects heap pending control)
    (hsame : ∀ e ∈ entries control, heap' e.scope = heap e.scope ∧
      pending' e.scope = pending e.scope) : Objects heap' pending' control := by
  induction control with
  | nil => trivial
  | cons frame rest ih =>
    cases frame with
    | code p => exact ih h hsame
    | block scope =>
      obtain ⟨hheap, hpending⟩ := hsame ⟨scope, false⟩ List.mem_cons_self
      refine ⟨?_, ih h.2 fun e he => hsame e (List.mem_cons_of_mem _ he)⟩
      rw [hheap, hpending]
      exact h.1
    | destructor scope i stop =>
      obtain ⟨hheap, hpending⟩ := hsame ⟨scope, true⟩ List.mem_cons_self
      refine ⟨?_, ih h.2 fun e he => hsame e (List.mem_cons_of_mem _ he)⟩
      rw [hheap, hpending]
      exact h.1

theorem Objects.lookup (h : Objects heap pending control) {scope : ScopeId}
    (hmem : scope ∈ blocks control) :
    ∃ object, heap scope = some object ∧ object.callbacks = pending scope := by
  induction control with
  | nil => cases hmem
  | cons frame rest ih =>
    cases frame with
    | code p => exact ih h hmem
    | block owner =>
      rcases List.mem_cons.mp hmem with rfl | hmem
      · exact ⟨_, h.1, rfl⟩
      · exact ih h.2 hmem
    | destructor owner i stop => exact ih h.2 hmem

/-- The cleanups of one live scope are replaced. -/
theorem Objects.update (h : Objects heap pending control)
    (hdistinct : ((entries control).map (·.scope)).Nodup) {scope : ScopeId}
    (hmem : scope ∈ blocks control) {object : DeferredAclCleanupScope}
    (hobject : heap scope = some object) (cleanups : List Callback) :
    Objects (Function.update heap scope (some { object with callbacks := cleanups }))
      (Function.update pending scope cleanups) control := by
  induction control with
  | nil => trivial
  | cons frame rest ih =>
    cases frame with
    | code p => exact ih h hdistinct hmem
    | block owner =>
      obtain ⟨hnew, hdistinct⟩ := List.nodup_cons.mp hdistinct
      by_cases heq : owner = scope
      · subst heq
        refine ⟨?_, h.2.congr fun e he => ?_⟩
        · have hprevious := hobject.symm.trans h.1
          cases hprevious
          simp
        · have hne : e.scope ≠ owner := by
            rintro rfl
            exact hnew (List.mem_map.mpr ⟨e, he, rfl⟩)
          simp [hne]
      · refine ⟨?_, ih h.2 hdistinct (List.mem_of_ne_of_mem (Ne.symm heq) hmem)⟩
        simpa [heq] using h.1
    | destructor owner i stop =>
      obtain ⟨hnew, hdistinct⟩ := List.nodup_cons.mp hdistinct
      have hlive : scope ∈ blocks rest := hmem
      have hne : owner ≠ scope := by
        rintro rfl
        have hentry := mem_of_mem_liveScopes (liveScopes_entries rest ▸ hlive)
        exact hnew (List.mem_map.mpr ⟨_, hentry, rfl⟩)
      refine ⟨?_, ih h.2 hdistinct hlive⟩
      simpa [hne] using h.1

end Objects

theorem StackOk.nodup {log : List Event} {stack : List Entry} (h : StackOk log stack) :
    (stack.map (·.scope)).Nodup := by
  induction stack with
  | nil => exact List.nodup_nil
  | cons e below ih =>
    refine List.nodup_cons.mpr ⟨fun hmem => ?_, ih h.2⟩
    obtain ⟨e', he', heq⟩ := List.mem_map.mp hmem
    exact Nat.ne_of_lt (h.1.newer e' he') heq

/-! ## Termination -/

def Program.weight : Program → Nat
  | .done => 1
  | .deferOrRun cleanup next => cleanup.weight + next.weight + 2
  | .scope body next => body.weight + next.weight + 3
  | .release _ next => next.weight + 1

def Frame.weight : Frame → Nat
  | .code p => p.weight
  | .block _ => 2
  | .destructor _ _ _ => 1

/-- What a queue still has to do. -/
def queueWeight (cleanups : List Callback) : Nat := (cleanups.map fun c => c.body.weight + 1).sum

/-- What the queues of the first scopes still have to do. -/
def queuesWeight (pending : ScopeId → List Callback) (scopes : Nat) : Nat :=
  ∑ scope ∈ Finset.range scopes, queueWeight (pending scope)

/-- The text that is still to be run, and the text of the queues. -/
def weight (control : List Frame) (pending : ScopeId → List Callback) (scopes : Nat) : Nat :=
  (control.map Frame.weight).sum + queuesWeight pending scopes

theorem queuesWeight_update (pending : ScopeId → List Callback) {scope scopes : Nat}
    (h : scope < scopes) (cleanups : List Callback) :
    queuesWeight (Function.update pending scope cleanups) scopes + queueWeight (pending scope)
      = queuesWeight pending scopes + queueWeight cleanups := by
  have hmem : scope ∈ Finset.range scopes := Finset.mem_range.mpr h
  have hrest : ∑ other ∈ (Finset.range scopes).erase scope,
      queueWeight (Function.update pending scope cleanups other)
        = ∑ other ∈ (Finset.range scopes).erase scope, queueWeight (pending other) :=
    Finset.sum_congr rfl fun other hother => by
      rw [Function.update_of_ne (Finset.ne_of_mem_erase hother)]
  rw [queuesWeight, queuesWeight, ← Finset.add_sum_erase _ _ hmem,
    ← Finset.add_sum_erase _ (fun other => queueWeight (pending other)) hmem, hrest]
  simp only [Function.update_self]
  ring

/-! ## One step -/

/-- A step of the thread that the stack of scopes can follow. -/
def Advances (s : State) (x : Scopes) : Prop :=
  ∃ t events y, s.step = some t ∧ scopes.Run x events y ∧ t.log = s.log ++ events ∧ Refines t y ∧
    weight t.control y.pending y.nextScope < weight s.control x.pending x.nextScope

section Steps

variable {s : State} {x : Scopes} {rest : List Frame}

theorem Advances.event {t : State} {e : Event} {y : Scopes} (hstep : s.step = some t)
    (h : x.Step e y) (hlog : t.log = s.log ++ [e]) (ht : Refines t y)
    (hweight : weight t.control y.pending y.nextScope < weight s.control x.pending x.nextScope) :
    Advances s x :=
  ⟨t, [e], y, hstep, .cons h (.nil y), hlog, ht, hweight⟩

/-- A step that submits a cleanup, and does something with it. -/
theorem Advances.submit {t : State} {e : Event} {y : Scopes} (cleanup : Callback)
    (hx : x.incoming = none) (hticket : cleanup.ticket = x.nextTicket) (hstep : s.step = some t)
    (h : Scopes.Step { x with nextTicket := x.nextTicket + 1, incoming := some cleanup } e y)
    (hlog : t.log = s.log ++ [.submitted cleanup, e]) (ht : Refines t y)
    (hweight : weight t.control y.pending y.nextScope < weight s.control x.pending x.nextScope) :
    Advances s x :=
  ⟨t, [.submitted cleanup, e], y, hstep, .cons (.submit cleanup hx hticket) (.cons h (.nil y)),
    hlog, ht, hweight⟩

/-- A step that is not seen. -/
theorem Advances.silent (control : List Frame) (hstep : s.step = some { s with control := control })
    (ht : Refines { s with control := control } x)
    (hweight : (control.map Frame.weight).sum < (s.control.map Frame.weight).sum) :
    Advances s x :=
  ⟨_, [], x, hstep, .nil x, (List.append_nil _).symm, ht, Nat.add_lt_add_right hweight _⟩

theorem Refines.lt_nextScope (h : Refines s x) (hx : Legal x s.log) {scope : ScopeId}
    (hmem : scope ∈ blocks s.control) : scope < x.nextScope := by
  have hentry := mem_of_mem_liveScopes (liveScopes_entries s.control ▸ hmem)
  exact hx.lt_nextScope (e := ⟨scope, false⟩) (h.stack ▸ hentry)

theorem Refines.distinct (h : Refines s x) (hx : Legal x s.log) :
    ((entries s.control).map (·.scope)).Nodup :=
  h.stack ▸ hx.stack.nodup

/-- The queue of a live scope, and what replacing it changes. -/
theorem Refines.queue (h : Refines s x) (hx : Legal x s.log) {scope : ScopeId}
    (hmem : scope ∈ blocks s.control) :
    ∃ object, s.heap scope = some object ∧ object.callbacks = x.pending scope ∧ ∀ cleanups,
      Objects (Function.update s.heap scope (some { object with callbacks := cleanups }))
        (Function.update x.pending scope cleanups) s.control ∧
      queuesWeight (Function.update x.pending scope cleanups) x.nextScope
          + queueWeight (x.pending scope)
        = queuesWeight x.pending x.nextScope + queueWeight cleanups := by
  obtain ⟨object, hobject, hpending⟩ := h.objects.lookup hmem
  refine ⟨object, hobject, hpending, fun cleanups => ⟨?_, ?_⟩⟩
  · exact h.objects.update (h.distinct hx) hmem hobject cleanups
  · exact queuesWeight_update x.pending (h.lt_nextScope hx hmem) cleanups

theorem Refines.done (h : Refines s x) (hcontrol : s.control = .code .done :: rest) :
    Advances s x := by
  obtain ⟨hstack, hactive, hobjects, hscope, hticket, hnone⟩ := h
  rw [hcontrol] at hstack hactive hobjects
  refine .silent rest ?_ ⟨hstack, hactive, hobjects, hscope, hticket, hnone⟩ ?_
  · simp [State.step, hcontrol]
  · simp [hcontrol, Frame.weight, Program.weight]

theorem Refines.scope (h : Refines s x) (hx : Legal x s.log) {body next : Program}
    (hcontrol : s.control = .code (.scope body next) :: rest) : Advances s x := by
  have hidle : x.pending x.nextScope = [] := hx.idle _ fun hmem => by
    obtain ⟨e, he, heq⟩ := List.mem_map.mp hmem
    exact Nat.ne_of_lt (hx.lt_nextScope he) heq
  have hother : ∀ e ∈ entries s.control, e.scope ≠ s.nextScope := fun e he heq =>
    Nat.ne_of_lt (hx.lt_nextScope (h.stack ▸ he)) (heq.trans h.nextScope.symm)
  obtain ⟨hstack, hactive, hobjects, hscope, hticket, hnone⟩ := h
  rw [hcontrol] at hstack hactive hobjects hother
  have hobjects' : Objects (Function.update s.heap s.nextScope (some ⟨s.active, []⟩)) x.pending
      (.code body :: .block s.nextScope :: .code next :: rest) := by
    refine ⟨?_, hobjects.congr fun e he => ⟨?_, rfl⟩⟩
    · rw [Function.update_self, ← hscope, hidle, hactive]
      rfl
    · exact Function.update_of_ne (hother e he) _ _
  refine .event (t := { s with
      heap := Function.update s.heap s.nextScope (some ⟨s.active, []⟩)
      active := some s.nextScope
      control := .code body :: .block s.nextScope :: .code next :: rest
      nextScope := s.nextScope + 1
      log := s.log ++ [.constructed s.nextScope] }) ?_ (.construct hnone) ?_
    ⟨?_, rfl, hobjects', congrArg (· + 1) hscope, hticket, hnone⟩ ?_
  · simp [State.step, hcontrol, State.construct]
  · simp [hscope]
  · simp [entries, hscope, hstack]
  · simp [weight, hcontrol, Frame.weight, Program.weight,
      queuesWeight, Finset.sum_range_succ, hidle, queueWeight]
    omega

theorem Refines.block (h : Refines s x) {scope : ScopeId}
    (hcontrol : s.control = .block scope :: rest) : Advances s x := by
  obtain ⟨hstack, hactive, hobjects, hscope, hticket, hnone⟩ := h
  rw [hcontrol] at hstack hactive hobjects
  refine .event (t := { s with
      active := (blocks rest).head?
      control := .destructor scope 0 (x.pending scope).length :: rest
      log := s.log ++ [.ending scope] }) ?_ (.destroy scope (entries rest) hnone hstack) rfl
    ⟨rfl, rfl, ⟨⟨_, hobjects.1, rfl, rfl⟩, hobjects.2⟩, hscope, hticket, hnone⟩ ?_
  · simp [State.step, hcontrol, State.destroy, hobjects.1]
  · simp [weight, hcontrol, Frame.weight]

/-- Other entries than the one on top. -/
theorem Refines.ne_of_destructor (h : Refines s x) (hx : Legal x s.log) {scope : ScopeId}
    {i stop : Nat} (hcontrol : s.control = .destructor scope i stop :: rest) :
    ∀ e ∈ entries rest, e.scope ≠ scope := by
  have hdistinct := h.distinct hx
  rw [hcontrol] at hdistinct
  exact fun e he heq => (List.nodup_cons.mp hdistinct).1 (List.mem_map.mpr ⟨e, he, heq⟩)

theorem Refines.active_of_destructor (h : Refines s x) {scope : ScopeId} {i stop : Nat}
    (hcontrol : s.control = .destructor scope i stop :: rest) :
    s.active = (liveScopes (entries rest)).head? := by
  have hactive := h.active
  rw [hcontrol] at hactive
  rw [liveScopes_entries]
  exact hactive

/-- The loop of a destructor calls the next cleanup. -/
theorem Refines.callNext (h : Refines s x) (hx : Legal x s.log) {scope : ScopeId} {i stop : Nat}
    (hcontrol : s.control = .destructor scope i stop :: rest) {object : DeferredAclCleanupScope}
    (hobject : s.heap scope = some object) {cleanup : Callback}
    (hnext : object.callbacks[i]? = some cleanup) : Advances s x := by
  have hother := h.ne_of_destructor hx hcontrol
  have hlive := h.active_of_destructor hcontrol
  have hlt : scope < x.nextScope := hx.lt_nextScope (e := ⟨scope, true⟩) (by
    rw [h.stack, hcontrol]
    exact List.mem_cons_self)
  obtain ⟨hstack, hactive, hobjects, hscope, hticket, hnone⟩ := h
  rw [hcontrol] at hstack hactive hobjects
  obtain ⟨⟨object', hobject', hstop, hdrop⟩, hobjects⟩ := hobjects
  cases hobject.symm.trans hobject'
  obtain ⟨hi, hget⟩ := List.getElem?_eq_some_iff.mp hnext
  have hpending : x.pending scope = cleanup :: object.callbacks.drop (i + 1) := by
    rw [← hdrop, List.drop_eq_getElem_cons hi, hget]
  have hobjects' : Objects s.heap
      (Function.update x.pending scope (object.callbacks.drop (i + 1))) rest :=
    hobjects.congr fun e he => ⟨rfl, Function.update_of_ne (hother e he) _ _⟩
  refine .event (t := { s with
      control := .code cleanup.body :: .destructor scope (i + 1) stop :: rest
      log := s.log ++ [.executed cleanup scope s.active] }) ?_
    (.execute scope (entries rest) cleanup _ hnone hstack hpending) ?_
    ⟨hstack, hactive, ⟨⟨object, hobject, hstop, ?_⟩, hobjects'⟩, hscope, hticket, hnone⟩ ?_
  · simp [State.step, hcontrol, State.runCleanups, hobject, hstop, hnext]
  · rw [hlive]
  · exact (Function.update_self scope _ x.pending).symm
  · have hweight := queuesWeight_update x.pending hlt (object.callbacks.drop (i + 1))
    rw [hpending] at hweight
    simp [weight, hcontrol, Frame.weight, queueWeight] at hweight ⊢
    omega

/-- The loop of a destructor ends. -/
theorem Refines.leave (h : Refines s x) (hx : Legal x s.log) {scope : ScopeId} {i stop : Nat}
    (hcontrol : s.control = .destructor scope i stop :: rest) {object : DeferredAclCleanupScope}
    (hobject : s.heap scope = some object) (hnext : object.callbacks[i]? = none) :
    Advances s x := by
  have hother := h.ne_of_destructor hx hcontrol
  have hlive := h.active_of_destructor hcontrol
  obtain ⟨hstack, hactive, hobjects, hscope, hticket, hnone⟩ := h
  rw [hcontrol] at hstack hactive hobjects
  obtain ⟨⟨object', hobject', hstop, hdrop⟩, hobjects⟩ := hobjects
  cases hobject.symm.trans hobject'
  have hpending : x.pending scope = [] := by
    rw [← hdrop, List.drop_eq_nil_iff]
    exact List.getElem?_eq_none_iff.mp hnext
  have hobjects' : Objects (Function.update s.heap scope none) x.pending rest :=
    hobjects.congr fun e he => ⟨Function.update_of_ne (hother e he) _ _, rfl⟩
  refine .event (t := { s with
      heap := Function.update s.heap scope none
      control := rest
      log := s.log ++ [.ended scope s.active] }) ?_
    (.close scope (entries rest) hnone hstack hpending) ?_
    ⟨rfl, hactive, hobjects', hscope, hticket, hnone⟩ ?_
  · simp [State.step, hcontrol, State.runCleanups, hobject, hstop, hnext]
  · rw [hlive]
  · simp [weight, hcontrol, Frame.weight]

theorem Refines.destructor (h : Refines s x) (hx : Legal x s.log) {scope : ScopeId} {i stop : Nat}
    (hcontrol : s.control = .destructor scope i stop :: rest) : Advances s x := by
  have hobjects := h.objects
  rw [hcontrol] at hobjects
  obtain ⟨⟨object, hobject, -⟩, -⟩ := hobjects
  cases hnext : object.callbacks[i]? with
  | some cleanup => exact h.callNext hx hcontrol hobject hnext
  | none => exact h.leave hx hcontrol hobject hnext

theorem Refines.release (h : Refines s x) (hx : Legal x s.log) {i : Nat} {next : Program}
    (hcontrol : s.control = .code (.release i next) :: rest) : Advances s x := by
  cases howner : (blocks rest)[i]? with
  | none =>
    obtain ⟨hstack, hactive, hobjects, hscope, hticket, hnone⟩ := h
    rw [hcontrol] at hstack hactive hobjects
    refine .silent (.code next :: rest) ?_ ⟨hstack, hactive, hobjects, hscope, hticket, hnone⟩ ?_
    · simp [State.step, hcontrol, howner]
    · simp [hcontrol, Frame.weight, Program.weight]
  | some scope =>
    have hmem : scope ∈ blocks s.control := by
      rw [hcontrol]
      exact List.mem_of_getElem? howner
    obtain ⟨object, hobject, hpending, hqueue⟩ := h.queue hx hmem
    obtain ⟨hobjects, hweight⟩ := hqueue []
    have hlive : scope ∈ liveScopes x.stack := by
      rw [h.stack, liveScopes_entries]
      exact hmem
    obtain ⟨hstack, hactive, -, hscope, hticket, hnone⟩ := h
    rw [hcontrol] at hstack hactive hobjects
    refine .event (t := { s with
        heap := Function.update s.heap scope (some { object with callbacks := [] })
        control := .code next :: rest
        log := s.log ++ [.released scope object.callbacks] }) ?_
      (.release scope hnone hlive) ?_ ⟨hstack, hactive, hobjects, hscope, hticket, hnone⟩ ?_
    · simp [State.step, hcontrol, State.release, howner, hobject]
    · rw [hpending]
    · simp [weight, hcontrol, Frame.weight, Program.weight, queueWeight] at hweight ⊢
      omega

/-- `DeferOrRunAclCleanup` while no scope is active. -/
theorem Refines.runNow (h : Refines s x) {cleanup next : Program}
    (hcontrol : s.control = .code (.deferOrRun cleanup next) :: rest) (hinactive : s.active = none) :
    Advances s x := by
  obtain ⟨hstack, hactive, hobjects, hscope, hticket, hnone⟩ := h
  rw [hcontrol] at hstack hactive hobjects
  have hlive : liveScopes x.stack = [] := by
    rw [hstack, liveScopes_entries]
    exact List.head?_eq_none_iff.mp (hactive.symm.trans hinactive)
  refine .submit (t := { s with
      control := .code cleanup :: .code next :: rest
      nextTicket := s.nextTicket + 1
      log := s.log ++ [.submitted ⟨s.nextTicket, cleanup⟩, .ran ⟨s.nextTicket, cleanup⟩] })
    ⟨s.nextTicket, cleanup⟩ hnone hticket.symm ?_ (.run _ rfl hlive) rfl
    ⟨hstack, hactive, hobjects, hscope, congrArg (· + 1) hticket, rfl⟩ ?_
  · simp [State.step, hcontrol, State.deferOrRunAclCleanup, hinactive]
  · simp [weight, hcontrol, Frame.weight, Program.weight]
    omega

/-- `DeferOrRunAclCleanup` while a scope is active. -/
theorem Refines.defer (h : Refines s x) (hx : Legal x s.log) {cleanup next : Program}
    (hcontrol : s.control = .code (.deferOrRun cleanup next) :: rest) {scope : ScopeId}
    (hsome : s.active = some scope) : Advances s x := by
  have hhead : (liveScopes x.stack).head? = some scope := by
    rw [h.stack, liveScopes_entries, ← h.active]
    exact hsome
  have hmem : scope ∈ blocks s.control := List.mem_of_mem_head? (h.active ▸ hsome)
  obtain ⟨object, hobject, hpending, hqueue⟩ := h.queue hx hmem
  obtain ⟨hobjects, hweight⟩ := hqueue (x.pending scope ++ [⟨s.nextTicket, cleanup⟩])
  obtain ⟨hstack, hactive, -, hscope, hticket, hnone⟩ := h
  rw [hcontrol] at hstack hactive hobjects
  refine .submit (t := { s with
      heap := Function.update s.heap scope
        (some { object with callbacks := x.pending scope ++ [⟨s.nextTicket, cleanup⟩] })
      control := .code next :: rest
      nextTicket := s.nextTicket + 1
      log := s.log ++
        [.submitted ⟨s.nextTicket, cleanup⟩, .deferred ⟨s.nextTicket, cleanup⟩ scope] })
    ⟨s.nextTicket, cleanup⟩ hnone hticket.symm ?_ (.defer scope _ rfl hhead) rfl
    ⟨hstack, hactive, hobjects, hscope, congrArg (· + 1) hticket, rfl⟩ ?_
  · simp [State.step, hcontrol, State.deferOrRunAclCleanup, hsome, State.defer, hobject, hpending]
  · simp [weight, hcontrol, Frame.weight, Program.weight, queueWeight] at hweight ⊢
    omega

theorem Refines.deferOrRun (h : Refines s x) (hx : Legal x s.log) {cleanup next : Program}
    (hcontrol : s.control = .code (.deferOrRun cleanup next) :: rest) : Advances s x := by
  cases hcase : s.active with
  | none => exact h.runNow hcontrol hcase
  | some scope => exact h.defer hx hcontrol hcase

theorem Refines.advances (h : Refines s x) (hx : Legal x s.log) (hne : s.control ≠ []) :
    Advances s x := by
  cases hcontrol : s.control with
  | nil => exact absurd hcontrol hne
  | cons frame rest =>
    cases frame with
    | code p =>
      cases p with
      | done => exact h.done hcontrol
      | deferOrRun cleanup next => exact h.deferOrRun hx hcontrol
      | scope body next => exact h.scope hx hcontrol
      | release i next => exact h.release hx hcontrol
    | block scope => exact h.block hcontrol
    | destructor scope i stop => exact h.destructor hx hcontrol

end Steps

/-! ## What is asked for -/

/-- What a frame is still going to ask for. -/
def Frame.commands : Frame → List Command
  | .code p => p.commands
  | _ => []

/-- What was asked for and what is still to be asked for is what the program
and the cleanups that were run ask for. -/
def Asked (p : Program) (s : State) : Prop :=
  (s.log.flatMap Event.command ++ s.control.flatMap Frame.commands).Perm
    (p.commands ++ (s.log.flatMap Event.ranOrExecuted).flatMap (·.body.commands))

theorem asked_start (p : Program) : Asked p (State.start p) := by
  simp [Asked, State.start, Frame.commands]

/-- Commands move from the control stack to the log, and those of a cleanup
that is run are new. -/
theorem Asked.of_events {p : Program} {s t : State} (h : Asked p s) (events : List Event)
    (hlog : t.log = s.log ++ events)
    (hcontrol : (events.flatMap Event.command ++ t.control.flatMap Frame.commands).Perm
      (s.control.flatMap Frame.commands
        ++ (events.flatMap Event.ranOrExecuted).flatMap (·.body.commands))) : Asked p t := by
  refine List.perm_iff_count.mpr fun c => ?_
  have hbefore := List.perm_iff_count.mp h c
  have hmoved := List.perm_iff_count.mp hcontrol c
  simp only [hlog, List.flatMap_append, List.count_append] at hbefore hmoved ⊢
  omega

theorem Asked.step {p : Program} {s t : State} (h : Asked p s) (hstep : s.step = some t) :
    Asked p t := by
  rw [State.step] at hstep
  split at hstep
  · cases hstep
  · rename_i hcontrol
    cases hstep
    exact h.of_events [] (List.append_nil _).symm (by simp [hcontrol, Frame.commands,
      Program.commands])
  · rename_i cleanup next rest hcontrol
    cases hactive : s.active with
    | none =>
      simp only [State.deferOrRunAclCleanup, hactive, Option.some.injEq] at hstep
      subst hstep
      refine h.of_events [.submitted ⟨s.nextTicket, cleanup⟩, .ran ⟨s.nextTicket, cleanup⟩]
        (List.append_assoc _ _ _) ?_
      simp only [hcontrol, List.flatMap_cons, Frame.commands, Program.commands, Event.command,
        Event.ranOrExecuted, List.flatMap_nil, List.append_nil, List.nil_append, List.cons_append]
      refine List.Perm.cons _ ?_
      exact List.perm_append_comm
    | some scope =>
      simp only [State.deferOrRunAclCleanup, hactive, State.defer, Option.bind_eq_bind,
        Option.bind_eq_some_iff] at hstep
      obtain ⟨object, -, hstep⟩ := hstep
      cases hstep
      refine h.of_events [.submitted ⟨s.nextTicket, cleanup⟩,
        .deferred ⟨s.nextTicket, cleanup⟩ scope] (List.append_assoc _ _ _) ?_
      simp [hcontrol, Frame.commands, Program.commands, Event.command, Event.ranOrExecuted]
  · rename_i hcontrol
    cases hstep
    exact h.of_events [.constructed s.nextScope] rfl (by simp [hcontrol, State.construct,
      Frame.commands, Program.commands, Event.command, Event.ranOrExecuted])
  · rename_i hcontrol
    split at hstep
    · cases hstep
      exact h.of_events [] (List.append_nil _).symm (by simp [hcontrol, Frame.commands,
        Program.commands])
    · simp only [State.release, Option.bind_eq_bind, Option.bind_eq_some_iff] at hstep
      obtain ⟨⟨after, cleanups⟩, ⟨object, -, hreleased⟩, hstep⟩ := hstep
      cases hreleased
      cases hstep
      exact h.of_events [.released _ object.callbacks] rfl (by simp [hcontrol, Frame.commands,
        Program.commands, Event.command, Event.ranOrExecuted])
  · rename_i hcontrol
    simp only [State.destroy, Option.bind_eq_bind, Option.bind_eq_some_iff] at hstep
    obtain ⟨object, -, hstep⟩ := hstep
    cases hstep
    exact h.of_events [.ending _] rfl (by simp [hcontrol, Frame.commands, Event.command,
      Event.ranOrExecuted])
  · rename_i scope i stop rest hcontrol
    simp only [State.runCleanups, Option.bind_eq_bind, Option.bind_eq_some_iff] at hstep
    obtain ⟨object, -, hstep⟩ := hstep
    split at hstep
    · cases hstep
    split at hstep
    · rename_i cleanup _
      cases hstep
      refine h.of_events [.executed cleanup scope s.active] rfl ?_
      simp only [hcontrol, List.flatMap_cons, Frame.commands, Event.command, Event.ranOrExecuted,
        List.flatMap_nil, List.append_nil, List.nil_append]
      exact List.perm_append_comm
    · cases hstep
      exact h.of_events [.ended scope s.active] rfl (by simp [hcontrol, Frame.commands,
        Event.command, Event.ranOrExecuted])

/-! ## Whole runs -/

theorem refines_start (p : Program) : Refines (State.start p) .empty where
  stack := rfl
  active := rfl
  objects := trivial
  nextScope := rfl
  nextTicket := rfl
  incoming := rfl

/-- The run ends. -/
theorem Refines.reaches_end {s : State} {x : Scopes} (h : Refines s x) (hx : Legal x s.log) :
    ∃ t y, s.Reaches t ∧ t.control = [] ∧ Refines t y ∧ Legal y t.log := by
  induction hweight : weight s.control x.pending x.nextScope using Nat.strong_induction_on
    generalizing s x with
  | _ n ih =>
    by_cases hend : s.control = []
    · exact ⟨s, x, .refl, hend, h, hx⟩
    · obtain ⟨t, events, y, hstep, hrun, hlog, ht, hless⟩ := h.advances hx hend
      have hy : Legal y t.log := hlog ▸ hx.run hrun
      obtain ⟨u, z, hreach, hrest⟩ := ih _ (hweight ▸ hless) ht hy rfl
      exact ⟨u, z, hreach.head hstep, hrest⟩

theorem eq_of_reaches {s t : State} (hend : s.control = []) (h : s.Reaches t) : s = t := by
  rcases Relation.ReflTransGen.cases_head h with rfl | ⟨u, hstep, -⟩
  · rfl
  · rw [State.step, hend] at hstep
    cases hstep

/-- A thread has one run. -/
theorem reaches_of_end {s t u : State} (hend : s.Reaches u) (hcontrol : u.control = [])
    (h : s.Reaches t) : t.Reaches u := by
  have hunique : Relator.RightUnique fun a b : State => a.step = some b := by
    intro a b c hb hc
    exact Option.some.inj (hb.symm.trans hc)
  rcases Relation.ReflTransGen.total_of_right_unique hunique h hend with hreach | hreach
  · exact hreach
  · exact eq_of_reaches hcontrol hreach ▸ .refl

theorem Asked.reaches {p : Program} {s : State} (h : (State.start p).Reaches s) : Asked p s := by
  induction h with
  | refl => exact asked_start p
  | tail _ hstep ih => exact ih.step hstep

/-- Every program runs to its end, in one way, and leaves no scope active;
its log shows every cleanup that the program and its cleanups submit
executed or handed out once, in order, at the right time. -/
theorem runs_each_cleanup_once (p : Program) :
    ∃ s, (State.start p).Reaches s ∧ (∀ t, (State.start p).Reaches t → t.Reaches s) ∧
      s.control = [] ∧ s.active = none ∧ CleanedUp p s.log := by
  obtain ⟨s, x, hreach, hend, h, hx⟩ := (refines_start p).reaches_end legal_empty
  have hstack : x.stack = [] := by
    rw [h.stack, hend]
    rfl
  have hidle : ∀ scope, x.pending scope = [] := fun scope => by
    refine hx.idle scope ?_
    rw [hstack]
    exact List.not_mem_nil
  refine ⟨s, hreach, fun t ht => reaches_of_end hreach hend ht, hend, ?_, ?_,
    hx.once hidle h.incoming, ?_, ?_, hx.timely⟩
  · rw [h.active, hend]
    rfl
  · have hasked := Asked.reaches hreach
    rw [Asked, hend] at hasked
    simpa using hasked
  · intro scope
    rw [hx.inOrder, hidle, List.append_nil]
  · intro scope hmem
    refine (hx.left scope hmem).resolve_left ?_
    rw [hstack]
    exact List.not_mem_nil

/-- The state after some steps, or at the end of the run. -/
def State.after : Nat → State → State
  | 0, s => s
  | n + 1, s => (s.step.map (State.after n)).getD s

theorem reaches_after (n : Nat) (s : State) : s.Reaches (s.after n) := by
  induction n generalizing s with
  | zero => exact .refl
  | succ n ih =>
    rw [State.after]
    cases hstep : s.step with
    | none => exact .refl
    | some t => exact (ih t).head hstep

/-- Two scopes, one in the other; the cleanup of the inner one submits
another. -/
def nested : Program :=
  .scope (.deferOrRun .done (.scope (.deferOrRun (.deferOrRun .done .done) .done) .done)) .done

theorem runs_each_cleanup_once_nested : ∃ s, (State.start nested).Reaches s ∧
    CleanedUp nested s.log ∧
    s.log = [.constructed 0, .submitted ⟨0, .done⟩, .deferred ⟨0, .done⟩ 0, .constructed 1,
      .submitted ⟨1, .deferOrRun .done .done⟩, .deferred ⟨1, .deferOrRun .done .done⟩ 1,
      .ending 1, .executed ⟨1, .deferOrRun .done .done⟩ 1 (some 0),
      .submitted ⟨2, .done⟩, .deferred ⟨2, .done⟩ 0, .ended 1 (some 0),
      .ending 0, .executed ⟨0, .done⟩ 0 none, .executed ⟨2, .done⟩ 0 none, .ended 0 none] := by
  obtain ⟨s, hreach, hlast, -, -, hclean⟩ := runs_each_cleanup_once nested
  have hsame : (State.start nested).after 21 = s :=
    eq_of_reaches rfl (hlast _ (reaches_after 21 (State.start nested)))
  refine ⟨s, hreach, hclean, ?_⟩
  rw [← hsame]
  rfl

end InfiniOps.Ascend.Cleanup
