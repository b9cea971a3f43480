/-
InfiniOps.Ascend.GraphCleanup — deferred ACL cleanup
(`src/native/ascend/ops/graph_cleanup_.h`).

A `Program` is what one thread does with cleanups: it submits them, opens
scopes and releases them. A cleanup is a program too, so it may do all of
that when it runs. What the caller of `Release` does with the cleanups it
is handed, calling them included, is program text of its own.

The machine has the scope objects in a heap, the thread-local pointer to
the active one, and a control stack. A step has no result where the source
would use an object that is gone, or a vector that has changed under a
loop over it.

* `State.construct`, `State.destroy`, `State.runCleanups` — the constructor,
  and the two halves of the destructor.
* `State.release`, `State.deferOrRunAclCleanup` — the two calls.
* `State.step` — the program. What it asks for it logs itself, before the
  function that does it.
* `CleanedUp` — what a log of the whole run should look like.
-/
import InfiniOps.Lib.History
import Mathlib.Logic.Function.Basic
import Mathlib.Logic.Relation

namespace InfiniOps.Ascend.Cleanup

open History

/-- The address of a scope object. Addresses are not used again. -/
abbrev ScopeId := Nat

/-- Submissions are numbered. -/
abbrev Ticket := Nat

/-- A well-nested program: the scopes are variables of blocks. `release i`
is a call on the `i`th of the scopes whose block is not left yet, the
innermost first; where there is no such scope there is no call. -/
inductive Program where
  | done
  | deferOrRun (cleanup next : Program)
  | scope (body next : Program)
  | release (i : Nat) (next : Program)
  deriving DecidableEq, Repr

/-- A `std::function` that was submitted. -/
structure Callback where
  ticket : Ticket
  body : Program
  deriving DecidableEq, Repr

/-- `DeferredAclCleanupScope`. -/
structure DeferredAclCleanupScope where
  previous : Option ScopeId
  callbacks : List Callback
  deriving DecidableEq, Repr

/-- What can be seen from outside. The last field of `executed` and `ended`
is the active scope at that time. -/
inductive Event where
  | constructed (scope : ScopeId)
  /-- The program calls `DeferOrRunAclCleanup`. -/
  | submitted (cleanup : Callback)
  /-- Run at once. -/
  | ran (cleanup : Callback)
  | deferred (cleanup : Callback) (scope : ScopeId)
  /-- The caller of `Release` gets these. -/
  | released (scope : ScopeId) (cleanups : List Callback)
  /-- The block of the scope is left. -/
  | ending (scope : ScopeId)
  /-- The destructor of the scope calls the cleanup. -/
  | executed (cleanup : Callback) (scope : ScopeId) (active : Option ScopeId)
  /-- The destructor is left. -/
  | ended (scope : ScopeId) (active : Option ScopeId)
  deriving DecidableEq, Repr

inductive Frame where
  /-- The rest of a block, or of a cleanup. -/
  | code (p : Program)
  /-- The block of this scope variable. -/
  | block (scope : ScopeId)
  /-- The loop of the destructor, at index `i` of `stop`. -/
  | destructor (scope : ScopeId) (i stop : Nat)
  deriving DecidableEq, Repr

structure State where
  heap : ScopeId → Option DeferredAclCleanupScope
  /-- `detail::active_acl_cleanup_scope`. -/
  active : Option ScopeId
  control : List Frame
  nextScope : ScopeId
  nextTicket : Ticket
  log : List Event

/-- The scope variables whose block is not left, the innermost first. -/
def blocks : List Frame → List ScopeId
  | [] => []
  | .block scope :: rest => scope :: blocks rest
  | _ :: rest => blocks rest

namespace State

/-- The thread before the program. -/
def start (p : Program) : State where
  heap _ := none
  active := none
  control := [.code p]
  nextScope := 0
  nextTicket := 0
  log := []

variable (s : State)

/-- `DeferredAclCleanupScope::DeferredAclCleanupScope`. -/
def construct : State :=
  { s with
    heap := Function.update s.heap s.nextScope (some { previous := s.active, callbacks := [] })
    active := some s.nextScope
    nextScope := s.nextScope + 1 }

/-- `DeferredAclCleanupScope::~DeferredAclCleanupScope`, up to its loop. -/
def destroy (scope : ScopeId) : Option State := do
  let object ← s.heap scope
  return { s with
    active := object.previous
    control := .destructor scope 0 object.callbacks.length :: s.control }

/-- The loop of `DeferredAclCleanupScope::~DeferredAclCleanupScope`. -/
def runCleanups (scope : ScopeId) (i stop : Nat) : Option State := do
  let object ← s.heap scope
  -- Its iterators are into the vector as it was when the loop began.
  if object.callbacks.length ≠ stop then none
  else match object.callbacks[i]? with
    | some cleanup => return { s with
        control := .code cleanup.body :: .destructor scope (i + 1) stop :: s.control
        log := s.log ++ [.executed cleanup scope s.active] }
    | none => return { s with
        heap := Function.update s.heap scope none
        log := s.log ++ [.ended scope s.active] }

/-- `DeferredAclCleanupScope::Defer`. -/
def defer (scope : ScopeId) (cleanup : Callback) : Option State := do
  let object ← s.heap scope
  return { s with
    heap := Function.update s.heap scope
      (some { object with callbacks := object.callbacks ++ [cleanup] })
    log := s.log ++ [.deferred cleanup scope] }

/-- `DeferredAclCleanupScope::Release`, and what it returns. -/
def release (scope : ScopeId) : Option (State × List Callback) := do
  let object ← s.heap scope
  return ({ s with
    heap := Function.update s.heap scope (some { object with callbacks := [] }) },
    object.callbacks)

/-- `DeferOrRunAclCleanup`. -/
def deferOrRunAclCleanup (cleanup : Callback) : Option State :=
  match s.active with
  | some scope => s.defer scope cleanup
  | none => some { s with
      control := .code cleanup.body :: s.control
      log := s.log ++ [.ran cleanup] }

/-- One step of the thread. -/
def step : Option State :=
  match s.control with
  | [] => none
  | .code .done :: rest => some { s with control := rest }
  | .code (.deferOrRun cleanup next) :: rest =>
    let submitted : State := { s with
      control := .code next :: rest
      nextTicket := s.nextTicket + 1
      log := s.log ++ [.submitted ⟨s.nextTicket, cleanup⟩] }
    submitted.deferOrRunAclCleanup ⟨s.nextTicket, cleanup⟩
  | .code (.scope body next) :: rest =>
    let entered : State := { s with
      control := .code body :: .block s.nextScope :: .code next :: rest
      log := s.log ++ [.constructed s.nextScope] }
    some entered.construct
  | .code (.release i next) :: rest =>
    let called : State := { s with control := .code next :: rest }
    match (blocks rest)[i]? with
    | none => some called
    | some scope => do
      let (after, cleanups) ← called.release scope
      return { after with log := after.log ++ [.released scope cleanups] }
  | .block scope :: rest =>
    let left : State := { s with control := rest, log := s.log ++ [.ending scope] }
    left.destroy scope
  | .destructor scope i stop :: rest => { s with control := rest }.runCleanups scope i stop

/-- `t` is a state of the run from `s` on. -/
def Reaches (s t : State) : Prop := Relation.ReflTransGen (fun a b => a.step = some b) s t

end State

/-! ## Logs -/

namespace Event

def submission : Event → List Callback
  | .submitted c => [c]
  | _ => []

def ranOrExecuted : Event → List Callback
  | .ran c => [c]
  | .executed c _ _ => [c]
  | _ => []

def handed : Event → List Callback
  | .released _ cs => cs
  | _ => []

def deferredTo (scope : ScopeId) : Event → List Callback
  | .deferred c owner => if owner = scope then [c] else []
  | _ => []

def handedFrom (scope : ScopeId) : Event → List Callback
  | .released owner cs => if owner = scope then cs else []
  | _ => []

def executedBy (scope : ScopeId) : Event → List Callback
  | .executed c owner _ => if owner = scope then [c] else []
  | _ => []

end Event

/-- What a program asks for: a submission of a cleanup, or a scope. -/
inductive Command where
  | submit (cleanup : Program)
  | scope
  deriving DecidableEq, Repr

/-- What a program asks for itself, without its cleanups. -/
def Program.commands : Program → List Command
  | .done => []
  | .deferOrRun cleanup next => .submit cleanup :: next.commands
  | .scope body next => .scope :: (body.commands ++ next.commands)
  | .release _ next => next.commands

def Event.command : Event → List Command
  | .submitted c => [.submit c.body]
  | .constructed _ => [.scope]
  | _ => []

/-- The scopes that are constructed and not ending, the latest first. -/
def live (log : List Event) : List ScopeId :=
  log.foldl (fun scopes e => match e with
    | .constructed scope => scope :: scopes
    | .ending scope => scopes.erase scope
    | _ => scopes) []

/-- The loop of the destructor of `scope` is at a cleanup, or at its end,
with `active` active. What was live when the scope was constructed is live
now, and none of its cleanups has been executed yet. -/
structure WhileEnding (before : List Event) (scope : ScopeId) (active : Option ScopeId) : Prop where
  entered : .ending scope ∈ before
  notLeft : ∀ a, .ended scope a ∉ before
  restored : ∃ outside inside, before = outside ++ .constructed scope :: inside ∧
    live before = live outside ∧ active = (live outside).head? ∧
    ∀ outer ∈ live outside, before.flatMap (Event.executedBy outer) = []

/-- Which events may come after which logs. -/
def Rule (before : List Event) : Event → Prop
  | .constructed scope => .constructed scope ∉ before
  | .submitted c => ∀ c', .submitted c' ∈ before → c'.ticket ≠ c.ticket
  | .ran c => before.getLast? = some (.submitted c) ∧ live before = []
  | .deferred c scope =>
    before.getLast? = some (.submitted c) ∧ (live before).head? = some scope
  | .released scope cs => scope ∈ live before ∧
    before.flatMap (Event.deferredTo scope) = before.flatMap (Event.handedFrom scope) ++ cs
  | .ending scope => (live before).head? = some scope
  | .executed _ scope active => WhileEnding before scope active
  | .ended scope active => WhileEnding before scope active

/-- The log of a program. What was submitted and constructed is what the
program and the cleanups that were run ask for. Every submitted cleanup is
executed or handed out, once; those of one scope in the order of
submission; and all at the right time. Every scope is left. -/
structure CleanedUp (p : Program) (log : List Event) : Prop where
  asked : (log.flatMap Event.command).Perm
    (p.commands ++ (log.flatMap Event.ranOrExecuted).flatMap (·.body.commands))
  once : (log.flatMap Event.ranOrExecuted ++ log.flatMap Event.handed).Perm
    (log.flatMap Event.submission)
  inOrder : ∀ scope, log.flatMap (Event.deferredTo scope)
    = log.flatMap (Event.handedFrom scope) ++ log.flatMap (Event.executedBy scope)
  left : ∀ scope, .constructed scope ∈ log → ∃ active, .ended scope active ∈ log
  timely : Obeys Rule log

end InfiniOps.Ascend.Cleanup
