/-
InfiniOps.Ascend.CleanupScopes — a stack of scopes with a queue of cleanups
each, which is what deferred cleanup is meant to be.

There are no pointers here: the active scope is the innermost that is not
ending (`liveScopes`). `scopes` is a transition system whose labels are
the events of a log; `Legal` is what holds of a log and the state it leads
to, and `Legal.run` that every run keeps it.
-/
import InfiniOps.Ascend.GraphCleanup
import InfiniOps.Lib.Transition
import Mathlib.Algebra.BigOperators.Group.Finset.Piecewise

namespace InfiniOps.Ascend.Cleanup

open History

/-- A scope that is not gone. -/
structure Entry where
  scope : ScopeId
  ending : Bool

structure Scopes where
  /-- The innermost first. -/
  stack : List Entry
  /-- What a scope still has to execute. -/
  pending : ScopeId → List Callback
  nextScope : ScopeId
  nextTicket : Ticket
  /-- Submitted just now. -/
  incoming : Option Callback

/-- The scopes of a stack that are not ending. -/
def liveScopes : List Entry → List ScopeId
  | [] => []
  | ⟨scope, false⟩ :: below => scope :: liveScopes below
  | ⟨_, true⟩ :: below => liveScopes below

namespace Scopes

/-- No scope yet. -/
def empty : Scopes := ⟨[], fun _ => [], 0, 0, none⟩

inductive Step (x : Scopes) : Event → Scopes → Prop where
  | construct (hnone : x.incoming = none) : Step x (.constructed x.nextScope)
      { x with stack := ⟨x.nextScope, false⟩ :: x.stack, nextScope := x.nextScope + 1 }
  | submit (cleanup : Callback) (hnone : x.incoming = none)
      (hticket : cleanup.ticket = x.nextTicket) : Step x (.submitted cleanup)
      { x with nextTicket := x.nextTicket + 1, incoming := some cleanup }
  | run (cleanup : Callback) (hsome : x.incoming = some cleanup) (h : liveScopes x.stack = []) :
      Step x (.ran cleanup) { x with incoming := none }
  | defer (scope : ScopeId) (cleanup : Callback) (hsome : x.incoming = some cleanup)
      (h : (liveScopes x.stack).head? = some scope) : Step x (.deferred cleanup scope)
      { x with
        pending := Function.update x.pending scope (x.pending scope ++ [cleanup])
        incoming := none }
  | release (scope : ScopeId) (hnone : x.incoming = none) (h : scope ∈ liveScopes x.stack) :
      Step x (.released scope (x.pending scope))
      { x with pending := Function.update x.pending scope [] }
  | destroy (scope : ScopeId) (below : List Entry) (hnone : x.incoming = none)
      (h : x.stack = ⟨scope, false⟩ :: below) :
      Step x (.ending scope) { x with stack := ⟨scope, true⟩ :: below }
  | execute (scope : ScopeId) (below : List Entry) (cleanup : Callback) (rest : List Callback)
      (hnone : x.incoming = none) (h : x.stack = ⟨scope, true⟩ :: below)
      (hpending : x.pending scope = cleanup :: rest) :
      Step x (.executed cleanup scope (liveScopes below).head?)
      { x with pending := Function.update x.pending scope rest }
  | close (scope : ScopeId) (below : List Entry) (hnone : x.incoming = none)
      (h : x.stack = ⟨scope, true⟩ :: below) (hpending : x.pending scope = []) :
      Step x (.ended scope (liveScopes below).head?) { x with stack := below }

end Scopes

def scopes : Lts Scopes Event where
  init x := x = .empty
  step := Scopes.Step

/-! ## What is live -/

theorem live_concat (log : List Event) (e : Event) :
    live (log ++ [e]) = match e with
      | .constructed scope => scope :: live log
      | .ending scope => (live log).erase scope
      | _ => live log := by
  rw [live, List.foldl_append]
  rfl

/-- The scope whose construction or destruction an event is part of. -/
def Event.subject : Event → Option ScopeId
  | .constructed scope => some scope
  | .ending scope => some scope
  | .executed _ scope _ => some scope
  | .ended scope _ => some scope
  | _ => none

namespace Event

def ranAtOnce : Event → List Callback
  | .ran c => [c]
  | _ => []

/-- Submitted while a scope is active. -/
def deferredToAny : Event → List Callback
  | .deferred c _ => [c]
  | _ => []

def executedByAny : Event → List Callback
  | .executed c _ _ => [c]
  | _ => []

end Event

/-- What the log says about a scope on the stack. -/
structure EntryOk (log : List Event) (e : Entry) (below : List Entry) : Prop where
  outside : ∃ outside inside, log = outside ++ .constructed e.scope :: inside ∧
    live outside = liveScopes below
  entered : e.ending = true → .ending e.scope ∈ log
  waiting : e.ending = false → log.flatMap (Event.executedBy e.scope) = []
  notLeft : ∀ a, .ended e.scope a ∉ log
  newer : ∀ e' ∈ below, e'.scope < e.scope

def StackOk (log : List Event) : List Entry → Prop
  | [] => True
  | e :: below => EntryOk log e below ∧ StackOk log below

/-- A state, and the log of a run to it. -/
structure Legal (x : Scopes) (log : List Event) : Prop where
  seen : ∀ e ∈ log, ∀ scope ∈ e.subject, scope < x.nextScope
  live : live log = liveScopes x.stack
  stack : StackOk log x.stack
  idle : ∀ scope, scope ∉ x.stack.map (·.scope) → x.pending scope = []
  numbered : ∀ c, .submitted c ∈ log → c.ticket < x.nextTicket
  taken : ∀ c, (log.flatMap Event.submission).count c
    = (log.flatMap Event.ranAtOnce).count c + (log.flatMap Event.deferredToAny).count c
      + x.incoming.toList.count c
  last : ∀ c ∈ x.incoming, log.getLast? = some (.submitted c)
  inOrder : ∀ scope, log.flatMap (Event.deferredTo scope)
    = log.flatMap (Event.handedFrom scope) ++ log.flatMap (Event.executedBy scope)
      ++ x.pending scope
  left : ∀ scope, .constructed scope ∈ log →
    scope ∈ x.stack.map (·.scope) ∨ ∃ active, .ended scope active ∈ log
  timely : Obeys Rule log

theorem legal_empty : Legal .empty [] where
  seen := by simp
  live := rfl
  stack := trivial
  idle := by simp [Scopes.empty]
  numbered := by simp
  taken := by simp [Scopes.empty]
  last := by simp [Scopes.empty]
  inOrder := by simp [Scopes.empty]
  left := by simp
  timely := obeys_nil

/-! ## The stack of a log -/

section Stack

variable {log : List Event} {ev : Event}

theorem mem_of_mem_liveScopes {stack : List Entry} {scope : ScopeId}
    (h : scope ∈ liveScopes stack) : ⟨scope, false⟩ ∈ stack := by
  induction stack with
  | nil => cases h
  | cons e below ih =>
    obtain ⟨top, ending⟩ := e
    cases ending with
    | false =>
      rcases List.mem_cons.mp h with rfl | h
      · exact List.mem_cons_self
      · exact List.mem_cons_of_mem _ (ih h)
    | true => exact List.mem_cons_of_mem _ (ih h)

theorem StackOk.entry {stack : List Entry} (h : StackOk log stack) {e : Entry} (he : e ∈ stack) :
    ∃ below, EntryOk log e below := by
  induction stack with
  | nil => cases he
  | cons top below ih =>
    rcases List.mem_cons.mp he with rfl | he
    · exact ⟨below, h.1⟩
    · exact ih h.2 he

/-- A scope that is live has not executed anything. -/
theorem StackOk.waiting {stack : List Entry} (h : StackOk log stack) {scope : ScopeId}
    (hlive : scope ∈ liveScopes stack) : log.flatMap (Event.executedBy scope) = [] := by
  obtain ⟨_, hentry⟩ := h.entry (mem_of_mem_liveScopes hlive)
  exact hentry.waiting rfl

theorem EntryOk.constructed_mem {e : Entry} {below : List Entry} (h : EntryOk log e below) :
    .constructed e.scope ∈ log := by
  obtain ⟨outside, inside, rfl, -⟩ := h.outside
  simp

/-- An event about another scope. -/
theorem EntryOk.concat {e : Entry} {below : List Entry} (h : EntryOk log e below)
    (hev : ev.subject ≠ some e.scope) : EntryOk (log ++ [ev]) e below where
  outside := by
    obtain ⟨outside, inside, hlog, hlive⟩ := h.outside
    exact ⟨outside, inside ++ [ev], by simp [hlog], hlive⟩
  entered hending := List.mem_append_left _ (h.entered hending)
  waiting hwaiting := by
    have hnone : ev.executedBy e.scope = [] := by
      cases ev <;> simp [Event.subject, Event.executedBy] at hev ⊢
      exact hev
    simp [h.waiting hwaiting, hnone]
  notLeft a := by
    have hne : Event.ended e.scope a ≠ ev := by
      rintro rfl
      exact hev rfl
    simp [h.notLeft a, hne]
  newer := h.newer

theorem StackOk.concat {stack : List Entry} (h : StackOk log stack)
    (hev : ∀ e ∈ stack, ev.subject ≠ some e.scope) : StackOk (log ++ [ev]) stack := by
  induction stack with
  | nil => trivial
  | cons e below ih =>
    exact ⟨h.1.concat (hev e List.mem_cons_self),
      ih h.2 fun e' he' => hev e' (List.mem_cons_of_mem _ he')⟩

/-- An event about the scope on top. -/
theorem StackOk.concat_below {e : Entry} {below : List Entry} (h : StackOk log (e :: below))
    (hev : ev.subject = some e.scope) : StackOk (log ++ [ev]) below := by
  refine h.2.concat fun e' he' heq => ?_
  have hlt := h.1.newer e' he'
  rw [hev, Option.some.injEq] at heq
  exact absurd hlt (heq ▸ Nat.lt_irrefl _)

end Stack

namespace Legal

variable {x : Scopes} {log : List Event}

theorem lt_nextScope (h : Legal x log) {e : Entry} (he : e ∈ x.stack) : e.scope < x.nextScope := by
  obtain ⟨_, hentry⟩ := h.stack.entry he
  exact h.seen _ hentry.constructed_mem e.scope rfl

/-- The next scope is not in the log. -/
theorem subject_ne (h : Legal x log) {e : Event} (he : e ∈ log) : e.subject ≠ some x.nextScope :=
  fun heq => Nat.lt_irrefl _ (h.seen e he x.nextScope heq)

theorem executedBy_nextScope (h : Legal x log) :
    log.flatMap (Event.executedBy x.nextScope) = [] := by
  rw [List.flatMap_eq_nil_iff]
  intro e he
  have hne := h.subject_ne he
  cases e <;> simp [Event.subject, Event.executedBy] at hne ⊢
  exact hne

/-- The loop of the destructor of the scope on top. -/
theorem whileEnding {scope : ScopeId} {below : List Entry} (h : Legal x log)
    (hstack : x.stack = ⟨scope, true⟩ :: below) :
    WhileEnding log scope (liveScopes below).head? := by
  have hok := h.stack
  rw [hstack] at hok
  have hlive : Cleanup.live log = liveScopes below := by rw [h.live, hstack]; rfl
  obtain ⟨outside, inside, hlog, houtside⟩ := hok.1.outside
  refine ⟨hok.1.entered rfl, hok.1.notLeft, outside, inside, hlog, ?_, ?_, ?_⟩
  · rw [hlive, houtside]
  · rw [houtside]
  · intro outer houter
    exact hok.2.waiting (houtside ▸ houter)

end Legal

/-! ## One event -/

namespace Scopes.Step

variable {x y : Scopes} {e : Event} {log : List Event}

theorem rule (h : Step x e y) (hx : Legal x log) : Rule log e := by
  cases h with
  | construct => exact fun hmem => hx.subject_ne hmem rfl
  | submit cleanup _ hticket => exact fun c hmem => Nat.ne_of_lt (hticket ▸ hx.numbered c hmem)
  | run cleanup hsome h => exact ⟨hx.last _ hsome, hx.live.trans h⟩
  | defer scope cleanup hsome h =>
    refine ⟨hx.last _ hsome, ?_⟩
    rw [hx.live, h]
  | release scope _ h =>
    refine ⟨hx.live ▸ h, ?_⟩
    rw [hx.inOrder, hx.stack.waiting h, List.append_nil]
  | destroy scope below _ h =>
    show (Cleanup.live log).head? = some scope
    rw [hx.live, h]
    rfl
  | execute scope below cleanup rest _ h _ => exact hx.whileEnding h
  | close scope below _ h _ => exact hx.whileEnding h

theorem live (h : Step x e y) (hx : Legal x log) :
    Cleanup.live (log ++ [e]) = liveScopes y.stack := by
  rw [live_concat, hx.live]
  cases h with
  | construct _ => rfl
  | submit _ _ _ => rfl
  | run _ _ _ => rfl
  | defer _ _ _ _ => rfl
  | release _ _ _ => rfl
  | destroy scope below _ h => simp [h, liveScopes]
  | execute scope below _ _ _ h _ => rfl
  | close scope below _ h _ => simp [h, liveScopes]

theorem seen (h : Step x e y) (hx : Legal x log) :
    ∀ ev ∈ log ++ [e], ∀ scope ∈ ev.subject, scope < y.nextScope := by
  have hmono : x.nextScope ≤ y.nextScope := by cases h <;> simp
  have hnew : ∀ scope ∈ e.subject, scope < y.nextScope := by
    intro scope hscope
    have htop : ∀ {ending below}, x.stack = ⟨scope, ending⟩ :: below → scope < x.nextScope :=
      fun hstack => hx.lt_nextScope (e := ⟨scope, _⟩) (by rw [hstack]; exact List.mem_cons_self)
    cases h with
    | construct _ =>
      cases hscope
      exact Nat.lt_succ_self _
    | submit _ _ _ => cases hscope
    | run _ _ _ => cases hscope
    | defer _ _ _ _ => cases hscope
    | release _ _ _ => cases hscope
    | destroy _ _ _ hstack =>
      cases hscope
      exact htop hstack
    | execute _ _ _ _ _ hstack _ =>
      cases hscope
      exact htop hstack
    | close _ _ _ hstack _ =>
      cases hscope
      exact htop hstack
  intro ev hev scope hscope
  rcases List.mem_append.mp hev with hev | hev
  · exact Nat.lt_of_lt_of_le (hx.seen ev hev scope hscope) hmono
  · rw [List.mem_singleton] at hev
    exact hnew scope (hev ▸ hscope)

theorem stackOk (h : Step x e y) (hx : Legal x log) : StackOk (log ++ [e]) y.stack := by
  have hstack := hx.stack
  cases h with
  | construct _ =>
    refine ⟨⟨⟨log, [], rfl, hx.live⟩, fun h => (nomatch h), fun _ => ?_, fun a hmem => ?_, ?_⟩, ?_⟩
    · simp [hx.executedBy_nextScope, Event.executedBy]
    · simp only [List.mem_append, List.mem_singleton, reduceCtorEq, or_false] at hmem
      exact hx.subject_ne hmem rfl
    · exact fun e' he' => hx.lt_nextScope he'
    · refine hstack.concat fun e' he' heq => ?_
      exact Nat.ne_of_gt (hx.lt_nextScope he') (Option.some.inj heq)
  | submit _ _ _ => exact hstack.concat fun _ _ h => nomatch h
  | run _ _ _ => exact hstack.concat fun _ _ h => nomatch h
  | defer _ _ _ _ => exact hstack.concat fun _ _ h => nomatch h
  | release _ _ _ => exact hstack.concat fun _ _ h => nomatch h
  | destroy scope below _ h =>
    rw [h] at hstack
    obtain ⟨outside, inside, hlog, hlive⟩ := hstack.1.outside
    refine ⟨⟨⟨outside, inside ++ [.ending scope], by simp [hlog], hlive⟩, fun _ => by simp,
      fun h => (nomatch h), fun a => ?_, hstack.1.newer⟩, hstack.concat_below rfl⟩
    simpa using hstack.1.notLeft a
  | execute scope below cleanup rest _ h _ =>
    show StackOk _ x.stack
    rw [h] at hstack ⊢
    obtain ⟨outside, inside, hlog, hlive⟩ := hstack.1.outside
    refine ⟨⟨⟨outside, inside ++ [.executed cleanup scope (liveScopes below).head?],
      by simp [hlog], hlive⟩, fun h => List.mem_append_left _ (hstack.1.entered h),
      fun h => (nomatch h), fun a => ?_, hstack.1.newer⟩, hstack.concat_below rfl⟩
    simpa using hstack.1.notLeft a
  | close scope below _ h _ =>
    rw [h] at hstack
    exact hstack.concat_below rfl

theorem idle (h : Step x e y) (hx : Legal x log) :
    ∀ scope, scope ∉ y.stack.map (·.scope) → y.pending scope = [] := by
  intro scope hnot
  cases h with
  | construct _ => exact hx.idle scope fun hmem => hnot (List.mem_cons_of_mem _ hmem)
  | submit _ _ _ => exact hx.idle scope hnot
  | run _ _ _ => exact hx.idle scope hnot
  | defer owner _ _ h =>
    have hmem := mem_of_mem_liveScopes (List.mem_of_mem_head? (Option.mem_def.mpr h))
    have hne : scope ≠ owner := by
      rintro rfl
      exact hnot (List.mem_map_of_mem hmem)
    simpa [hne] using hx.idle scope hnot
  | release owner _ h =>
    by_cases heq : scope = owner
    · simp [heq]
    · simpa [heq] using hx.idle scope hnot
  | destroy owner below _ h =>
    refine hx.idle scope ?_
    rw [h]
    exact hnot
  | execute owner below _ _ _ h _ =>
    have hne : scope ≠ owner := by
      rintro rfl
      exact hnot (by simp [h])
    simpa [hne] using hx.idle scope hnot
  | close owner below _ h hpending =>
    by_cases heq : scope = owner
    · rw [heq]
      exact hpending
    · refine hx.idle scope ?_
      simpa [h, heq] using hnot

theorem numbered (h : Step x e y) (hx : Legal x log) :
    ∀ c, .submitted c ∈ log ++ [e] → c.ticket < y.nextTicket := by
  intro c hmem
  rcases List.mem_append.mp hmem with hmem | hmem
  · have hlt := hx.numbered c hmem
    cases h with
    | submit _ _ _ => exact Nat.lt_succ_of_lt hlt
    | _ => exact hlt
  · rw [List.mem_singleton] at hmem
    cases h with
    | submit cleanup _ hticket =>
      cases hmem
      exact Nat.lt_succ_of_le (Nat.le_of_eq hticket)
    | _ => cases hmem

/-- What is submitted is incoming, until it is run or deferred. -/
theorem taken (h : Step x e y) (hx : Legal x log) (c : Callback) :
    ((log ++ [e]).flatMap Event.submission).count c
      = ((log ++ [e]).flatMap Event.ranAtOnce).count c
        + ((log ++ [e]).flatMap Event.deferredToAny).count c + y.incoming.toList.count c := by
  have hx' := hx.taken c
  simp only [List.flatMap_append, List.count_append, List.flatMap_singleton]
  cases h with
  | submit cleanup hnone _ =>
    rw [hnone] at hx'
    simp [Event.submission, Event.ranAtOnce, Event.deferredToAny] at hx' ⊢
    omega
  | run cleanup hsome _ =>
    rw [hsome] at hx'
    simp [Event.submission, Event.ranAtOnce, Event.deferredToAny] at hx' ⊢
    omega
  | defer scope cleanup hsome _ =>
    rw [hsome] at hx'
    simp [Event.submission, Event.ranAtOnce, Event.deferredToAny] at hx' ⊢
    omega
  | _ => simpa [Event.submission, Event.ranAtOnce, Event.deferredToAny] using hx'

theorem last (h : Step x e y) : ∀ c ∈ y.incoming, (log ++ [e]).getLast? = some (.submitted c) := by
  intro c hc
  cases h with
  | submit cleanup _ _ =>
    cases hc
    exact List.getLast?_concat
  | run _ _ _ => cases hc
  | defer _ _ _ _ => cases hc
  | construct hnone => exact nomatch hnone ▸ hc
  | release _ hnone _ => exact nomatch hnone ▸ hc
  | destroy _ _ hnone _ => exact nomatch hnone ▸ hc
  | execute _ _ _ _ hnone _ _ => exact nomatch hnone ▸ hc
  | close _ _ hnone _ _ => exact nomatch hnone ▸ hc

theorem inOrder (h : Step x e y) (hx : Legal x log) (scope : ScopeId) :
    (log ++ [e]).flatMap (Event.deferredTo scope)
      = (log ++ [e]).flatMap (Event.handedFrom scope)
        ++ (log ++ [e]).flatMap (Event.executedBy scope) ++ y.pending scope := by
  have hx' := hx.inOrder scope
  cases h with
  | defer owner cleanup _ _ =>
    by_cases heq : owner = scope
    · subst heq
      simp [hx', Event.deferredTo, Event.handedFrom, Event.executedBy]
    · simp [hx', Event.deferredTo, Event.handedFrom, Event.executedBy, heq, Ne.symm heq]
  | release owner _ h =>
    by_cases heq : owner = scope
    · subst heq
      have hwaiting := hx.stack.waiting h
      simp [hx', hwaiting, Event.deferredTo, Event.handedFrom, Event.executedBy]
    · simp [hx', Event.deferredTo, Event.handedFrom, Event.executedBy, heq, Ne.symm heq]
  | execute owner below cleanup rest _ _ hpending =>
    by_cases heq : owner = scope
    · subst heq
      simp [hx', hpending, Event.deferredTo, Event.handedFrom, Event.executedBy]
    · simp [hx', Event.deferredTo, Event.handedFrom, Event.executedBy, heq, Ne.symm heq]
  | _ => simpa [Event.deferredTo, Event.handedFrom, Event.executedBy] using hx'

/-- A scope that is constructed is on the stack until it is gone. -/
theorem left (h : Step x e y) (hx : Legal x log) :
    ∀ scope, .constructed scope ∈ log ++ [e] →
      scope ∈ y.stack.map (·.scope) ∨ ∃ active, .ended scope active ∈ log ++ [e] := by
  intro scope hmem
  have hold : .constructed scope ∈ log →
      scope ∈ x.stack.map (·.scope) ∨ ∃ active, .ended scope active ∈ log ++ [e] := fun hmem =>
    (hx.left scope hmem).imp_right fun ⟨active, hended⟩ =>
      ⟨active, List.mem_append_left _ hended⟩
  rcases List.mem_append.mp hmem with hmem | hmem
  · have hold := hold hmem
    cases h with
    | construct _ => exact hold.imp_left (List.mem_cons_of_mem _)
    | destroy owner below _ h =>
      rw [h] at hold
      exact hold
    | close owner below _ h _ =>
      rw [h, List.map_cons, List.mem_cons] at hold
      rcases hold with (rfl | hbelow) | hended
      · exact .inr ⟨_, List.mem_append_right _ (List.mem_singleton.mpr rfl)⟩
      · exact .inl hbelow
      · exact .inr hended
    | _ => exact hold
  · rw [List.mem_singleton] at hmem
    cases h with
    | construct _ =>
      cases hmem
      exact .inl List.mem_cons_self
    | _ => cases hmem

theorem legal (h : Step x e y) (hx : Legal x log) : Legal y (log ++ [e]) where
  seen := h.seen hx
  live := h.live hx
  stack := h.stackOk hx
  idle := h.idle hx
  numbered := h.numbered hx
  taken := h.taken hx
  last := h.last
  inOrder := h.inOrder hx
  left := h.left hx
  timely := obeys_concat.mpr ⟨hx.timely, h.rule hx⟩

end Scopes.Step

theorem Legal.run {x y : Scopes} {log events : List Event} (hx : Legal x log)
    (h : scopes.Run x events y) : Legal y (log ++ events) := by
  induction h generalizing log with
  | nil => simpa using hx
  | cons hstep _ ih =>
    have hrest := ih (Scopes.Step.legal hstep hx)
    simpa using hrest

/-! ## Every cleanup once -/

namespace Event

/-- The scope whose queue an event is about. -/
def queue : Event → ScopeId
  | .deferred _ scope => scope
  | .released scope _ => scope
  | .executed _ scope _ => scope
  | _ => 0

theorem deferredTo_eq (scope : ScopeId) (e : Event) :
    e.deferredTo scope = if e.queue = scope then e.deferredToAny else [] := by
  by_cases h : e.queue = scope
  · rw [if_pos h]
    cases e <;> first | rfl | exact if_pos h
  · rw [if_neg h]
    cases e <;> first | rfl | exact if_neg h

theorem handedFrom_eq (scope : ScopeId) (e : Event) :
    e.handedFrom scope = if e.queue = scope then e.handed else [] := by
  by_cases h : e.queue = scope
  · rw [if_pos h]
    cases e <;> first | rfl | exact if_pos h
  · rw [if_neg h]
    cases e <;> first | rfl | exact if_neg h

theorem executedBy_eq (scope : ScopeId) (e : Event) :
    e.executedBy scope = if e.queue = scope then e.executedByAny else [] := by
  by_cases h : e.queue = scope
  · rw [if_pos h]
    cases e <;> first | rfl | exact if_pos h
  · rw [if_neg h]
    cases e <;> first | rfl | exact if_neg h

end Event

/-- What is said of all scopes is said of one of them. -/
theorem count_eq_sum {part : ScopeId → Event → List Callback} {whole : Event → List Callback}
    (hpart : ∀ scope e, part scope e = if e.queue = scope then whole e else [])
    {log : List Event} {queues : Finset ScopeId} (hqueues : ∀ e ∈ log, e.queue ∈ queues)
    (c : Callback) :
    (log.flatMap whole).count c = ∑ scope ∈ queues, (log.flatMap (part scope)).count c := by
  induction log with
  | nil => simp
  | cons e log ih =>
    have he : e.queue ∈ queues := hqueues e List.mem_cons_self
    have hhead : (whole e).count c = ∑ scope ∈ queues, (part scope e).count c := by
      simp [hpart, apply_ite (List.count c), he]
    have htail := ih fun e' he' => hqueues e' (List.mem_cons_of_mem _ he')
    simp only [List.flatMap_cons, List.count_append, Finset.sum_add_distrib]
    rw [hhead, htail]

theorem count_ranOrExecuted (log : List Event) (c : Callback) :
    (log.flatMap Event.ranOrExecuted).count c
      = (log.flatMap Event.ranAtOnce).count c + (log.flatMap Event.executedByAny).count c := by
  induction log with
  | nil => rfl
  | cons e log ih =>
    have hhead : e.ranOrExecuted.count c = e.ranAtOnce.count c + e.executedByAny.count c := by
      cases e <;> simp [Event.ranOrExecuted, Event.ranAtOnce, Event.executedByAny]
    simp only [List.flatMap_cons, List.count_append]
    omega

/-- When nothing is left to execute, every submitted cleanup was executed or
handed out once. -/
theorem Legal.once {x : Scopes} {log : List Event} (hx : Legal x log)
    (hidle : ∀ scope, x.pending scope = []) (hnone : x.incoming = none) :
    (log.flatMap Event.ranOrExecuted ++ log.flatMap Event.handed).Perm
      (log.flatMap Event.submission) := by
  refine List.perm_iff_count.mpr fun c => ?_
  have hqueues : ∀ e ∈ log, e.queue ∈ (log.map Event.queue).toFinset := fun e he =>
    List.mem_toFinset.mpr (List.mem_map_of_mem he)
  have hdeferred := count_eq_sum Event.deferredTo_eq hqueues c
  have hhanded := count_eq_sum Event.handedFrom_eq hqueues c
  have hexecuted := count_eq_sum Event.executedBy_eq hqueues c
  have hqueue : ∀ scope, (log.flatMap (Event.deferredTo scope)).count c
      = (log.flatMap (Event.handedFrom scope)).count c
        + (log.flatMap (Event.executedBy scope)).count c := by
    intro scope
    rw [hx.inOrder, hidle, List.append_nil, List.count_append]
  have hsum : (log.flatMap Event.deferredToAny).count c
      = (log.flatMap Event.handed).count c + (log.flatMap Event.executedByAny).count c := by
    rw [hdeferred, hhanded, hexecuted, ← Finset.sum_add_distrib]
    exact Finset.sum_congr rfl fun scope _ => hqueue scope
  have htaken := hx.taken c
  rw [hnone, Option.toList_none, List.count_nil] at htaken
  rw [List.count_append, count_ranOrExecuted]
  omega

end InfiniOps.Ascend.Cleanup
