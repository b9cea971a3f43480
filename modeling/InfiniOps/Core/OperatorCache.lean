/-
InfiniOps.Core.OperatorCache — the caches of `Operator<Key>::Call`
(`src/operator.h`).

There is one generation number, `cache_generation_`, and for each thread
and each instantiation of `Call` a cache with the generation that it was
last used in. `clear_cache` only increments the number. A cache is cleared
by the first call that finds its generation to be another.

Operators are numbered as they are constructed. A run is any list of calls
and invalidations, each of which is one step; its log says which operators
were constructed and executed. `LogOf` is what a log has to do with the
actions: each of them logs what it was asked for.
-/
import InfiniOps.Core.CacheKey
import InfiniOps.Lib.MemoTables

namespace InfiniOps.OperatorCache

open MemoTables

/-- The `thread_local` variables of an instantiation of `Call`. -/
structure LocalCache where
  cache : List (CacheKey × Nat) := []
  generation : SizeT := 0

section Call

-- The threads, and the instantiations of `Call` with their argument types.
variable {Thread Instance : Type} [DecidableEq Thread] [DecidableEq Instance]
  (types : Instance → List ArgTy)

structure State (Thread Instance : Type) where
  cacheGeneration : SizeT
  caches : Thread × Instance → LocalCache
  nextOperator : Nat
  log : List (Event (Thread × Instance) CacheKey)

namespace State

def start : State Thread Instance := ⟨0, fun _ => {}, 0, []⟩

variable (s : State Thread Instance)

/-- `Operator::clear_cache`. -/
def clearCache : State Thread Instance :=
  { s with cacheGeneration := s.cacheGeneration + 1, log := s.log ++ [.cleared] }

/-- `Operator::Call`. `constructs` is whether `Make`, if it is called,
gives an operator. -/
def call (H : StdHash) (thread : Thread) (inst : Instance) (config : Config)
    (args : Args (types inst)) (constructs : Bool) : State Thread Instance :=
  let owner := (thread, inst)
  let mine := s.caches owner
  let mine : LocalCache :=
    if mine.generation ≠ s.cacheGeneration then ⟨[], s.cacheGeneration⟩ else mine
  let key := CacheKey.build H config args
  match find CacheKey.SameEntry mine.cache key with
  | some op =>
    { s with
      caches := Function.update s.caches owner mine
      log := s.log ++ [.used owner key op] }
  | none =>
    if constructs then
      { s with
        caches := Function.update s.caches owner
          { mine with cache := mine.cache ++ [(key, s.nextOperator)] }
        nextOperator := s.nextOperator + 1
        log := s.log ++ [.made owner key s.nextOperator, .used owner key s.nextOperator] }
    else { s with caches := Function.update s.caches owner mine }

end State

inductive Action (Thread : Type) (types : Instance → List ArgTy) where
  | clearCache
  | call (thread : Thread) (inst : Instance) (config : Config) (args : Args (types inst))
    (constructs : Bool)

def step (H : StdHash) (s : State Thread Instance) : Action Thread types → State Thread Instance
  | .clearCache => s.clearCache
  | .call thread inst config args constructs => s.call types H thread inst config args constructs

def run (H : StdHash) (actions : List (Action Thread types)) : State Thread Instance :=
  actions.foldl (step types H) .start

/-- What an action logs: `clear_cache` that it cleared, and a call the
operator it executed, which it may have constructed before. A call executes
none only if `Make` fails and there is none for its key. -/
inductive Logs (H : StdHash) (before : List (Event (Thread × Instance) CacheKey)) :
    Action Thread types → List (Event (Thread × Instance) CacheKey) → Prop where
  | clearCache : Logs H before .clearCache [.cleared]
  | used (thread : Thread) (inst : Instance) (config : Config) (args : Args (types inst))
      (constructs : Bool) (op : Nat) :
      Logs H before (.call thread inst config args constructs)
        [.used (thread, inst) (CacheKey.build H config args) op]
  | made (thread : Thread) (inst : Instance) (config : Config) (args : Args (types inst))
      (op : Nat) :
      Logs H before (.call thread inst config args true)
        [.made (thread, inst) (CacheKey.build H config args) op,
          .used (thread, inst) (CacheKey.build H config args) op]
  | failed (thread : Thread) (inst : Instance) (config : Config) (args : Args (types inst))
      (h : ∀ early late key op, before = early ++ .used (thread, inst) key op :: late →
        CacheKey.SameEntry key (CacheKey.build H config args) → .cleared ∈ late) :
      Logs H before (.call thread inst config args false) []

/-- A log that is what the actions log, one after the other. -/
def LogOf (H : StdHash) (before : List (Event (Thread × Instance) CacheKey)) :
    List (Action Thread types) → List (Event (Thread × Instance) CacheKey) → Prop
  | [], log => log = []
  | action :: actions, log => ∃ events rest, log = events ++ rest ∧
      Logs types H before action events ∧ LogOf H (before ++ events) actions rest

/-- The number of invalidations. -/
def clears : List (Action Thread types) → Nat
  | [] => 0
  | .clearCache :: actions => clears actions + 1
  | .call _ _ _ _ _ :: actions => clears actions

end Call

end InfiniOps.OperatorCache
