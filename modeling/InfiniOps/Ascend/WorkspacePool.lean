/-
InfiniOps.Ascend.WorkspacePool — the workspace pool of the Ascend operators
(`src/native/ascend/workspace_pool_.h`).

`arenas` is `arenas_` in the order of insertion. A `WorkspaceArena*` is an
index into it: the map owns its arenas through `unique_ptr` and removes
none, so they never move. `caches` are the thread-local arrays, each with
the entries that are set, newest first.

`ensure` is the code with assertions compiled out; the assertion of the
slow path is `captureAssert`, and the other one says that `aclrtMalloc`
succeeds. Each call is one step, and `aclrtMalloc` is up to the
environment: a call comes with what it would return on the device heap it
meets.
-/
import InfiniOps.Lib.BlockHeap
import InfiniOps.Lib.Transition
import Mathlib.Logic.Function.Basic

namespace InfiniOps.Ascend

/-- `aclrtStream`, an opaque handle. -/
abbrev Stream := Nat

/-- A `const char*` to a literal: the address and the text there. -/
structure CString where
  addr : Nat
  text : String
  deriving DecidableEq, Repr

/-- `SlotKey`. -/
structure SlotKey where
  stream : Stream
  slot : String
  deriving DecidableEq, Repr

/-- `WorkspaceArena`, with the key it has in the map. -/
structure WorkspaceArena where
  key : SlotKey
  buf : Nat := 0
  capacity : Nat := 0
  deriving DecidableEq, Repr

/-- `CacheEntry`. -/
structure CacheEntry where
  stream : Stream
  slot : CString
  arena : Nat
  deriving DecidableEq, Repr

def CacheEntry.key (e : CacheEntry) : SlotKey := ⟨e.stream, e.slot.text⟩

def kCacheSize : Nat := 4

/-- What `aclrtMalloc` does on a heap for a size: the base of the new
block, or nothing if it fails and leaves its output pointer alone. -/
abbrev Malloc := BlockHeap → Nat → Option Nat

/-- A call of `Ensure` on some thread. -/
structure EnsureCall where
  thread : Nat
  stream : Stream
  needed : Nat
  slot : CString
  malloc : Malloc

def EnsureCall.key (c : EnsureCall) : SlotKey := ⟨c.stream, c.slot.text⟩

structure WorkspacePool where
  arenas : List WorkspaceArena := []
  caches : Nat → List CacheEntry := fun _ => []
  capturing : Bool := false
  heap : BlockHeap := {}

namespace WorkspacePool

/-- The condition of the fast path on one entry. -/
def serves (p : WorkspacePool) (c : EnsureCall) (e : CacheEntry) : Bool :=
  e.stream = c.stream && e.slot.text = c.slot.text &&
    p.arenas[e.arena]?.any fun a => c.needed ≤ a.capacity

/-- The fast path: the first entry that serves the call. -/
def fastPath (p : WorkspacePool) (c : EnsureCall) : Option Nat :=
  ((p.caches c.thread).find? (p.serves c)).map CacheEntry.arena

/-- `arenas_[key]`, created when there is none. -/
def lookup (arenas : List WorkspaceArena) (key : SlotKey) : List WorkspaceArena × Nat :=
  match arenas.findIdx? fun a => a.key = key with
  | some i => (arenas, i)
  | none => (arenas ++ [{ key }], arenas.length)

/-- `aclrtFree` of the buffer that an arena is about to replace. -/
def freeOld (heap : BlockHeap) (arena : WorkspaceArena) : BlockHeap :=
  if arena.capacity > 0 then heap.free arena.buf else heap

/-- What the slow path does under the arena's mutex. A failed `malloc`
leaves `buf` as it is. -/
def grow (heap : BlockHeap) (arena : WorkspaceArena) (needed : Nat) (malloc : Malloc) :
    BlockHeap × WorkspaceArena :=
  if needed > arena.capacity then
    match if needed > 0 then malloc (freeOld heap arena) needed else none with
    | some buf => ((freeOld heap arena).alloc buf needed, { arena with buf, capacity := needed })
    | none => (freeOld heap arena, { arena with capacity := needed })
  else (heap, arena)

/-- The insertion into a thread's cache: shift and store, so that the
oldest entry falls out. Nothing looks for an older entry of the same
key. -/
def insertEntry (cache : List CacheEntry) (e : CacheEntry) : List CacheEntry :=
  (e :: cache).take kCacheSize

/-- `Ensure`: the new state and the arena returned. -/
def ensure (p : WorkspacePool) (c : EnsureCall) : WorkspacePool × Nat :=
  match p.fastPath c with
  | some i => (p, i)
  | none =>
    let (arenas, i) := lookup p.arenas c.key
    let (heap, arena) := grow p.heap (arenas.getD i { key := c.key }) c.needed c.malloc
    ({ p with
       arenas := arenas.set i arena
       caches := Function.update p.caches c.thread
         (insertEntry (p.caches c.thread) ⟨c.stream, c.slot, i⟩)
       heap }, i)

/-- `set_capture_mode`. -/
def setCaptureMode (p : WorkspacePool) (capturing : Bool) : WorkspacePool := { p with capturing }

/-- The assertion at the head of the slow path. -/
def captureAssert (p : WorkspacePool) (c : EnsureCall) : Bool :=
  (p.fastPath c).isSome || !p.capturing

/-- The destructor's loop over `arenas_`. Each arena comes with whether
`aclrtGetDevice` succeeds when its turn comes. -/
def destroy (heap : BlockHeap) (visits : List (WorkspaceArena × Bool)) : BlockHeap :=
  visits.foldl (fun heap v => if v.1.capacity > 0 ∧ v.2 then heap.free v.1.buf else heap) heap

end WorkspacePool

/-! ## Runs -/

/-- A block that `aclrtMalloc` returns does not meet a live one. -/
def Malloc.Fresh (m : Malloc) : Prop :=
  ∀ heap n base, m heap n = some base → ∀ e ∈ heap.extents, HeapBlock.Apart (base, n) e

/-- `aclrtMalloc` never fails. -/
def Malloc.Succeeds (m : Malloc) : Prop := ∀ heap n, ∃ base, m heap n = some base

/-- What happens to a pool. -/
inductive PoolOp where
  | ensure (c : EnsureCall)
  | setCaptureMode (capturing : Bool)

def PoolOp.apply : PoolOp → WorkspacePool → WorkspacePool
  | .ensure c, p => (p.ensure c).1
  | .setCaptureMode capturing, p => p.setCaptureMode capturing

/-- Every call of `aclrtMalloc` succeeds with a fresh block. -/
def PoolOp.Mallocs : PoolOp → Prop
  | .ensure c => c.malloc.Fresh ∧ c.malloc.Succeeds
  | .setCaptureMode _ => True

/-- A pool from its construction on. -/
def poolLts : Lts WorkspacePool PoolOp where
  init p := p = {}
  step p op q := op.Mallocs ∧ q = op.apply p

/-! ## What a pool promises -/

namespace WorkspacePool

/-- What `Ensure` returns, and what it leaves of the arenas: the returned
arena is the only one of its key and has room; every arena keeps its place
and key, and does not shrink. -/
structure Answers (p : WorkspacePool) (c : EnsureCall) : Prop where
  found : ∃ a, (p.ensure c).1.arenas[(p.ensure c).2]? = some a ∧ a.key = c.key ∧
    c.needed ≤ a.capacity
  unique : ∀ (j : Nat) (b : WorkspaceArena), (p.ensure c).1.arenas[j]? = some b → b.key = c.key →
    j = (p.ensure c).2
  grows : ∀ (j : Nat) (a : WorkspaceArena), p.arenas[j]? = some a →
    ∃ b, (p.ensure c).1.arenas[j]? = some b ∧ b.key = a.key ∧ a.capacity ≤ b.capacity

/-- The arena that the slow path works on. -/
def arenaOf (p : WorkspacePool) (c : EnsureCall) : WorkspaceArena :=
  (lookup p.arenas c.key).1.getD (lookup p.arenas c.key).2 { key := c.key }

/-- If the call gets as far as `aclrtMalloc`, that returns a block. -/
def GrowthSucceeds (p : WorkspacePool) (c : EnsureCall) : Prop :=
  p.fastPath c = none → (p.arenaOf c).capacity < c.needed →
    ∃ base, c.malloc (freeOld p.heap (p.arenaOf c)) c.needed = some base

/-- The arenas against the device: each offers a live block of its own, of
exactly its capacity, or nothing; and no free has missed or hit a block
twice. -/
structure Safe (p : WorkspacePool) : Prop where
  backed : ∀ a ∈ p.arenas,
    (a.capacity = 0 ∧ a.buf = 0) ∨ (0 < a.capacity ∧ (a.buf, a.capacity) ∈ p.heap.extents)
  apart : ∀ a ∈ p.arenas, ∀ b ∈ p.arenas, a.key ≠ b.key → 0 < a.capacity → 0 < b.capacity →
    HeapBlock.Apart (a.buf, a.capacity) (b.buf, b.capacity)
  clean : none ∉ p.heap.freed
  once : p.heap.freed.Nodup

end WorkspacePool

end InfiniOps.Ascend
