/-
InfiniOps.Ascend.RepeatableExecutor — cached operators that launch
repeatable ACL executors over pool buffers: `CausalSoftmax`,
`ScaledSoftmax`, `Swiglu` (implementation 0), `RmsNorm` and `AddRmsNorm`
(implementation 0).

A repeatable executor keeps the addresses that its tensors had when it was
created, until `aclSetInputTensorAddr` or `aclSetOutputTensorAddr` changes
one. The operators share one shape: each `operator()` gets its scratch
buffer from the pool and then goes through one or more stages. A stage
creates its executor on the first call and re-binds some of its tensors on
every later one, gets a workspace from the pool, and launches. The stages
differ in their tensors and in what they re-bind; `AclOperator.actions`
lists them as the five sources have them.

Each launch is logged with the buffers that the executor uses and with
those that belong to the call.
-/
import InfiniOps.Ascend.WorkspacePool

namespace InfiniOps.Ascend

/-! ## Executors -/

/-- `aclOpExecutor`: the addresses its tensors are bound to. -/
structure AclOpExecutor where
  inputs : List Nat
  outputs : List Nat
  deriving DecidableEq, Repr

/-- A tensor of a stage: one of the call, the scratch buffer, or the mask
that the constructor uploaded. -/
inductive Operand where
  | arg (i : Nat)
  | temp
  | mask
  deriving DecidableEq, Repr

/-- One ACLNN call: its tensors, as `aclnn…GetWorkspaceSize` receives them,
and the indices set on later calls. An in-place tensor is an input. -/
structure Stage where
  inputs : List Operand
  outputs : List Operand
  setInputs : List (Nat × Operand)
  setOutputs : List (Nat × Operand)
  deriving DecidableEq, Repr

/-- What `operator()` does in turn: `Ensure` of the scratch buffer, or the
stage with the `k`-th executor member. -/
inductive Action where
  | ensureTemp
  | stage (k : Nat) (st : Stage)
  deriving DecidableEq, Repr

/-! ## The operators -/

inductive OperatorKind where
  | causalSoftmax
  /-- With the constructor's `needs_scale_`. -/
  | scaledSoftmax (needsScale : Bool)
  | swiglu
  | rmsNorm
  | addRmsNorm
  deriving DecidableEq, Repr

/-- A cached instance: what its constructor fixes. -/
structure AclOperator where
  kind : OperatorKind
  tempSize : Nat
  maskBuf : Nat := 0

namespace OperatorKind

/-- `aclnnInplaceCopy(temp, input)`. -/
def copyStage : Stage where
  inputs := [.temp, .arg 0]
  outputs := []
  setInputs := [(0, .temp), (1, .arg 0)]
  setOutputs := []

/-- `aclnnInplaceMaskedFillScalar(temp, mask, -inf)`. There is no branch
for later calls. -/
def fillStage : Stage where
  inputs := [.temp, .mask]
  outputs := []
  setInputs := []
  setOutputs := []

/-- `aclnnSoftmax(temp, -1, out)`. Later calls set the output. -/
def softmaxStage : Stage where
  inputs := [.temp]
  outputs := [.arg 1]
  setInputs := []
  setOutputs := [(0, .arg 1)]

/-- `CausalSoftmax::operator()(input, out)`. -/
def causalSoftmaxActions : List Action :=
  [.ensureTemp, .stage 0 copyStage, .stage 1 fillStage, .stage 2 softmaxStage]

/-- `ScaledSoftmax::operator()(input, out)`: scaling if needed, softmax. -/
def scaledSoftmaxActions (needsScale : Bool) : List Action :=
  if needsScale then
    [.ensureTemp,
     .stage 0
      { inputs := [.arg 0], outputs := [.temp]
        setInputs := [(0, .arg 0)], setOutputs := [(0, .temp)] },
     .stage 1
      { inputs := [.temp], outputs := [.arg 1]
        setInputs := [(0, .temp)], setOutputs := [(0, .arg 1)] }]
  else
    [.stage 1
      { inputs := [.arg 0], outputs := [.arg 1]
        setInputs := [(0, .arg 0)], setOutputs := [(0, .arg 1)] }]

/-- `Swiglu::operator()(input, gate, out)`: silu of the gate, product. -/
def swigluActions : List Action :=
  [.ensureTemp,
   .stage 0
    { inputs := [.arg 1], outputs := [.temp]
      setInputs := [(0, .arg 1)], setOutputs := [(0, .temp)] },
   .stage 1
    { inputs := [.arg 0, .temp], outputs := [.arg 2]
      setInputs := [(0, .arg 0), (1, .temp)], setOutputs := [(0, .arg 2)] }]

/-- `RmsNorm::operator()(input, weight, out)`. The scratch buffer is
`rstd`. -/
def rmsNormActions : List Action :=
  [.ensureTemp,
   .stage 0
    { inputs := [.arg 0, .arg 1], outputs := [.arg 2, .temp]
      setInputs := [(0, .arg 0), (1, .arg 1)], setOutputs := [(0, .arg 2), (1, .temp)] }]

/-- `AddRmsNorm::operator()(input, residual, weight, out, residual_out)`:
sum, norm. `rstd` is asked for between the two. -/
def addRmsNormActions : List Action :=
  [.stage 0
    { inputs := [.arg 0, .arg 1], outputs := [.arg 4]
      setInputs := [(0, .arg 0), (1, .arg 1)], setOutputs := [(0, .arg 4)] },
   .ensureTemp,
   .stage 1
    { inputs := [.arg 4, .arg 2], outputs := [.arg 3, .temp]
      setInputs := [(0, .arg 4), (1, .arg 2)], setOutputs := [(0, .arg 3), (1, .temp)] }]

def actions : OperatorKind → List Action
  | .causalSoftmax => causalSoftmaxActions
  | .scaledSoftmax needsScale => scaledSoftmaxActions needsScale
  | .swiglu => swigluActions
  | .rmsNorm => rmsNormActions
  | .addRmsNorm => addRmsNormActions

end OperatorKind

/-! ## Calls -/

/-- A call of `operator()`: the thread, `stream_`, the data pointers of its
tensors in order, and what the environment answers: the workspace size of
each new executor, and `aclrtMalloc`. -/
structure OpCall where
  thread : Nat
  stream : Stream
  args : Nat → Nat
  wsSize : Nat → Nat
  malloc : Malloc

/-- The slots. Only the text of a literal matters, not its address. -/
def tempSlot : CString := ⟨0, "temp"⟩

def workspaceSlot : CString := ⟨1, "workspace"⟩

def OpCall.request (c : OpCall) (needed : Nat) (slot : CString) : EnsureCall :=
  { thread := c.thread, stream := c.stream, needed, slot, malloc := c.malloc }

/-- `arena.buf` through a reference that `Ensure` returned. -/
def WorkspacePool.bufAt (p : WorkspacePool) (arena : Nat) : Nat :=
  (p.arenas[arena]?.map WorkspaceArena.buf).getD 0

/-- The buffer that the pool offers for a pair. -/
def WorkspacePool.bufferOf (p : WorkspacePool) (key : SlotKey) : Nat :=
  ((p.arenas.find? fun a => a.key = key).map WorkspaceArena.buf).getD 0

/-- The locals of `operator()`: the reference to the scratch arena, and the
address in the scratch tensor's descriptor. -/
structure Frame where
  temp : Nat := 0
  tempDesc : Nat := 0

/-- The address in a tensor's descriptor, which a new executor binds. -/
def Operand.described (op : AclOperator) (c : OpCall) (f : Frame) : Operand → Nat
  | .arg i => c.args i
  | .temp => f.tempDesc
  | .mask => op.maskBuf

/-- The address passed to `aclSet…TensorAddr`. -/
def Operand.passed (op : AclOperator) (c : OpCall) (p : WorkspacePool) (f : Frame) : Operand → Nat
  | .arg i => c.args i
  | .temp => p.bufAt f.temp
  | .mask => op.maskBuf

/-- The buffer that belongs to the call. -/
def Operand.current (op : AclOperator) (c : OpCall) (p : WorkspacePool) : Operand → Nat
  | .arg i => c.args i
  | .temp => p.bufferOf ⟨c.stream, "temp"⟩
  | .mask => op.maskBuf

/-! ## Launches -/

/-- The buffers of a launch. -/
structure Buffers where
  inputs : List Nat
  outputs : List Nat
  workspace : Nat
  deriving DecidableEq, Repr

/-- A launch: the buffers it uses, and those of its call. -/
structure Launch where
  used : Buffers
  current : Buffers
  deriving DecidableEq, Repr

/-- The launch uses exactly the buffers of its call. -/
def Launch.OnCurrent (l : Launch) : Prop := l.used = l.current

instance (l : Launch) : Decidable l.OnCurrent := inferInstanceAs (Decidable (_ = _))

/-- The pool, the executor members of one instance with the workspace size
of each, and the launches so far. -/
structure Machine where
  pool : WorkspacePool := {}
  execs : Nat → Option (AclOpExecutor × Nat) := fun _ => none
  log : List Launch := []

/-- A sequence of `aclSet…TensorAddr` on one side of an executor. -/
def setAddrs (addr : Operand → Nat) (sets : List (Nat × Operand)) (bound : List Nat) : List Nat :=
  sets.foldl (fun bound s => bound.set s.1 (addr s.2)) bound

/-- The executor of a stage and its workspace size: created on the first
call, re-bound later. -/
def Machine.prepare (op : AclOperator) (c : OpCall) (m : Machine) (f : Frame) (k : Nat)
    (st : Stage) : AclOpExecutor × Nat :=
  match m.execs k with
  | none =>
    ({ inputs := st.inputs.map (Operand.described op c f)
       outputs := st.outputs.map (Operand.described op c f) }, c.wsSize k)
  | some (e, ws) =>
    ({ inputs := setAddrs (Operand.passed op c m.pool f) st.setInputs e.inputs
       outputs := setAddrs (Operand.passed op c m.pool f) st.setOutputs e.outputs }, ws)

/-- One stage of `operator()`. -/
def Machine.stage (op : AclOperator) (c : OpCall) (m : Machine) (f : Frame) (k : Nat)
    (st : Stage) : Machine :=
  let (e, ws) := m.prepare op c f k st
  let (pool, arena) := m.pool.ensure (c.request ws workspaceSlot)
  { pool
    execs := Function.update m.execs k (some (e, ws))
    log := m.log ++ [
      { used := { inputs := e.inputs, outputs := e.outputs, workspace := pool.bufAt arena }
        current :=
          { inputs := st.inputs.map (Operand.current op c pool)
            outputs := st.outputs.map (Operand.current op c pool)
            workspace := pool.bufferOf ⟨c.stream, "workspace"⟩ } }] }

/-- `auto& temp = Ensure(stream, temp_size_, "temp")`, with the update of
the descriptor to `temp.buf`. -/
def Machine.ensureTemp (op : AclOperator) (c : OpCall) (m : Machine) : Machine × Frame :=
  let (pool, arena) := m.pool.ensure (c.request op.tempSize tempSlot)
  ({ m with pool }, { temp := arena, tempDesc := pool.bufAt arena })

def Machine.runActions (op : AclOperator) (c : OpCall) : List Action → Machine → Frame → Machine
  | [], m, _ => m
  | .ensureTemp :: as, m, _ => runActions op c as (m.ensureTemp op c).1 (m.ensureTemp op c).2
  | .stage k st :: as, m, f => runActions op c as (m.stage op c f k st) f

/-- `operator()`. -/
def Machine.call (op : AclOperator) (c : OpCall) (m : Machine) : Machine :=
  m.runActions op c op.kind.actions {}

/-- What happens to one instance: a call of it, or a request of anybody
else to the pool. -/
inductive Event where
  | call (c : OpCall)
  | request (c : EnsureCall)

def Machine.apply (op : AclOperator) (m : Machine) : Event → Machine
  | .call c => m.call op c
  | .request c => { m with pool := (m.pool.ensure c).1 }

def run (op : AclOperator) (es : List Event) : Machine := es.foldl (Machine.apply op) {}

/-! ## When the scratch buffer stays -/

/-- The buffer that `Ensure` is going to return, from the state before the
call: that of the arena if it is large enough, else the new block. -/
def WorkspacePool.bufferFor (p : WorkspacePool) (c : EnsureCall) : Nat :=
  match p.arenas.find? fun a => a.key = c.key with
  | some a =>
    if c.needed ≤ a.capacity then a.buf else (c.malloc (freeOld p.heap a) c.needed).getD a.buf
  | none => if c.needed = 0 then 0 else (c.malloc p.heap c.needed).getD 0

/-- The event is no call, or the first one, or it finds the scratch buffer
where `fill_exec_` is bound to. -/
def TempKept (op : AclOperator) (m : Machine) : Event → Prop
  | .request _ => True
  | .call c => ∀ e ws, m.execs 1 = some (e, ws) →
      e.inputs.head? = some (m.pool.bufferFor (c.request op.tempSize tempSlot))

end InfiniOps.Ascend
