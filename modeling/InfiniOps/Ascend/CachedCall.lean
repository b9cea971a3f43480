/-
InfiniOps.Ascend.CachedCall — what a cached Ascend operator does to device
memory.

An instance keeps its tensor descriptors and its repeatable executors from
one call to the next. A call points the descriptors at its own tensors
(`AclTensorCache::get`), asks the pool for scratch buffers, and launches one
ACLNN function after the other: with an executor that is made on the first
call and re-bound on later ones, in a workspace from the pool. `Step` lists
these actions and `runSteps` carries them out on the pool, the descriptors,
the executors and the memory. Launches take effect in the order in which
they are made.

An executor keeps the addresses that its tensors had when it was made,
until they are set. The tensors of an `aclTensorList` are an exception: it
refers to the descriptors, and a launch finds them where they point.

What an ACLNN function computes is not part of the repository
(`AclnnLibrary`). It reads all its inputs before it writes, and may leave
anything in its workspace. Memory has an element at each address; sizes
are below 2^64.

`PlainStep` is the same launch with every tensor where it belongs and
scratch buffers that nobody else uses, and `plainSteps` reads off the plain
program of an operator, if its descriptors and executors are in order.
-/
import InfiniOps.Ascend.KvCache
import InfiniOps.Ascend.RepeatableExecutor
import InfiniOps.Lib.Placement

namespace InfiniOps.Ascend

open RowMajor StridedStore

/-! ## ACLNN functions -/

/-- `aclScalar`. -/
inductive AclScalar where
  | float (value : ℚ)
  | int64 (value : Int)
  deriving DecidableEq, Repr

/-- An ACLNN function, with the arguments that are no tensors. -/
inductive AclKernel where
  | add (alpha : AclScalar)
  | mul
  | muls (other : AclScalar)
  | silu
  | swiGlu (dim : Int)
  | softmax (dim : Int)
  | rmsNorm (eps : ℚ)
  | cast (dtype : AclDataType)
  | embedding
  | cat (dim : Int)
  | matmul (cubeMathType : Int)
  | addmm (beta alpha : ℚ)
  | baddbmm (beta alpha : ℚ)
  | inplaceCopy
  deriving DecidableEq, Repr

/-- The first tensor is also the output. -/
def AclKernel.inPlace : AclKernel → Bool
  | .inplaceCopy => true
  | _ => false

/-- `aclDataTypeSize`. -/
def AclDataType.bytes : AclDataType → Nat
  | .int8 | .uint8 => 1
  | .float16 | .bf16 | .int16 | .uint16 => 2
  | .float | .int32 | .uint32 => 4
  | .int64 | .uint64 => 8

/-- What a function is given: the elements of a tensor in row-major order. -/
structure TensorValue (α : Type) where
  shape : List Nat
  dtype : AclDataType
  elements : List α

/-- The functions of the vendor: the elements of each output. -/
structure AclnnLibrary (α : Type) where
  compute : AclKernel → List (TensorValue α) → (output element : Nat) → α
  copies : ∀ self src n x, src.elements[n]? = some x → compute .inplaceCopy [self, src] 0 n = x

section Tensors

variable {κ α : Type}

/-- The elements of a tensor, `cell` being that at an offset in bytes. -/
def readTensor (desc : AclTensorCache) (cell : Int → κ) (mem : κ → α) : TensorValue α :=
  ⟨desc.shape, desc.dtype,
    (indices desc.shape).map fun idx => mem (cell (desc.dtype.bytes * desc.offset idx))⟩

def writeTensor [DecidableEq κ] (desc : AclTensorCache) (cell : Int → κ) (element : Nat → α)
    (mem : κ → α) : κ → α :=
  storeAll (fun idx => cell (desc.dtype.bytes * desc.offset idx))
    (fun idx _ => element (ravel desc.shape idx)) mem (indices desc.shape)

/-- One output after the other. -/
def writeOutputs [DecidableEq κ] (element : Nat → Nat → α) :
    List (AclTensorCache × (Int → κ)) → Nat → (κ → α) → κ → α
  | [], _, mem => mem
  | (desc, cell) :: outs, o, mem =>
    writeOutputs element outs (o + 1) (writeTensor desc cell (element o) mem)

def runKernel [DecidableEq κ] (K : AclnnLibrary α) (kernel : AclKernel)
    (ins outs : List (AclTensorCache × (Int → κ))) (mem : κ → α) : κ → α :=
  writeOutputs (K.compute kernel (ins.map fun t => readTensor t.1 t.2 mem))
    (if kernel.inPlace then ins.take 1 else outs) 0 mem

end Tensors

/-! ## Operators -/

/-- The slots for intermediate tensors. -/
inductive Scratch where
  | temp
  | staging
  deriving DecidableEq, Repr

def Scratch.literal : Scratch → CString
  | .temp => tempSlot
  | .staging => ⟨2, "staging"⟩

/-- A data pointer: of a tensor of the call, `arena.buf` through a reference
that `Ensure` returned, or a copy made of that at once. -/
inductive Pointer where
  | arg (i : Nat)
  | scratch (s : Scratch)
  | saved (s : Scratch)
  deriving DecidableEq, Repr

/-- One launch: the descriptors in the tensor list, those that the size
query receives, and the addresses set on later calls. -/
structure AclnnStage where
  kernel : AclKernel
  listed : List Nat := []
  inputs : List Nat
  outputs : List Nat
  setInputs : List (Nat × Pointer)
  setOutputs : List (Nat × Pointer)

inductive Step where
  /-- `get` of the `d`th descriptor member. -/
  | get (d : Nat) (x : Pointer)
  /-- `Ensure` of a scratch buffer. -/
  | ensure (s : Scratch)
  /-- A launch with the `k`th executor member. -/
  | launch (k : Nat) (st : AclnnStage)

/-- A cached instance: what its constructor fixes, and its `operator()`. -/
structure CachedOp where
  descs : List AclTensorCache
  scratchBytes : Scratch → Nat := fun _ => 0
  steps : List Step

def CachedOp.desc (op : CachedOp) (d : Nat) : AclTensorCache :=
  op.descs.getD d (.contiguous [] .float)

/-! ## Calls -/

/-- A call, with what the environment answers, and what a launch leaves in
its workspace. -/
structure DeviceCall (α : Type) extends OpCall where
  noise : Nat → DeviceMemory α

/-- `aclOpExecutor`. -/
structure ListedExecutor where
  listed : List Nat
  inputs : List Nat
  outputs : List Nat
  deriving DecidableEq, Repr

/-- The descriptor and executor members. -/
structure Members where
  addrs : Nat → Nat := fun _ => 0
  execs : Nat → Option (ListedExecutor × Nat) := fun _ => none

/-- The locals that refer to scratch buffers. -/
structure CallFrame where
  arena : Scratch → Nat := fun _ => 0
  saved : Scratch → Nat := fun _ => 0

structure CallState (α : Type) where
  pool : WorkspacePool
  members : Members
  frame : CallFrame
  mem : DeviceMemory α

def Pointer.address {α : Type} (c : DeviceCall α) (pool : WorkspacePool) (f : CallFrame) :
    Pointer → Nat
  | .arg i => c.args i
  | .scratch s => pool.bufAt (f.arena s)
  | .saved s => f.saved s

namespace CallState

variable {α : Type} (K : AclnnLibrary α) (op : CachedOp) (c : DeviceCall α)

/-- The executor of a launch and its workspace size. -/
def executor (s : CallState α) (k : Nat) (st : AclnnStage) : ListedExecutor × Nat :=
  match s.members.execs k with
  | none => (⟨st.listed, st.inputs.map s.members.addrs, st.outputs.map s.members.addrs⟩, c.wsSize k)
  | some (e, ws) =>
    let address := Pointer.address c s.pool s.frame
    ({ e with
       inputs := st.setInputs.foldl (fun bound x => bound.set x.1 (address x.2)) e.inputs
       outputs := st.setOutputs.foldl (fun bound x => bound.set x.1 (address x.2)) e.outputs }, ws)

/-- A tensor at an address. -/
def located (d addr : Nat) : AclTensorCache × (Int → Int) := (op.desc d, fun n => addr + n)

/-- The tensors that a launch finds. -/
def launchInputs (addrs : Nat → Nat) (e : ListedExecutor) (st : AclnnStage) :
    List (AclTensorCache × (Int → Int)) :=
  (e.listed.map fun d => located op d (addrs d)) ++ List.zipWith (located op) st.inputs e.inputs

/-- The workspace of a launch. -/
def scribble (base size : Nat) (noise mem : DeviceMemory α) : DeviceMemory α := fun a =>
  if base ≤ a ∧ a < base + size then noise a else mem a

def launch (s : CallState α) (k : Nat) (st : AclnnStage) : CallState α :=
  let (e, ws) := s.executor c k st
  let (pool, arena) := s.pool.ensure (c.request ws workspaceSlot)
  { s with
    pool
    members := { s.members with execs := Function.update s.members.execs k (some (e, ws)) }
    mem := runKernel K st.kernel (launchInputs op s.members.addrs e st)
      (List.zipWith (located op) st.outputs e.outputs)
      (scribble (pool.bufAt arena) ws (c.noise k) s.mem) }

def step (s : CallState α) : Step → CallState α
  | .get d x =>
    { s with members :=
        { s.members with
          addrs := Function.update s.members.addrs d (x.address c s.pool s.frame) } }
  | .ensure slot =>
    let (pool, arena) := s.pool.ensure (c.request (op.scratchBytes slot) slot.literal)
    { s with
      pool
      frame :=
        { arena := Function.update s.frame.arena slot arena
          saved := Function.update s.frame.saved slot (pool.bufAt arena) } }
  | .launch k st => s.launch K op c k st

def runSteps (steps : List Step) (s : CallState α) : CallState α := steps.foldl (step K op c) s

end CallState

/-! ## Many instances -/

/-- All instances, by number. -/
structure Device (α : Type) where
  pool : WorkspacePool := {}
  members : Nat → Members := fun _ => {}
  mem : DeviceMemory α

/-- `operator()` of the `i`th instance. -/
def Device.call {α : Type} (K : AclnnLibrary α) (ops : Nat → CachedOp) (v : Device α) (i : Nat)
    (c : DeviceCall α) : Device α :=
  let s := (CallState.runSteps K (ops i) c (ops i).steps ⟨v.pool, v.members i, {}, v.mem⟩)
  { pool := s.pool, members := Function.update v.members i s.members, mem := s.mem }

/-- What happens: a call, a request of anybody else to the pool, or anything
else that changes memory. -/
inductive DeviceEvent (α : Type) where
  | call (i : Nat) (c : DeviceCall α)
  | request (c : EnsureCall)
  | other (f : DeviceMemory α → DeviceMemory α)

/-- A call is one step: nothing comes between what it asks the pool for and
its launches. -/
def Device.apply {α : Type} (K : AclnnLibrary α) (ops : Nat → CachedOp) (v : Device α) :
    DeviceEvent α → Device α
  | .call i c => v.call K ops i c
  | .request c => { v with pool := (v.pool.ensure c).1 }
  | .other f => { v with mem := f v.mem }

/-! ## Plain programs -/

/-- Where a tensor belongs. -/
inductive TensorBase where
  | arg (i : Nat)
  | scratch (s : Scratch)
  deriving DecidableEq, Repr

def Pointer.base : Pointer → TensorBase
  | .arg i => .arg i
  | .scratch s => .scratch s
  | .saved s => .scratch s

structure PlainStep where
  kernel : AclKernel
  inputs : List (AclTensorCache × TensorBase)
  outputs : List (AclTensorCache × TensorBase)

/-- The variables of a plain program. -/
inductive Cell where
  | user (a : Int)
  | scratch (s : Scratch) (offset : Int)
  deriving DecidableEq

/-- The cell at an offset from the base. -/
def TensorBase.cell (args : Nat → Nat) : TensorBase → Int → Cell
  | .arg i, n => .user (args i + n)
  | .scratch s, n => .scratch s n

def PlainStep.run {α : Type} (K : AclnnLibrary α) (args : Nat → Nat) (vars : Cell → α)
    (p : PlainStep) : Cell → α :=
  runKernel K p.kernel (p.inputs.map fun t => (t.1, t.2.cell args))
    (p.outputs.map fun t => (t.1, t.2.cell args)) vars

/-- The scratch buffers start out empty. -/
def startVars {α : Type} [Inhabited α] (mem : DeviceMemory α) : Cell → α
  | .user a => mem a
  | .scratch _ _ => default

/-- A call on the memory of its user. -/
def runPlain {α : Type} [Inhabited α] (K : AclnnLibrary α) (args : Nat → Nat) (ps : List PlainStep)
    (mem : DeviceMemory α) : DeviceMemory α :=
  fun a => ps.foldl (PlainStep.run K args) (startVars mem) (.user a)

/-- An event of the plain programs, which know of no pool. -/
def DeviceEvent.plain {α : Type} [Inhabited α] (K : AclnnLibrary α)
    (programs : Nat → List PlainStep) (mem : DeviceMemory α) : DeviceEvent α → DeviceMemory α
  | .call i c => runPlain K c.args (programs i) mem
  | .request _ => mem
  | .other f => f mem

/-! ## Reading off the plain program -/

/-- What is known in the middle of a call: where the descriptors point, the
scratch buffers that were asked for, and the descriptors that wrote them. -/
structure Known where
  held : Nat → Option TensorBase := fun _ => none
  asked : List Scratch := []
  written : List (Nat × Scratch) := []

namespace Known

/-- The pointer may be used. -/
def Allows (kn : Known) : TensorBase → Prop
  | .arg _ => True
  | .scratch s => s ∈ kn.asked

instance (kn : Known) (b : TensorBase) : Decidable (kn.Allows b) := by
  cases b <;> unfold Allows <;> infer_instance

/-- There is something to read. -/
def Readable (kn : Known) (d : Nat) : TensorBase → Prop
  | .arg _ => True
  | .scratch s => (d, s) ∈ kn.written

instance (kn : Known) (d : Nat) (b : TensorBase) : Decidable (kn.Readable d b) := by
  cases b <;> unfold Readable <;> infer_instance

/-- The addresses set are those of all the tensors, in order. -/
def Rebinds (sets : List (Nat × Pointer)) (bases : List TensorBase) : Prop :=
  sets.map (fun x => (x.1, x.2.base)) = bases.zipIdx.map Prod.swap

instance (sets : List (Nat × Pointer)) (bases : List TensorBase) : Decidable (Rebinds sets bases) :=
  inferInstanceAs (Decidable (_ = _))

/-- The launch, if its executor is re-bound and its inputs are there. -/
def stage (op : CachedOp) (kn : Known) (st : AclnnStage) : Option PlainStep := do
  let listed ← st.listed.mapM kn.held
  let inputs ← st.inputs.mapM kn.held
  let outputs ← st.outputs.mapM kn.held
  if Rebinds st.setInputs inputs ∧ Rebinds st.setOutputs outputs ∧
      ∀ x ∈ List.zip (st.listed ++ st.inputs) (listed ++ inputs), kn.Readable x.1 x.2 then
    some {
      kernel := st.kernel
      inputs := List.zip ((st.listed ++ st.inputs).map op.desc) (listed ++ inputs)
      outputs := List.zip (st.outputs.map op.desc) outputs }
  else none

/-- The scratch buffers that a launch writes. -/
def writes (kn : Known) (st : AclnnStage) : List (Nat × Scratch) :=
  if st.kernel.inPlace then []
  else st.outputs.filterMap fun d =>
    match kn.held d with
    | some (.scratch s) => some (d, s)
    | _ => none

end Known

/-- The plain program of the rest of a call. -/
def plainSteps (op : CachedOp) : Known → List Step → Option (List PlainStep)
  | _, [] => some []
  | kn, .get d x :: steps =>
    if kn.Allows x.base then
      plainSteps op { kn with held := Function.update kn.held d (some x.base) } steps
    else none
  | kn, .ensure s :: steps =>
    if s ∈ kn.asked then none else plainSteps op { kn with asked := s :: kn.asked } steps
  | kn, .launch _ st :: steps => do
    let p ← kn.stage op st
    let ps ← plainSteps op { kn with written := kn.writes st ++ kn.written } steps
    return p :: ps

/-- Each launch has an executor member of its own. -/
def memberOf : Step → Option Nat
  | .launch k _ => some k
  | _ => none

/-- The tensors fit into the scratch buffers. -/
def PlainStep.Fits (scratchBytes : Scratch → Nat) (p : PlainStep) : Prop :=
  ∀ desc s, (desc, TensorBase.scratch s) ∈ p.inputs ++ p.outputs → ∀ idx, Valid desc.shape idx →
    0 ≤ (desc.dtype.bytes : Int) * desc.offset idx ∧
      (desc.dtype.bytes : Int) * desc.offset idx < scratchBytes s

/-- The instance carries out a plain program. -/
structure CachedOp.Carries (op : CachedOp) (ps : List PlainStep) : Prop where
  plain : plainSteps op {} op.steps = some ps
  members : (op.steps.filterMap memberOf).Nodup
  fits : ∀ p ∈ ps, p.Fits op.scratchBytes

end InfiniOps.Ascend
