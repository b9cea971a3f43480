/-
InfiniOps.AscendC.NormCompute — what the AscendC kernels `RmsNorm` and
`AddRmsNorm` compute: the queues, the local buffers, `CopyIn`, `Compute`
and `CopyOut` for each row, and the launch over all blocks.

Values lie in a field, so arithmetic is exact; `Cast` moves values without
rounding and `Sqrt` is any function. The contents of a buffer before its
first write, and whatever `ReduceSum` leaves in its source, its temporary
and the rest of its destination, are parameters.

The lengths that the kernels narrow to `int32_t` and `uint32_t` are one
structure: `LaunchArgs.lengths` has the conversions of the source and
`LaunchArgs.exactLengths` has none.
-/
import InfiniOps.AscendC.TorchHost
import Mathlib.Algebra.BigOperators.Group.Finset.Basic
import Mathlib.Algebra.Field.Defs
import Mathlib.Logic.Function.Basic

namespace InfiniOps.AscendC

/-! ## Local memory -/

/-- `TQue` with its buffers by number. -/
structure TQue where
  free : List Nat
  queued : List Nat
  deriving DecidableEq, Repr

/-- `InitBuffer(queue, kBufferNum, …)` with `kBufferNum = 2`. -/
def TQue.init : TQue := ⟨[0, 1], []⟩

/-- A `LocalTensor`: a buffer of the queue of an operand, or a `TBuf`.
`KernelRmsNorm` calls the two `fp32` buffers `input_fp32_buf_` and
`tmp_fp32_buf_`. -/
inductive LocalTensor where
  | que (g : Operand) (i : Nat)
  | weightBuf | fp32Buf1 | fp32Buf2 | reduceTmpBuf | sumBuf
  deriving DecidableEq, Repr

/-- The contents of the local tensors, by element. -/
abbrev LocalMem (K : Type) := LocalTensor → Nat → K

/-- An element in global memory and how often it was written. -/
structure Cell (K : Type) where
  value : K
  writes : Nat

/-- Global memory: the buffer behind each operand, by element. -/
abbrev Gm (K : Type) := Operand → Nat → Cell K

/-- Store `n` elements from `offset` on. -/
def writeCells {K : Type} (offset n : Nat) (f : Nat → K) (cells : Nat → Cell K) : Nat → Cell K :=
  fun j =>
    if offset ≤ j ∧ j < offset + n then ⟨f (j - offset), (cells j).writes + 1⟩ else cells j

/-- What the kernels use of the device. -/
structure VectorUnit (K : Type) where
  sqrt : K → K
  /-- What `ReduceSum` leaves where its result is not. -/
  scratch : LocalMem K → LocalTensor → Nat → K

/-! ## Vector instructions -/

section Vector

variable {K : Type} [Field K] (v : VectorUnit K)

/-- An elementwise instruction on the first `n` elements. -/
def vector (dst : LocalTensor) (n : Nat) (f : Nat → K) (m : LocalMem K) : LocalMem K :=
  Function.update m dst fun i => if i < n then f i else m dst i

def add (dst src0 src1 : LocalTensor) (n : Nat) (m : LocalMem K) : LocalMem K :=
  vector dst n (fun i => m src0 i + m src1 i) m

def mul (dst src0 src1 : LocalTensor) (n : Nat) (m : LocalMem K) : LocalMem K :=
  vector dst n (fun i => m src0 i * m src1 i) m

def muls (dst src : LocalTensor) (scalar : K) (n : Nat) (m : LocalMem K) : LocalMem K :=
  vector dst n (fun i => m src i * scalar) m

def cast (dst src : LocalTensor) (n : Nat) (m : LocalMem K) : LocalMem K :=
  vector dst n (m src) m

def sqrt (dst src : LocalTensor) (n : Nat) (m : LocalMem K) : LocalMem K :=
  vector dst n (fun i => v.sqrt (m src i)) m

def setValue (t : LocalTensor) (i : Nat) (x : K) (m : LocalMem K) : LocalMem K :=
  Function.update m t (Function.update (m t) i x)

/-- `ReduceSum`: the sum is element 0 of `dst`; `src` is not preserved. -/
def reduceSum (dst src tmp : LocalTensor) (n : Nat) (m : LocalMem K) : LocalMem K :=
  let total := ∑ i ∈ Finset.range n, m src i
  let m' := Function.update (Function.update m src (v.scratch m src)) tmp (v.scratch m tmp)
  Function.update m' dst (Function.update (v.scratch m dst) 0 total)

end Vector

/-! ## Lengths -/

/-- The lengths as the kernel's instructions get them. -/
structure Lengths where
  dimLen : Int
  dimLenAlign : Nat
  /-- Elements of a row copy. -/
  rowLen : Nat
  /-- Elements of the weight copy. -/
  weightLen : Nat
  deriving DecidableEq, Repr

namespace LaunchArgs

variable (a : LaunchArgs)

def lengths (T : ElemType) : Lengths where
  dimLen := toInt32 a.dimLength
  dimLenAlign := (toInt32 a.dimLengthAlign).toNat
  rowLen := a.rowBytes T / T.size
  weightLen := a.weightAccess.bytes / ElemType.float.size

def exactLengths : Lengths where
  dimLen := a.dimLength
  dimLenAlign := a.dimLengthAlign
  rowLen := a.dimLengthAlign
  weightLen := a.dimLengthAlign

/-- The element offset of `gm[row * dim_length_align_]`. -/
def gmElement (blockIdx row : Nat) : Nat :=
  a.rowOffset blockIdx * a.dimLengthAlign + row * a.dimLengthAlign

/-- The rows of a block. -/
def rowsOf (blockIdx : Nat) : List Nat :=
  (List.range (a.blockRows blockIdx)).map (a.rowOffset blockIdx + ·)

end LaunchArgs

/-! ## The state of a block -/

structure BlockState (K : Type) where
  que : Operand → TQue
  mem : LocalMem K
  gm : Gm K

namespace BlockState

variable {K : Type} (s : BlockState K)

/-- `AllocTensor`. A queue without a free buffer never returns. -/
def allocTensor (g : Operand) : Option (LocalTensor × BlockState K) :=
  match (s.que g).free with
  | [] => none
  | i :: free =>
    some (.que g i, { s with que := Function.update s.que g { s.que g with free := free } })

/-- `DeQue`. -/
def deQue (g : Operand) : Option (LocalTensor × BlockState K) :=
  match (s.que g).queued with
  | [] => none
  | i :: queued =>
    some (.que g i, { s with que := Function.update s.que g { s.que g with queued := queued } })

/-- `EnQue`. A tensor belongs to the queue that allocated it. -/
def enQue : LocalTensor → BlockState K
  | .que g i =>
    { s with que := Function.update s.que g { s.que g with queued := (s.que g).queued ++ [i] } }
  | _ => s

/-- `FreeTensor`. -/
def freeTensor : LocalTensor → BlockState K
  | .que g i =>
    { s with que := Function.update s.que g { s.que g with free := (s.que g).free ++ [i] } }
  | _ => s

/-- `DataCopyPad(local, gm[offset], …)` of `n` elements. -/
def copyFromGm (t : LocalTensor) (g : Operand) (offset n : Nat) : BlockState K :=
  { s with mem := vector t n (fun i => (s.gm g (offset + i)).value) s.mem }

/-- `DataCopyPad(gm[offset], local, …)` of `n` elements. -/
def copyToGm (g : Operand) (offset : Nat) (t : LocalTensor) (n : Nat) : BlockState K :=
  { s with gm := Function.update s.gm g (writeCells offset n (s.mem t) (s.gm g)) }

end BlockState

section Kernels

variable {K : Type} [Field K] (v : VectorUnit K) (eps : K) (len : Lengths)

/-- `scale = 1 / sqrt(mean(x^2) + eps)` from the sum in `s_local[0]`. -/
def scaleFromSum (m : LocalMem K) : K × LocalMem K :=
  let sumVal := m .sumBuf 0
  let meanVal := sumVal / len.dimLen + eps
  let m := setValue .sumBuf 0 meanVal m
  let m := sqrt v .sumBuf .sumBuf 8 m
  (1 / m .sumBuf 0, m)

/-! ## `KernelRmsNorm` -/

namespace KernelRmsNorm

/-- The `fp32` path of `Compute`. -/
def computeFp32 (inputLocal outLocal : LocalTensor) (m : LocalMem K) : LocalMem K :=
  let n := len.dimLenAlign
  -- the output buffer holds the squares first
  let m := mul outLocal inputLocal inputLocal n m
  let m := reduceSum v .sumBuf outLocal .reduceTmpBuf n m
  let (scale, m) := scaleFromSum v eps len m
  let m := muls outLocal inputLocal scale n m
  mul outLocal outLocal .weightBuf n m

/-- The `fp16` and `bf16` path of `Compute`. -/
def computeFp16 (inputLocal outLocal : LocalTensor) (m : LocalMem K) : LocalMem K :=
  let n := len.dimLenAlign
  let m := cast .fp32Buf1 inputLocal n m
  let m := mul .fp32Buf2 .fp32Buf1 .fp32Buf1 n m
  let m := reduceSum v .sumBuf .fp32Buf2 .reduceTmpBuf n m
  let (scale, m) := scaleFromSum v eps len m
  let m := muls .fp32Buf2 .fp32Buf1 scale n m
  let m := mul .fp32Buf2 .fp32Buf2 .weightBuf n m
  cast outLocal .fp32Buf2 n m

variable (T : ElemType)

/-- The instructions of `Compute`, without its queues. -/
def computeLocal (inputLocal outLocal : LocalTensor) (m : LocalMem K) : LocalMem K :=
  if T.size = 4 then computeFp32 v eps len inputLocal outLocal m
  else computeFp16 v eps len inputLocal outLocal m

def compute (s : BlockState K) : Option (BlockState K) := do
  let (inputLocal, s) ← s.deQue .input
  let (outLocal, s) ← s.allocTensor .out
  let s := { s with mem := computeLocal v eps len T inputLocal outLocal s.mem }
  return (s.freeTensor inputLocal).enQue outLocal

def copyIn (offset : Nat) (s : BlockState K) : Option (BlockState K) := do
  let (inputLocal, s) ← s.allocTensor .input
  let s := s.copyFromGm inputLocal .input offset len.rowLen
  return s.enQue inputLocal

def copyOut (offset : Nat) (s : BlockState K) : Option (BlockState K) := do
  let (outLocal, s) ← s.deQue .out
  let s := s.copyToGm .out offset outLocal len.rowLen
  return s.freeTensor outLocal

/-- One iteration of `Process`. -/
def processRow (offset : Nat) (s : BlockState K) : Option (BlockState K) := do
  let s ← copyIn len offset s
  let s ← compute v eps len T s
  copyOut len offset s

end KernelRmsNorm

/-! ## `KernelAddRmsNorm` -/

namespace KernelAddRmsNorm

/-- The `fp32` path of `Compute`. -/
def computeFp32 (inputLocal residualLocal outLocal residualOutLocal : LocalTensor)
    (m : LocalMem K) : LocalMem K :=
  let n := len.dimLenAlign
  let m := add residualOutLocal inputLocal residualLocal n m
  let m := mul outLocal residualOutLocal residualOutLocal n m
  let m := reduceSum v .sumBuf outLocal .reduceTmpBuf n m
  let (scale, m) := scaleFromSum v eps len m
  let m := muls outLocal residualOutLocal scale n m
  mul outLocal outLocal .weightBuf n m

/-- The `fp16` and `bf16` path of `Compute`. -/
def computeFp16 (inputLocal residualLocal outLocal residualOutLocal : LocalTensor)
    (m : LocalMem K) : LocalMem K :=
  let n := len.dimLenAlign
  let m := cast .fp32Buf1 inputLocal n m
  let m := cast .fp32Buf2 residualLocal n m
  let m := add .fp32Buf1 .fp32Buf1 .fp32Buf2 n m
  let m := cast residualOutLocal .fp32Buf1 n m
  let m := mul .fp32Buf2 .fp32Buf1 .fp32Buf1 n m
  let m := reduceSum v .sumBuf .fp32Buf2 .reduceTmpBuf n m
  let (scale, m) := scaleFromSum v eps len m
  let m := muls .fp32Buf2 .fp32Buf1 scale n m
  let m := mul .fp32Buf2 .fp32Buf2 .weightBuf n m
  cast outLocal .fp32Buf2 n m

variable (T : ElemType)

/-- The instructions of `Compute`, without its queues. -/
def computeLocal (inputLocal residualLocal outLocal residualOutLocal : LocalTensor)
    (m : LocalMem K) : LocalMem K :=
  if T.size = 4 then computeFp32 v eps len inputLocal residualLocal outLocal residualOutLocal m
  else computeFp16 v eps len inputLocal residualLocal outLocal residualOutLocal m

def compute (s : BlockState K) : Option (BlockState K) := do
  let (inputLocal, s) ← s.deQue .input
  let (residualLocal, s) ← s.deQue .residual
  let (outLocal, s) ← s.allocTensor .out
  let (residualOutLocal, s) ← s.allocTensor .residualOut
  let s :=
    { s with
      mem := computeLocal v eps len T inputLocal residualLocal outLocal residualOutLocal s.mem }
  let s := (s.freeTensor inputLocal).freeTensor residualLocal
  return (s.enQue outLocal).enQue residualOutLocal

def copyIn (offset : Nat) (s : BlockState K) : Option (BlockState K) := do
  let (inputLocal, s) ← s.allocTensor .input
  let (residualLocal, s) ← s.allocTensor .residual
  let s := s.copyFromGm inputLocal .input offset len.rowLen
  let s := s.copyFromGm residualLocal .residual offset len.rowLen
  return (s.enQue inputLocal).enQue residualLocal

def copyOut (offset : Nat) (s : BlockState K) : Option (BlockState K) := do
  let (outLocal, s) ← s.deQue .out
  let (residualOutLocal, s) ← s.deQue .residualOut
  let s := s.copyToGm .out offset outLocal len.rowLen
  let s := s.copyToGm .residualOut offset residualOutLocal len.rowLen
  return (s.freeTensor outLocal).freeTensor residualOutLocal

/-- One iteration of `Process`. -/
def processRow (offset : Nat) (s : BlockState K) : Option (BlockState K) := do
  let s ← copyIn len offset s
  let s ← compute v eps len T s
  copyOut len offset s

end KernelAddRmsNorm

end Kernels

/-! ## Launch -/

section Launch

variable {K : Type} (processRow : Nat → BlockState K → Option (BlockState K))
  (len : Lengths) (a : LaunchArgs)

/-- `Init`: fresh queues, and the weight in its buffer. -/
def initBlock (mem : LocalMem K) (gm : Gm K) : BlockState K :=
  let s : BlockState K := ⟨fun _ => .init, mem, gm⟩
  s.copyFromGm .weightBuf .weight 0 len.weightLen

/-- `Process`: the rows of the block in order. -/
def process (blockIdx : Nat) (s : BlockState K) : Option (BlockState K) :=
  (List.range (a.blockRows blockIdx)).foldlM
    (fun s row => processRow (a.gmElement blockIdx row) s) s

/-- One block: `Init` and `Process`. Only global memory outlives it. -/
def runBlock (mem : LocalMem K) (blockIdx : Nat) (gm : Gm K) : Option (Gm K) := do
  let s ← process processRow a blockIdx (initBlock len mem gm)
  return s.gm

/-- The blocks in some order. `mem` is what each block's core has in its
local memory before. -/
def runBlocks (mem : Nat → LocalMem K) (order : List Nat) (gm : Gm K) : Option (Gm K) :=
  order.foldlM (fun gm blockIdx => runBlock processRow len a (mem blockIdx) blockIdx gm) gm

end Launch

/-- The type of the tensors that a template is instantiated for. -/
def ElemType.dataType : ElemType → DataType
  | .half => .kFloat16
  | .bfloat16 => .kBFloat16
  | .float => .kFloat32

/-- The integer arguments for tensors of type `T`, as
`Operator<RmsNorm, kAscend, 1>` passes them: the code is that of the type. -/
def Tiling.launchArgs (t : Tiling) (totalRows dimLength dimLengthAlign : Nat) (T : ElemType) :
    LaunchArgs where
  totalRows := totalRows
  dimLength := dimLength
  dimLengthAlign := dimLengthAlign
  formerNum := t.formerNum
  formerLength := t.formerLength
  tailLength := t.tailLength
  dtypeCode := T.dataType.code

/-- `kMaxBlockDim` of `Operator<RmsNorm, kAscend, 1>`. -/
def kMaxBlockDim : Nat := 40

/-- The row split of `Operator<RmsNorm, kAscend, 1>`: that of the torch host
functions, for a fixed number of cores. -/
def customTiling (totalRows : Nat) : Except HostError Tiling :=
  blockTiling totalRows kMaxBlockDim

end InfiniOps.AscendC
