/-
InfiniOps.AscendC.TorchHost — the torch host functions `RmsNorm` and
`AddRmsNorm` of `ascend::detail` (`custom/*/op_host/`): the checks, the
padding, the split of the rows over the cores and the launch.

A run ends in a failed check, in a division by zero, in `at::empty_like`
without a launch, or in a launch. Every integer division whose divisor is
not a constant goes through `divide`.

Sizes and row counts are `Nat`; the subtraction in `former_num` does not
underflow (`RowSplit.tail_mul_lt`). The unified-buffer size is a
`uint64_t` that is converted to `int64_t`, so the capacity may be negative
and its divisions truncate.
-/
import InfiniOps.AscendC.NormKernels
import InfiniOps.Core.Tensor

namespace InfiniOps.AscendC

/-- `at::ScalarType`: the two types that the host functions accept, and any
other with its name and element size. -/
inductive ScalarType where
  | half | float
  | other (name : String) (size : Nat)
  deriving DecidableEq, Repr

namespace ScalarType

def elementSize : ScalarType → Nat
  | .half => 2
  | .float => 4
  | .other _ size => size

def name : ScalarType → String
  | .half => "Half"
  | .float => "Float"
  | .other name _ => name

end ScalarType

/-- `at::Tensor`, as far as the host functions look at it. -/
structure AtTensor where
  sizes : List Nat
  scalarType : ScalarType
  deriving DecidableEq, Repr

namespace AtTensor

variable (t : AtTensor)

def dim : Nat := t.sizes.length

def size (index : Int) : Nat :=
  t.sizes.getD (Tensor.effectiveIndex index t.sizes.length).toNat 0

def numel : Nat := t.sizes.foldl (· * ·) 1

def elementSize : Nat := t.scalarType.elementSize

def nbytes : Nat := t.numel * t.elementSize

end AtTensor

/-- What `PlatformAscendC` reports. -/
structure Platform where
  coreNumAiv : Nat
  ubSize : Nat
  deriving DecidableEq, Repr

/-- What a host function hands to `EXEC_KERNEL_CMD`. The inputs and outputs
all have the sizes and type of `kernelInput`. -/
structure Launch where
  kernel : NormKernel
  blockDim : Nat
  args : LaunchArgs
  kernelInput : AtTensor
  weightFloat : AtTensor
  deriving DecidableEq, Repr

/-- The tensor behind an operand. -/
def Launch.buffer (l : Launch) : Operand → AtTensor
  | .weight => l.weightFloat
  | .input | .residual | .out | .residualOut => l.kernelInput

/-- How a host function fails. -/
inductive HostError where
  | torchCheck (message : String)
  | divideByZero
  deriving DecidableEq, Repr

/-- A host function's result. `none` is `at::empty_like`, without a launch. -/
abbrev HostResult := Except HostError (Option Launch)

def torchCheck (condition : Prop) [Decidable condition] (message : String) :
    Except HostError Unit :=
  if condition then .ok () else .error (.torchCheck message)

def divide (a b : Nat) : Except HostError Nat :=
  if b = 0 then .error .divideByZero else .ok (a / b)

/-! ## The launch -/

/-- The largest aligned `dim_length` that the capacity check admits. -/
def maxDimLength (ubSize bufferCoefficient : Nat) : Int :=
  let ubSizeLimit := toInt64 ubSize
  let maxLength := (ubSizeLimit - 1024).tdiv bufferCoefficient
  let fpAlignElements := 32 / 4
  maxLength.tdiv fpAlignElements * fpAlignElements

/-- The UB capacity check. -/
def checkCapacity (op : String) (dimLength dimLengthAlign : Nat) (maxLength : Int) :
    Except HostError Unit :=
  torchCheck (dimLengthAlign ≤ maxLength)
    (s!"`{op}`: `dim_length` {dimLength} (aligned {dimLengthAlign}) exceeds UB capacity " ++
      s!"(max {maxLength}).")

/-- `dim_length_align`: up to the next 32-byte boundary. -/
def alignedLength (dimLength dtypeSize : Nat) : Except HostError Nat := do
  let alignElements ← divide 32 dtypeSize
  let blocks ← divide (dimLength + alignElements - 1) alignElements
  return blocks * alignElements

/-- The last extent after `constant_pad_nd`. -/
def paddedLength (dimLength dimLengthAlign : Nat) : Nat :=
  if dimLength ≠ dimLengthAlign then dimLength + (dimLengthAlign - dimLength)
  else dimLengthAlign

/-- How the rows are distributed across the cores. -/
structure Tiling where
  usedCoreNum : Nat
  formerLength : Nat
  tailLength : Nat
  formerNum : Nat
  deriving DecidableEq, Repr

/-- Block-level tiling. -/
def blockTiling (totalRows coreNum : Nat) : Except HostError Tiling := do
  let usedCoreNum := min totalRows coreNum
  let formerLength ← divide (totalRows + usedCoreNum - 1) usedCoreNum
  let tailLength := formerLength - 1
  return { usedCoreNum, formerLength, tailLength
           formerNum := totalRows - tailLength * usedCoreNum }

/-- The padded tensors and the arguments of `EXEC_KERNEL_CMD`. The last one
is `dtype_size_val`, the element size. -/
def execKernelCmd (kernel : NormKernel) (x : AtTensor) (totalRows dimLength dimLengthAlign : Nat)
    (t : Tiling) : Launch where
  kernel := kernel
  blockDim := toUInt32 t.usedCoreNum
  args :=
    { totalRows, dimLength, dimLengthAlign
      formerNum := t.formerNum
      formerLength := t.formerLength
      tailLength := t.tailLength
      dtypeCode := x.elementSize }
  kernelInput := ⟨[totalRows, paddedLength dimLength dimLengthAlign], x.scalarType⟩
  weightFloat := ⟨[paddedLength dimLength dimLengthAlign], .float⟩

/-- The body of the two host functions after their checks on the tensors.
`bufferCoefficient` is the bytes of unified buffer for each element of a
row, by element size. -/
def hostLaunch (op : String) (kernel : NormKernel) (bufferCoefficient : Nat → Nat)
    (p : Platform) (x : AtTensor) : HostResult := do
  let dimLength := x.size (-1)
  let totalRows ← divide x.numel dimLength
  if totalRows = 0 ∨ dimLength = 0 then
    return none
  else
    let dimLengthAlign ← alignedLength dimLength x.elementSize
    checkCapacity op dimLength dimLengthAlign
      (maxDimLength p.ubSize (bufferCoefficient x.elementSize))
    let tiling ← blockTiling totalRows p.coreNumAiv
    return some (execKernelCmd kernel x totalRows dimLength dimLengthAlign tiling)

/-! ## The entry points -/

/-- `ascend::detail::RmsNorm`. -/
def rmsNorm (p : Platform) (input weight : AtTensor) : HostResult := do
  torchCheck (0 < input.dim) "`RmsNorm`: `input` must have at least 1 dimension."
  torchCheck (input.scalarType = .half ∨ input.scalarType = .float)
    s!"`RmsNorm`: only `float16` and `float32` are supported; got {input.scalarType.name}."
  torchCheck (weight.dim = 1) "`RmsNorm`: `weight` must be 1-dimensional."
  torchCheck (weight.size 0 = input.size (-1))
    s!"`RmsNorm`: `weight` size ({weight.size 0}) must match input last dim ({input.size (-1)})."
  hostLaunch "RmsNorm" kernelRmsNorm (fun _ => 20) p input

/-- `ascend::detail::AddRmsNorm`. -/
def addRmsNorm (p : Platform) (x1 x2 weight : AtTensor) : HostResult := do
  torchCheck (0 < x1.dim) "`AddRmsNorm`: `x1` must have at least 1 dimension."
  torchCheck (x1.sizes = x2.sizes) "`AddRmsNorm`: `x1` and `x2` must have the same shape."
  torchCheck (x1.scalarType = x2.scalarType)
    "`AddRmsNorm`: `x1` and `x2` must have the same dtype."
  torchCheck (x1.scalarType = .half ∨ x1.scalarType = .float)
    s!"`AddRmsNorm`: only `float16` and `float32` are supported; got {x1.scalarType.name}."
  torchCheck (weight.dim = 1) "`AddRmsNorm`: `weight` must be 1-dimensional."
  torchCheck (weight.size 0 = x1.size (-1))
    s!"`AddRmsNorm`: `weight` size ({weight.size 0}) must match input last dim ({x1.size (-1)})."
  hostLaunch "AddRmsNorm" kernelAddRmsNorm (fun dtypeSize => if dtypeSize = 2 then 28 else 36)
    p x1

end InfiniOps.AscendC
