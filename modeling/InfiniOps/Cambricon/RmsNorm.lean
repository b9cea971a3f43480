/-
InfiniOps.Cambricon.RmsNorm — the on-chip memory of the Cambricon kernel
`RmsNorm` (`ops/rms_norm/kernel.mlu`): how `nram_buffer` is carved up, and
every copy and vector intrinsic that a core executes.

An instruction is recorded with the buffers it addresses and the lengths
the source passes, and `NramOp.accesses` says how many bytes it touches
from the start of each. The values and the addresses in device memory play
no part in that and are left out. The two `while` loops take the number of
elements as fuel, and running out of fuel is a result of its own.
-/
import InfiniOps.Lib.Region

namespace InfiniOps.Cambricon

/-- The types that the kernel is instantiated with. -/
inductive FloatType where
  | half | bfloat16 | float
  deriving DecidableEq, Repr

def FloatType.size : FloatType → Nat
  | .half => 2
  | .bfloat16 => 2
  | .float => 4

/-- `NRAM_MAX_SIZE`. -/
def nramMaxSize : Nat := 1024 * 240

/-! ## The layout -/

inductive NramBuffer where
  | reductionBuffer | inputCache | weightCache | floatBuffer | weightFloatBuffer
  deriving DecidableEq, Repr

/-- `reduce_buffer_size`. -/
def reduceBufferSize : Nat := 128 / FloatType.float.size

section Layout

variable (T TW : FloatType) (vectorSize : Nat)

def maxBatchSize : Nat :=
  if vectorSize ≤ 64 then vectorSize
  else
    let maxBatch := (nramMaxSize - 256) / (2 * T.size + TW.size + FloatType.float.size)
    min maxBatch vectorSize / 64 * 64

/-- The pointers, as offsets into `nram_buffer`. -/
def bufferBase (b : NramBuffer) : Nat :=
  let reductionBuffer := 0
  let inputCache := reductionBuffer + reduceBufferSize * FloatType.float.size
  let weightCache := inputCache + maxBatchSize T TW vectorSize * T.size
  let floatBuffer := weightCache + maxBatchSize T TW vectorSize * TW.size
  let weightFloatBuffer := floatBuffer + maxBatchSize T TW vectorSize * FloatType.float.size
  match b with
  | .reductionBuffer => reductionBuffer
  | .inputCache => inputCache
  | .weightCache => weightCache
  | .floatBuffer => floatBuffer
  | .weightFloatBuffer => weightFloatBuffer

/-- The bytes of each buffer. -/
def bufferBytes : NramBuffer → Nat
  | .reductionBuffer => reduceBufferSize * FloatType.float.size
  | .inputCache => maxBatchSize T TW vectorSize * T.size
  | .weightCache => maxBatchSize T TW vectorSize * TW.size
  | .floatBuffer => maxBatchSize T TW vectorSize * FloatType.float.size
  | .weightFloatBuffer => maxBatchSize T TW vectorSize * FloatType.float.size

def bufferRegion (b : NramBuffer) : Region :=
  ⟨bufferBase T TW vectorSize b, bufferBytes T TW vectorSize b⟩

end Layout

/-! ## Instructions -/

/-- The copies and vector intrinsics of the kernel. Counts are elements. -/
inductive NramOp where
  /-- `__memcpy(…, GDRAM2NRAM)` -/
  | load (dst : NramBuffer) (bytes : Nat)
  /-- `__memcpy(…, NRAM2GDRAM)` -/
  | store (src : NramBuffer) (bytes : Nat)
  /-- `__memcpy(…, NRAM2NRAM)` -/
  | move (dst src : NramBuffer) (bytes : Nat)
  /-- `__bang_half2float`, `__bang_bfloat162float` -/
  | toFloat (t : FloatType) (dst src : NramBuffer) (count : Nat)
  /-- `__bang_float2half`, `__bang_float2bfloat16` -/
  | fromFloat (t : FloatType) (dst src : NramBuffer) (count : Nat)
  | bangMul (dst src0 src1 : NramBuffer) (count : Nat)
  | bangMulScalar (dst src : NramBuffer) (count : Nat)
  | bangWriteValue (dst : NramBuffer) (count : Nat)
  | bangSumpool (dst src : NramBuffer)
      (channel height width kernelHeight kernelWidth strideX strideY : Nat)
  | bangReduceSum (dst src : NramBuffer) (count : Nat)
  deriving DecidableEq, Repr

/-- The buffers that an instruction touches, with the bytes from the start
of each. For the destination of `__bang_reduce_sum` this is an upper bound. -/
def NramOp.accesses : NramOp → List (NramBuffer × Nat)
  | .load dst bytes => [(dst, bytes)]
  | .store src bytes => [(src, bytes)]
  | .move dst src bytes => [(dst, bytes), (src, bytes)]
  | .toFloat t dst src count => [(dst, count * FloatType.float.size), (src, count * t.size)]
  | .fromFloat t dst src count => [(dst, count * t.size), (src, count * FloatType.float.size)]
  | .bangMul dst src0 src1 count =>
    let bytes := count * FloatType.float.size
    [(dst, bytes), (src0, bytes), (src1, bytes)]
  | .bangMulScalar dst src count =>
    let bytes := count * FloatType.float.size
    [(dst, bytes), (src, bytes)]
  | .bangWriteValue dst count => [(dst, count * FloatType.float.size)]
  | .bangSumpool dst src channel height width kernelHeight kernelWidth strideX strideY =>
    let outHeight := (height - kernelHeight) / strideY + 1
    let outWidth := (width - kernelWidth) / strideX + 1
    [(dst, channel * outHeight * outWidth * FloatType.float.size),
      (src, channel * height * width * FloatType.float.size)]
  | .bangReduceSum dst src count =>
    let bytes := count * FloatType.float.size
    [(dst, bytes), (src, bytes)]

/-- The `if constexpr` that brings a cache into a float buffer. -/
def loadFloat (t : FloatType) (dst src : NramBuffer) (count : Nat) : NramOp :=
  match t with
  | .half => .toFloat .half dst src count
  | .bfloat16 => .toFloat .bfloat16 dst src count
  | .float => .move dst src (count * FloatType.float.size)

/-- The `if constexpr` that brings the result back. -/
def storeFloat (t : FloatType) (dst src : NramBuffer) (count : Nat) : NramOp :=
  match t with
  | .half => .fromFloat .half dst src count
  | .bfloat16 => .fromFloat .bfloat16 dst src count
  | .float => .move dst src (count * FloatType.float.size)

/-- `reduce::SumInternal`. Narrow inputs are summed by scalar code. -/
def sumInternal (dst src : NramBuffer) (maxBatch : Nat) : List NramOp :=
  let batchSize := 128 / FloatType.float.size
  let width := maxBatch / batchSize
  if 4 ≤ width then
    [.bangSumpool dst src batchSize 1 width 1 width 1 1, .bangReduceSum dst dst batchSize]
  else []

/-! ## The kernel -/

section Kernel

variable (T TW : FloatType) (vectorSize : Nat)

/-- The values that `current_batch` takes in a `while` loop over the vector,
or `none` if it does not end within `fuel` iterations. -/
def batches (maxBatch : Nat) : (fuel processed : Nat) → Option (List Nat)
  | 0, processed => if processed < vectorSize then none else some []
  | fuel + 1, processed =>
    if processed < vectorSize then do
      let currentBatch := min maxBatch (vectorSize - processed)
      let rest ← batches maxBatch fuel (processed + currentBatch)
      return currentBatch :: rest
    else some []

/-- Load a batch and square it. -/
def squareBatch (count : Nat) : List NramOp :=
  [.load .inputCache (count * T.size), loadFloat T .floatBuffer .inputCache count,
    .bangMul .floatBuffer .floatBuffer .floatBuffer count]

/-- Compute sum of squares. -/
def sumOfSquares : Option (List NramOp) :=
  if vectorSize ≤ 128 then some (squareBatch T vectorSize)
  else do
    let counts ← batches vectorSize (maxBatchSize T TW vectorSize) vectorSize 0
    return .bangWriteValue .reductionBuffer reduceBufferSize :: counts.flatMap fun count =>
      squareBatch T count ++
        if 128 ≤ count then sumInternal .reductionBuffer .floatBuffer count else []

/-- Normalise a batch. -/
def normalizeBatch (count : Nat) : List NramOp :=
  [.load .inputCache (count * T.size), .load .weightCache (count * TW.size),
    loadFloat T .floatBuffer .inputCache count,
    loadFloat TW .weightFloatBuffer .weightCache count,
    .bangMul .floatBuffer .floatBuffer .weightFloatBuffer count,
    .bangMulScalar .floatBuffer .floatBuffer count,
    storeFloat T .inputCache .floatBuffer count,
    .store .inputCache (count * T.size)]

/-- Process vector for normalization. -/
def normalize : Option (List NramOp) :=
  if vectorSize ≤ maxBatchSize T TW vectorSize then some (normalizeBatch T TW vectorSize)
  else do
    let counts ← batches vectorSize (maxBatchSize T TW vectorSize) vectorSize 0
    return counts.flatMap (normalizeBatch T TW)

/-- One iteration of the loop over a core's vectors. -/
def taskOps : Option (List NramOp) := do
  let squares ← sumOfSquares T TW vectorSize
  let normalized ← normalize T TW vectorSize
  return squares ++ normalized

/-- `actual_tasks`. -/
def actualTasks (batchVolume taskDim taskId : Nat) : Nat :=
  batchVolume / taskDim + if taskId < batchVolume % taskDim then 1 else 0

/-- The loop over a core's vectors. -/
def taskLoop : (tasks : Nat) → Option (List NramOp)
  | 0 => some []
  | tasks + 1 => do
    let ops ← taskOps T TW vectorSize
    let rest ← taskLoop tasks
    return ops ++ rest

/-- Everything that core `taskId` executes. -/
def coreOps (batchVolume taskDim taskId : Nat) : Option (List NramOp) :=
  taskLoop T TW vectorSize (actualTasks batchVolume taskDim taskId)

end Kernel

end InfiniOps.Cambricon
