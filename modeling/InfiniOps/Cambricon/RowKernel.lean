/-
InfiniOps.Cambricon.RowKernel — what the Cambricon kernel `RmsNorm` computes
for one row (`ops/rms_norm/kernel.mlu`, and `reduce::SumInternal` of
`native/cambricon/common.h`).

`RmsNorm` has the lengths of every instruction; here are the values. They
are in a field, so that conversions between the element types are the
identity, and the buffers of `nram_buffer` are apart and have room. The last
dimension has a stride of 1: `x`, `w` and the output are numbered from the
first element of the row. What is written to the output is recorded in
order.

The intrinsics are as they are documented: `__bang_sumpool` adds up a window
for each channel, `__bang_reduce_sum` adds up 32 floats.
-/
import InfiniOps.Cambricon.RmsNorm
import Mathlib.Algebra.Field.Defs

namespace InfiniOps.Cambricon

variable {K : Type*} [Field K]

/-- The values of the buffers in `nram_buffer`. -/
structure Nram (K : Type*) where
  reductionBuffer : Nat → K
  inputCache : Nat → K
  weightCache : Nat → K
  floatBuffer : Nat → K
  weightFloatBuffer : Nat → K

/-! ## Instructions -/

section Instructions

variable (dst src : Nat → K) (count : Nat)

/-- `__memcpy`, and the conversions of a vector. -/
def copy : Nat → K := fun i => if i < count then src i else dst i

/-- `__bang_write_value`. -/
def bangWriteValue (value : K) : Nat → K := fun i => if i < count then value else dst i

/-- `__bang_mul`. -/
def bangMul (src1 : Nat → K) : Nat → K := fun i => if i < count then src i * src1 i else dst i

/-- `__bang_mul_scalar`. -/
def bangMulScalar (value : K) : Nat → K := fun i => if i < count then src i * value else dst i

/-- A scalar loop `sum += src[i]`. -/
def scalarSum : K := (List.range count).foldl (fun sum i => sum + src i) 0

/-- `__bang_sumpool`: channels are the innermost dimension. -/
def bangSumpool (channel height width kernelHeight kernelWidth strideX strideY : Nat) : Nat → K :=
  let outHeight := (height - kernelHeight) / strideY + 1
  let outWidth := (width - kernelWidth) / strideX + 1
  fun i =>
    if i < channel * outHeight * outWidth then
      let top := i / channel / outWidth * strideY
      let left := i / channel % outWidth * strideX
      scalarSum (fun ky =>
        scalarSum (fun kx => src (((top + ky) * width + (left + kx)) * channel + i % channel))
          kernelWidth) kernelHeight
    else dst i

/-- `__bang_reduce_sum`: the sum of every 128 bytes, at their start. -/
def bangReduceSum : Nat → K := fun i =>
  if i < count ∧ i % 32 = 0 then scalarSum (fun k => src (i + k)) 32 else dst i

/-- `reduce::SumInternal`. -/
def sumInternalValues (maxBatch : Nat) : Nat → K :=
  let batchSize := 128 / FloatType.float.size
  let width := maxBatch / batchSize
  if 4 ≤ width then
    let dst := bangSumpool dst src batchSize 1 width 1 width 1 1
    bangReduceSum dst dst batchSize
  else fun i => if i = 0 then scalarSum src maxBatch else dst i

end Instructions

/-! ## Sum of squares -/

section Row

variable (T TW : FloatType) (vectorSize : Nat) (x w : Nat → K)

/-- Load a batch and square it. -/
def squareValues (nram : Nram K) (processed count : Nat) : Nram K :=
  let inputCache := copy nram.inputCache (fun i => x (processed + i)) count
  let floatBuffer := copy nram.floatBuffer inputCache count
  { nram with inputCache, floatBuffer := bangMul floatBuffer floatBuffer count floatBuffer }

/-- `batch_sum`. -/
def batchSum (nram : Nram K) (count : Nat) : K × Nram K :=
  if 128 ≤ count then
    let reductionBuffer := sumInternalValues nram.reductionBuffer nram.floatBuffer count
    (reductionBuffer 0, { nram with reductionBuffer })
  else (scalarSum nram.floatBuffer count, nram)

/-- The `while` loop, or `none` if it does not end within `fuel` iterations. -/
def sumLoop : (fuel processed : Nat) → (sumSquared : K) → Nram K → Option (K × Nram K)
  | 0, processed, sumSquared, nram =>
    if processed < vectorSize then none else some (sumSquared, nram)
  | fuel + 1, processed, sumSquared, nram =>
    if processed < vectorSize then
      let currentBatch := min (maxBatchSize T TW vectorSize) (vectorSize - processed)
      let (sum, nram) := batchSum (squareValues x nram processed currentBatch) currentBatch
      sumLoop fuel (processed + currentBatch) (sumSquared + sum) nram
    else some (sumSquared, nram)

/-- `sum_squared`. -/
def sumSquares (fuel : Nat) (nram : Nram K) : Option (K × Nram K) :=
  if vectorSize ≤ 128 then
    let nram := squareValues x nram 0 vectorSize
    some (scalarSum nram.floatBuffer vectorSize, nram)
  else
    sumLoop T TW vectorSize x fuel 0 0
      { nram with reductionBuffer := bangWriteValue nram.reductionBuffer reduceBufferSize 0 }

/-! ## Normalisation -/

/-- Normalise a batch. The writes are positions and values. -/
def normalizeValues (invRms : K) (nram : Nram K) (processed count : Nat) :
    List (Nat × K) × Nram K :=
  let inputCache := copy nram.inputCache (fun i => x (processed + i)) count
  let weightCache := copy nram.weightCache (fun i => w (processed + i)) count
  let floatBuffer := copy nram.floatBuffer inputCache count
  let weightFloatBuffer := copy nram.weightFloatBuffer weightCache count
  let floatBuffer := bangMul floatBuffer floatBuffer count weightFloatBuffer
  let floatBuffer := bangMulScalar floatBuffer floatBuffer count invRms
  let inputCache := copy inputCache floatBuffer count
  ((List.range count).map fun i => (processed + i, inputCache i),
    { nram with inputCache, weightCache, floatBuffer, weightFloatBuffer })

/-- The `while` loop. -/
def normalizeLoop (invRms : K) : (fuel processed : Nat) → Nram K → Option (List (Nat × K) × Nram K)
  | 0, processed, nram => if processed < vectorSize then none else some ([], nram)
  | fuel + 1, processed, nram =>
    if processed < vectorSize then do
      let currentBatch := min (maxBatchSize T TW vectorSize) (vectorSize - processed)
      let (writes, nram) := normalizeValues x w invRms nram processed currentBatch
      let (rest, nram) ← normalizeLoop invRms fuel (processed + currentBatch) nram
      return (writes ++ rest, nram)
    else some ([], nram)

/-- Process vector for normalization. -/
def normalizeRow (invRms : K) (fuel : Nat) (nram : Nram K) : Option (List (Nat × K) × Nram K) :=
  if vectorSize ≤ maxBatchSize T TW vectorSize then
    some (normalizeValues x w invRms nram 0 vectorSize)
  else normalizeLoop T TW vectorSize x w invRms fuel 0 nram

/-- One iteration of the loop over a core's vectors: `sum_squared`, what is
written, and the buffers that are left. -/
def processRow (sqrtf : K → K) (epsilon : K) (fuel : Nat) (nram : Nram K) :
    Option (K × List (Nat × K) × Nram K) := do
  let (sumSquared, nram) ← sumSquares T TW vectorSize x fuel nram
  let rmsValue := sqrtf (sumSquared / vectorSize + epsilon)
  let (writes, nram) ← normalizeRow T TW vectorSize x w (1 / rmsValue) fuel nram
  return (sumSquared, writes, nram)

/-! ## What it is for -/

/-- Both loops end, every element is in the sum once, and every output is
written once, from the sum. -/
def RowNormalized (sqrtf : K → K) (epsilon : K) (nram : Nram K) : Prop :=
  ∃ sumSquared writes nram', (∀ fuel, vectorSize ≤ fuel →
      processRow T TW vectorSize x w sqrtf epsilon fuel nram = some (sumSquared, writes, nram')) ∧
    sumSquared = ((List.range vectorSize).map fun j => x j * x j).sum ∧
    writes = (List.range vectorSize).map fun j =>
      (j, x j * w j / sqrtf (sumSquared / vectorSize + epsilon))

/-- The elements that no sum reads: those of the last batch beyond its last
group of 32, where that batch is not summed by scalar code. -/
def Dropped (j : Nat) : Prop :=
  128 ≤ vectorSize % maxBatchSize T TW vectorSize ∧ vectorSize - vectorSize % 32 ≤ j ∧
    j < vectorSize

end Row

end InfiniOps.Cambricon
