/-
InfiniOps.Cuda.RmsNormKernel — `CudaRmsNorm`
(`src/native/cuda/ops/rms_norm`).

One block of threads normalizes one row: each thread adds up the squares of
its columns, the block combines the sums, the first thread stores the
factor in shared memory, and after a barrier each thread writes its
columns. Arithmetic is exact, in any field, and `rsqrtf` the inverse of a
square root. An element of `input` that is not there stops the thread that
reads it.
-/
import InfiniOps.Cpu.RmsNorm
import InfiniOps.Cuda.KernelLaunch
import InfiniOps.Lib.StridedLoop

namespace InfiniOps.Cuda

open Cpu Grid StridedLoop

/-- What the threads read and write: the tensors, by element, and the
shared variable of a block. -/
inductive NormCell where
  | input (offset : Int)
  | weight (offset : Int)
  | out (offset : Int)
  | rms (block : Nat)
  deriving DecidableEq

section Kernel

variable {K : Type} [Field K] (m : Cpu.RmsNorm) (sqrt : K → K) (eps : K) (blockSize : Nat)

/-- The row of a block, by `batch_idx` and `head_idx`. -/
def blockRow (blockIdx : Nat) : Nat × Nat := (blockIdx / m.nhead, blockIdx % m.nhead)

/-- The last loop of `RmsNormKernel`. -/
def normalizeColumns (blockIdx threadIdx : Nat) : Prog NormCell K (Collective K) :=
  .forEach (fun (i : Nat) rest =>
    .read (.input (RmsNorm.row m.inputStrides (blockRow m blockIdx) + i)) fun x =>
    .read (.weight i) fun w =>
    .read (.rms blockIdx) fun rms =>
    .write (.out (RmsNorm.row m.outStrides (blockRow m blockIdx) + i)) (x * w * rms) rest)
    (stridedLoop threadIdx blockSize m.dim) .stop

/-- `RmsNormKernel` behind the block's sum. -/
def storeRms (blockIdx threadIdx : Nat) (ss : K) : Prog NormCell K (Collective K) :=
  let barrier := .meet .syncthreads 0 fun _ => normalizeColumns m blockSize blockIdx threadIdx
  if threadIdx = 0 then .write (.rms blockIdx) (1 / sqrt (ss / m.dim + eps)) barrier else barrier

/-- `RmsNormKernel`, with `SumSquared`. -/
def rmsNormKernel (blockIdx threadIdx : Nat) : Prog NormCell K (Collective K) :=
  .fold (fun (i : Nat) => .input (RmsNorm.row m.inputStrides (blockRow m blockIdx) + i))
    (fun ss value => ss + value * value) (stridedLoop threadIdx blockSize m.dim) 0 fun ss =>
  .meet (.blockReduce (· + ·)) ss (storeRms m sqrt eps blockSize blockIdx threadIdx)

/-- The launch of the kernel, with `num_blocks` blocks. -/
def rmsNormGrid : Launch NormCell K where
  gridX := toUInt32 (toUInt64 (m.batchSize * m.nhead))
  gridY := 1
  blockDim := blockSize
  kernel b t := rmsNormKernel m sqrt eps blockSize b.1 t

end Kernel

/-- What is invoked for a type and a block size: the launch, and the type
that the tensors are read as. -/
def normFunctor {K : Type} [Field K] (m : Cpu.RmsNorm) (sqrt : K → K) (eps : K) :
    Functor (Option (DataType × Launch NormCell K)) :=
  .total fun items => do
    let dtype ← Softmax.cudaTypes.find? fun (t : DataType) => t.code = items.getD 0 0
    return (dtype, rmsNormGrid m sqrt eps (items.getD 1 0).toNat)

/-- Construct `CudaRmsNorm` and call it; `none` if an extent is read outside
of the shape. -/
def cudaRmsNorm {K : Type} [Field K] (sqrt : K → K) (eps : K) (d : Softmax.CudaDevice)
    (input weight out : Tensor) : Except Failure (Option (DataType × Launch NormCell K)) :=
  match RmsNorm.ofTensors input out with
  | none => .ok none
  | some members => do
    assertion (input.dtype = out.dtype) "input.dtype() == out.dtype()"
    assertion (out.dtype = input.dtype ∧ out.dtype = weight.dtype)
      "out.dtype() == input.dtype() && out.dtype() == weight.dtype()"
    let blockSize := Softmax.getOptimalBlockSize d.maxThreads
    (dispatchKeys (normFunctor members sqrt eps) "CudaRmsNorm::operator()"
      [.ofDataTypes Softmax.cudaTypes (List.cons_ne_nil _ _), cudaBlockSizes]
      [out.dtype.code, blockSize]).ending

end InfiniOps.Cuda
