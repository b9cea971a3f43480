/-
InfiniOps.Cuda.CausalSoftmaxKernel — `CudaCausalSoftmax`
(`src/native/cuda/ops/causal_softmax`), thread by thread.

One block of threads computes one row. The block combines the greatest keys
of its threads, the first thread stores the maximum in shared memory, each
thread writes the exponentials of its columns, the block adds them up in
the same way, and each thread divides its columns by the sum. Between these
there are barriers. Arithmetic is exact and `exp` any function.
-/
import InfiniOps.Cuda.KernelLaunch

namespace InfiniOps.Cuda

open Grid Softmax StridedLoop

/-- What the threads read and write: the tensors, by element, and the
shared variables of a block. -/
inductive SoftmaxCell where
  | input (offset : Int)
  | out (offset : Int)
  | maxVal (block : Nat × Nat)
  | sumVal (block : Nat × Nat)
  deriving DecidableEq

section Kernel

variable (g : CausalSoftmax) (exp : ℚ → ℚ) (blockSize : Nat)

/-- A thread of `BlockMax`. -/
def blockMaxThread (cell : Nat → SoftmaxCell) (count threadIdx : Nat)
    (rest : ℚ → Prog SoftmaxCell ℚ (Collective ℚ)) : Prog SoftmaxCell ℚ (Collective ℚ) :=
  let reduce (first : ℚ) : Prog SoftmaxCell ℚ (Collective ℚ) :=
    .fold cell (fun threadMax v => if v > threadMax then v else threadMax)
      (stridedLoop threadIdx blockSize count) first fun threadMax =>
    .meet (.blockReduce blockMaxOp) threadMax rest
  if count > 0 then .read (cell 0) reduce else reduce 0

/-- A thread of `BlockSum`. -/
def blockSumThread (cell : Nat → SoftmaxCell) (count threadIdx : Nat)
    (rest : ℚ → Prog SoftmaxCell ℚ (Collective ℚ)) : Prog SoftmaxCell ℚ (Collective ℚ) :=
  .fold cell (fun threadSum v => threadSum + v) (stridedLoop threadIdx blockSize count) 0
    fun threadSum => .meet (.blockReduce (· + ·)) threadSum rest

/-- `out_row[col]` and `input_row[col]`. -/
def outColumn (block : Nat × Nat) (col : Nat) : SoftmaxCell :=
  .out (g.rowOffset g.outStrides block.2 block.1 + col)

def inputColumn (block : Nat × Nat) (col : Nat) : SoftmaxCell :=
  .input (g.rowOffset g.inputStrides block.2 block.1 + col)

/-- The last loop of `CausalSoftmaxKernel`. -/
def divideColumns (block : Nat × Nat) (threadIdx : Nat) : Prog SoftmaxCell ℚ (Collective ℚ) :=
  .forEach (fun (col : Nat) rest =>
    .read (outColumn g block col) fun value =>
    .read (.sumVal block) fun sumVal =>
    .write (outColumn g block col) (value / sumVal) rest)
    (stridedLoop threadIdx blockSize g.totalSeqLen) .stop

/-- `CausalSoftmaxKernel` behind the exponentials. -/
def sumColumns (block : Nat × Nat) (threadIdx : Nat) : Prog SoftmaxCell ℚ (Collective ℚ) :=
  blockSumThread blockSize (outColumn g block) g.totalSeqLen threadIdx fun blockSum =>
  storeShared (.sumVal block) threadIdx blockSum (divideColumns g blockSize block threadIdx)

/-- `CausalSoftmaxKernel` behind the maximum. -/
def exponentiateColumns (block : Nat × Nat) (threadIdx : Nat) :
    Prog SoftmaxCell ℚ (Collective ℚ) :=
  .forEach (fun (col : Nat) rest =>
    if col < g.validLen block.1 then
      .read (inputColumn g block col) fun key =>
      .read (.maxVal block) fun maxVal =>
      .write (outColumn g block col) (exp (key - maxVal)) rest
    else .write (outColumn g block col) 0 rest)
    (stridedLoop threadIdx blockSize g.totalSeqLen)
    (.meet .syncthreads 0 fun _ => sumColumns g blockSize block threadIdx)

/-- `CausalSoftmaxKernel`. -/
def causalSoftmaxKernel (block : Nat × Nat) (threadIdx : Nat) :
    Prog SoftmaxCell ℚ (Collective ℚ) :=
  blockMaxThread blockSize (inputColumn g block) (g.validLen block.1) threadIdx fun blockMax =>
  storeShared (.maxVal block) threadIdx blockMax
    (exponentiateColumns g exp blockSize block threadIdx)

/-- The launch, `dim3 grid(seq_len_, batch_size_)`. -/
def causalSoftmaxGrid : Launch SoftmaxCell ℚ where
  gridX := toUInt32 g.seqLen
  gridY := toUInt32 g.batchSize
  blockDim := blockSize
  kernel := causalSoftmaxKernel g exp blockSize

end Kernel

/-- Construct `CudaCausalSoftmax` and call it, up to the launch. -/
def launchCausalSoftmax (exp : ℚ → ℚ) (d : CudaDevice) (input out : Tensor) :
    Except Failure (Launch SoftmaxCell ℚ) := do
  let g ← CausalSoftmax.new input out
  assertion (out.dtype = input.dtype) "out.dtype() == input.dtype()"
  let functor : Functor (Launch SoftmaxCell ℚ) :=
    .total fun listTag => causalSoftmaxGrid g exp (listTag.getD 1 0).toNat
  (dispatchKeys functor "CudaCausalSoftmax::operator()" d.dispatchLists
    [out.dtype.code, d.blockSize]).ending

end InfiniOps.Cuda
