/-
InfiniOps.Softmax.CausalSoftmax — the CPU and CUDA implementations of
`CausalSoftmax`, and what they have to compute.

`CausalSoftmax` holds the members of `src/base/causal_softmax.h`. The CPU
operator runs over batches, rows and columns with the strides of both
tensors; the CUDA kernel is launched with one block per row and passes on
the batch and row strides only.

Arithmetic is exact and `exp` any function. A block reduction gives the
maximum or the sum of what its threads hold. The blocks of a grid, and the
threads of a block between two barriers, run in any order.
-/
import InfiniOps.Core.Dispatcher
import InfiniOps.Core.Strided
import InfiniOps.Cuda.ElementwiseLaunch
import InfiniOps.Lib.StridedLoop
import InfiniOps.Lib.StridedStore
import Mathlib.Algebra.BigOperators.Group.Finset.Basic
import Mathlib.Algebra.Order.Field.Rat
import Mathlib.Data.Finset.Lattice.Fold
import Mathlib.Data.List.ProdSigma

namespace InfiniOps.Softmax

open RowMajor StridedLoop StridedStore

/-- Values by element offset from the data pointer. -/
abbrev Data := Int → ℚ

/-! ## The base class -/

/-- The members of `CausalSoftmax`. -/
structure CausalSoftmax where
  dtype : DataType
  ndim : Nat
  batchSize : Nat
  seqLen : Nat
  totalSeqLen : Nat
  inputStrides : List Int
  outStrides : List Int

/-- The members that the constructor initializes. -/
def CausalSoftmax.ofTensors (input out : Tensor) : CausalSoftmax where
  dtype := input.dtype
  ndim := out.ndim
  batchSize := if out.ndim = 2 then 1 else out.size (-3)
  seqLen := out.size (-2)
  totalSeqLen := out.size (-1)
  inputStrides := input.strides
  outStrides := out.strides

/-- The constructor. -/
def CausalSoftmax.new (input out : Tensor) : Except Failure CausalSoftmax := do
  let members := ofTensors input out
  assertion (input.shape = out.shape) "`CausalSoftmax` requires `input` and `out` same shape"
  assertion (input.dtype = out.dtype) "`CausalSoftmax` requires `input` and `out` same dtype"
  assertion (members.ndim = 2 ∨ members.ndim = 3) "`CausalSoftmax` requires 2D or 3D tensor"
  assertion (members.seqLen ≤ members.totalSeqLen) "`CausalSoftmax` requires shape[-2] <= shape[-1]"
  return members

/-! ## Loops and reductions of a block of threads -/

/-- The orders in which a device runs what may run in any order. -/
structure Schedule where
  /-- The blocks of a grid. -/
  blocks : (gridX gridY : Nat) → List (Nat × Nat)
  blocks_perm : ∀ gridX gridY,
    (blocks gridX gridY).Perm (List.range gridX ×ˢ List.range gridY)
  /-- The iterations of the threads of a block, in the first loop over the
  columns and in the second one. -/
  columns : (block : Nat × Nat) → (second : Bool) → (blockSize count : Nat) → List Nat
  columns_perm : ∀ block second blockSize count, (columns block second blockSize count).Perm
    ((List.range blockSize).flatMap fun thread => stridedLoop thread blockSize count)

/-- Block after block and thread after thread. -/
def Schedule.inOrder : Schedule where
  blocks gridX gridY := List.range gridX ×ˢ List.range gridY
  blocks_perm _ _ := .refl _
  columns _ _ blockSize count := (List.range blockSize).flatMap fun thread =>
    stridedLoop thread blockSize count
  columns_perm _ _ _ _ := .refl _

/-- `BlockMaxOp`. -/
def blockMaxOp (a b : ℚ) : ℚ := if a > b then a else b

/-- `cub::BlockReduce::Reduce` on the values of the threads. -/
def blockReduce (op : ℚ → ℚ → ℚ) : List ℚ → ℚ
  | [] => 0
  | value :: values => values.foldl op value

/-- `BlockMax`. -/
def blockMax (blockSize : Nat) (data : Nat → ℚ) (count : Nat) : ℚ :=
  let threadMax (thread : Nat) : ℚ :=
    (stridedLoop thread blockSize count).foldl (fun threadMax i =>
      if data i > threadMax then data i else threadMax) (if count > 0 then data 0 else 0)
  blockReduce blockMaxOp ((List.range blockSize).map threadMax)

/-- `BlockSum`. -/
def blockSum (blockSize : Nat) (data : Nat → ℚ) (count : Nat) : ℚ :=
  let threadSum (thread : Nat) : ℚ :=
    (stridedLoop thread blockSize count).foldl (fun threadSum i => threadSum + data i) 0
  ((List.range blockSize).map threadSum).sum

/-! ## CPU -/

namespace CausalSoftmax

variable (g : CausalSoftmax)

/-- Where row `i` of batch `bi` starts. -/
def rowOffset (strides : List Int) (bi i : Nat) : Int :=
  let strideB := if g.ndim = 3 then strides.getD 0 0 else 0
  let strideI := strides.getD (g.ndim - 2) 0
  bi * strideB + i * strideI

/-- The stride along a row. -/
def strideJ (strides : List Int) : Int := strides.getD (g.ndim - 1) 0

/-- `valid_len`, the columns of row `i` that are not masked. -/
def validLen (i : Nat) : Nat := g.totalSeqLen - g.seqLen + i + 1

/-- The body of the loops over batches and rows. -/
def cpuRow (exp : ℚ → ℚ) (A out : Data) (v : Nat × Nat) : Data :=
  let outRow (j : Nat) : Int := g.rowOffset g.outStrides v.1 v.2 + j * g.strideJ g.outStrides
  let inputRow (j : Nat) : Int := g.rowOffset g.inputStrides v.1 v.2 + j * g.strideJ g.inputStrides
  let validLen := g.validLen v.2
  let out := (List.range' validLen (g.totalSeqLen - validLen)).foldl (fun out j =>
    Function.update out (outRow j) 0) out
  let maxVal := (List.range' 1 (validLen - 1)).foldl (fun maxVal j =>
    if A (inputRow j) > maxVal then A (inputRow j) else maxVal) (A (inputRow 0))
  let (out, sum) := (List.range validLen).foldl (fun (out, sum) j =>
    let v := exp (A (inputRow j) - maxVal)
    (Function.update out (outRow j) v, sum + v)) (out, 0)
  (List.range validLen).foldl (fun out j =>
    Function.update out (outRow j) (out (outRow j) / sum)) out

/-- `Compute<T>`. -/
def cpuCompute (exp : ℚ → ℚ) (A out : Data) : Data :=
  (List.range g.batchSize ×ˢ List.range g.seqLen).foldl (g.cpuRow exp A) out

/-! ## The CUDA kernel -/

/-- `CausalSoftmaxKernel` for the block of row `block.1` of batch `block.2`.
The elements of a row are taken to be adjacent. -/
def kernelBlock (blockSize : Nat) (s : Schedule) (exp : ℚ → ℚ) (A out : Data) (block : Nat × Nat) :
    Data :=
  let outRow (col : Nat) : Int := g.rowOffset g.outStrides block.2 block.1 + col
  let inputRow (col : Nat) : Int := g.rowOffset g.inputStrides block.2 block.1 + col
  let validLen := g.validLen block.1
  let maxVal := blockMax blockSize (fun i => A (inputRow i)) validLen
  let out := (s.columns block false blockSize g.totalSeqLen).foldl (fun out col =>
    Function.update out (outRow col)
      (if col < validLen then exp (A (inputRow col) - maxVal) else 0)) out
  let sumVal := blockSum blockSize (fun i => out (outRow i)) g.totalSeqLen
  (s.columns block true blockSize g.totalSeqLen).foldl (fun out col =>
    Function.update out (outRow col) (out (outRow col) / sumVal)) out

end CausalSoftmax

/-! ## The CUDA launcher -/

/-- `GetOptimalBlockSize`, of the number of threads that a block may have. -/
def getOptimalBlockSize (maxThreads : Nat) : Nat :=
  if maxThreads ≥ 2048 then 2048
  else if maxThreads ≥ 1024 then 1024
  else if maxThreads ≥ 512 then 512
  else if maxThreads ≥ 256 then 256
  else 128

/-- `SupportedCudaBlockSizesType`: the block sizes up to the backend's. -/
def supportedCudaBlockSizes (maxBlockSize : Nat) : List Nat :=
  Cuda.allCudaBlockSizes.filter (· ≤ maxBlockSize)

/-- A device and its backend. -/
structure CudaDevice where
  maxThreads : Nat
  /-- The smallest block size can be launched. -/
  maxThreads_ge : 128 ≤ maxThreads
  /-- `BackendMaxBlockSize`. -/
  maxBlockSize : Nat
  maxBlockSize_mem : maxBlockSize ∈ Cuda.allCudaBlockSizes
  /-- The largest grid that can be launched. -/
  maxGridX : Nat
  maxGridY : Nat
  maxGridX_lt : maxGridX < 2 ^ 32
  maxGridY_lt : maxGridY < 2 ^ 32

/-- The types of the CUDA dispatch. -/
def cudaTypes : List DataType := [.kFloat32] ++ reducedFloatTypes

namespace CudaDevice

variable (d : CudaDevice)

def blockSize : Nat := min (getOptimalBlockSize d.maxThreads) d.maxBlockSize

/-- The launch: a grid that is empty or too large is an error, which the
launcher does not look at, and no block runs. -/
def launch (g : CausalSoftmax) (blockSize : Nat) (s : Schedule) (exp : ℚ → ℚ)
    (A out : Data) : Data :=
  let gridX := toUInt32 g.seqLen
  let gridY := toUInt32 g.batchSize
  if 0 < gridX ∧ gridX ≤ d.maxGridX ∧ 0 < gridY ∧ gridY ≤ d.maxGridY then
    (s.blocks gridX gridY).foldl (g.kernelBlock blockSize s exp A) out
  else out

/-- The block sizes that are dispatched over, of type `int`. -/
def blockSizes : AllowedList where
  enumType := .int true 32
  values := (supportedCudaBlockSizes d.maxBlockSize).map Int.ofNat
  typed := by
    intro v hv
    obtain ⟨size, hsize, rfl⟩ := List.mem_map.mp hv
    have hsize := (List.mem_filter.mp hsize).1
    simp only [Cuda.allCudaBlockSizes, List.mem_cons, List.not_mem_nil, or_false] at hsize
    rcases hsize with rfl | rfl | rfl | rfl | rfl <;> decide
  nonempty := by
    have hmem : d.maxBlockSize ∈ supportedCudaBlockSizes d.maxBlockSize :=
      List.mem_filter.mpr ⟨d.maxBlockSize_mem, by simp⟩
    exact List.ne_nil_of_mem (List.mem_map_of_mem hmem)

/-- The allowed values of the two keys, the type and the block size. -/
def dispatchLists : List AllowedList := [.ofDataTypes cudaTypes (by decide), d.blockSizes]

end CudaDevice

/-- Construct the CPU operator and call it. -/
def cpuCausalSoftmax (exp : ℚ → ℚ) (input out : Tensor) (A C : Data) : Except Failure Data := do
  let g ← CausalSoftmax.new input out
  let dispatched : Run DataType Data :=
    dispatchFunc DataType.code true (fun _ => true) allFloatTypes out.dtype
      (fun dtype => ⟨[dtype], .ok (g.cpuCompute exp A C)⟩)
      "`Operator<CausalSoftmax, Device::Type::kCpu>::operator()`"
  dispatched.ending

/-- Construct `CudaCausalSoftmax` and call it. -/
def cudaCausalSoftmax (d : CudaDevice) (s : Schedule) (exp : ℚ → ℚ) (input out : Tensor)
    (A C : Data) :
    Except Failure Data := do
  let g ← CausalSoftmax.new input out
  assertion (out.dtype = input.dtype) "out.dtype() == input.dtype()"
  let functor : Functor Data :=
    .total fun listTag => d.launch g (listTag.getD 1 0).toNat s exp A C
  (dispatchKeys functor "CudaCausalSoftmax::operator()" d.dispatchLists
    [out.dtype.code, d.blockSize]).ending

/-! ## Causal softmax -/

/-- A call that the constructor accepts. -/
structure SoftmaxProblem where
  input : StoredTensor
  out : StoredTensor
  accepted : ∃ members, CausalSoftmax.new input.toTensor out.toTensor = .ok members
  injective : out.Injective

namespace SoftmaxProblem

variable (x : SoftmaxProblem)

def batch : Nat := if x.out.ndim = 2 then 1 else x.out.size (-3)

def seq : Nat := x.out.size (-2)

def total : Nat := x.out.size (-1)

/-- The offset of the element in batch `bi`, row `i`, column `j`. -/
def elemOffset (t : Tensor) (bi i j : Nat) : Int :=
  t.offset (if t.ndim = 2 then [i, j] else [bi, i, j])

/-- The last key of row `i` that is not masked. -/
def lastKey (i : Nat) : Nat := i + (x.total - x.seq)

/-- The keys of a row, and their maximum. -/
def key (A : Data) (bi i j : Nat) : ℚ := A (elemOffset x.input.toTensor bi i j)

def maxKey (A : Data) (bi i : Nat) : ℚ :=
  (Finset.range (x.lastKey i + 1)).sup' Finset.nonempty_range_add_one (x.key A bi i)

/-- Softmax over the keys up to the last one, and 0 beyond. -/
def specAt (exp : ℚ → ℚ) (A : Data) (bi i j : Nat) : ℚ :=
  if j ≤ x.lastKey i then
    exp (x.key A bi i j - x.maxKey A bi i)
      / ∑ k ∈ Finset.range (x.lastKey i + 1), exp (x.key A bi i k - x.maxKey A bi i)
  else 0

/-- `out` holds the causal softmax. -/
def Holds (exp : ℚ → ℚ) (A out : Data) : Prop :=
  ∀ bi i j, bi < x.batch → i < x.seq → j < x.total →
    out (elemOffset x.out.toTensor bi i j) = x.specAt exp A bi i j

/-- Both implementations return, with the causal softmax in `out`. -/
def Agree (d : CudaDevice) : Prop :=
  ∀ (exp : ℚ → ℚ) (A C : Data) (s : Schedule), (∀ y, 0 < exp y) →
    (∃ C', cpuCausalSoftmax exp x.input.toTensor x.out.toTensor A C = .ok C' ∧ x.Holds exp A C') ∧
    ∃ C', cudaCausalSoftmax d s exp x.input.toTensor x.out.toTensor A C = .ok C' ∧ x.Holds exp A C'

/-- A type that both are dispatched over, and nothing to write, or a grid
that can be launched and adjacent elements in rows of more than one. -/
def Fits (d : CudaDevice) : Prop :=
  x.out.dtype ∈ cudaTypes ∧ (x.out.numel = 0 ∨
    x.seq ≤ d.maxGridX ∧ x.batch ≤ d.maxGridY ∧
      (x.total = 1 ∨ x.input.stride (-1) = 1 ∧ x.out.stride (-1) = 1))

instance (d : CudaDevice) : Decidable (x.Fits d) := inferInstanceAs (Decidable (_ ∧ _))

end SoftmaxProblem

end InfiniOps.Softmax
