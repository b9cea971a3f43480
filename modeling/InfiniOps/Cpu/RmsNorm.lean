/-
InfiniOps.Cpu.RmsNorm — `RmsNorm` on the CPU (`src/base/rms_norm.h`,
`src/native/cpu/ops/rms_norm/rms_norm.h`).

The base class makes a batch and a head extent of the shape, whatever the
rank, and the loops step through them by the first two strides. An extent
that is read outside of the shape makes the result `none`, as does a read
outside of `input`.

Arithmetic is exact, in any field, and the square root is any function.
`input` and `out` are arrays of their own, by element offset; `weight` is
read as the type that the operator is dispatched for, so its contents are
given by type and offset.
-/
import InfiniOps.Core.Dispatcher
import InfiniOps.Core.Strided
import InfiniOps.Cpu.Linear
import Mathlib.Algebra.Field.Defs
import Mathlib.Data.List.ProdSigma

namespace InfiniOps

namespace Cpu

open RowMajor StridedStore

/-- The members of `RmsNorm` that the CPU operator uses. -/
structure RmsNorm where
  inputStrides : List Int
  outStrides : List Int
  dim : Nat
  ndim : Nat
  batchSize : Nat
  nhead : Nat
  deriving DecidableEq

namespace RmsNorm

/-- The members that the constructor initializes. -/
def ofTensors (input out : Tensor) : Option RmsNorm := do
  let dim ← out.size? (-1)
  let ndim := out.ndim
  let batchSize ← if ndim = 2 then out.size? (-2) else out.size? (-3)
  let nhead ← if ndim = 2 then some 1 else out.size? (-2)
  return { inputStrides := input.strides, outStrides := out.strides, dim, ndim, batchSize, nhead }

/-- The strides of the two outer loops. -/
def strideBatch (strides : List Int) : Int := if strides.length > 1 then strides.getD 0 0 else 0

def strideNhead (strides : List Int) : Int :=
  if strides.length > 1 then strides.getD 1 0 else strides.getD 0 0

/-- Where the row of an iteration starts. -/
def row (strides : List Int) (v : Nat × Nat) : Int :=
  v.1 * strideBatch strides + v.2 * strideNhead strides

variable (m : RmsNorm)

/-- The iterations of the two outer loops, `bi` and `hi`. -/
def iterations : List (Nat × Nat) := List.range m.batchSize ×ˢ List.range m.nhead

section Compute

variable {K : Type} [Field K] (sqrt : K → K) (eps : K) (input : Int → Option K) (weight : Int → K)

/-- `ss`, the sum of the squares of a row. -/
def sumOfSquares (v : Nat × Nat) : Option K :=
  (List.range m.dim).foldlM (fun ss (k : Nat) =>
    (input (row m.inputStrides v + k)).map fun x => ss + x * x) 0

/-- The body of the outer loops. -/
def normalizeRow (out : Int → K) (v : Nat × Nat) : Option (Int → K) := do
  let ss ← m.sumOfSquares input v
  let rms := 1 / sqrt (ss / m.dim + eps)
  (List.range m.dim).foldlM (fun out (k : Nat) =>
    (input (row m.inputStrides v + k)).map fun x =>
      Function.update out (row m.outStrides v + k) (x * weight k * rms)) out

/-- `Compute<T>`. -/
def compute (out : Int → K) : Option (Int → K) :=
  m.iterations.foldlM (m.normalizeRow sqrt eps input weight) out

end Compute

end RmsNorm

/-- Construct the operator and call it. -/
def rmsNorm {K : Type} [Field K] (sqrt : K → K) (eps : K) (input out : Tensor)
    (inputData : Int → Option K) (weightData : DataType → Int → K) (outData : Int → K) :
    Except Failure (Option (Int → K)) :=
  match RmsNorm.ofTensors input out with
  | none => .ok none
  | some members => do
    assertion (input.dtype = out.dtype) "input.dtype() == out.dtype()"
    let dispatched : Run DataType (Option (Int → K)) :=
      dispatchFunc DataType.code true (fun _ => true) allFloatTypes out.dtype
        (fun dtype =>
          ⟨[dtype], .ok (members.compute sqrt eps inputData (weightData dtype) outData)⟩)
        "`Operator<RmsNorm, Device::Type::kCpu>::operator()`"
    dispatched.ending

/-! ## What the operator has to do -/

/-- Operands that the constructor accepts, of one shape, with a contiguous
`weight` of the last extent. -/
structure RmsNormProblem where
  input : StoredTensor
  weight : StoredTensor
  out : StoredTensor
  rank_pos : 1 ≤ out.shape.length
  input_shape : input.shape = out.shape
  weight_shape : weight.shape = [out.shape.getD (out.shape.length - 1) 0]
  weight_contiguous : weight.isContiguous
  accepted : input.dtype = out.dtype
  injective : out.Injective

namespace RmsNormProblem

variable (x : RmsNormProblem)

/-- The extents before the last. -/
def outerShape : List Nat := x.out.shape.take (x.out.shape.length - 1)

/-- The last extent. -/
def dim : Nat := x.out.shape.getD (x.out.shape.length - 1) 0

section Values

variable {K : Type} [Field K] (sqrt : K → K) (eps : K) (inputData : Int → K)
  (weightData : DataType → Int → K)

/-- The contents of `input`, and nothing else. -/
def inputOf : Int → Option K := fun o =>
  if o ∈ elements x.input.toTensor then some (inputData o) else none

/-- The normalized element at row `q` and column `j`. -/
def specAt (q : List Nat) (j : Nat) : K :=
  let mean := ((List.range x.dim).map fun l => inputData (x.input.offset (q ++ [l])) ^ 2).sum
    / x.dim
  inputData (x.input.offset (q ++ [j])) * weightData x.weight.dtype (x.weight.offset [j])
    / sqrt (mean + eps)

end Values

/-- Every call returns, with the normalized rows in `out`. -/
def Meets (K : Type) [Field K] : Prop :=
  ∀ (sqrt : K → K) (eps : K) (inputData : Int → K) (weightData : DataType → Int → K)
    (outData : Int → K), ∃ outData',
    rmsNorm sqrt eps x.input.toTensor x.out.toTensor (x.inputOf inputData) weightData outData
        = .ok (some outData') ∧
      ∀ q j, Valid x.outerShape q → j < x.dim →
        outData' (x.out.offset (q ++ [j])) = x.specAt sqrt eps inputData weightData q j

/-- The extents of the outer loops, for a rank of two or more. -/
def batchSize : Nat :=
  x.out.shape.getD (if x.out.ndim = 2 then 0 else x.out.ndim - 3) 0

def nhead : Nat := if x.out.ndim = 2 then 1 else x.out.shape.getD (x.out.ndim - 2) 0

/-- The offset at which row `q` starts. -/
def rowOffset (t : Tensor) (q : List Nat) : Int := dot q (t.strides.take (t.strides.length - 1))

/-- An iteration of the outer loops starts at every row, of `input` and of
`out`. -/
def RowsAgree : Prop :=
  ∀ q, Valid x.outerShape q → ∃ bi < x.batchSize, ∃ hi < x.nhead,
    RmsNorm.row x.input.strides (bi, hi) = rowOffset x.input.toTensor q ∧
      RmsNorm.row x.out.strides (bi, hi) = rowOffset x.out.toTensor q

instance : Decidable x.RowsAgree := decidable_of_iff _ forall_valid_iff.symm

/-- The stride of the last dimension. -/
def lastStride (t : Tensor) : Int := t.strides.getD (t.strides.length - 1) 0

/-- The elements of a row lie one behind the other. -/
def UnitColumns : Prop :=
  x.dim = 1 ∨ lastStride x.input.toTensor = 1 ∧ lastStride x.out.toTensor = 1

instance : Decidable x.UnitColumns := inferInstanceAs (Decidable (_ ∨ _))

/-- The operands that the loops are right for. -/
def Fits : Prop :=
  x.out.dtype ∈ allFloatTypes ∧ 2 ≤ x.out.shape.length ∧
    if x.out.numel = 0 then x.dim = 0 ∨ x.batchSize = 0 ∨ x.nhead = 0
    else x.weight.dtype = x.out.dtype ∧ x.RowsAgree ∧ x.UnitColumns

instance : Decidable x.Fits := inferInstanceAs (Decidable (_ ∧ _))

end RmsNormProblem

end Cpu

end InfiniOps
