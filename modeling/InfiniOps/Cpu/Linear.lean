/-
InfiniOps.Cpu.Linear — the CPU `Linear` operator (`src/base/linear.h`,
`src/native/cpu/ops/linear`), and what it has to compute.

The members and the address computations are those of the source: a batch
is one multiplication by the third stride from the end, whatever the rank.
`LinearProblem` is a call whose operands the constructor accepts and whose
batch dimensions broadcast to those of `out`; `specAt` is the batched
matrix product over multi-indices.

Arithmetic is exact. The elements behind a data pointer are a partial
function from element offsets, so that a read outside of the tensor has no
value and the call none either.
-/
import InfiniOps.Core.Dispatcher
import InfiniOps.Core.Strided
import InfiniOps.Lib.StridedStore
import Mathlib.Algebra.Order.Field.Rat
import Mathlib.Data.Rat.Defs

namespace InfiniOps.Cpu

open RowMajor StridedStore

/-- Values by element offset from the data pointer. -/
abbrev Data := Int → ℚ

/-- The elements that can be read there. -/
abbrev Load := Int → Option ℚ

/-! ## The base class -/

/-- The members of `Linear`. -/
structure Linear where
  aShape : List Nat
  bShape : List Nat
  outShape : List Nat
  aStrides : List Int
  bStrides : List Int
  outStrides : List Int
  transA : Bool
  transB : Bool
  hasBias : Bool

/-- The members that the constructor initializes. -/
def Linear.ofTensors (a b : Tensor) (bias : Option Tensor) (transA transB : Bool) (out : Tensor) :
    Linear where
  aShape := a.shape
  bShape := b.shape
  outShape := out.shape
  aStrides := a.strides
  bStrides := b.strides
  outStrides := out.strides
  transA
  transB
  hasBias := bias.isSome

/-- The assertions about a bias. -/
def Linear.checkBias (bias : Option Tensor) (out : Tensor) : Except Failure Unit :=
  match bias with
  | none => .ok ()
  | some bias => do
    assertion (bias.dtype = out.dtype)
      "operator `Linear` requires bias and out to have the same dtype"
    assertion (bias.ndim = 1 ∧ bias.size 0 = out.size (-1))
      "`Linear`: `bias` must be 1D `[out_features]`"

/-- The constructor. -/
def Linear.new (a b : Tensor) (bias : Option Tensor) (transA transB : Bool) (out : Tensor) :
    Except Failure Linear := do
  assertion (a.dtype = b.dtype) "operator `Linear` requires a and b to have the same dtype"
  assertion (a.dtype = out.dtype) "operator `Linear` requires a and out to have the same dtype"
  let aRows := if transA then a.size (-1) else a.size (-2)
  let aCols := if transA then a.size (-2) else a.size (-1)
  let bRows := if transB then b.size (-1) else b.size (-2)
  let bCols := if transB then b.size (-2) else b.size (-1)
  assertion (aCols = bRows) "`Linear`: inner dimensions must match after transpose flags"
  assertion (out.size (-2) = aRows ∧ out.size (-1) = bCols)
    "`Linear`: output matrix dimensions must match inputs"
  checkBias bias out
  return ofTensors a b bias transA transB out

/-! ## The operator -/

/-- The stride over the batch, of a tensor with this rank and strides. -/
def batchStride (ndim : Nat) (strides : List Int) : Int :=
  if ndim > 2 then strides.getD (ndim - 3) 0 else 0

/-- A step of `row` rows and `col` columns in op of a matrix. -/
def matrixStep (trans : Bool) (ndim : Nat) (strides : List Int) (row col : Nat) : Int :=
  let strideRow := if trans then strides.getD (ndim - 1) 0 else strides.getD (ndim - 2) 0
  let strideCol := if trans then strides.getD (ndim - 2) 0 else strides.getD (ndim - 1) 0
  row * strideRow + col * strideCol

namespace Linear

variable (g : Linear)

def m : Nat := g.outShape.getD (g.outShape.length - 2) 0

def n : Nat := g.outShape.getD (g.outShape.length - 1) 0

def k (transA : Bool) : Nat :=
  if transA then g.aShape.getD (g.aShape.length - 2) 0 else g.aShape.getD (g.aShape.length - 1) 0

/-- The product of the leading extents of `out`, in `size_t`. -/
def batchCount : Nat :=
  (List.range (g.outShape.length - 2)).foldl
    (fun count i => toUInt64 (count * g.outShape.getD i 0 : Nat)) 1

def aIndex (transA : Bool) (p i l : Nat) : Int :=
  p * batchStride g.aShape.length g.aStrides + matrixStep transA g.aShape.length g.aStrides i l

def bIndex (transB : Bool) (p l j : Nat) : Int :=
  p * batchStride g.bShape.length g.bStrides + matrixStep transB g.bShape.length g.bStrides l j

def outIndex (v : Nat × Nat × Nat) : Int :=
  v.1 * batchStride g.outShape.length g.outStrides
    + matrixStep false g.outShape.length g.outStrides v.2.1 v.2.2

/-- One summand, from an element of `a` and one of `b`. -/
def term (A B : Load) (transA transB : Bool) (p i j l : Nat) : Option ℚ := do
  let aVal ← A (g.aIndex transA p i l)
  let bVal ← B (g.bIndex transB p l j)
  return aVal * bVal

/-- The bias is added to a sum. -/
def addBias (bias : Option (Tensor × Load)) (j : Nat) (sum : ℚ) : Option ℚ :=
  match bias with
  | none => some sum
  | some (t, load) =>
    let biasStride := t.strides.getD (t.shape.length - 1) 0
    (load (j * biasStride)).map (sum + ·)

/-- The body of the loops over the batch, the rows and the columns, up to
the store. -/
def value (A B : Load) (bias : Option (Tensor × Load)) (transA transB : Bool)
    (v : Nat × Nat × Nat) :
    Option ℚ := do
  let (p, i, j) := v
  let sum ← (List.range (g.k transA)).foldlM (fun sum l =>
    (g.term A B transA transB p i j l).map (sum + ·)) 0
  addBias bias j sum

/-- `Compute<T>`. `none` if a read is outside of its tensor. -/
def compute (A B : Load) (bias : Option (Tensor × Load)) (transA transB : Bool) (out : Data) :
    Option Data :=
  (triples g.batchCount g.m g.n).foldlM (fun out v =>
    (g.value A B bias transA transB v).map (Function.update out (g.outIndex v))) out

end Linear

/-- Construct the operator and call it. -/
def linear (a b : Tensor) (bias : Option (Tensor × Load)) (transA transB : Bool) (out : Tensor)
    (A B : Load) (C : Data) : Except Failure (Option Data) := do
  let members ← Linear.new a b (bias.map Prod.fst) transA transB out
  let dispatched : Run DataType (Option Data) :=
    dispatchFunc DataType.code true (fun _ => true) allFloatTypes out.dtype
      (fun dtype => ⟨[dtype], .ok (members.compute A B bias transA transB C)⟩)
      "`Operator<Linear, Device::Type::kCpu>::operator()`"
  dispatched.ending

/-! ## Batched matrix products -/

/-- The leading dimensions of a tensor of matrices. -/
def batchShape (t : Tensor) : List Nat := t.shape.take (t.ndim - 2)

/-- The offsets of the elements. -/
def elements (t : Tensor) : List Int :=
  (List.range t.shape.prod).map fun i => t.offset (unravel t.shape i)

/-- The elements of a tensor, with their values, and nothing else. -/
def loadOf (t : Tensor) (A : Data) : Load := fun o => if o ∈ elements t then some (A o) else none

/-- The offset of element (`row`, `col`) of op(`t`) at batch `q` of a
broadcast. -/
def opOffset (t : Tensor) (trans : Bool) (q : List Nat) (row col : Nat) : Int :=
  t.offset (broadcastIndex (batchShape t) q ++ if trans then [col, row] else [row, col])

/-- A call that the constructor accepts, with matrices or batches of
matrices whose batch dimensions broadcast to those of `out`. -/
structure LinearProblem where
  a : StoredTensor
  b : StoredTensor
  bias : Option StoredTensor
  transA : Bool
  transB : Bool
  out : StoredTensor
  a_rank : 2 ≤ a.shape.length
  b_rank : 2 ≤ b.shape.length
  out_rank : 2 ≤ out.shape.length
  accepted : ∃ members, Linear.new a.toTensor b.toTensor (bias.map (·.toTensor)) transA transB
    out.toTensor = .ok members
  a_broadcasts : Broadcasts (batchShape a.toTensor) (batchShape out.toTensor)
  b_broadcasts : Broadcasts (batchShape b.toTensor) (batchShape out.toTensor)
  injective : out.Injective

namespace LinearProblem

variable (x : LinearProblem)

def m : Nat := x.out.size (-2)

def n : Nat := x.out.size (-1)

def k : Nat := if x.transA then x.a.size (-2) else x.a.size (-1)

/-- op(a) * op(b) + bias at batch `q`, row `i`, column `j`. -/
def specAt (A B bias : Data) (q : List Nat) (i j : Nat) : ℚ :=
  ((List.range x.k).map fun l =>
      A (opOffset x.a.toTensor x.transA q i l) * B (opOffset x.b.toTensor x.transB q l j)).sum
    + match x.bias with
      | none => 0
      | some t => bias (t.offset [j])

/-- The call with the given contents of its tensors. -/
def result (A B bias C : Data) : Except Failure (Option Data) :=
  linear x.a.toTensor x.b.toTensor
    (x.bias.map fun t => (t.toTensor, loadOf t.toTensor bias)) x.transA
    x.transB x.out.toTensor (loadOf x.a.toTensor A) (loadOf x.b.toTensor B) C

/-- Every call returns, with the batched product in `out`. -/
def Meets : Prop :=
  ∀ A B bias C : Data, ∃ C', x.result A B bias C = .ok (some C') ∧
    ∀ q i j, Valid (batchShape x.out.toTensor) q → i < x.m → j < x.n →
      C' (x.out.offset (q ++ [i, j])) = x.specAt A B bias q i j

/-- The offset at which batch `q` of a broadcast starts. -/
def batchOffset (t : Tensor) (q : List Nat) : Int :=
  dot (broadcastIndex (batchShape t) q) (t.strides.take (t.ndim - 2))

/-- Multiples of the three batch strides reach every batch: one multiplier
for `out` and, if anything is read, for `a` and `b`. -/
def BatchesAgree : Prop :=
  ∀ q, Valid (batchShape x.out.toTensor) q → ∃ p < (batchShape x.out.toTensor).prod,
    p * batchStride x.out.shape.length x.out.strides = batchOffset x.out.toTensor q ∧
      (x.k = 0 ∨
        p * batchStride x.a.shape.length x.a.strides = batchOffset x.a.toTensor q ∧
        p * batchStride x.b.shape.length x.b.strides = batchOffset x.b.toTensor q)

instance : Decidable x.BatchesAgree := decidable_of_iff _ forall_valid_iff.symm

/-- A type the operator is dispatched over, and nothing to write or batches
that one stride reaches. -/
def Fits : Prop := x.out.dtype ∈ allFloatTypes ∧ (x.out.numel = 0 ∨ x.BatchesAgree)

instance : Decidable x.Fits := inferInstanceAs (Decidable (_ ∧ _))

end LinearProblem

end InfiniOps.Cpu
