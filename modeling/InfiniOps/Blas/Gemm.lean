/-
InfiniOps.Blas.Gemm — the three GEMM implementations: the CPU loop,
`BlasGemm` over a cuBLAS-style library, and the cuBLASLt operator.

`Gemm.new` is the base constructor (`src/base/gemm.h`): sizes, strides,
leading dimensions and batch strides are read off the tensors once, and
the three implementations work from these members.

Arithmetic is exact, over the rationals. The data of an operand are a
function from element offsets, relative to the data pointer, to values.

The BLAS libraries are not part of the repository. `BlasLib` and `LtLib`
are any functions with the documented column-major, strided-batched
address semantics; the integer conversions at their interfaces are those
of the C declarations, `int` for the sizes and leading dimensions of
`cublasGemmStridedBatchedEx` and 64-bit for cuBLASLt layouts.
-/
import InfiniOps.Core.MachineInt
import InfiniOps.Core.Tensor
import InfiniOps.Lib.StridedStore
import Mathlib.Data.Rat.Defs
import Mathlib.Algebra.Order.Field.Rat

namespace InfiniOps.Blas

open StridedStore

/-- The elements behind a data pointer, by offset. -/
abbrev Data := Int → ℚ

/-! ## The base class -/

/-- The members of `Gemm`. -/
structure Gemm where
  alpha : ℚ
  beta : ℚ
  transA : Bool
  transB : Bool
  m : Nat
  n : Nat
  k : Nat
  aStrides : List Int
  bStrides : List Int
  cStrides : List Int
  lda : Int
  ldb : Int
  ldc : Int
  batchCount : Nat
  batchStrideA : Int
  batchStrideB : Int
  batchStrideC : Int

/-- The scalar arguments that every entry point takes next to `a`, `b`
and `c`. -/
structure Scalars where
  alpha : Option ℚ := none
  beta : Option ℚ := none
  transA : Option Int := none
  transB : Option Int := none

/-- The stride over the batch, 0 for a matrix without one. -/
def batchStride (t : Tensor) : Int := if t.strides.length > 2 then t.stride (-3) else 0

/-- The leading dimension. -/
def leadingDim (t : Tensor) : Int := max (t.stride (-2)) (t.stride (-1))

/-- `static_cast<bool>(trans.value_or(false))`. -/
def transFlag (trans : Option Int) : Bool := trans.getD 0 ≠ 0

/-- The constructor. -/
def Gemm.new (a b : Tensor) (s : Scalars) (c : Tensor) : Gemm :=
  let transA := transFlag s.transA
  { alpha := s.alpha.getD 1
    beta := s.beta.getD 1
    transA
    transB := transFlag s.transB
    m := c.size (-2)
    n := c.size (-1)
    k := if transA then a.size (-2) else a.size (-1)
    aStrides := a.strides
    bStrides := b.strides
    cStrides := c.strides
    lda := leadingDim a
    ldb := leadingDim b
    ldc := leadingDim c
    batchCount := if c.strides.length > 2 then c.size (-3) else 1
    batchStrideA := batchStride a
    batchStrideB := batchStride b
    batchStrideC := batchStride c }

/-- `value_or` of a call's transpose flag over the member. -/
def transValue (trans : Option Int) (member : Bool) : Int := trans.getD (if member then 1 else 0)

/-! ## The CPU loop -/

/-- `strides[strides.size() - i]`. -/
def strideFromEnd (strides : List Int) (i : Nat) : Int := strides.getD (strides.length - i) 0

/-- `Compute`, with exact arithmetic in place of the casts. -/
def Gemm.compute (g : Gemm) (A B : Data) (s : Scalars) (C : Data) : Data :=
  let alphaValue := s.alpha.getD g.alpha
  let betaValue := s.beta.getD g.beta
  let transAValue := transValue s.transA g.transA
  let transBValue := transValue s.transB g.transB
  let strideAM := if transAValue ≠ 0 then strideFromEnd g.aStrides 1 else strideFromEnd g.aStrides 2
  let strideAK := if transAValue ≠ 0 then strideFromEnd g.aStrides 2 else strideFromEnd g.aStrides 1
  let strideBK := if transBValue ≠ 0 then strideFromEnd g.bStrides 1 else strideFromEnd g.bStrides 2
  let strideBN := if transBValue ≠ 0 then strideFromEnd g.bStrides 2 else strideFromEnd g.bStrides 1
  let strideCM := strideFromEnd g.cStrides 2
  let strideCN := strideFromEnd g.cStrides 1
  (List.range g.batchCount).foldl (fun C (p : Nat) =>
    (List.range g.m).foldl (fun C (i : Nat) =>
      (List.range g.n).foldl (fun C (j : Nat) =>
        let sum := (List.range g.k).foldl (fun sum (l : Nat) =>
          sum + A (p * g.batchStrideA + (i * strideAM + l * strideAK))
            * B (p * g.batchStrideB + (l * strideBK + j * strideBN))) 0
        let idx : Int := p * g.batchStrideC + (i * strideCM + j * strideCN)
        let cVal := if betaValue = 0 then 0 else C idx
        Function.update C idx (alphaValue * sum + betaValue * cVal)) C) C) C

/-! ## BLAS libraries -/

/-- `BLAS_OP_N` and `BLAS_OP_T`. -/
inductive BlasOp where
  | n
  | t
  deriving DecidableEq, Repr

/-- The offset of element (`r`, `c`) of `op(X)` in batch `p`, for a
column-major `X`. -/
def BlasOp.offset (op : BlasOp) (ld stride : Int) (p r c : Nat) : Int :=
  match op with
  | .n => p * stride + (r + c * ld)
  | .t => p * stride + (c + r * ld)

/-- The arguments of one strided-batched GEMM. -/
structure BlasArgs where
  opA : BlasOp
  opB : BlasOp
  m : Int
  n : Int
  k : Int
  alpha : ℚ
  A : Data
  lda : Int
  strideA : Int
  B : Data
  ldb : Int
  strideB : Int
  beta : ℚ
  ldc : Int
  strideC : Int
  batchCount : Int

namespace BlasArgs

variable (x : BlasArgs)

/-- No size is negative. -/
def Valid : Prop := 0 ≤ x.m ∧ 0 ≤ x.n ∧ 0 ≤ x.k ∧ 0 ≤ x.batchCount

/-- The offset of C(`i`, `j`) in batch `p`. -/
def cOffset (v : Nat × Nat × Nat) : Int := BlasOp.offset .n x.ldc x.strideC v.1 v.2.1 v.2.2

/-- All (batch, row, column) positions of C. -/
def positions : List (Nat × Nat × Nat) := triples x.batchCount.toNat x.m.toNat x.n.toNat

/-- The new value of a C element that holds `cVal`. C is not read when
beta is 0. -/
def newValue (v : Nat × Nat × Nat) (cVal : ℚ) : ℚ :=
  let sum := ((List.range x.k.toNat).map fun l =>
    x.A (x.opA.offset x.lda x.strideA v.1 v.2.1 l) * x.B (x.opB.offset x.ldb x.strideB v.1 l v.2.2)).sum
  if x.beta = 0 then x.alpha * sum else x.alpha * sum + x.beta * cVal

end BlasArgs

/-- `cublasGemmStridedBatchedEx`, as documented. Nothing is said of a C
whose elements overlap. -/
structure BlasLib where
  /-- The data of C after the call. -/
  gemm : BlasArgs → Data → Data
  /-- A negative size is rejected. -/
  gemm_of_not_valid : ∀ x C, ¬ x.Valid → gemm x C = C
  gemm_element : ∀ x C, x.Valid → (x.positions.map x.cOffset).Nodup → ∀ v ∈ x.positions,
    gemm x C (x.cOffset v) = x.newValue v (C (x.cOffset v))
  gemm_frame : ∀ x C, x.Valid → (x.positions.map x.cOffset).Nodup →
    ∀ o ∉ x.positions.map x.cOffset, gemm x C o = C o

/-- `cublasLtMatrixLayout_t`: a layout describes one matrix until the batch
attributes are set. -/
structure LtLayout where
  rows : Nat
  cols : Nat
  ld : Int
  batchCount : Int := 1
  batchStride : Int := 0

/-- The arguments of `cublasLtMatmul`. -/
structure LtArgs where
  opA : BlasOp
  opB : BlasOp
  alpha : ℚ
  A : Data
  aLayout : LtLayout
  B : Data
  bLayout : LtLayout
  beta : ℚ
  cLayout : LtLayout

namespace LtArgs

variable (x : LtArgs)

/-- The inner dimension of op(A). -/
def inner : Nat := match x.opA with
  | .n => x.aLayout.cols
  | .t => x.aLayout.rows

/-- The three layouts fit together. -/
def Valid : Prop :=
  (x.aLayout.rows, x.aLayout.cols) = (match x.opA with
    | .n => (x.cLayout.rows, x.inner)
    | .t => (x.inner, x.cLayout.rows)) ∧
  (x.bLayout.rows, x.bLayout.cols) = (match x.opB with
    | .n => (x.inner, x.cLayout.cols)
    | .t => (x.cLayout.cols, x.inner)) ∧
  x.aLayout.batchCount = x.cLayout.batchCount ∧ x.bLayout.batchCount = x.cLayout.batchCount

/-- The strided-batched GEMM that the layouts describe. -/
def toBlas : BlasArgs where
  opA := x.opA
  opB := x.opB
  m := x.cLayout.rows
  n := x.cLayout.cols
  k := x.inner
  alpha := x.alpha
  A := x.A
  lda := x.aLayout.ld
  strideA := x.aLayout.batchStride
  B := x.B
  ldb := x.bLayout.ld
  strideB := x.bLayout.batchStride
  beta := x.beta
  ldc := x.cLayout.ld
  strideC := x.cLayout.batchStride
  batchCount := x.cLayout.batchCount

end LtArgs

/-- `cublasLtMatmul` with C as input and output, as documented. -/
structure LtLib where
  /-- The data of C after the call. -/
  matmul : LtArgs → Data → Data
  matmul_element : ∀ x C, x.Valid → (x.toBlas.positions.map x.toBlas.cOffset).Nodup →
    ∀ v ∈ x.toBlas.positions,
      matmul x C (x.toBlas.cOffset v) = x.toBlas.newValue v (C (x.toBlas.cOffset v))

/-! ## The two CUDA operators -/

/-- The members that `BlasGemm` and the cuBLASLt operator add to `Gemm`. -/
structure CudaGemm extends Gemm where
  aIsColMajor : Bool
  bIsColMajor : Bool
  swapAAndB : Bool

namespace CudaGemm

/-- The constructor of both. -/
def new (a b : Tensor) (s : Scalars) (c : Tensor) : CudaGemm where
  toGemm := Gemm.new a b s c
  aIsColMajor := a.stride (-1) = 1
  bIsColMajor := b.stride (-1) = 1
  swapAAndB := c.stride (-1) = 1

/-- A `bool` where an `int` is expected. -/
def boolToInt (b : Bool) : Int := if b then 1 else 0

/-- `GetOpA`. -/
def getOpA (g : CudaGemm) (transA transB : Int) : BlasOp :=
  if g.swapAAndB then
    if boolToInt g.bIsColMajor = transB then .t else .n
  else if boolToInt g.aIsColMajor ≠ transA then .t else .n

/-- `GetOpB`. -/
def getOpB (g : CudaGemm) (transA transB : Int) : BlasOp :=
  if g.swapAAndB then
    if boolToInt g.aIsColMajor = transA then .t else .n
  else if boolToInt g.bIsColMajor ≠ transB then .t else .n

/-- The arguments that `BlasGemm::operator()` passes. The sizes are
`size_t` and the leading dimensions `ptrdiff_t` on this side. -/
def blasArgs (g : CudaGemm) (A B : Data) (s : Scalars) : BlasArgs :=
  let transAValue := transValue s.transA g.transA
  let transBValue := transValue s.transB g.transB
  { opA := g.getOpA transAValue transBValue
    opB := g.getOpB transAValue transBValue
    m := toInt32 (if g.swapAAndB then g.n else g.m)
    n := toInt32 (if g.swapAAndB then g.m else g.n)
    k := toInt32 g.k
    alpha := s.alpha.getD g.alpha
    A := if g.swapAAndB then B else A
    lda := toInt32 (if g.swapAAndB then g.ldb else g.lda)
    strideA := if g.swapAAndB then g.batchStrideB else g.batchStrideA
    B := if g.swapAAndB then A else B
    ldb := toInt32 (if g.swapAAndB then g.lda else g.ldb)
    strideB := if g.swapAAndB then g.batchStrideA else g.batchStrideB
    beta := s.beta.getD g.beta
    ldc := toInt32 g.ldc
    strideC := g.batchStrideC
    batchCount := toInt32 g.batchCount }

/-- `BlasGemm::operator()`. -/
def blasGemm (lib : BlasLib) (g : CudaGemm) (A B : Data) (s : Scalars) (C : Data) : Data :=
  lib.gemm (g.blasArgs A B s) C

/-- `SetStridedBatchAttributes`. -/
def setStridedBatchAttributes (g : CudaGemm) (layout : LtLayout) (batchStride : Int) : LtLayout :=
  { layout with batchCount := toInt32 g.batchCount, batchStride }

/-- The arguments that the cuBLASLt operator passes. -/
def ltArgs (g : CudaGemm) (A B : Data) (s : Scalars) : LtArgs :=
  let transAValue := transValue s.transA g.transA
  let transBValue := transValue s.transB g.transB
  let opA := g.getOpA transAValue transBValue
  let opB := g.getOpB transAValue transBValue
  let matmulM := toInt64 (if g.swapAAndB then g.n else g.m)
  let matmulN := toInt64 (if g.swapAAndB then g.m else g.n)
  let matmulK := toInt64 g.k
  let aLd := toUInt64 (if g.swapAAndB then g.ldb else g.lda)
  let bLd := toUInt64 (if g.swapAAndB then g.lda else g.ldb)
  let cLd := toUInt64 g.ldc
  let layout (rows cols : Int) (ld : Nat) : LtLayout :=
    { rows := toUInt64 rows, cols := toUInt64 cols, ld := toInt64 ld }
  let batched (l : LtLayout) (stride : Int) : LtLayout :=
    if g.batchCount > 1 then g.setStridedBatchAttributes l stride else l
  { opA
    opB
    alpha := s.alpha.getD g.alpha
    A := if g.swapAAndB then B else A
    aLayout := batched
      (layout (if opA = .n then matmulM else matmulK) (if opA = .n then matmulK else matmulM) aLd)
      (if g.swapAAndB then g.batchStrideB else g.batchStrideA)
    B := if g.swapAAndB then A else B
    bLayout := batched
      (layout (if opB = .n then matmulK else matmulN) (if opB = .n then matmulN else matmulK) bLd)
      (if g.swapAAndB then g.batchStrideA else g.batchStrideB)
    beta := s.beta.getD g.beta
    cLayout := batched (layout matmulM matmulN cLd) g.batchStrideC }

/-- The cuBLASLt operator. -/
def ltGemm (lib : LtLib) (g : CudaGemm) (A B : Data) (s : Scalars) (C : Data) : Data :=
  lib.matmul (g.ltArgs A B s) C

end CudaGemm

end InfiniOps.Blas
