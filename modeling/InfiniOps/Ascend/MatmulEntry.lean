/-
InfiniOps.Ascend.MatmulEntry — which ACLNN entry points the Ascend `Gemm`
and `Linear` call, and with which descriptors
(`src/native/ascend/ops/gemm/kernel.h`,
`src/native/ascend/ops/linear/kernel.h`).

`Gemm` chooses by `batch_count_`, `Linear` by the ranks of `out` and `b`,
the bias and a transpose flag; both at construction. The library is not
part of the repository: `AclnnCall.Accepts` is what its documentation asks
of the shapes.

`GemmMatches` and `LinearMatches` ask that every call is one that the
library accepts; `GemmFits` and `LinearFits` are the operands for which it
is. A call that an assertion of the operator rejects passes no descriptor.

Descriptors hold extents as `int64_t`; a `size_t` that was converted stays
the number it was.
-/
import InfiniOps.Cpu.Linear
import InfiniOps.Blas.LeadingDim

namespace InfiniOps.Ascend

open RowMajor

/-! ## Descriptors -/

/-- `aclDataType`, as far as it is used. -/
inductive AclDataType where
  | float16 | bf16 | float
  | int8 | int16 | int32 | int64
  | uint8 | uint16 | uint32 | uint64
  deriving DecidableEq, Repr

/-- `ToAclDtype`. -/
def toAclDtype : DataType → Except Failure AclDataType
  | .kFloat16 => .ok .float16
  | .kBFloat16 => .ok .bf16
  | .kFloat32 => .ok .float
  | .kInt8 => .ok .int8
  | .kInt16 => .ok .int16
  | .kInt32 => .ok .int32
  | .kInt64 => .ok .int64
  | .kUInt8 => .ok .uint8
  | .kUInt16 => .ok .uint16
  | .kUInt32 => .ok .uint32
  | .kUInt64 => .ok .uint64
  | .kFloat64 => .error (.aborted "unsupported dtype for Ascend backend")

/-- The metadata of an `AclTensorCache`. -/
structure AclTensorCache where
  shape : List Nat
  strides : List Int
  storageShape : List Int
  dtype : AclDataType
  deriving DecidableEq, Repr

/-- `std::swap` of the last two elements. -/
def swapLast2 {α : Type} (l : List α) : List α :=
  match l.reverse with
  | x :: y :: rest => rest.reverse ++ [x, y]
  | _ => l

namespace AclTensorCache

/-- The strides of a contiguous array, and the stride one dimension further
out. -/
def contiguousStrides (shape : List Nat) : List Int × Int :=
  shape.foldr (fun d (strides, stride) => (stride :: strides, stride * d)) ([], 1)

/-- The constructor from explicit metadata. -/
def contiguous (shape : List Nat) (dtype : AclDataType) : AclTensorCache where
  shape
  strides := (contiguousStrides shape).1
  storageShape := [(contiguousStrides shape).2]
  dtype

/-- `storage_elems`, counted up from `elems`. -/
def storageElems : List Nat → List Int → (elems : Int) → Int
  | d :: ds, s :: ss, elems =>
    if d = 0 then 0
    else storageElems ds ss (if 0 < s ∧ 1 < d then elems + (d - 1 : Nat) * s else elems)
  | _, _, elems => elems

/-- The descriptor of a tensor whose type has been converted. -/
def describe (t : Tensor) (transposeLast2 : Bool) (dtype : AclDataType) : AclTensorCache :=
  let shape := if transposeLast2 then swapLast2 t.shape else t.shape
  let strides := if transposeLast2 then swapLast2 t.strides else t.strides
  { shape, strides, storageShape := [storageElems shape strides 1], dtype }

/-- The constructor from a tensor. -/
def ofTensor (t : Tensor) (transposeLast2 : Bool) : Except Failure AclTensorCache :=
  (toAclDtype t.dtype).map (describe t transposeLast2)

/-- `bias_cache_`. -/
def ofBias : Option Tensor → Except Failure (Option AclTensorCache)
  | none => .ok none
  | some bias => (ofTensor bias false).map some

/-- Where the element at a multi-index lies, relative to the address. -/
def offset (t : AclTensorCache) (idx : List Nat) : Int := dot idx t.strides

end AclTensorCache

/-! ## Entry points -/

/-- The shapes of a `torch.matmul` of tensors of rank 2 or more. -/
def MatmulShapes (a b out : List Nat) : Prop :=
  ∃ batchesA batchesB batches m k n, a = batchesA ++ [m, k] ∧ b = batchesB ++ [k, n] ∧
    out = batches ++ [m, n] ∧ broadcastShape batchesA batchesB = some batches

/-- The size query of an ACLNN function, with its arguments. -/
inductive AclnnCall where
  | addmm (self mat1 mat2 : AclTensorCache) (beta alpha : ℚ) (out : AclTensorCache)
  | baddbmm (self batch1 batch2 : AclTensorCache) (beta alpha : ℚ) (out : AclTensorCache)
  | matmul (self mat2 out : AclTensorCache) (cubeMathType : Int)
  | add (self other : AclTensorCache) (alpha : ℚ) (out : AclTensorCache)

/-- The shapes that the function is documented for. -/
def AclnnCall.Accepts : AclnnCall → Prop
  | addmm self mat1 mat2 _ _ out =>
    ∃ m k n, mat1.shape = [m, k] ∧ mat2.shape = [k, n] ∧ out.shape = [m, n] ∧
      Broadcasts self.shape out.shape
  | baddbmm self batch1 batch2 _ _ out =>
    ∃ b m k n, batch1.shape = [b, m, k] ∧ batch2.shape = [b, k, n] ∧ out.shape = [b, m, n] ∧
      Broadcasts self.shape out.shape
  | matmul self mat2 out _ => MatmulShapes self.shape mat2.shape out.shape
  | add self other _ out => broadcastShape self.shape other.shape = some out.shape

/-! ## `Gemm` -/

/-- The members of `Operator<Gemm, kAscend>`. -/
structure GemmKernel where
  batched : Bool
  alphaVal : ℚ
  betaVal : ℚ
  self : AclTensorCache
  a : AclTensorCache
  b : AclTensorCache
  out : AclTensorCache

/-- The constructor. -/
def GemmKernel.new (a b : Tensor) (s : Blas.Scalars) (c : Tensor) : Except Failure GemmKernel := do
  let members := Blas.Gemm.new a b s c
  return {
    batched := members.batchCount > 1
    alphaVal := s.alpha.getD 1
    betaVal := s.beta.getD 1
    self := ← AclTensorCache.ofTensor c false
    a := ← AclTensorCache.ofTensor a members.transA
    b := ← AclTensorCache.ofTensor b members.transB
    out := ← AclTensorCache.ofTensor c false }

/-- The size query of the first call. -/
def GemmKernel.call (k : GemmKernel) : AclnnCall :=
  if k.batched then .baddbmm k.self k.a k.b k.betaVal k.alphaVal k.out
  else .addmm k.self k.a k.b k.betaVal k.alphaVal k.out

/-! ## `Linear` -/

/-- `flat_a_cache_` and `flat_out_cache_`. -/
structure FlatViews where
  a : AclTensorCache
  out : AclTensorCache

/-- The members of `Operator<Linear, kAscend>`. -/
structure LinearKernel where
  batched : Bool
  bias : Option AclTensorCache
  a : AclTensorCache
  b : AclTensorCache
  out : AclTensorCache
  flat : Option FlatViews

/-- Integer division, undefined by zero. -/
def divide (n d : Nat) : Option Nat := if d = 0 then none else some (n / d)

/-- The views of the flattened path. `none` if they are undefined. -/
def flatViews (a out : Tensor) : Except Failure (Option FlatViews) := do
  assertion a.isContiguous
    "`Linear`: Ascend batched input with 2D weight and bias requires contiguous input."
  assertion out.isContiguous
    "`Linear`: Ascend batched input with 2D weight and bias requires contiguous output."
  let dtypeA ← toAclDtype a.dtype
  let dtypeOut ← toAclDtype out.dtype
  return (divide out.numel (out.size (-1))).map fun rows =>
    { a := .contiguous [rows, a.size (-1)] dtypeA
      out := .contiguous [rows, out.size (-1)] dtypeOut }

/-- The constructor. `none` if it divides by zero. -/
def LinearKernel.new (a b : Tensor) (bias : Option Tensor) (transA transB : Bool) (out : Tensor) :
    Except Failure (Option LinearKernel) := do
  let members ← Cpu.Linear.new a b bias transA transB out
  let batched := out.ndim > 2
  let flattenBatchedBias := members.hasBias ∧ batched ∧ b.ndim = 2 ∧ !transA
  let aCache ← AclTensorCache.ofTensor a transA
  let bCache ← AclTensorCache.ofTensor b transB
  let outCache ← AclTensorCache.ofTensor out false
  let biasCache ← AclTensorCache.ofBias bias
  let kernel : LinearKernel :=
    { batched, bias := biasCache, a := aCache, b := bCache, out := outCache, flat := none }
  if flattenBatchedBias then
    let flat ← flatViews a out
    return flat.map fun flat => { kernel with flat := some flat }
  else
    return some kernel

/-- The size queries of the first call, in order. -/
def LinearKernel.calls (k : LinearKernel) : List AclnnCall :=
  match k.bias, k.flat with
  | some bias, some flat => [.matmul flat.a k.b flat.out 1, .add flat.out bias 1 flat.out]
  | some bias, none =>
    if k.batched then [.baddbmm bias k.a k.b 1 1 k.out] else [.addmm bias k.a k.b 1 1 k.out]
  | none, _ => [.matmul k.a k.b k.out 1]

/-! ## What is asked of them -/

/-- The entry point takes the operands. -/
def GemmMatches (x : Blas.MatrixOperands) : Prop :=
  ∀ kernel, GemmKernel.new x.a x.b x.s x.c = .ok kernel → kernel.call.Accepts

/-- A matrix with the rows of all the matrices of a batch, in order. -/
structure DescribesRows (view : AclTensorCache) (t : Tensor) (batches : List Nat)
    (rows cols : Nat) : Prop where
  shape : view.shape = [batches.prod * rows, cols]
  offset : ∀ q i l, Valid batches q → i < rows → l < cols →
    view.offset [ravel (batches ++ [rows]) (q ++ [i]), l] = Cpu.opOffset t false q i l

/-- Every entry point takes the operands, and the flat views are of the
operands. -/
def LinearMatches (x : Cpu.LinearProblem) : Prop :=
  ∀ result, LinearKernel.new x.a.toTensor x.b.toTensor (x.bias.map (·.toTensor)) x.transA x.transB
      x.out.toTensor = .ok result →
    ∃ kernel ∈ result, (∀ call ∈ kernel.calls, call.Accepts) ∧
      ∀ flat ∈ kernel.flat,
        DescribesRows flat.a x.a.toTensor (Cpu.batchShape x.out.toTensor) x.m x.k ∧
        DescribesRows flat.out x.out.toTensor (Cpu.batchShape x.out.toTensor) x.m x.n

/-- Types that `ToAclDtype` converts, with a batch of two or more of `a`,
`b` and `c` or with none at all. -/
def GemmFits (x : Blas.MatrixOperands) : Prop :=
  x.a.dtype ≠ .kFloat64 → x.b.dtype ≠ .kFloat64 → x.c.dtype ≠ .kFloat64 →
    if 1 < (Blas.Gemm.new x.a x.b x.s x.c).batchCount then x.a.ndim = 3 ∧ x.b.ndim = 3
    else x.a.ndim = 2 ∧ x.b.ndim = 2 ∧ x.c.ndim = 2

instance (x : Blas.MatrixOperands) : Decidable (GemmFits x) := by
  unfold GemmFits
  infer_instance

/-- A bias, a batch and a matrix `b`, with `a` as it is. -/
def Flattens (x : Cpu.LinearProblem) : Prop :=
  x.bias.isSome ∧ 2 < x.out.ndim ∧ x.b.ndim = 2 ∧ x.transA = false

instance (x : Cpu.LinearProblem) : Decidable (Flattens x) := inferInstanceAs (Decidable (_ ∧ _))

/-- `a` is not repeated over the batch, unless nothing of it is read. -/
def RowsAgree (x : Cpu.LinearProblem) : Prop :=
  x.n ≠ 0 ∧ (x.out.numel = 0 ∨ x.k = 0 ∨
    (Cpu.batchShape x.a.toTensor).prod = (Cpu.batchShape x.out.toTensor).prod)

instance (x : Cpu.LinearProblem) : Decidable (RowsAgree x) := inferInstanceAs (Decidable (_ ∧ _))

/-- One batch extent, the same in all operands, or none. -/
def RanksAgree (x : Cpu.LinearProblem) : Prop :=
  x.out.ndim = 2 ∨ x.out.ndim = 3 ∧
    Cpu.batchShape x.a.toTensor = Cpu.batchShape x.out.toTensor ∧
    Cpu.batchShape x.b.toTensor = Cpu.batchShape x.out.toTensor

instance (x : Cpu.LinearProblem) : Decidable (RanksAgree x) := inferInstanceAs (Decidable (_ ∨ _))

/-- Every batch dimension of `out` is one of `a` or of `b`. -/
def BatchesCovered (x : Cpu.LinearProblem) : Prop :=
  let batches := Cpu.batchShape x.out.toTensor
  let batchesA := Cpu.batchShape x.a.toTensor
  let batchesB := Cpu.batchShape x.b.toTensor
  max batchesA.length batchesB.length = batches.length ∧ ∀ d < batches.length,
    (padded batches.length batchesA).getD d 0 = batches.getD d 0 ∨
    (padded batches.length batchesB).getD d 0 = batches.getD d 0

instance (x : Cpu.LinearProblem) : Decidable (BatchesCovered x) :=
  inferInstanceAs (Decidable (_ ∧ _))

/-- A type that `ToAclDtype` converts, and what the path that is taken asks
for; contiguity is asserted. -/
def LinearFits (x : Cpu.LinearProblem) : Prop :=
  x.out.dtype ≠ .kFloat64 →
    if Flattens x then x.a.isContiguous → x.out.isContiguous → RowsAgree x
    else if x.bias.isSome then RanksAgree x
    else BatchesCovered x

instance (x : Cpu.LinearProblem) : Decidable (LinearFits x) := by
  unfold LinearFits
  infer_instance

end InfiniOps.Ascend
