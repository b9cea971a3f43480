/-
InfiniOps.AscendC.CustomLauncher — the operators `RmsNorm` (index 1) and
`AddRmsNorm` (index 2) of InfiniOps, which launch the AscendC kernels
themselves (`native/ascend/ops/*/kernel_custom.h`).

The base classes make a batch and a head extent of the shape; the
constructors check the type and the alignment of the last extent; the call
splits the rows over at most 40 blocks. The two operators differ in the
tensor that the extents come from, in their checks and in the kernel. The
cast of `weight` and its workspace are left out: no size depends on them.

Extents are `Nat`, as in `TorchHost`. The product of two of them may leave
`int64_t`, which is undefined and ends the model.
-/
import InfiniOps.AscendC.NormCompute
import InfiniOps.Core.SizeArithmetic

namespace InfiniOps.AscendC

/-- The arithmetic that the torch hosts have too. -/
def HostError.toSizeError : HostError → SizeError
  | .torchCheck message => .aborted message
  | .divideByZero => .divideByZero

/-! ## The base classes -/

/-- `dim_`, `batch_size_` and `nhead_`. -/
structure NormExtents where
  dim : Nat
  batchSize : Nat
  nhead : Nat
  deriving DecidableEq, Repr

/-- `nhead_`. -/
def headExtent (t : Tensor) : Except SizeError Nat :=
  if t.ndim = 2 then .ok 1 else SizeError.extent t (-2)

/-- The extents of the tensor that a base class looks at. -/
def NormExtents.ofTensor (t : Tensor) : Except SizeError NormExtents := do
  let dim ← SizeError.extent t (-1)
  let batchSize ← SizeError.extent t (if t.ndim = 2 then -2 else -3)
  let nhead ← headExtent t
  return { dim, batchSize, nhead }

/-- `RmsNorm::RmsNorm`. -/
def rmsNormBase (input out : Tensor) : Except SizeError NormExtents := do
  let extents ← NormExtents.ofTensor out
  SizeError.check (input.dtype = out.dtype) "input.dtype() == out.dtype()"
  return extents

/-- `AddRmsNorm::AddRmsNorm`. -/
def addRmsNormBase (input residual out residualOut : Tensor) :
    Except SizeError NormExtents := do
  let extents ← NormExtents.ofTensor input
  SizeError.check (input.dtype = residual.dtype)
    "`AddRmsNorm`: `input` and `residual` must have the same dtype"
  SizeError.check (input.dtype = out.dtype)
    "`AddRmsNorm`: `input` and `out` must have the same dtype"
  SizeError.check (input.dtype = residualOut.dtype)
    "`AddRmsNorm`: `input` and `residual_out` must have the same dtype"
  return extents

/-! ## The operators -/

/-- The members of the operators that a call reads. -/
structure CustomNorm where
  dtype : DataType
  dim : Nat
  dimLengthAlign : Nat
  totalRows : Nat
  deriving DecidableEq, Repr

/-- The arguments of `aclrtlaunch_*`. -/
structure CustomLaunch where
  kernel : NormKernel
  blockDim : Nat
  args : LaunchArgs
  deriving DecidableEq, Repr

/-- The types that the constructors admit. -/
def IsKernelType (dtype : DataType) : Prop :=
  dtype = .kFloat16 ∨ dtype = .kBFloat16 ∨ dtype = .kFloat32

instance (dtype : DataType) : Decidable (IsKernelType dtype) :=
  inferInstanceAs (Decidable (_ ∨ _))

/-- `total_rows_`. -/
def customTotalRows (extents : NormExtents) : Except SizeError Nat :=
  (SizeError.product extents.batchSize extents.nhead).map Int.toNat

/-- The constructors after their base class. -/
def CustomNorm.new (op : String) (dtype : DataType) (extents : NormExtents) :
    Except SizeError CustomNorm := do
  SizeError.check (IsKernelType dtype)
    s!"`{op}` custom kernel: `input` must be `fp16`, `bf16`, or `fp32`"
  let dimLengthAlign ←
    (alignedLength extents.dim (kDataTypeToSize dtype)).mapError HostError.toSizeError
  SizeError.check (extents.dim = dimLengthAlign)
    s!"`{op}` custom kernel: last dimension must be 32-byte aligned"
  let totalRows ← customTotalRows extents
  return { dtype, dim := extents.dim, dimLengthAlign, totalRows }

/-- The call. -/
def CustomNorm.launch (kernel : NormKernel) (m : CustomNorm) :
    Except SizeError CustomLaunch := do
  let tiling ← (customTiling m.totalRows).mapError HostError.toSizeError
  return { kernel, blockDim := toUInt32 tiling.usedCoreNum
           args :=
            { totalRows := m.totalRows
              dimLength := m.dim
              dimLengthAlign := m.dimLengthAlign
              formerNum := tiling.formerNum
              formerLength := tiling.formerLength
              tailLength := tiling.tailLength
              dtypeCode := m.dtype.code } }

/-- Construct `Operator<RmsNorm, kAscend, 1>` and call it. -/
def customRmsNorm (input out : Tensor) : Except SizeError CustomLaunch := do
  let extents ← rmsNormBase input out
  let members ← CustomNorm.new "RmsNorm" input.dtype extents
  members.launch kernelRmsNorm

/-- Construct `Operator<AddRmsNorm, kAscend, 2>` and call it. -/
def customAddRmsNorm (input residual out residualOut : Tensor) :
    Except SizeError CustomLaunch := do
  let extents ← addRmsNormBase input residual out residualOut
  let members ← CustomNorm.new "AddRmsNorm" input.dtype extents
  members.launch kernelAddRmsNorm

/-! ## What a launch tells -/

theorem ElemType.kDataTypeToSize_dataType (T : ElemType) :
    kDataTypeToSize T.dataType = T.size := by
  cases T <;> rfl

/-- A length rounded up to 32 bytes of elements of type `T`. -/
def alignedRow (T : ElemType) (dim : Nat) : Nat :=
  (dim + 32 / T.size - 1) / (32 / T.size) * (32 / T.size)

theorem alignedLength_eq (T : ElemType) (dim : Nat) :
    alignedLength dim T.size = .ok (alignedRow T dim) := by
  cases T <;> rfl

theorem mapError_eq_ok {ε ε' α : Type} {f : ε → ε'} {x : Except ε α} {a : α} :
    x.mapError f = .ok a ↔ x = .ok a := by
  cases x <;> simp [Except.mapError]

/-- A launch of an operator has a row of the aligned length and the code of
its type. -/
theorem launch_of_new {op : String} {dtype : DataType} {extents : NormExtents}
    {kernel : NormKernel} {l : CustomLaunch}
    (h : CustomNorm.new op dtype extents >>= CustomNorm.launch kernel = .ok l) :
    IsKernelType dtype ∧ l.kernel = kernel ∧ l.args.dimLengthAlign = extents.dim ∧
      alignedLength extents.dim (kDataTypeToSize dtype) = .ok extents.dim ∧
      l.args.dtypeCode = dtype.code := by
  simp only [CustomNorm.new, CustomNorm.launch, bind_eq_ok, mapError_eq_ok,
    SizeError.check_eq_ok] at h
  obtain ⟨members, ⟨-, htype, aligned, halign, -, haligned, rows, -, hm⟩, tiling, -, hl⟩ := h
  obtain rfl := Except.ok.inj hm
  obtain rfl := Except.ok.inj hl
  exact ⟨htype, rfl, haligned.symm, haligned ▸ halign, rfl⟩

theorem NormExtents.dim_of_ofTensor {t : Tensor} {extents : NormExtents}
    (h : NormExtents.ofTensor t = .ok extents) : t.size? (-1) = some extents.dim := by
  simp only [NormExtents.ofTensor, bind_eq_ok] at h
  obtain ⟨dim, hdim, _, -, _, -, he⟩ := h
  obtain rfl := Except.ok.inj he
  exact SizeError.extent_eq_ok.mp hdim

/-- A launch of a custom operator: its kernel, and the type and the last
extent of the tensor it was built for. -/
structure CustomLaunch.For (kernel : NormKernel) (dtype : DataType) (t : Tensor)
    (l : CustomLaunch) : Prop where
  type : IsKernelType dtype
  kernel : l.kernel = kernel
  length : t.size? (-1) = some l.args.dimLengthAlign
  aligned : alignedLength l.args.dimLengthAlign (kDataTypeToSize dtype)
    = .ok l.args.dimLengthAlign
  dtypeCode : l.args.dtypeCode = dtype.code

theorem customRmsNorm_launch {input out : Tensor} {l : CustomLaunch}
    (h : customRmsNorm input out = .ok l) : l.For kernelRmsNorm input.dtype out := by
  simp only [customRmsNorm, rmsNormBase, bind_eq_ok] at h
  obtain ⟨extents, ⟨extents', hextents, _, -, he⟩, hnew⟩ := h
  obtain rfl := Except.ok.inj he
  obtain ⟨htype, hkernel, hlength, haligned, hcode⟩ := launch_of_new (bind_eq_ok.mpr hnew)
  rw [← hlength] at haligned
  exact ⟨htype, hkernel, hlength ▸ NormExtents.dim_of_ofTensor hextents, haligned, hcode⟩

theorem customAddRmsNorm_launch {input residual out residualOut : Tensor} {l : CustomLaunch}
    (h : customAddRmsNorm input residual out residualOut = .ok l) :
    l.For kernelAddRmsNorm input.dtype input := by
  simp only [customAddRmsNorm, addRmsNormBase, bind_eq_ok] at h
  obtain ⟨extents, ⟨extents', hextents, _, -, _, -, _, -, he⟩, hnew⟩ := h
  obtain rfl := Except.ok.inj he
  obtain ⟨htype, hkernel, hlength, haligned, hcode⟩ := launch_of_new (bind_eq_ok.mpr hnew)
  rw [← hlength] at haligned
  exact ⟨htype, hkernel, hlength ▸ NormExtents.dim_of_ofTensor hextents, haligned, hcode⟩

end InfiniOps.AscendC
