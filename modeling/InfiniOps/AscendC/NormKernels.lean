/-
InfiniOps.AscendC.NormKernels — the AscendC kernels `RmsNorm` and
`AddRmsNorm` (`custom/*/op_kernel/`) as seen from global memory.

Both entry points switch on the dtype code, decode the block's row range
from the tiling arguments and copy one padded row at a time. The two
kernels differ only in the operands they copy, so one definition
parametrised by these operands gives every global-memory access of a
block, in order.

Offsets are in bytes from the operand's base. The `int64_t` products of
the offsets are exact: they are bounded by the size of a buffer that the
host has allocated. The `int32_t` and `uint32_t` narrowings of the copy
lengths are written out.
-/
import InfiniOps.Core.DataType
import InfiniOps.Core.MachineInt

namespace InfiniOps.AscendC

/-- The types that the kernel templates are instantiated with. -/
inductive ElemType where
  | half | bfloat16 | float
  deriving DecidableEq, Repr

/-- `sizeof(T)`. -/
def ElemType.size : ElemType → Nat
  | .half => 2
  | .bfloat16 => 2
  | .float => 4

/-- The integer arguments of the two entry points. -/
structure LaunchArgs where
  totalRows : Nat
  dimLength : Nat
  dimLengthAlign : Nat
  formerNum : Nat
  formerLength : Nat
  tailLength : Nat
  dtypeCode : Int
  deriving DecidableEq, Repr

/-- The `GM_ADDR` arguments of the two entry points. -/
inductive Operand where
  | input | residual | weight | out | residualOut
  deriving DecidableEq, Repr

/-- One transfer between global memory and the unified buffer. -/
structure GmAccess where
  operand : Operand
  write : Bool
  offset : Nat
  bytes : Nat
  deriving DecidableEq, Repr

/-- The operands that a kernel copies for each row. -/
structure NormKernel where
  ins : List Operand
  outs : List Operand
  deriving DecidableEq, Repr

/-- `KernelRmsNorm`. -/
def kernelRmsNorm : NormKernel where
  ins := [.input]
  outs := [.out]

/-- `KernelAddRmsNorm`. -/
def kernelAddRmsNorm : NormKernel where
  ins := [.input, .residual]
  outs := [.out, .residualOut]

/-- The `switch` of the entry points. `DataType` has underlying type
`int8_t`, and every other code takes the `default` branch. -/
def instantiation (dtypeCode : Int) : ElemType :=
  if toInt8 dtypeCode = DataType.kFloat16.code then .half
  else if toInt8 dtypeCode = DataType.kBFloat16.code then .bfloat16
  else .float

/-! ## `Init` -/

namespace LaunchArgs

variable (a : LaunchArgs)

/-- `block_rows_`. -/
def blockRows (blockIdx : Nat) : Nat :=
  if blockIdx < a.formerNum then a.formerLength else a.tailLength

def rowOffset (blockIdx : Nat) : Nat :=
  if blockIdx < a.formerNum then a.formerLength * blockIdx
  else a.formerLength * a.formerNum + a.tailLength * (blockIdx - a.formerNum)

/-- The byte offset of `gm[row * dim_length_align_]`, where `gm` was set to
the block's first row. -/
def gmOffset (T : ElemType) (blockIdx row : Nat) : Nat :=
  (a.rowOffset blockIdx * a.dimLengthAlign + row * a.dimLengthAlign) * T.size

/-- The copy length of `CopyIn` and `CopyOut`. -/
def rowBytes (T : ElemType) : Nat := toUInt32 ((a.dimLengthAlign : Int) * T.size)

/-- The weight, read once for the block as `float` whatever `T` is. -/
def weightAccess : GmAccess where
  operand := .weight
  write := false
  offset := 0
  bytes := toUInt32 (toInt32 a.dimLengthAlign * ElemType.float.size)

end LaunchArgs

/-! ## `Process` -/

namespace NormKernel

variable (k : NormKernel) (T : ElemType) (a : LaunchArgs) (blockIdx : Nat)

def copyIn (row : Nat) : List GmAccess :=
  k.ins.map fun g => ⟨g, false, a.gmOffset T blockIdx row, a.rowBytes T⟩

def copyOut (row : Nat) : List GmAccess :=
  k.outs.map fun g => ⟨g, true, a.gmOffset T blockIdx row, a.rowBytes T⟩

/-- The global-memory accesses of one block. -/
def accesses : List GmAccess :=
  a.weightAccess :: (List.range (a.blockRows blockIdx)).flatMap fun row =>
    k.copyIn T a blockIdx row ++ k.copyOut T a blockIdx row

theorem mem_accesses {x : GmAccess} :
    x ∈ k.accesses T a blockIdx ↔ x = a.weightAccess ∨ ∃ row < a.blockRows blockIdx,
      x ∈ k.copyIn T a blockIdx row ∨ x ∈ k.copyOut T a blockIdx row := by
  simp [accesses]

/-- Every row access has the row's offset and length, and its operand is one
of the kernel's. -/
theorem row_access {x : GmAccess} {row : Nat}
    (h : x ∈ k.copyIn T a blockIdx row ∨ x ∈ k.copyOut T a blockIdx row) :
    x.operand ∈ k.ins ++ k.outs ∧ x.offset = a.gmOffset T blockIdx row ∧
      x.bytes = a.rowBytes T := by
  rw [copyIn, copyOut, List.mem_map, List.mem_map] at h
  obtain ⟨g, hg, rfl⟩ | ⟨g, hg, rfl⟩ := h
  · simp [hg]
  · simp [hg]

end NormKernel

end InfiniOps.AscendC
