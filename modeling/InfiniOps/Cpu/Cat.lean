/-
InfiniOps.Cpu.Cat — `Cat` on the CPU (`src/base/cat.h`,
`src/native/cpu/ops/cat/cat.h`).

The operator is a list of `memcpy` calls, one for each outer index and
input, with byte offsets in `size_t` arithmetic. Products and sums are
wrapped at the end of an expression.

`Concatenates` is what the strides and `dim` ask for: every element of an
input at its multi-index, moved along `dim` by the extents of the inputs
before it.
-/
import InfiniOps.Core.Dispatcher
import InfiniOps.Core.Strided
import InfiniOps.Lib.BlockStore

namespace InfiniOps.Cpu

open RowMajor BlockStore

/-- The members of `Cat`. -/
structure Cat where
  dim : Int
  inputCount : Nat
  deriving DecidableEq

namespace Cat

/-! ## Construction -/

/-- The checks of one of `rest_inputs`, and `expected_shape` after it. -/
def extend (dim : Int) (out : Tensor) (expectedShape : List Nat) (input : Tensor) :
    Except Failure (List Nat) := do
  assertion (input.ndim = out.ndim) "`Cat` requires all inputs to have same ndim"
  assertion (input.dtype = out.dtype) "`Cat` requires all inputs and output to have same dtype"
  assertion (input.device = out.device)
    "`Cat` requires all inputs and output to be on same device"
  assertion (∀ i < expectedShape.length, (i : Int) ≠ dim →
      input.size i = expectedShape.getD i 0)
    "`Cat` requires non-concatenated dimensions to match"
  return expectedShape.set dim.toNat (toUInt64 (expectedShape.getD dim.toNat 0 + input.size dim))

/-- `Cat::Cat`. -/
def new (firstInput : Tensor) (restInputs : List Tensor) (dim : Int) (out : Tensor) :
    Except Failure Cat := do
  let inputCount := 1 + restInputs.length
  assertion (2 ≤ inputCount) "`Cat` requires at least 2 input tensors"
  let ndim : Int := out.ndim
  let dim := if dim < 0 then dim + ndim else dim
  assertion (0 ≤ dim ∧ dim < ndim) "`Cat` dim out of range"
  assertion (firstInput.ndim = out.ndim) "`Cat` requires inputs and output to have same ndim"
  assertion (firstInput.dtype = out.dtype) "`Cat` requires inputs and output to have same dtype"
  assertion (firstInput.device = out.device)
    "`Cat` requires inputs and output to be on same device"
  let expectedShape ← restInputs.foldlM (extend dim out) firstInput.shape
  assertion (out.shape = expectedShape)
    "`Cat` requires output shape to equal concatenated input shape"
  return { dim, inputCount }

/-! ## The call -/

/-- The arguments of a `memcpy`. -/
structure Copy where
  dst : Int
  src : Int
  size : Nat
  deriving DecidableEq

/-- The product of some extents. -/
def extentProduct (extents : List Nat) : Nat :=
  extents.foldl (fun (product extent : Nat) => toUInt64 (product * extent)) 1

/-- The copies of one outer index, from `offset_in_dim` on. -/
def slice (dim : Nat) (out : Tensor) (o inner elemSize outDimSize : Nat) :
    (offsetInDim : Nat) → List Tensor → List Copy
  | _, [] => []
  | offsetInDim, input :: inputs =>
    let inDim := input.shape.getD dim 0
    let srcOffset := toUInt64 (o * inDim * inner * elemSize)
    let dstOffset := toUInt64 ((o * outDimSize + offsetInDim) * inner * elemSize)
    let copySize := toUInt64 (inDim * inner * elemSize)
    { dst := out.data + dstOffset, src := input.data + srcOffset, size := copySize } ::
      slice dim out o inner elemSize outDimSize (toUInt64 (offsetInDim + inDim)) inputs

variable (m : Cat)

/-- The copies of `operator()`, in order. -/
def copies (firstInput : Tensor) (restInputs : List Tensor) (out : Tensor) : List Copy :=
  let inputs := (firstInput :: restInputs).take m.inputCount
  let dim := m.dim.toNat
  let elemSize := kDataTypeToSize out.dtype
  let outer := extentProduct (out.shape.take dim)
  let inner := extentProduct (out.shape.drop (dim + 1))
  let outDimSize := out.shape.getD dim 0
  (List.range outer).flatMap fun o => slice dim out o inner elemSize outDimSize 0 inputs

/-- `operator()`. -/
def call (firstInput : Tensor) (restInputs : List Tensor) (out : Tensor) (mem : Int → UInt8) :
    Int → UInt8 :=
  moveAll Copy.dst Copy.src Copy.size (fun _ block => block) mem
    (m.copies firstInput restInputs out)

end Cat

/-! ## What the operator has to do -/

/-- A contiguous tensor whose bytes lie in the address space. -/
structure Packed (t : Tensor) : Prop where
  rank_eq : t.strides.length = t.shape.length
  contiguous : t.isContiguous
  in_space : t.data + t.elementSize * t.numel ≤ 2 ^ 64

instance (t : Tensor) : Decidable (Packed t) :=
  decidable_of_iff (t.strides.length = t.shape.length ∧ t.isContiguous ∧
      t.data + t.elementSize * t.numel ≤ 2 ^ 64)
    ⟨fun h => ⟨h.1, h.2.1, h.2.2⟩, fun h => ⟨h.1, h.2, h.3⟩⟩

/-- The bytes of a contiguous tensor. -/
def buffer (t : Tensor) : List Int := span t.data (t.elementSize * t.numel)

/-- The first byte of an element, as a machine address. -/
def byteAddress (t : Tensor) (idx : List Nat) : Int := toUInt64 (t.address idx)

/-- Contiguous operands that the constructor accepts. The inputs together
have fewer than 2^64 bytes. -/
structure CatOperands where
  first : Tensor
  rest : List Tensor
  dim : Int
  out : Tensor
  members : Cat
  accepted : Cat.new first rest dim out = .ok members
  inputs_packed : ∀ t ∈ first :: rest, Packed t
  out_packed : Packed out
  bytes_lt : ((first :: rest).map fun t => t.elementSize * t.numel).sum < 2 ^ 64

namespace CatOperands

variable (x : CatOperands)

def inputs : List Tensor := x.first :: x.rest

/-- The dimension of the concatenation. -/
def axis : Nat := x.members.dim.toNat

/-- A multi-index of an input as one of the concatenation. -/
def shifted (before : List Tensor) (idx : List Nat) : List Nat :=
  idx.set x.axis ((before.map fun t => t.shape.getD x.axis 0).sum + idx.getD x.axis 0)

/-- The copies of the call. -/
def copies : List Cat.Copy := x.members.copies x.first x.rest x.out

/-- `out` holds the inputs one behind the other along `dim`. An input byte
that is itself a byte of `out` may have been written by the time it is
read. -/
structure Concatenates (mem mem' : Int → UInt8) : Prop where
  covers : ∀ idx, Valid x.out.shape idx → ∃ before t after idx',
    x.inputs = before ++ t :: after ∧ Valid t.shape idx' ∧ x.shifted before idx' = idx
  element : ∀ before t after, x.inputs = before ++ t :: after → ∀ idx, Valid t.shape idx →
    Valid x.out.shape (x.shifted before idx) ∧
      ∀ k < x.out.elementSize, byteAddress t idx + k ∉ buffer x.out →
        mem' (byteAddress x.out (x.shifted before idx) + k) = mem (byteAddress t idx + k)
  frame : ∀ p, p ∉ buffer x.out → mem' p = mem p

/-- The call concatenates, writes every byte of `out` once and touches no
byte outside the operands. -/
structure Correct : Prop where
  concatenates : ∀ mem, x.Concatenates mem (x.members.call x.first x.rest x.out mem)
  writes : ∀ p, (written Cat.Copy.dst Cat.Copy.size x.copies).count p
    = if p ∈ buffer x.out then 1 else 0
  reads : ∀ p ∈ written Cat.Copy.src Cat.Copy.size x.copies, ∃ t ∈ x.inputs, p ∈ buffer t

end CatOperands

end InfiniOps.Cpu
