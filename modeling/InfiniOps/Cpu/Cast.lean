/-
InfiniOps.Cpu.Cast — `Cast` on the CPU (`src/base/cast.h`,
`src/native/cpu/ops/cast/cast.h`).

The constructor compares element counts only, so the operands may differ
in rank and shape. Memory is one array of bytes; a conversion is any
function from the bytes of one type to those of the other.

`IndexToOffset` is called with the rank of `out` for both operands. It
reads `shape[i]` and `strides[i]` below that rank, and where an array is
shorter the result here is `none`.
-/
import InfiniOps.Core.Dispatcher
import InfiniOps.Core.Strided
import InfiniOps.Cpu.Elementwise
import InfiniOps.Lib.BlockStore

namespace InfiniOps.Cpu

open RowMajor BlockStore

/-- `Caster`, by the types of source and result. -/
structure Caster where
  cast : DataType → DataType → List UInt8 → List UInt8
  length_cast : ∀ src dst bytes, (cast src dst bytes).length = kDataTypeToSize dst

/-- The members of `Cast`. -/
structure Cast where
  ndim : Nat
  outputSize : Nat
  inputDtype : DataType
  outDtype : DataType
  inputShape : List Nat
  outShape : List Nat
  inputStrides : List Int
  outStrides : List Int
  isInputContiguous : Bool
  isOutContiguous : Bool

namespace Cast

/-- The members that the constructor initializes. `numel` is a `size_t`. -/
def ofTensors (input out : Tensor) : Cast where
  ndim := out.ndim
  outputSize := toUInt64 out.numel
  inputDtype := input.dtype
  outDtype := out.dtype
  inputShape := input.shape
  outShape := out.shape
  inputStrides := input.strides
  outStrides := out.strides
  isInputContiguous := input.isContiguous
  isOutContiguous := out.isContiguous

/-- `Cast::Cast`. -/
def new (input out : Tensor) : Except Failure Cast := do
  assertion (toUInt64 input.numel = toUInt64 out.numel)
    "the input and output of `Cast` must have the same number of elements"
  return ofTensors input out

variable (m : Cast)

/-- `get_idx`. -/
def getIdx (i : Nat) (isContig : Bool) (shape : List Nat) (strides : List Int) : Option Nat :=
  if isContig then some i
  else if m.ndim ≤ shape.length ∧ m.ndim ≤ strides.length then
    some (indexToOffset i m.ndim shape strides)
  else none

/-- The addresses of the two elements of an iteration, `out` first. -/
def pointers (inT outT : DataType) (input out : Tensor) (i : Nat) : Option (Int × Int) := do
  let inIdx ← m.getIdx i m.isInputContiguous m.inputShape m.inputStrides
  let outIdx ← m.getIdx i m.isOutContiguous m.outShape m.outStrides
  return (Elementwise.elementAddress out.data outT outIdx,
    Elementwise.elementAddress input.data inT inIdx)

/-- `Compute<InT, OutT>`, with its iterations in the given order. -/
def compute (caster : Caster) (inT outT : DataType) (input out : Tensor) (order : List Nat)
    (mem : Int → UInt8) : Option (Int → UInt8) :=
  order.foldlM (fun mem i =>
    (m.pointers inT outT input out i).map fun (outPtr, inPtr) =>
      store mem outPtr (caster.cast inT outT (load mem inPtr (kDataTypeToSize inT)))) mem

/-- The type of an enumerator's value. -/
def typeOfCode (code : Int) : Option DataType := allTypes.find? (·.code = code)

/-- The functor that is dispatched over both types. -/
def functor (caster : Caster) (input out : Tensor) (order : List Nat) (mem : Int → UInt8) :
    Functor (Option (Int → UInt8)) :=
  .total fun
    | [inTag, outTag] => do
      let inT ← typeOfCode inTag
      let outT ← typeOfCode outTag
      m.compute caster inT outT input out order mem
    | _ => none

/-- `operator()`. -/
def call (caster : Caster) (schedule : Nat → List Nat) (input out : Tensor) (mem : Int → UInt8) :
    Except Failure (Option (Int → UInt8)) :=
  (dispatchKeys (m.functor caster input out (schedule m.outputSize) mem)
    "`Operator<Cast, Device::Type::kCpu>::operator()`"
    [.ofDataTypes allTypes (by decide), .ofDataTypes allTypes (by decide)]
    [m.inputDtype.code, m.outDtype.code]).ending

end Cast

/-! ## What the operator has to do -/

/-- Operands that the constructor accepts, with distinct elements in `out`. -/
structure CastProblem where
  input : StoredTensor
  out : StoredTensor
  accepted : toUInt64 input.numel = toUInt64 out.numel
  injective : out.Injective

namespace CastProblem

variable (x : CastProblem)

/-- The address of the `i`-th element of a tensor. -/
def elementAddress (t : Tensor) (i : Nat) : Int := t.address (unravel t.shape i)

/-- In every order of the iterations the call goes through and leaves the
conversion of the `i`-th element of `input` in the `i`-th of `out`. -/
def Meets : Prop :=
  ∀ (caster : Caster) (s : Schedule) (mem : Int → UInt8), ∃ m mem',
    Cast.new x.input.toTensor x.out.toTensor = .ok m ∧
      m.call caster s.order x.input.toTensor x.out.toTensor mem = .ok (some mem') ∧
      ∀ i < x.out.shape.prod,
        load mem' (elementAddress x.out.toTensor i) x.out.elementSize
          = caster.cast x.input.dtype x.out.dtype
              (load mem (elementAddress x.input.toTensor i) x.input.elementSize)

/-- The offset of the number `i` in the leading dimensions of `input`, as
many as `out` has. -/
def leadingOffset (i : Nat) : Int :=
  dot (unravel (x.input.shape.take x.out.ndim) i) (x.input.strides.take x.out.ndim)

/-- The element that a strided `input` is read at is the right one: the
ranks are equal; or the dimensions that `out` lacks have extent 1; or all
elements are one. Where the extents multiply to more than a `size_t`, the
leading dimensions place the first elements as all of them do. -/
def RankFits : Prop :=
  x.input.ndim = x.out.ndim ∨
    x.out.ndim < x.input.ndim ∧
      if x.input.numel = x.out.numel then
        (x.input.shape.drop x.out.ndim).prod = 1 ∨
          ∀ d < x.input.ndim, x.input.shape.getD d 0 ≠ 1 → x.input.strides.getD d 0 = 0
      else ∀ i < x.out.numel, x.leadingOffset i = x.input.offset (unravel x.input.shape i)

instance : Decidable x.RankFits := by
  unfold RankFits
  infer_instance

/-- No element of `out` shares a byte with an element of `input` of another
number. -/
def Apart : Prop :=
  ∀ i < x.out.numel, ∀ j < x.out.numel, i ≠ j →
    ∀ p ∈ span (elementAddress x.input.toTensor i) x.input.elementSize,
      p ∉ span (elementAddress x.out.toTensor j) x.out.elementSize

/-- The operands for which the loop is right. -/
def Fits : Prop :=
  x.out.numel = 0 ∨ (x.input.isContiguous ∨ x.RankFits) ∧ x.Apart

end CastProblem

end InfiniOps.Cpu
