/-
InfiniOps.Core.Tensor — the metadata of `Tensor` (`src/tensor.h`,
`src/tensor.cc`): data pointer, shape, dtype, device and strides.

Sizes are `Nat` and strides are `Int`; where a caller narrows them to a
machine width the narrowing is written out at the call. `size` and
`stride` take the signed index of the source, so `size (-1)` is the last
extent. An index outside the rank is undefined behaviour in the source
and reads 0 here; no theorem relies on that value.
-/
import InfiniOps.Core.DataType

namespace InfiniOps

/-- `Tensor`. The data pointer is an address; the elements it points to
are in whatever memory the caller models. -/
structure Tensor where
  data : Nat
  shape : List Nat
  dtype : DataType := .kFloat32
  device : Device := {}
  strides : List Int
  deriving DecidableEq, Repr

namespace Tensor

/-- `GetEffectiveIndex`: a negative index counts from the end. -/
def effectiveIndex (index : Int) (size : Nat) : Int :=
  if index < 0 then index + size else index

/-- `Tensor::ndim`. -/
def ndim (t : Tensor) : Nat := t.shape.length

/-- `Tensor::size`. -/
def size (t : Tensor) (index : Int) : Nat :=
  t.shape.getD (effectiveIndex index t.shape.length).toNat 0

/-- `Tensor::size` of an index inside the shape. -/
def size? (t : Tensor) (index : Int) : Option Nat :=
  let effective := effectiveIndex index t.shape.length
  if 0 ≤ effective then t.shape[effective.toNat]? else none

/-- `Tensor::stride`. -/
def stride (t : Tensor) (index : Int) : Int :=
  t.strides.getD (effectiveIndex index t.strides.length).toNat 0

/-- `Tensor::numel`. -/
def numel (t : Tensor) : Nat := t.shape.foldl (· * ·) 1

/-- `Tensor::element_size`. -/
def elementSize (t : Tensor) : Nat := kDataTypeToSize t.dtype

/-- Everything but the data pointer: what an operator is built from. -/
def SameMeta (a b : Tensor) : Prop :=
  a.shape = b.shape ∧ a.dtype = b.dtype ∧ a.device = b.device ∧ a.strides = b.strides

instance (a b : Tensor) : Decidable (SameMeta a b) :=
  inferInstanceAs (Decidable (_ ∧ _))

end Tensor

end InfiniOps
