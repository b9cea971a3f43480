/-
InfiniOps.Core.DataType — the element types and devices of
`src/data_type.h` and `src/device.h`.

`DataType` is an `enum class … : std::int8_t` whose values are assigned
explicitly, because the host launchers forward them as integers to
separately compiled device kernels. `DataType.code` is that value, so a
module that models such a kernel compares codes and never constructors.
-/
import Mathlib.Data.List.Basic

namespace InfiniOps

/-- `infini::ops::DataType`. -/
inductive DataType where
  | kInt8 | kInt16 | kInt32 | kInt64
  | kUInt8 | kUInt16 | kUInt32 | kUInt64
  | kFloat16 | kBFloat16 | kFloat32 | kFloat64
  deriving DecidableEq, Repr

/-- The enumerator's value (`static_cast<int64_t>(dtype)`). -/
def DataType.code : DataType → Int
  | .kInt8 => 0
  | .kInt16 => 1
  | .kInt32 => 2
  | .kInt64 => 3
  | .kUInt8 => 4
  | .kUInt16 => 5
  | .kUInt32 => 6
  | .kUInt64 => 7
  | .kFloat16 => 8
  | .kBFloat16 => 9
  | .kFloat32 => 10
  | .kFloat64 => 11

/-- `kDataTypeToSize`: bytes per element. -/
def kDataTypeToSize : DataType → Nat
  | .kInt8 => 1
  | .kInt16 => 2
  | .kInt32 => 4
  | .kInt64 => 8
  | .kUInt8 => 1
  | .kUInt16 => 2
  | .kUInt32 => 4
  | .kUInt64 => 8
  | .kFloat16 => 2
  | .kBFloat16 => 2
  | .kFloat32 => 4
  | .kFloat64 => 8

/-! ## Lists of types -/

/-- `FloatTypes`. -/
def floatTypes : List DataType := [.kFloat32, .kFloat64]

/-- `ReducedFloatTypes`. -/
def reducedFloatTypes : List DataType := [.kFloat16, .kBFloat16]

/-- `IntTypes`. -/
def intTypes : List DataType := [.kInt8, .kInt16, .kInt32, .kInt64]

/-- `UIntTypes`. -/
def uIntTypes : List DataType := [.kUInt8, .kUInt16, .kUInt32, .kUInt64]

/-- `AllFloatTypes`. -/
def allFloatTypes : List DataType := floatTypes ++ reducedFloatTypes

/-- `AllIntTypes`. -/
def allIntTypes : List DataType := intTypes ++ uIntTypes

/-- `AllTypes`. -/
def allTypes : List DataType := allFloatTypes ++ allIntTypes

/-! ## Devices -/

/-- `Device::Type`. `kCount` is the number of types and names no device. -/
inductive DeviceType where
  | kCpu | kNvidia | kCambricon | kAscend | kMetax | kMoore
  | kIluvatar | kKunlun | kHygon | kQy | kCount
  deriving DecidableEq, Repr

/-- The enumerator's value. -/
def DeviceType.code : DeviceType → Int
  | .kCpu => 0
  | .kNvidia => 1
  | .kCambricon => 2
  | .kAscend => 3
  | .kMetax => 4
  | .kMoore => 5
  | .kIluvatar => 6
  | .kKunlun => 7
  | .kHygon => 8
  | .kQy => 9
  | .kCount => 10

/-- `Device`: a type and an index, both 0 by default. -/
structure Device where
  type : DeviceType := .kCpu
  index : Int := 0
  deriving DecidableEq, Repr

end InfiniOps
