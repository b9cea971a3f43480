/-
InfiniOps.Core.HalfFloat — `Float16` and `BFloat16` (`src/data_type.h`):
conversions from and to the bit pattern of a `float`.

Both are over the patterns: `memcpy` to and from `std::uint32_t` is the
identity. `Float16::ToFloat` shifts a subnormal left until its leading bit
is in place; the loop is given `fuel` steps, and none is left only if it
would go on.
-/
import InfiniOps.Lib.FloatFormat

namespace InfiniOps

/-- `float`. -/
def binary32 : FloatFormat where
  exponentBits := 8
  mantissaBits := 23

/-- The format of `Float16`. -/
def binary16 : FloatFormat where
  exponentBits := 5
  mantissaBits := 10

/-- The format of `BFloat16`. -/
def bfloat16 : FloatFormat where
  exponentBits := 8
  mantissaBits := 7

namespace Float16

/-- `Float16::FromFloat`. -/
def fromFloat (f32 : BitVec 32) : BitVec 16 :=
  let sign : BitVec 16 := ((f32 >>> 16) &&& 0x8000#32).setWidth 16
  let exponent : Int := ((f32 >>> 23) &&& 0xFF#32).toNat - 127
  let mantissa := f32 &&& 0x7FFFFF#32
  if exponent ≥ 16 then
    if exponent = 128 ∧ mantissa ≠ 0 then sign ||| 0x7E00#16
    else sign ||| 0x7C00#16
  else if exponent ≥ -14 then
    (sign.setWidth 32 ||| BitVec.ofInt 32 (exponent + 15) <<< 10 ||| mantissa >>> 13).setWidth 16
  else if exponent ≥ -24 then
    let mantissa := (mantissa ||| 0x800000#32) >>> (-14 - exponent).toNat
    (sign.setWidth 32 ||| mantissa >>> 13).setWidth 16
  else sign

/-- The loop of `Float16::ToFloat`. -/
def normalise : (fuel : Nat) → (mantissa : BitVec 32) → (exponent : Int) →
    Option (BitVec 32 × Int)
  | 0, _, _ => none
  | fuel + 1, mantissa, exponent =>
    if mantissa &&& 0x400#32 = 0 then normalise fuel (mantissa <<< 1) (exponent - 1)
    else some (mantissa, exponent)

/-- `Float16::ToFloat`. -/
def toFloat (fuel : Nat) (bits : BitVec 16) : Option (BitVec 32) :=
  let sign := (bits.setWidth 32 &&& 0x8000#32) <<< 16
  let exponent : Int := ((bits.setWidth 32 >>> 10) &&& 0x1F#32).toNat
  let mantissa := bits.setWidth 32 &&& 0x3FF#32
  if exponent = 31 then some (sign ||| 0x7F800000#32 ||| mantissa <<< 13)
  else if exponent = 0 then
    if mantissa = 0 then some sign
    else do
      let (mantissa, exponent) ← normalise fuel mantissa (-14)
      let mantissa := mantissa &&& 0x3FF#32
      return sign ||| BitVec.ofInt 32 (exponent + 127) <<< 23 ||| mantissa <<< 13
  else some (sign ||| BitVec.ofInt 32 (exponent + 127 - 15) <<< 23 ||| mantissa <<< 13)

end Float16

namespace BFloat16

/-- `BFloat16::FromFloat`. -/
def fromFloat (bits32 : BitVec 32) : BitVec 16 :=
  let roundingBias := 0x00007FFF#32 + ((bits32 >>> 16) &&& 1#32)
  ((bits32 + roundingBias) >>> 16).setWidth 16

/-- `BFloat16::ToFloat`. -/
def toFloat (bits : BitVec 16) : BitVec 32 := bits.setWidth 32 <<< 16

end BFloat16

end InfiniOps
