/-
InfiniOps.Core.MachineInt — conversions between the integer types of the
source, on mathematical integers.

A conversion to a signed type wraps, as C++20 and the compilers before it
have it. The wide ones are irreducible, so that a proof that meets one
uses a lemma about it.
-/
import Mathlib.Algebra.Group.Int.Defs
import Mathlib.Algebra.Group.Nat.Defs

namespace InfiniOps

/-- Conversion to `int8_t`. -/
def toInt8 (x : Int) : Int := x.bmod (2 ^ 8)

/-- Conversion to `int` or `int32_t`. -/
@[irreducible] def toInt32 (x : Int) : Int := x.bmod (2 ^ 32)

/-- Conversion to `uint32_t`. -/
@[irreducible] def toUInt32 (x : Int) : Nat := (x % 2 ^ 32).toNat

/-- Conversion to `int64_t`. -/
@[irreducible] def toInt64 (x : Int) : Int := x.bmod (2 ^ 64)

/-- Conversion to `uint64_t`. -/
@[irreducible] def toUInt64 (x : Int) : Nat := (x % 2 ^ 64).toNat

theorem toInt32_le {x : Int} (h : 0 ≤ x) : toInt32 x ≤ x := by
  unfold toInt32
  rw [Int.bmod_eq_emod]
  split <;> omega

theorem toInt32_eq_self_iff {x : Int} (h : 0 ≤ x) : toInt32 x = x ↔ x < 2 ^ 31 := by
  unfold toInt32
  rw [Int.bmod_eq_emod]
  split <;> omega

theorem toInt64_eq_self {x : Int} (h : -2 ^ 63 ≤ x) (hlt : x < 2 ^ 63) : toInt64 x = x := by
  unfold toInt64
  rw [Int.bmod_eq_emod]
  split <;> omega

theorem toInt64_eq_self_iff {x : Int} : toInt64 x = x ↔ -2 ^ 63 ≤ x ∧ x < 2 ^ 63 := by
  unfold toInt64
  rw [Int.bmod_eq_emod]
  split <;> omega

theorem toInt64_toUInt64 {x : Int} (h : 0 ≤ x) (hlt : x < 2 ^ 63) :
    toInt64 (toUInt64 x) = x := by
  unfold toInt64 toUInt64
  rw [Int.bmod_eq_emod]
  split <;> omega

/-- Through `uint64_t` and back is the conversion to `int64_t`. -/
theorem toInt64_natCast_toUInt64 (x : Int) : toInt64 (toUInt64 x) = toInt64 x := by
  unfold toInt64 toUInt64
  rw [Int.bmod_eq_emod, Int.bmod_eq_emod]
  split <;> split <;> omega

theorem toUInt64_eq_iff {x y : Int} : toUInt64 x = toUInt64 y ↔ x % 2 ^ 64 = y % 2 ^ 64 := by
  unfold toUInt64
  omega

/-- The value of a wrapped expression, from one it is congruent to. -/
theorem toUInt64_eq_of_emod {x : Int} {n : Nat} (h : x % 2 ^ 64 = n % 2 ^ 64) (hn : n < 2 ^ 64) :
    toUInt64 x = n := by
  unfold toUInt64
  omega

theorem toUInt64_emod (x : Int) : (toUInt64 x : Int) % 2 ^ 64 = x % 2 ^ 64 := by
  unfold toUInt64
  omega

/-- A sum in `uint64_t` may be wrapped at the end. -/
theorem toUInt64_natCast_add (x y : Int) : toUInt64 (toUInt64 x + y) = toUInt64 (x + y) := by
  unfold toUInt64
  omega

/-- So may a product. -/
theorem toUInt64_natCast_mul (x y : Int) : toUInt64 (toUInt64 x * y) = toUInt64 (x * y) := by
  rw [toUInt64_eq_iff, Int.mul_emod, Int.mul_emod x]
  congr 2
  unfold toUInt64
  omega

theorem toUInt64_lt (x : Int) : toUInt64 x < 2 ^ 64 := by
  unfold toUInt64
  omega

theorem toUInt64_eq_self {x : Nat} (h : x < 2 ^ 64) : toUInt64 x = x := by
  unfold toUInt64
  omega

theorem toUInt64_le (x : Nat) : toUInt64 x ≤ x := by
  unfold toUInt64
  omega

theorem toUInt64_toInt64 {x : Nat} (h : x < 2 ^ 64) : toUInt64 (toInt64 x) = x := by
  unfold toInt64 toUInt64
  rw [Int.bmod_eq_emod]
  split <;> omega

theorem toUInt32_le (x : Nat) : toUInt32 x ≤ x := by
  unfold toUInt32
  omega

theorem toUInt32_lt (x : Int) : toUInt32 x < 2 ^ 32 := by
  unfold toUInt32
  omega

theorem toUInt32_eq_self {x : Nat} (h : x < 2 ^ 32) : toUInt32 x = x := by
  unfold toUInt32
  omega

theorem toInt32_emod (x : Int) : toInt32 x % 2 ^ 32 = x % 2 ^ 32 := by
  unfold toInt32
  rw [Int.bmod_eq_emod]
  split <;> omega

/-- Multiplying in `int` first makes no difference modulo 2^32. -/
theorem toUInt32_toInt32_mul (x : Int) (k : Nat) : toUInt32 (toInt32 x * k) = toUInt32 (x * k) := by
  unfold toUInt32
  rw [Int.mul_emod, toInt32_emod, ← Int.mul_emod]

theorem toInt32_congr {x y : Int} (h : x % 2 ^ 32 = y % 2 ^ 32) : toInt32 x = toInt32 y := by
  unfold toInt32
  rw [Int.bmod_eq_emod, Int.bmod_eq_emod]
  split <;> split <;> omega

theorem toInt32_eq_self {x : Int} (hlo : -2 ^ 31 ≤ x) (hhi : x < 2 ^ 31) : toInt32 x = x := by
  unfold toInt32
  rw [Int.bmod_eq_emod]
  split <;> omega

theorem toInt32_natCast {m : Nat} (h : m < 2 ^ 31) : toInt32 m = m :=
  toInt32_eq_self (by omega) (by omega)

/-- A product in 64 bits, from an `int` and to one. -/
theorem toInt32_toUInt64_mul (x : Int) (d : Nat) :
    toInt32 (toUInt64 (toInt32 x * d)) = toInt32 (x * d) := by
  refine toInt32_congr ?_
  have hword := toUInt64_emod (toInt32 x * d)
  have hmod : (toUInt64 (toInt32 x * d) : Int) % 2 ^ 32 = toInt32 x * d % 2 ^ 32 := by omega
  rw [hmod, Int.mul_emod, toInt32_emod, ← Int.mul_emod]

theorem toInt32_add_toInt64 (x y : Int) : toInt32 (toInt32 x + toInt64 y) = toInt32 (x + y) := by
  refine toInt32_congr ?_
  have hx := toInt32_emod x
  have hy : toInt64 y % 2 ^ 64 = y % 2 ^ 64 := by
    unfold toInt64
    rw [Int.bmod_eq_emod]
    split <;> omega
  omega

end InfiniOps
