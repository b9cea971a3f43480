/-
InfiniOps.Lib.Rounding — rounding to a floating-point grid, on numbers: the
nearest multiple of a number's unit in the last place, ties to even.

The grid has `precision` binary digits and smallest exponent `least`; its
range is not bounded above. Of the integers it holds those that `FitsIn`
describes: `roundFloat_natCast` says that they stay what they are, and
`fitsIn_of_roundFloat` that no other integer is the result of a rounding.
-/
import Mathlib.Algebra.Order.Field.Power
import Mathlib.Algebra.Order.Field.Rat
import Mathlib.Algebra.Order.Round
import Mathlib.Data.Int.Log
import Mathlib.Tactic.Linarith
import Mathlib.Tactic.NormNum
import Mathlib.Tactic.Positivity

namespace Rounding

variable {K : Type*} [Field K] [LinearOrder K] [FloorRing K]

/-- The nearest integer, the even one of two. -/
def roundHalfEven (x : K) : Int :=
  if Int.fract x < 1 / 2 then ⌊x⌋
  else if 1 / 2 < Int.fract x then ⌊x⌋ + 1
  else if ⌊x⌋ % 2 = 0 then ⌊x⌋ else ⌊x⌋ + 1

/-- The exponent of the unit in the last place of `q`. -/
def ulpExponent (precision : Nat) (least : Int) (q : K) : Int :=
  max (Int.log 2 |q| + 1 - precision) least

/-- The multiple of its unit in the last place that is nearest to `q`. -/
def roundFloat (precision : Nat) (least : Int) (q : K) : K :=
  roundHalfEven (q / 2 ^ ulpExponent precision least q) * 2 ^ ulpExponent precision least q

/-- At most `precision` binary digits of `n` are in use. -/
def FitsIn (precision n : Nat) : Prop := ∃ m k, n = m * 2 ^ k ∧ m < 2 ^ precision

/-! ## Integers -/

theorem floor_le_roundHalfEven (x : K) : ⌊x⌋ ≤ roundHalfEven x := by
  unfold roundHalfEven
  split_ifs <;> omega

theorem roundHalfEven_le_floor_add_one (x : K) : roundHalfEven x ≤ ⌊x⌋ + 1 := by
  unfold roundHalfEven
  split_ifs <;> omega

theorem roundHalfEven_of_int_le {z : Int} {x : K} (h : (z : K) ≤ x) : z ≤ roundHalfEven x :=
  (Int.le_floor.mpr h).trans (floor_le_roundHalfEven x)

variable [IsStrictOrderedRing K] {precision n : Nat} {least : Int}

@[simp] theorem roundHalfEven_intCast (z : Int) : roundHalfEven (z : K) = z := by
  simp [roundHalfEven]

theorem roundHalfEven_of_le_int {z : Int} {x : K} (h : x ≤ z) : roundHalfEven x ≤ z := by
  rcases h.eq_or_lt with rfl | hlt
  · rw [roundHalfEven_intCast]
  · have hfloor := Int.floor_lt.mpr hlt
    have hround := roundHalfEven_le_floor_add_one x
    omega

/-! ## The grid -/

/-- A number is below the first power of two that its digits do not reach. -/
theorem abs_div_ulp_lt (precision : Nat) (least : Int) (q : K) :
    |q| / 2 ^ ulpExponent precision least q < 2 ^ precision := by
  have htwo : (2 : K) ≠ 0 := two_ne_zero
  rw [div_lt_iff₀ (by positivity), ← zpow_natCast, ← zpow_add₀ htwo]
  refine (Int.lt_zpow_succ_log_self (by decide : 1 < 2) |q|).trans_le ?_
  refine zpow_le_zpow_right₀ one_le_two ?_
  have hmax := le_max_left (Int.log 2 |q| + 1 - precision) least
  unfold ulpExponent
  omega

/-- The rounded number is a multiple of its unit by an integer of at most
`precision` digits, or the power of two after them. -/
theorem roundFloat_eq (precision : Nat) (least : Int) (q : K) :
    ∃ z j : Int, roundFloat precision least q = z * 2 ^ j ∧ |z| ≤ 2 ^ precision ∧ least ≤ j := by
  refine ⟨_, _, rfl, ?_, le_max_right _ _⟩
  have hlt := abs_div_ulp_lt precision least q
  have hulp : (0 : K) < 2 ^ ulpExponent precision least q := by positivity
  have hquotient : |q / 2 ^ ulpExponent precision least q| < 2 ^ precision := by
    rwa [abs_div, abs_of_pos hulp]
  rw [abs_lt] at hquotient
  rw [abs_le]
  constructor
  · refine roundHalfEven_of_int_le (le_of_lt ?_)
    push_cast
    exact hquotient.1
  · refine roundHalfEven_of_le_int (le_of_lt ?_)
    push_cast
    exact hquotient.2

/-! ## Integers of the grid -/

theorem fitsIn_of_le (hprecision : 0 < precision) (h : n ≤ 2 ^ precision) : FitsIn precision n := by
  rcases h.eq_or_lt with rfl | hlt
  · exact ⟨1, precision, (one_mul _).symm, Nat.one_lt_two_pow hprecision.ne'⟩
  · exact ⟨n, 0, (mul_one n).symm, hlt⟩

theorem FitsIn.mul_two_pow (h : FitsIn precision n) (k : Nat) : FitsIn precision (n * 2 ^ k) := by
  obtain ⟨m, i, rfl, hm⟩ := h
  exact ⟨m, i + k, by rw [Nat.pow_add, Nat.mul_assoc], hm⟩

theorem fitsIn_of_mul_two_pow {k : Nat} (hprecision : 0 < precision)
    (h : FitsIn precision (n * 2 ^ k)) : FitsIn precision n := by
  obtain ⟨m, i, heq, hm⟩ := h
  rcases le_total k i with hle | hle
  · obtain ⟨j, rfl⟩ := Nat.exists_eq_add_of_le' hle
    rw [Nat.pow_add, ← Nat.mul_assoc] at heq
    exact ⟨m, j, Nat.eq_of_mul_eq_mul_right (Nat.two_pow_pos k) heq, hm⟩
  · obtain ⟨j, rfl⟩ := Nat.exists_eq_add_of_le' hle
    rw [Nat.pow_add, ← Nat.mul_assoc] at heq
    have hfactor := Nat.eq_of_mul_eq_mul_right (Nat.two_pow_pos i) heq
    refine fitsIn_of_le hprecision (le_trans ?_ hm.le)
    rw [← hfactor]
    exact Nat.le_mul_of_pos_right n (Nat.two_pow_pos j)

theorem fitsIn_of_roundFloat (hprecision : 0 < precision) {q : K}
    (h : roundFloat precision least q = n) : FitsIn precision n := by
  obtain ⟨z, j, heq, hz, -⟩ := roundFloat_eq precision least q
  have hn : (n : K) = z * 2 ^ j := h.symm.trans heq
  have hz' : z ≤ 2 ^ precision := (le_abs_self z).trans hz
  have hnonneg : 0 ≤ z := by
    have hpos : (0 : K) ≤ z * 2 ^ j := hn ▸ n.cast_nonneg
    exact_mod_cast nonneg_of_mul_nonneg_left hpos (by positivity)
  obtain ⟨m, rfl⟩ := Int.eq_ofNat_of_zero_le hnonneg
  have hm : m ≤ 2 ^ precision := by exact_mod_cast hz'
  rcases le_total j 0 with hj | hj
  · -- a fraction of an integer that fits
    refine fitsIn_of_le hprecision (le_trans ?_ hm)
    have hle : (n : K) ≤ m := by
      rw [hn, Int.cast_natCast]
      exact mul_le_of_le_one_right m.cast_nonneg (zpow_le_one_of_nonpos₀ one_le_two hj)
    exact_mod_cast hle
  · obtain ⟨k, rfl⟩ := Int.eq_ofNat_of_zero_le hj
    have hshift : n = m * 2 ^ k := by
      rw [zpow_natCast, Int.cast_natCast] at hn
      exact_mod_cast hn
    rw [hshift]
    exact (fitsIn_of_le hprecision hm).mul_two_pow k

/-- The unit in the last place divides an integer that fits. -/
theorem exists_dvd_ulp (hprecision : 0 < precision) (hleast : least ≤ 0) (h : FitsIn precision n) :
    ∃ m k : Nat, n = m * 2 ^ k ∧ ulpExponent precision least (n : K) ≤ k := by
  rcases le_or_gt (ulpExponent precision least (n : K)) 0 with hulp | hulp
  · exact ⟨n, 0, (mul_one n).symm, hulp⟩
  · obtain ⟨m, k, hn, hm⟩ := h
    refine ⟨m, k, hn, ?_⟩
    have hlog : Nat.log 2 n < precision + k := by
      apply Nat.log_lt_of_lt_pow'
      · omega
      · rw [hn, Nat.pow_add]
        gcongr
    rw [ulpExponent, Nat.abs_cast, Int.log_natCast] at hulp ⊢
    omega

/-- An integer that fits stays what it is. -/
theorem roundFloat_natCast (hprecision : 0 < precision) (hleast : least ≤ 0)
    (h : FitsIn precision n) : roundFloat precision least (n : K) = n := by
  obtain ⟨m, k, hn, hk⟩ := exists_dvd_ulp (K := K) hprecision hleast h
  obtain ⟨i, hi⟩ := Int.eq_ofNat_of_zero_le (sub_nonneg.mpr hk)
  have hmul : (n : K) = ((m * 2 ^ i : Int) : K) * 2 ^ ulpExponent precision least (n : K) := by
    calc (n : K) = m * 2 ^ (k : Int) := by
          rw [zpow_natCast]
          exact_mod_cast congrArg (Nat.cast (R := K)) hn
      _ = m * (2 ^ (i : Int) * 2 ^ ulpExponent precision least (n : K)) := by
          rw [← zpow_add₀ two_ne_zero]
          congr 2
          omega
      _ = _ := by
          rw [zpow_natCast, ← mul_assoc]
          push_cast
          rfl
  rw [roundFloat, (div_eq_iff (by positivity)).mpr hmul, roundHalfEven_intCast]
  exact hmul.symm

/-! ## Signs -/

theorem roundFloat_nonpos {q : K} (h : q ≤ 0) : roundFloat precision least q ≤ 0 := by
  have hround : roundHalfEven (q / 2 ^ ulpExponent precision least q) ≤ 0 := by
    refine roundHalfEven_of_le_int ?_
    rw [Int.cast_zero]
    exact div_nonpos_of_nonpos_of_nonneg h (by positivity)
  exact mul_nonpos_of_nonpos_of_nonneg (by exact_mod_cast hround) (by positivity)

/-- A positive result is at least the smallest positive point of the grid. -/
theorem le_roundFloat_of_pos {q : K} (h : 0 < roundFloat precision least q) :
    2 ^ least ≤ roundFloat precision least q := by
  obtain ⟨z, j, heq, -, hj⟩ := roundFloat_eq precision least q
  rw [heq] at h ⊢
  have hz : 1 ≤ z := by
    have hpos := pos_of_mul_pos_left h (by positivity)
    exact_mod_cast hpos
  calc (2 : K) ^ least ≤ 2 ^ j := zpow_le_zpow_right₀ one_le_two hj
    _ = 1 * 2 ^ j := (one_mul _).symm
    _ ≤ z * 2 ^ j := by gcongr; exact_mod_cast hz

/-- No number from the smallest positive point on rounds to zero. -/
theorem roundFloat_pos (hprecision : 0 < precision) {q : K} (h : 2 ^ least ≤ q) :
    0 < roundFloat precision least q := by
  have hq : 0 < q := (zpow_pos two_pos least).trans_le h
  have hulp : (2 : K) ^ ulpExponent precision least q ≤ q := by
    have hlog : (2 : K) ^ Int.log 2 q ≤ q := by
      exact_mod_cast Int.zpow_log_le_self (by decide : 1 < 2) hq
    rw [ulpExponent, abs_of_pos hq]
    rcases max_choice (Int.log 2 q + 1 - precision) least with hmax | hmax
    · rw [hmax]
      exact (zpow_le_zpow_right₀ one_le_two (by omega)).trans hlog
    · rw [hmax]
      exact h
  have hround : 1 ≤ roundHalfEven (q / 2 ^ ulpExponent precision least q) := by
    refine roundHalfEven_of_int_le ?_
    rw [Int.cast_one, one_le_div (by positivity)]
    exact hulp
  have hpos : 0 < (roundHalfEven (q / 2 ^ ulpExponent precision least q) : K) := by
    exact_mod_cast hround
  exact mul_pos hpos (by positivity)

end Rounding
