/-
InfiniOps.Core.HalfFloatTheorems — which conversions to `BFloat16` and
`Float16` round to nearest even.

  §1 BFloat16 — the bias that is added carries into the sign or stops at
                infinity for some NaN patterns, and only for them
                (`bfloat16_converts_iff`).
  §2 Float16  — the mantissa is cut off, so a conversion is right where the
                part that is dropped rounds down (`float16_converts_iff`).

Both are proved on fields: a pattern is sign, exponent and mantissa as
numbers, and `|||` of fields is their sum (`or_eq_add`).
-/
import InfiniOps.Core.HalfFloat
import Mathlib.Data.Nat.Bitwise

namespace InfiniOps

theorem infinity_bfloat16 : bfloat16.infinity = 0x7F80 := by decide

theorem infinity_binary16 : binary16.infinity = 0x7C00 := by decide

/-! ## §1 BFloat16 -/

namespace BFloat16

theorem toNat_fromFloat (x : BitVec 32) :
    (fromFloat x).toNat = (x.toNat + (0x7FFF + x.toNat / 2 ^ 16 % 2)) % 2 ^ 32 / 2 ^ 16 := by
  have hbit : x.toNat / 2 ^ 16 % 2 < 2 := Nat.mod_lt _ (by decide)
  have hlt : (x.toNat + (0x7FFF + x.toNat / 2 ^ 16 % 2)) % 2 ^ 32 / 2 ^ 16 < 2 ^ 16 := by omega
  simp only [fromFloat, BitVec.toNat_setWidth, BitVec.toNat_ushiftRight, BitVec.toNat_add,
    BitVec.toNat_and, BitVec.toNat_ofNat, Nat.shiftRight_eq_div_pow]
  norm_num [Nat.and_one_is_mod] at *
  omega

theorem toNat_toFloat (b : BitVec 16) : (toFloat b).toNat = b.toNat * 2 ^ 16 := by
  have hlt := b.isLt
  simp only [toFloat, BitVec.toNat_shiftLeft, BitVec.toNat_setWidth, Nat.shiftLeft_eq]
  omega

/-- Widening and back is the identity, for a NaN, too. -/
theorem fromFloat_toFloat (b : BitVec 16) : fromFloat (toFloat b) = b := by
  refine BitVec.eq_of_toNat_eq ?_
  have hlt := b.isLt
  have hsum : b.toNat * 2 ^ 16 + (0x7FFF + b.toNat % 2) < 2 ^ 32 := by omega
  rw [toNat_fromFloat, toNat_toFloat, Nat.mul_div_cancel _ (by decide), Nat.mod_eq_of_lt hsum]
  omega

/-- The NaN patterns that the bias leaves NaN patterns. -/
def KeepsNaN (x : BitVec 32) : Prop :=
  0x7F808001 ≤ binary32.magnitude x.toNat ∧ binary32.magnitude x.toNat < 0x7FFF8000

instance (x : BitVec 32) : Decidable (KeepsNaN x) := inferInstanceAs (Decidable (_ ∧ _))

/-- Away from the largest NaN patterns the sign stays, and the rest is cut
off after the bias was added. -/
theorem fields_fromFloat {x : BitVec 32} (h : binary32.magnitude x.toNat < 0x7FFF8000) :
    (bfloat16.Negative (fromFloat x).toNat ↔ binary32.Negative x.toNat) ∧
      bfloat16.magnitude (fromFloat x).toNat
        = (binary32.magnitude x.toNat
            + (0x7FFF + binary32.magnitude x.toNat / 2 ^ 16 % 2)) / 2 ^ 16 := by
  have hlt := x.isLt
  have hsplit : x.toNat = x.toNat / 2 ^ 31 * 2 ^ 31 + x.toNat % 2 ^ 31 := by omega
  have hs : x.toNat / 2 ^ 31 < 2 := by omega
  have ha : x.toNat % 2 ^ 31 < 0x7FFF8000 := h
  rw [toNat_fromFloat]
  change (_ / 2 ^ 15 % 2 = 1 ↔ x.toNat / 2 ^ 31 % 2 = 1) ∧ _ % 2 ^ 15
    = (x.toNat % 2 ^ 31 + (0x7FFF + x.toNat % 2 ^ 31 / 2 ^ 16 % 2)) / 2 ^ 16
  generalize x.toNat / 2 ^ 31 = s at hsplit hs
  generalize x.toNat % 2 ^ 31 = a at hsplit ha
  rw [hsplit]
  have hbit : (s * 2 ^ 31 + a) / 2 ^ 16 % 2 = a / 2 ^ 16 % 2 := by omega
  rw [hbit]
  have hbit' : a / 2 ^ 16 % 2 < 2 := Nat.mod_lt _ (by decide)
  generalize a / 2 ^ 16 % 2 = bit at hbit'
  have hsum : s * 2 ^ 31 + a + (0x7FFF + bit) < 2 ^ 32 := by omega
  rw [Nat.mod_eq_of_lt hsum]
  omega

/-- The bias carries into the part that is kept exactly where the part that
is dropped rounds up. -/
theorem add_bias_div {q low : Nat} (hlow : low < 2 ^ 16) :
    (q * 2 ^ 16 + low + (0x7FFF + q % 2)) / 2 ^ 16
      = if 2 ^ 16 < 2 * low ∨ 2 * low = 2 ^ 16 ∧ q % 2 = 1 then q + 1 else q := by
  split <;> omega

theorem converts_of_not_isNaN {x : BitVec 32} (h : ¬ binary32.IsNaN x.toNat) :
    binary32.Converts bfloat16 x.toNat (fromFloat x).toNat := by
  have hle : binary32.magnitude x.toNat ≤ 0x7F800000 := Nat.le_of_not_lt h
  obtain ⟨hsign, hmagnitude⟩ := fields_fromFloat (x := x) (by omega)
  rw [FloatFormat.Converts, if_neg h]
  refine ⟨hsign, ?_⟩
  rw [hmagnitude]
  generalize binary32.magnitude x.toNat = a at hle
  obtain ⟨q, low, hlow, rfl⟩ : ∃ q low, low < 2 ^ 16 ∧ a = q * 2 ^ 16 + low :=
    ⟨a / 2 ^ 16, a % 2 ^ 16, Nat.mod_lt _ (by decide), by omega⟩
  have hvalue := FloatFormat.value_mul_add (f := binary32) (g := bfloat16) (q := q) rfl rfl
    hlow.le
  have hdiv : (q * 2 ^ 16 + low) / 2 ^ 16 = q := by omega
  rw [hdiv]
  have hq : q ≤ bfloat16.infinity := by
    rw [infinity_bfloat16]
    omega
  rcases Nat.lt_or_eq_of_le hq with hq | rfl
  · have hu : 0 < (bfloat16.step q : ℚ) * binary32.quantum :=
      mul_pos (Nat.cast_pos.mpr (Nat.two_pow_pos _)) binary32.quantum_pos
    have hstep := FloatFormat.value_succ (f := binary32) (g := bfloat16) (q := q) (k := 16) rfl rfl
    have hmono := bfloat16.value_strictMono
    rw [add_bias_div hlow]
    by_cases hup : 2 ^ 16 < 2 * low ∨ 2 * low = 2 ^ 16 ∧ q % 2 = 1
    · rw [if_pos hup]
      exact (nearestEven_ceil_iff hmono hq hvalue hstep hu hlow.le).mpr hup
    · rw [if_neg hup]
      refine (nearestEven_floor_iff hmono hq hvalue hstep hu hlow.le).mpr ?_
      clear hvalue hstep hmono hu hmagnitude hsign h
      omega
  · -- infinity itself has no bits to drop
    have hzero : low = 0 := by
      rw [infinity_bfloat16] at hle
      omega
    have hresult : (bfloat16.infinity * 2 ^ 16 + low + (0x7FFF + bfloat16.infinity % 2)) / 2 ^ 16
        = bfloat16.infinity := by
      simp [hzero, infinity_bfloat16]
    rw [hresult]
    refine nearestEven_top bfloat16.value_strictMono ?_
    rw [hvalue, hzero]
    simp

/-- The bias runs into the sign, and nothing is left of the rest. -/
theorem magnitude_of_carry {x : BitVec 32} (h : 0x7FFF8000 ≤ binary32.magnitude x.toNat) :
    bfloat16.magnitude (fromFloat x).toNat = 0 := by
  have hlt := x.isLt
  have ha : 0x7FFF8000 ≤ x.toNat % 2 ^ 31 := h
  rw [toNat_fromFloat]
  change _ % 2 ^ 15 = 0
  have hbit : x.toNat / 2 ^ 16 % 2 = 1 := by omega
  rw [hbit]
  omega

/-- A NaN stays one unless the bias ends at infinity or runs into the sign. -/
theorem converts_iff_of_isNaN {x : BitVec 32} (h : binary32.IsNaN x.toNat) :
    binary32.Converts bfloat16 x.toNat (fromFloat x).toNat ↔ KeepsNaN x := by
  rw [FloatFormat.Converts, if_pos h, FloatFormat.IsNaN, KeepsNaN]
  have hlo : 0x7F800000 < binary32.magnitude x.toNat := h
  change 0x7F80 < _ ↔ _
  rcases Nat.lt_or_ge (binary32.magnitude x.toNat) 0x7FFF8000 with ha | ha
  · rw [(fields_fromFloat ha).2]
    omega
  · rw [magnitude_of_carry ha]
    omega

/-- Every pattern that is not a NaN is rounded to nearest even, every
pattern comes back from its widening, and exactly the NaNs of `KeepsNaN`
stay NaNs. -/
theorem bfloat16_converts_iff (x : BitVec 32) (b : BitVec 16) :
    (binary32.Converts bfloat16 x.toNat (fromFloat x).toNat ∧ fromFloat (toFloat b) = b) ↔
      (binary32.IsNaN x.toNat → KeepsNaN x) := by
  rw [and_iff_left (fromFloat_toFloat b)]
  by_cases h : binary32.IsNaN x.toNat
  · rw [converts_iff_of_isNaN h, imp_iff_right h]
  · exact iff_of_true (converts_of_not_isNaN h) fun h' => absurd h' h

/-- The NaN whose bits are all ones becomes negative zero. -/
theorem bfloat16_nan_lost :
    ¬ binary32.Converts bfloat16 (0x7FFFFFFF#32).toNat (fromFloat 0x7FFFFFFF#32).toNat := by
  rw [converts_iff_of_isNaN (by decide)]
  decide

end BFloat16

/-! ## §2 Float16 -/

/-- Fields that do not overlap. -/
theorem or_eq_add {a b k : Nat} (ha : 2 ^ k ∣ a) (hb : b < 2 ^ k) : a ||| b = a + b := by
  obtain ⟨c, rfl⟩ := ha
  exact (Nat.two_pow_add_eq_or_of_lt hb c).symm

namespace Float16

variable (x : BitVec 32)

theorem toNat_sign : ((x >>> 16) &&& 0x8000#32).toNat = x.toNat / 2 ^ 31 * 2 ^ 15 := by
  have hlt := x.isLt
  rw [BitVec.toNat_and, BitVec.toNat_ushiftRight, Nat.shiftRight_eq_div_pow]
  change x.toNat / 2 ^ 16 &&& 2 ^ 15 = _
  rw [Nat.and_two_pow, Nat.toNat_testBit, Nat.div_div_eq_div_mul]
  omega

theorem toNat_exponent : ((x >>> 23) &&& 0xFF#32).toNat = x.toNat / 2 ^ 23 % 2 ^ 8 := by
  rw [BitVec.toNat_and, BitVec.toNat_ushiftRight, Nat.shiftRight_eq_div_pow]
  exact Nat.and_two_pow_sub_one_eq_mod _ 8

theorem toNat_mantissa : (x &&& 0x7FFFFF#32).toNat = x.toNat % 2 ^ 23 := by
  rw [BitVec.toNat_and]
  exact Nat.and_two_pow_sub_one_eq_mod _ 23

/-- The result without its sign, from the fields of the argument. -/
def narrowed (e m : Nat) : Nat :=
  if 143 ≤ e then if e = 255 ∧ m ≠ 0 then 0x7E00 else 0x7C00
  else if 113 ≤ e then (e - 112) * 2 ^ 10 + m / 2 ^ 13
  else if 103 ≤ e then (2 ^ 23 + m) / 2 ^ (126 - e)
  else 0

theorem toNat_field {z : Int} {n : Nat} (k : Nat) (hz : z = n) (hn : n * 2 ^ k < 2 ^ 32) :
    (BitVec.ofInt 32 z <<< k).toNat = n * 2 ^ k := by
  have hle : n ≤ n * 2 ^ k := Nat.le_mul_of_pos_right n (Nat.two_pow_pos k)
  rw [hz, BitVec.ofInt_natCast, BitVec.toNat_shiftLeft, BitVec.toNat_ofNat, Nat.shiftLeft_eq,
    Nat.mod_eq_of_lt (by omega : n < 2 ^ 32), Nat.mod_eq_of_lt hn]

theorem setWidth_or {a : BitVec 32} {b s : Nat} (hs : s < 2) (ha : a.toNat = s * 2 ^ 15 ||| b)
    (hb : b < 2 ^ 15) : (a.setWidth 16).toNat = s * 2 ^ 15 + b := by
  rw [BitVec.toNat_setWidth, ha, or_eq_add (Dvd.intro_left s rfl) hb]
  omega

theorem toNat_fromFloat :
    (fromFloat x).toNat
      = x.toNat / 2 ^ 31 * 2 ^ 15 + narrowed (x.toNat / 2 ^ 23 % 2 ^ 8) (x.toNat % 2 ^ 23) := by
  have hlt := x.isLt
  have hsign := toNat_sign x
  have hmantissa := toNat_mantissa x
  have hm : x.toNat % 2 ^ 23 < 2 ^ 23 := Nat.mod_lt _ (by decide)
  have he : x.toNat / 2 ^ 23 % 2 ^ 8 < 2 ^ 8 := Nat.mod_lt _ (by decide)
  have hs : x.toNat / 2 ^ 31 < 2 := by omega
  simp only [fromFloat, toNat_exponent x]
  generalize (x >>> 16) &&& 0x8000#32 = sign at *
  generalize x &&& 0x7FFFFF#32 = mantissa at *
  generalize x.toNat / 2 ^ 23 % 2 ^ 8 = e at *
  generalize x.toNat % 2 ^ 23 = m at *
  generalize x.toNat / 2 ^ 31 = s at *
  have hsign16 : (sign.setWidth 16).toNat = s * 2 ^ 15 := by
    rw [BitVec.toNat_setWidth, hsign]
    omega
  have hsign32 : ((sign.setWidth 16).setWidth 32).toNat = s * 2 ^ 15 := by
    rw [BitVec.toNat_setWidth, hsign16]
    omega
  have hzero : mantissa ≠ 0 ↔ m ≠ 0 := by
    rw [← hmantissa, not_iff_not, ← BitVec.toNat_inj]
    rfl
  unfold narrowed
  by_cases hover : 143 ≤ e
  · rw [if_pos (show (e : Int) - 127 ≥ 16 by omega), if_pos hover]
    by_cases hnan : e = 255 ∧ m ≠ 0
    · rw [if_pos ⟨by omega, hzero.mpr hnan.2⟩, if_pos hnan, BitVec.toNat_or, hsign16]
      exact or_eq_add (Dvd.intro_left s rfl) (by decide)
    · rw [if_neg fun h => hnan ⟨by omega, hzero.mp h.2⟩, if_neg hnan, BitVec.toNat_or, hsign16]
      exact or_eq_add (Dvd.intro_left s rfl) (by decide)
  · rw [if_neg (show ¬ (e : Int) - 127 ≥ 16 by omega), if_neg hover]
    by_cases hnormal : 113 ≤ e
    · rw [if_pos (show (e : Int) - 127 ≥ -14 by omega), if_pos hnormal]
      have hfield := toNat_field (z := e - 127 + 15) (n := e - 112) 10 (by omega) (by omega)
      have hlow : m / 2 ^ 13 < 2 ^ 10 := by omega
      refine setWidth_or hs ?_ (by omega)
      rw [BitVec.toNat_or, BitVec.toNat_or, hsign32, hfield, BitVec.toNat_ushiftRight, hmantissa,
        Nat.shiftRight_eq_div_pow, Nat.or_assoc, or_eq_add (Dvd.intro_left _ rfl) hlow]
    · rw [if_neg (show ¬ (e : Int) - 127 ≥ -14 by omega), if_neg hnormal]
      by_cases hsubnormal : 103 ≤ e
      · rw [if_pos (show (e : Int) - 127 ≥ -24 by omega), if_pos hsubnormal]
        have hshift : (-14 - ((e : Int) - 127)).toNat + 13 = 126 - e := by omega
        have hwide : (mantissa ||| 0x800000#32).toNat = 2 ^ 23 + m := by
          rw [BitVec.toNat_or, hmantissa, Nat.or_comm]
          exact or_eq_add (Dvd.intro 1 rfl) hm
        have hlow : (2 ^ 23 + m) / 2 ^ (126 - e) < 2 ^ 15 := by
          have hpow : 2 ^ 14 ≤ 2 ^ (126 - e) := Nat.pow_le_pow_right (by decide) (by omega)
          have hle := Nat.div_le_div_left (a := 2 ^ 23 + m) hpow (by decide)
          omega
        refine setWidth_or hs ?_ hlow
        rw [BitVec.toNat_or, hsign32, BitVec.toNat_ushiftRight, BitVec.toNat_ushiftRight, hwide,
          ← Nat.shiftRight_add, hshift, Nat.shiftRight_eq_div_pow]
      · rw [if_neg (show ¬ (e : Int) - 127 ≥ -24 by omega), if_neg hsubnormal, Nat.add_zero]
        exact hsign16

theorem quantum_binary16 : binary16.quantum = (2 ^ 125 : Nat) * binary32.quantum := by
  norm_num [FloatFormat.quantum, FloatFormat.bias, binary16, binary32]

/-- What is dropped of the significand, as many bits as the shifts of the
code drop, is less than half of what is kept counts in, or is half of it
where that leaves the last bit 0. From 2^16 on nothing is dropped. -/
def RoundsDown (e m : Nat) : Prop :=
  143 ≤ e ∨ 2 * ((2 ^ 23 + m) % 2 ^ (13 + (113 - e))) < 2 ^ (13 + (113 - e)) ∨
    2 * ((2 ^ 23 + m) % 2 ^ (13 + (113 - e))) = 2 ^ (13 + (113 - e)) ∧
      (2 ^ 23 + m) / 2 ^ (13 + (113 - e)) % 2 = 0

theorem quanta_of_small {n : Nat} (h : n < 2 ^ 10) :
    binary16.quanta n = n ∧ binary16.step n = 1 := by
  have hexp : n / 2 ^ 10 = 0 := Nat.div_eq_of_lt h
  refine ⟨if_pos hexp, ?_⟩
  change 2 ^ (n / 2 ^ 10 - 1) = 1
  rw [hexp]
  rfl

instance (e m : Nat) : Decidable (RoundsDown e m) := inferInstanceAs (Decidable (_ ∨ _))

section Fields

variable {e m : Nat} (hm : m < 2 ^ 23)

include hm in
/-- A result with an exponent: 13 bits are dropped. -/
theorem nearest_of_normal (hlo : 113 ≤ e) (hhi : e < 143) :
    NearestEven binary16.value binary16.infinity (binary32.value (e * 2 ^ 23 + m)) (narrowed e m) ↔
      RoundsDown e m := by
  obtain ⟨k, rfl⟩ : ∃ k, e = k + 113 := ⟨e - 113, by omega⟩
  have hkept : m / 2 ^ 13 < 2 ^ 10 := by omega
  have hsplit : 2 ^ 23 + m = (2 ^ 10 + m / 2 ^ 13) * 2 ^ 13 + m % 2 ^ 13 := by omega
  have hwide : binary32.quanta ((k + 113) * 2 ^ 23 + m) = (2 ^ 23 + m) * 2 ^ (k + 112) :=
    binary32.quanta_mul_add (k + 113) hm.le
  have hnarrow : binary16.quanta ((k + 1) * 2 ^ 10 + m / 2 ^ 13) = (2 ^ 10 + m / 2 ^ 13) * 2 ^ k :=
    binary16.quanta_mul_add (k + 1) hkept.le
  have hstep : binary16.step ((k + 1) * 2 ^ 10 + m / 2 ^ 13) = 2 ^ k := by
    have hexp : ((k + 1) * 2 ^ 10 + m / 2 ^ 13) / 2 ^ 10 = k + 1 := by omega
    change 2 ^ (((k + 1) * 2 ^ 10 + m / 2 ^ 13) / 2 ^ 10 - 1) = 2 ^ k
    rw [hexp, Nat.add_sub_cancel]
  have hcode : narrowed (k + 113) m = (k + 1) * 2 ^ 10 + m / 2 ^ 13 := by
    rw [narrowed, if_neg (by omega), if_pos hlo]
    congr 1
  have hpow : 2 ^ k * 2 ^ 125 = 2 ^ 13 * 2 ^ (k + 112) := by
    rw [← Nat.pow_add, ← Nat.pow_add]
    congr 1
    omega
  have hvalue : binary32.quanta ((k + 113) * 2 ^ 23 + m)
      = binary16.quanta ((k + 1) * 2 ^ 10 + m / 2 ^ 13) * 2 ^ 125
        + m % 2 ^ 13 * 2 ^ (k + 112) := by
    rw [hwide, hnarrow, hsplit, Nat.mul_assoc, hpow, Nat.add_mul, Nat.mul_assoc]
  have hunits : binary16.step ((k + 1) * 2 ^ 10 + m / 2 ^ 13) * 2 ^ 125
      = 2 ^ 13 * 2 ^ (k + 112) := by
    rw [hstep, hpow]
  have htop : (k + 1) * 2 ^ 10 + m / 2 ^ 13 < binary16.infinity := by
    rw [infinity_binary16]
    omega
  have hdropped : 13 + (113 - (k + 113)) = 13 := by omega
  rw [hcode, FloatFormat.nearestEven_floor_of_quanta quantum_binary16 htop (Nat.two_pow_pos _)
    hvalue hunits (Nat.mod_lt m (by decide)).le, RoundsDown, hdropped]
  clear hvalue hunits hwide hnarrow hstep hcode htop hpow
  omega

include hm in
/-- A subnormal result, and 0: the leading bit of the significand is dropped,
or is one of those that are kept. -/
theorem nearest_of_subnormal (hlo : 1 ≤ e) (hhi : e < 113) :
    NearestEven binary16.value binary16.infinity (binary32.value (e * 2 ^ 23 + m)) (narrowed e m) ↔
      RoundsDown e m := by
  obtain ⟨j, rfl⟩ : ∃ j, e = j + 1 := ⟨e - 1, by omega⟩
  have hcode : narrowed (j + 1) m = (2 ^ 23 + m) / 2 ^ (125 - j) := by
    rw [narrowed, if_neg (by omega), if_neg (by omega)]
    by_cases hkept : 103 ≤ j + 1
    · rw [if_pos hkept]
      congr 2
      omega
    · have hpow : 2 ^ 24 ≤ 2 ^ (125 - j) := Nat.pow_le_pow_right (by decide) (by omega)
      rw [if_neg hkept, Nat.div_eq_of_lt (by omega)]
  have hpow : 2 ^ 125 = 2 ^ (125 - j) * 2 ^ j := by
    rw [← Nat.pow_add]
    congr 1
    omega
  have hsplit : 2 ^ 23 + m
      = (2 ^ 23 + m) / 2 ^ (125 - j) * 2 ^ (125 - j) + (2 ^ 23 + m) % 2 ^ (125 - j) := by
    rw [Nat.mul_comm, Nat.div_add_mod]
  have hsmall : (2 ^ 23 + m) / 2 ^ (125 - j) < 2 ^ 10 := by
    have hle : 2 ^ 14 ≤ 2 ^ (125 - j) := Nat.pow_le_pow_right (by decide) (by omega)
    have hdiv := Nat.div_le_div_left (a := 2 ^ 23 + m) hle (by decide)
    omega
  have hwide : binary32.quanta ((j + 1) * 2 ^ 23 + m) = (2 ^ 23 + m) * 2 ^ j :=
    binary32.quanta_mul_add (j + 1) hm.le
  have hlow : (2 ^ 23 + m) % 2 ^ (125 - j) ≤ 2 ^ (125 - j) :=
    (Nat.mod_lt _ (Nat.two_pow_pos _)).le
  have hdropped : 13 + (113 - (j + 1)) = 125 - j := by omega
  rw [hcode, RoundsDown, hdropped]
  generalize (2 ^ 23 + m) / 2 ^ (125 - j) = n at *
  generalize (2 ^ 23 + m) % 2 ^ (125 - j) = low at *
  obtain ⟨hnarrow, hstep⟩ := quanta_of_small hsmall
  have hvalue : binary32.quanta ((j + 1) * 2 ^ 23 + m)
      = binary16.quanta n * 2 ^ 125 + low * 2 ^ j := by
    rw [hwide, hnarrow, hsplit, hpow, Nat.add_mul, Nat.mul_assoc]
  have hunits : binary16.step n * 2 ^ 125 = 2 ^ (125 - j) * 2 ^ j := by
    rw [hstep, Nat.one_mul, hpow]
  have htop : n < binary16.infinity := by
    rw [infinity_binary16]
    omega
  rw [FloatFormat.nearestEven_floor_of_quanta quantum_binary16 htop (Nat.two_pow_pos j) hvalue
    hunits hlow]
  have hsmallE : ¬ 143 ≤ j + 1 := by omega
  simp only [hsmallE, false_or]

include hm in
/-- A subnormal argument is smaller than any result but 0. -/
theorem nearest_of_zero_exponent :
    NearestEven binary16.value binary16.infinity (binary32.value (0 * 2 ^ 23 + m)) (narrowed 0 m) ↔
      RoundsDown 0 m := by
  have hwide : binary32.quanta (0 * 2 ^ 23 + m) = m := binary32.quanta_mul_add 0 hm.le
  obtain ⟨hnarrow, hstep⟩ := quanta_of_small (n := 0) (by decide)
  have hvalue : binary32.quanta (0 * 2 ^ 23 + m) = binary16.quanta 0 * 2 ^ 125 + m * 1 := by
    rw [hwide, hnarrow, Nat.zero_mul, Nat.zero_add, Nat.mul_one]
  have hunits : binary16.step 0 * 2 ^ 125 = 2 ^ 125 * 1 := by rw [hstep, Nat.one_mul, Nat.mul_one]
  have hlow : 2 * m < 2 ^ 125 := by omega
  have hdown : RoundsDown 0 m := by
    right
    left
    rw [Nat.mod_eq_of_lt (by omega)]
    omega
  have htop : 0 < binary16.infinity := by
    rw [infinity_binary16]
    decide
  have hnearest := FloatFormat.nearestEven_floor_of_quanta quantum_binary16 htop Nat.one_pos hvalue
    hunits (by omega)
  exact iff_of_true (hnearest.mpr (.inl hlow)) hdown

include hm in
/-- From 2^16 on, and at infinity, the result is infinity. -/
theorem nearest_of_overflow (hlo : 143 ≤ e) (hnan : ¬ (e = 255 ∧ m ≠ 0)) :
    NearestEven binary16.value binary16.infinity (binary32.value (e * 2 ^ 23 + m)) (narrowed e m) ↔
      RoundsDown e m := by
  refine iff_of_true ?_ (.inl hlo)
  have hcode : narrowed e m = binary16.infinity := by
    rw [narrowed, if_pos hlo, if_neg hnan, infinity_binary16]
  rw [hcode]
  refine nearestEven_top binary16.value_strictMono ?_
  have hlimit : binary16.value binary16.infinity = binary32.value (143 * 2 ^ 23) := by
    have hwide : binary32.quanta (143 * 2 ^ 23 + 0) = (2 ^ 23 + 0) * 2 ^ 142 :=
      binary32.quanta_mul_add 143 (by decide)
    have hnarrow : binary16.quanta (31 * 2 ^ 10 + 0) = (2 ^ 10 + 0) * 2 ^ 30 :=
      binary16.quanta_mul_add 31 (by decide)
    rw [infinity_binary16, FloatFormat.value, FloatFormat.value, quantum_binary16]
    rw [Nat.add_zero] at hwide hnarrow
    rw [hwide, show 0x7C00 = 31 * 2 ^ 10 from rfl, hnarrow]
    push_cast
    ring
  rw [hlimit, binary32.value_strictMono.le_iff_le]
  omega

end Fields

/-- The sign stays in its place. -/
theorem fields_of_toNat {result s n : Nat} (hresult : result = s * 2 ^ 15 + n) (hs : s < 2)
    (hn : n < 2 ^ 15) :
    (binary16.Negative result ↔ s = 1) ∧ binary16.magnitude result = n := by
  subst hresult
  change ((s * 2 ^ 15 + n) / 2 ^ 15 % 2 = 1 ↔ s = 1) ∧ (s * 2 ^ 15 + n) % 2 ^ 15 = n
  omega

theorem narrowed_lt {e m : Nat} (hm : m < 2 ^ 23) : narrowed e m < 2 ^ 15 := by
  unfold narrowed
  split
  · split <;> decide
  · split
    · omega
    · split
      · rename_i hlo
        have hpow : 2 ^ 14 ≤ 2 ^ (126 - e) := Nat.pow_le_pow_right (by decide) (by omega)
        have hdiv := Nat.div_le_div_left (a := 2 ^ 23 + m) hpow (by decide)
        omega
      · decide

/-- Cutting the mantissa off is right exactly where what is dropped rounds
down. -/
theorem converts_fromFloat_iff (x : BitVec 32) :
    binary32.Converts binary16 x.toNat (fromFloat x).toNat ↔
      RoundsDown (x.toNat / 2 ^ 23 % 2 ^ 8) (x.toNat % 2 ^ 23) := by
  have hlt := x.isLt
  have hresult := toNat_fromFloat x
  have hs : x.toNat / 2 ^ 31 < 2 := by omega
  have hm : x.toNat % 2 ^ 23 < 2 ^ 23 := Nat.mod_lt _ (by decide)
  have he : x.toNat / 2 ^ 23 % 2 ^ 8 < 2 ^ 8 := Nat.mod_lt _ (by decide)
  obtain ⟨hsign, hmagnitude⟩ := fields_of_toNat hresult hs (narrowed_lt hm)
  have hnegative : binary32.Negative x.toNat ↔ x.toNat / 2 ^ 31 = 1 := by
    change x.toNat / 2 ^ 31 % 2 = 1 ↔ _
    omega
  have hfields : binary32.magnitude x.toNat
      = x.toNat / 2 ^ 23 % 2 ^ 8 * 2 ^ 23 + x.toNat % 2 ^ 23 := by
    change x.toNat % 2 ^ 31 = _
    omega
  have hnan : binary32.IsNaN x.toNat ↔ x.toNat / 2 ^ 23 % 2 ^ 8 = 255 ∧ x.toNat % 2 ^ 23 ≠ 0 := by
    have hinf : binary32.infinity = 255 * 2 ^ 23 := by decide
    rw [FloatFormat.IsNaN, hinf, hfields]
    omega
  have hnan16 : binary16.IsNaN (fromFloat x).toNat
      ↔ 0x7C00 < narrowed (x.toNat / 2 ^ 23 % 2 ^ 8) (x.toNat % 2 ^ 23) := by
    rw [FloatFormat.IsNaN, hmagnitude, infinity_binary16]
  rw [FloatFormat.Converts, hnan16, hsign, hnegative, hmagnitude, hfields, and_iff_right Iff.rfl]
  by_cases h : x.toNat / 2 ^ 23 % 2 ^ 8 = 255 ∧ x.toNat % 2 ^ 23 ≠ 0
  · have hover : 143 ≤ x.toNat / 2 ^ 23 % 2 ^ 8 := by omega
    rw [if_pos (hnan.mpr h), narrowed, if_pos hover, if_pos h]
    exact iff_of_true (by decide) (.inl hover)
  · rw [if_neg (hnan.not.mpr h)]
    generalize x.toNat / 2 ^ 23 % 2 ^ 8 = e at *
    rcases Nat.lt_or_ge e 143 with hhi | hover
    · rcases Nat.lt_or_ge e 113 with hhi' | hlo
      · rcases Nat.eq_zero_or_pos e with rfl | hpos
        · exact nearest_of_zero_exponent hm
        · exact nearest_of_subnormal hm hpos hhi'
      · exact nearest_of_normal hm hlo hhi
    · exact nearest_of_overflow hm hover h

/-! ### Widening -/

/-- As many shifts as the leading bit is away from its place. -/
theorem normalise_eq {fuel : Nat} {mantissa : BitVec 32} {exponent : Int}
    (hpos : 0 < mantissa.toNat) (hlt : mantissa.toNat < 2 ^ 11)
    (hfuel : 11 ≤ fuel + mantissa.toNat.log2) :
    normalise fuel mantissa exponent
      = some (mantissa <<< (10 - mantissa.toNat.log2),
          exponent - (10 - mantissa.toNat.log2 : Nat)) := by
  have hlog : mantissa.toNat.log2 < 11 := (Nat.log2_lt (by omega)).mpr hlt
  induction fuel generalizing mantissa exponent with
  | zero => omega
  | succ fuel ih =>
    have hbit : mantissa &&& 0x400#32 = 0 ↔ mantissa.toNat < 2 ^ 10 := by
      rw [← BitVec.toNat_inj, BitVec.toNat_and]
      change mantissa.toNat &&& 2 ^ 10 = 0 ↔ _
      rw [Nat.and_two_pow, Nat.toNat_testBit]
      omega
    rw [normalise]
    by_cases hclear : mantissa.toNat < 2 ^ 10
    · have hdouble : (mantissa <<< 1).toNat = 2 * mantissa.toNat := by
        rw [BitVec.toNat_shiftLeft, Nat.shiftLeft_eq]
        omega
      have hlog' : (mantissa <<< 1).toNat.log2 = mantissa.toNat.log2 + 1 := by
        rw [hdouble, Nat.log2_two_mul (by omega)]
      have hlog10 : mantissa.toNat.log2 < 10 := (Nat.log2_lt (by omega)).mpr hclear
      rw [if_pos (hbit.mpr hclear), ih (by omega) (by omega) (by omega) (by omega), hlog',
        ← BitVec.shiftLeft_add]
      congr 2
      · congr 1
        omega
      · omega
    · have hlog10 : mantissa.toNat.log2 = 10 := by
        have hle : 10 ≤ mantissa.toNat.log2 := (Nat.le_log2 (by omega)).mpr (by omega)
        omega
      rw [if_neg (hbit.not.mpr hclear), hlog10]
      simp

/-- Shifted, the leading bit is in place `n`. -/
theorem leading_bit {m n : Nat} (hm : m ≠ 0) (hlog : m.log2 ≤ n) :
    2 ^ n ≤ m * 2 ^ (n - m.log2) ∧ m * 2 ^ (n - m.log2) < 2 ^ (n + 1) := by
  have hpos : 0 < 2 ^ (n - m.log2) := Nat.two_pow_pos _
  constructor
  · calc 2 ^ n = 2 ^ m.log2 * 2 ^ (n - m.log2) := by rw [← Nat.pow_add, Nat.add_sub_cancel' hlog]
      _ ≤ m * 2 ^ (n - m.log2) := Nat.mul_le_mul_right _ (Nat.log2_self_le hm)
  · calc m * 2 ^ (n - m.log2) < 2 ^ (m.log2 + 1) * 2 ^ (n - m.log2) :=
          Nat.mul_lt_mul_of_pos_right Nat.lt_log2_self hpos
      _ = 2 ^ (n + 1) := by
          rw [← Nat.pow_add]
          congr 1
          omega

section Widening

variable (h : BitVec 16)

theorem toNat_sign16 :
    ((h.setWidth 32 &&& 0x8000#32) <<< 16).toNat = h.toNat / 2 ^ 15 * 2 ^ 31 := by
  have hlt := h.isLt
  rw [BitVec.toNat_shiftLeft, BitVec.toNat_and, BitVec.toNat_setWidth, Nat.shiftLeft_eq]
  change (h.toNat % 2 ^ 32 &&& 2 ^ 15) * 2 ^ 16 % 2 ^ 32 = _
  rw [Nat.mod_eq_of_lt (by omega : h.toNat < 2 ^ 32), Nat.and_two_pow, Nat.toNat_testBit]
  omega

theorem toNat_exponent16 :
    ((h.setWidth 32 >>> 10) &&& 0x1F#32).toNat = h.toNat / 2 ^ 10 % 2 ^ 5 := by
  have hlt := h.isLt
  rw [BitVec.toNat_and, BitVec.toNat_ushiftRight, Nat.shiftRight_eq_div_pow, BitVec.toNat_setWidth,
    Nat.mod_eq_of_lt (by omega : h.toNat < 2 ^ 32)]
  exact Nat.and_two_pow_sub_one_eq_mod _ 5

theorem toNat_mantissa16 : (h.setWidth 32 &&& 0x3FF#32).toNat = h.toNat % 2 ^ 10 := by
  have hlt := h.isLt
  rw [BitVec.toNat_and, BitVec.toNat_setWidth, Nat.mod_eq_of_lt (by omega : h.toNat < 2 ^ 32)]
  exact Nat.and_two_pow_sub_one_eq_mod _ 10

/-- The result without its sign, from the fields of the argument. -/
def widened (e m : Nat) : Nat :=
  if e = 31 then 255 * 2 ^ 23 + m * 2 ^ 13
  else if e = 0 then
    if m = 0 then 0
    else (103 + m.log2) * 2 ^ 23 + m * 2 ^ (10 - m.log2) % 2 ^ 10 * 2 ^ 13
  else (e + 112) * 2 ^ 23 + m * 2 ^ 13

theorem or_fields {s e m : Nat} (he : e < 2 ^ 8) (hm : m < 2 ^ 10)
    {sign exponent mantissa : BitVec 32} (hsign : sign.toNat = s * 2 ^ 31)
    (hexponent : exponent.toNat = e * 2 ^ 23) (hmantissa : mantissa.toNat = m) :
    (sign ||| exponent ||| mantissa <<< 13).toNat = s * 2 ^ 31 + (e * 2 ^ 23 + m * 2 ^ 13) := by
  have hshift : (mantissa <<< 13).toNat = m * 2 ^ 13 := by
    rw [BitVec.toNat_shiftLeft, hmantissa, Nat.shiftLeft_eq]
    omega
  rw [BitVec.toNat_or, BitVec.toNat_or, hsign, hexponent, hshift, Nat.or_assoc,
    or_eq_add (k := 23) (Dvd.intro_left _ rfl) (by omega),
    or_eq_add (k := 31) (Dvd.intro_left _ rfl) (by omega)]

theorem widened_lt {e m : Nat} (he : e < 2 ^ 5) (hm : m < 2 ^ 10) : widened e m < 2 ^ 31 := by
  unfold widened
  split
  · omega
  · split
    · split
      · decide
      · rename_i hm0
        have hlog : m.log2 < 10 := (Nat.log2_lt hm0).mpr hm
        omega
    · omega

/-- The loop ends within its 11 tests, and the result is that of `widened`. -/
theorem toFloat_eq : ∃ f32 : BitVec 32, (∀ fuel, 11 ≤ fuel → toFloat fuel h = some f32) ∧
    f32.toNat = h.toNat / 2 ^ 15 * 2 ^ 31 + widened (h.toNat / 2 ^ 10 % 2 ^ 5) (h.toNat % 2 ^ 10) := by
  have hlt := h.isLt
  have hs : h.toNat / 2 ^ 15 < 2 := by omega
  have he : h.toNat / 2 ^ 10 % 2 ^ 5 < 2 ^ 5 := Nat.mod_lt _ (by decide)
  have hm : h.toNat % 2 ^ 10 < 2 ^ 10 := Nat.mod_lt _ (by decide)
  have hsign := toNat_sign16 h
  have hmantissa := toNat_mantissa16 h
  simp only [toFloat, toNat_exponent16 h]
  generalize (h.setWidth 32 &&& 0x8000#32) <<< 16 = sign at *
  generalize h.setWidth 32 &&& 0x3FF#32 = mantissa at *
  generalize h.toNat / 2 ^ 10 % 2 ^ 5 = e at *
  generalize h.toNat % 2 ^ 10 = m at *
  generalize h.toNat / 2 ^ 15 = s at *
  have hinfZ : (e : Int) = 31 ↔ e = 31 := by omega
  have hzeroZ : (e : Int) = 0 ↔ e = 0 := by omega
  simp only [hinfZ, hzeroZ]
  unfold widened
  by_cases hinf : e = 31
  · rw [if_pos hinf]
    refine ⟨_, fun fuel _ => if_pos hinf, ?_⟩
    exact or_fields (by decide) hm hsign rfl hmantissa
  · rw [if_neg hinf]
    by_cases hzero : e = 0
    · rw [if_pos hzero]
      have hmzero : mantissa = 0 ↔ m = 0 := by
        rw [← hmantissa, ← BitVec.toNat_inj]
        rfl
      by_cases hm0 : m = 0
      · rw [if_pos hm0]
        refine ⟨sign, fun fuel _ => ?_, by rw [hsign, Nat.add_zero]⟩
        rw [if_neg hinf, if_pos hzero, if_pos (hmzero.mpr hm0)]
      · rw [if_neg hm0]
        have hlog : m.log2 < 10 := (Nat.log2_lt hm0).mpr hm
        obtain ⟨-, hpow⟩ := leading_bit hm0 hlog.le
        have hkept : ((mantissa <<< (10 - m.log2)) &&& 0x3FF#32).toNat
            = m * 2 ^ (10 - m.log2) % 2 ^ 10 := by
          rw [BitVec.toNat_and, BitVec.toNat_shiftLeft, hmantissa, Nat.shiftLeft_eq,
            Nat.mod_eq_of_lt (by omega : m * 2 ^ (10 - m.log2) < 2 ^ 32)]
          exact Nat.and_two_pow_sub_one_eq_mod _ 10
        have hfield := toNat_field (z := -14 - (10 - m.log2 : Nat) + 127) (n := 103 + m.log2) 23
          (by omega) (by omega)
        refine ⟨_, fun fuel hfuel => ?_,
          or_fields (by omega) (Nat.mod_lt _ (by decide)) hsign hfield hkept⟩
        rw [if_neg hinf, if_pos hzero, if_neg (hmzero.not.mpr hm0),
          normalise_eq (by omega) (by omega) (by omega), hmantissa]
        rfl
    · rw [if_neg hzero]
      have hfield := toNat_field (z := e + 127 - 15) (n := e + 112) 23 (by omega) (by omega)
      refine ⟨_, fun fuel _ => ?_, or_fields (by omega) hm hsign hfield hmantissa⟩
      rw [if_neg hinf, if_neg hzero]

/-- Cutting off what widening has filled in. -/
theorem narrowed_widened {e m : Nat} (he : e < 2 ^ 5) (hm : m < 2 ^ 10) :
    narrowed (widened e m / 2 ^ 23) (widened e m % 2 ^ 23)
      = if e = 31 ∧ m ≠ 0 then 0x7E00 else e * 2 ^ 10 + m := by
  have hfields : ∀ e' m', m' < 2 ^ 23 →
      (e' * 2 ^ 23 + m') / 2 ^ 23 = e' ∧ (e' * 2 ^ 23 + m') % 2 ^ 23 = m' := by
    intro e' m' hm'
    omega
  unfold widened
  by_cases hinf : e = 31
  · obtain ⟨hexp, hman⟩ := hfields 255 (m * 2 ^ 13) (by omega)
    rw [if_pos hinf, hexp, hman, narrowed, if_pos (by decide)]
    have hzero : m * 2 ^ 13 ≠ 0 ↔ m ≠ 0 := by omega
    simp only [hzero, hinf, true_and]
    split <;> omega
  · have hneg : ¬ (e = 31 ∧ m ≠ 0) := fun h => hinf h.1
    rw [if_neg hinf, if_neg hneg]
    by_cases hzero : e = 0
    · rw [if_pos hzero, hzero]
      by_cases hm0 : m = 0
      · rw [if_pos hm0, hm0]
        rfl
      · have hlog : m.log2 < 10 := (Nat.log2_lt hm0).mpr hm
        obtain ⟨hlo, hhi⟩ := leading_bit hm0 hlog.le
        obtain ⟨hexp, hman⟩ := hfields (103 + m.log2) (m * 2 ^ (10 - m.log2) % 2 ^ 10 * 2 ^ 13)
          (by omega)
        rw [if_neg hm0, hexp, hman, narrowed, if_neg (by omega), if_neg (by omega),
          if_pos (by omega)]
        have hwhole : 2 ^ 23 + m * 2 ^ (10 - m.log2) % 2 ^ 10 * 2 ^ 13
            = m * 2 ^ (126 - (103 + m.log2)) := by
          have hpow : 2 ^ (126 - (103 + m.log2)) = 2 ^ (10 - m.log2) * 2 ^ 13 := by
            rw [← Nat.pow_add]
            congr 1
            omega
          rw [hpow, ← Nat.mul_assoc]
          omega
        rw [hwhole, Nat.mul_div_cancel _ (Nat.two_pow_pos _)]
        omega
    · obtain ⟨hexp, hman⟩ := hfields (e + 112) (m * 2 ^ 13) (by omega)
      rw [if_neg hzero, hexp, hman, narrowed, if_neg (by omega), if_pos (by omega)]
      omega

/-- A pattern comes back from its widening, a NaN as a NaN. -/
def RoundTrips : Prop :=
  ∃ f32 : BitVec 32, (∀ fuel, 11 ≤ fuel → toFloat fuel h = some f32) ∧
    if binary16.IsNaN h.toNat then binary16.IsNaN (fromFloat f32).toNat else fromFloat f32 = h

theorem roundTrips : RoundTrips h := by
  obtain ⟨f32, hwiden, hresult⟩ := toFloat_eq h
  refine ⟨f32, hwiden, ?_⟩
  have hlt := h.isLt
  have he : h.toNat / 2 ^ 10 % 2 ^ 5 < 2 ^ 5 := Nat.mod_lt _ (by decide)
  have hm : h.toNat % 2 ^ 10 < 2 ^ 10 := Nat.mod_lt _ (by decide)
  have hback := toNat_fromFloat f32
  have hwidened := widened_lt he hm
  have hsign : f32.toNat / 2 ^ 31 = h.toNat / 2 ^ 15 := by omega
  have hexp : f32.toNat / 2 ^ 23 % 2 ^ 8
      = widened (h.toNat / 2 ^ 10 % 2 ^ 5) (h.toNat % 2 ^ 10) / 2 ^ 23 := by omega
  have hman : f32.toNat % 2 ^ 23
      = widened (h.toNat / 2 ^ 10 % 2 ^ 5) (h.toNat % 2 ^ 10) % 2 ^ 23 := by omega
  rw [hsign, hexp, hman, narrowed_widened he hm] at hback
  have hnan : binary16.IsNaN h.toNat ↔ h.toNat / 2 ^ 10 % 2 ^ 5 = 31 ∧ h.toNat % 2 ^ 10 ≠ 0 := by
    rw [FloatFormat.IsNaN, infinity_binary16]
    change 0x7C00 < h.toNat % 2 ^ 15 ↔ _
    omega
  by_cases hcase : h.toNat / 2 ^ 10 % 2 ^ 5 = 31 ∧ h.toNat % 2 ^ 10 ≠ 0
  · rw [if_pos hcase] at hback
    rw [if_pos (hnan.mpr hcase), FloatFormat.IsNaN,
      (fields_of_toNat hback (by omega) (by decide)).2, infinity_binary16]
    decide
  · rw [if_neg hcase] at hback
    rw [if_neg (hnan.not.mpr hcase)]
    refine BitVec.eq_of_toNat_eq ?_
    rw [hback]
    omega

end Widening

/-- Of all patterns, exactly those that round down are converted to nearest
even; widening ends, and comes back. -/
theorem float16_converts_iff (x : BitVec 32) (h : BitVec 16) :
    (binary32.Converts binary16 x.toNat (fromFloat x).toNat ∧ RoundTrips h) ↔
      RoundsDown (x.toNat / 2 ^ 23 % 2 ^ 8) (x.toNat % 2 ^ 23) := by
  rw [and_iff_left (roundTrips h), converts_fromFloat_iff]

/-- The largest `float` below 1 becomes the largest half below 1, although 1
is nearer. -/
theorem float16_below_one :
    ¬ binary32.Converts binary16 (0x3F7FFFFF#32).toNat (fromFloat 0x3F7FFFFF#32).toNat := by
  rw [converts_fromFloat_iff]
  decide +kernel

end Float16

end InfiniOps
