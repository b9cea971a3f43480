/-
InfiniOps.Lib.FloatFormat — binary floating-point formats as bit patterns:
the value of a pattern, and what it means that a conversion rounds to
nearest even.

Patterns without their sign are ordered as their values are, and infinity
is the pattern after the largest finite one. Its `value` here is that of
the next point of the grid: a number rounds to infinity exactly when that
point is nearest, which is how overflow is defined for this rounding.

`nearestEven_floor_iff` and `nearestEven_ceil_iff` decide a rounding by the
digits that are dropped. `quanta_add` is what they are applied with: within
a binade, and up to the first value of the next, the patterns are evenly
spaced.
-/
import Mathlib.Algebra.Order.Field.Rat
import Mathlib.Algebra.Order.Ring.Abs
import Mathlib.Data.Nat.Log
import Mathlib.Order.Monotone.Basic
import Mathlib.Tactic.Linarith
import Mathlib.Tactic.Positivity
import Mathlib.Tactic.Ring

namespace InfiniOps

/-! ## Nearest, ties to even -/

section Nearest

variable {K : Type*} [Field K] [LinearOrder K] [IsStrictOrderedRing K]

/-- Of the grid `value 0 < … < value top`, the point `n` is nearest to `v`,
and is even if it is not the only one. -/
structure NearestEven (value : Nat → K) (top : Nat) (v : K) (n : Nat) : Prop where
  le_top : n ≤ top
  nearest : ∀ m ≤ top, |v - value n| ≤ |v - value m|
  even_of_tie : ∀ m ≤ top, m ≠ n → |v - value m| = |v - value n| → n % 2 = 0

variable {value : Nat → K} {top n : Nat} {v u : K} {low w : Nat}

/-- Every other point is further away than one of two neighbours. -/
theorem further_of_neighbours (hmono : StrictMono value) (hlo : value n ≤ v)
    (hhi : v ≤ value (n + 1)) {m : Nat} (hm : m ≠ n) (hm' : m ≠ n + 1) :
    |v - value n| < |v - value m| ∨ |v - value (n + 1)| < |v - value m| := by
  rcases Nat.lt_or_gt_of_ne hm with hlt | hgt
  · left
    have hvalue := hmono hlt
    rw [abs_of_nonneg (by linarith), abs_of_nonneg (by linarith)]
    linarith
  · right
    have hvalue : value (n + 1) < value m := hmono (by omega)
    rw [abs_of_nonpos (by linarith), abs_of_nonpos (by linarith)]
    linarith

/-- Between two neighbours, only these two are compared. -/
theorem nearestEven_iff_neighbour (hmono : StrictMono value) (hn : n < top) (hlo : value n ≤ v)
    (hhi : v ≤ value (n + 1)) {k k' : Nat} (hk : k = n ∧ k' = n + 1 ∨ k = n + 1 ∧ k' = n) :
    NearestEven value top v k ↔
      |v - value k| < |v - value k'| ∨ |v - value k| = |v - value k'| ∧ k % 2 = 0 := by
  have hfar : ∀ m, m ≠ k → m ≠ k' → |v - value k| ≤ |v - value k'| →
      |v - value k| < |v - value m| := by
    intro m hm hm' hle
    obtain ⟨rfl, rfl⟩ | ⟨rfl, rfl⟩ := hk
    · exact (further_of_neighbours hmono hlo hhi hm hm').elim id (lt_of_le_of_lt hle)
    · exact (further_of_neighbours hmono hlo hhi hm' hm).elim (lt_of_le_of_lt hle) id
  constructor
  · intro h
    rcases lt_or_eq_of_le (h.nearest k' (by omega)) with hlt | heq
    · exact .inl hlt
    · exact .inr ⟨heq, h.even_of_tie k' (by omega) (by omega) heq.symm⟩
  · intro h
    have hle : |v - value k| ≤ |v - value k'| := h.elim le_of_lt fun h => le_of_eq h.1
    refine ⟨by omega, ?_, ?_⟩
    · intro m _
      by_cases hm : m = k
      · rw [hm]
      · by_cases hm' : m = k'
        · rwa [hm']
        · exact (hfar m hm hm' hle).le
    · intro m _ hne htie
      by_cases hm' : m = k'
      · rw [hm'] at htie
        exact h.elim (fun hlt => absurd htie hlt.ne') And.right
      · exact absurd htie (hfar m hne hm' hle).ne'

section Steps

variable (hmono : StrictMono value) (hn : n < top) (hv : v = value n + low * u)
  (hstep : value (n + 1) = value n + w * u) (hu : 0 < u) (hlow : low ≤ w)

include hv hu in
theorem abs_sub_floor : |v - value n| = low * u := by
  rw [hv, add_sub_cancel_left, abs_of_nonneg (by positivity)]

include hv hstep hu hlow in
theorem abs_sub_ceil : |v - value (n + 1)| = (w - low : Nat) * u := by
  have hterm : 0 ≤ ((w - low : Nat) : K) * u := by positivity
  rw [Nat.cast_sub hlow] at hterm ⊢
  rw [hv, hstep, abs_sub_comm, abs_of_nonneg (by linarith)]
  ring

include hv hu in
theorem floor_le_of_steps : value n ≤ v := by
  rw [hv]
  exact le_add_of_nonneg_right (by positivity)

include hv hstep hu hlow in
theorem le_ceil_of_steps : v ≤ value (n + 1) := by
  rw [hv, hstep, add_le_add_iff_left, mul_le_mul_iff_left₀ hu]
  exact_mod_cast hlow

include hmono hn hv hstep hu hlow in
/-- The lower neighbour, where at most half of the steps to the next one are
dropped. -/
theorem nearestEven_floor_iff :
    NearestEven value top v n ↔ 2 * low < w ∨ 2 * low = w ∧ n % 2 = 0 := by
  rw [nearestEven_iff_neighbour hmono hn (floor_le_of_steps hv hu)
    (le_ceil_of_steps hv hstep hu hlow) (.inl ⟨rfl, rfl⟩), abs_sub_floor hv hu,
    abs_sub_ceil hv hstep hu hlow, mul_lt_mul_iff_left₀ hu, mul_left_inj' hu.ne', Nat.cast_lt,
    Nat.cast_inj]
  omega

include hmono hn hv hstep hu hlow in
/-- The upper neighbour, where at least half of the steps are dropped. -/
theorem nearestEven_ceil_iff :
    NearestEven value top v (n + 1) ↔ w < 2 * low ∨ 2 * low = w ∧ n % 2 = 1 := by
  rw [nearestEven_iff_neighbour hmono hn (floor_le_of_steps hv hu)
    (le_ceil_of_steps hv hstep hu hlow) (.inr ⟨rfl, rfl⟩), abs_sub_floor hv hu,
    abs_sub_ceil hv hstep hu hlow, mul_lt_mul_iff_left₀ hu, mul_left_inj' hu.ne', Nat.cast_lt,
    Nat.cast_inj]
  omega

end Steps

/-- Past the last point, the last point. -/
theorem nearestEven_top (hmono : StrictMono value) (hv : value top ≤ v) :
    NearestEven value top v top := by
  have hfar : ∀ m ≤ top, m ≠ top → |v - value top| < |v - value m| := by
    intro m hm hne
    have hvalue : value m < value top := hmono (lt_of_le_of_ne hm hne)
    rw [abs_of_nonneg (by linarith), abs_of_nonneg (by linarith)]
    linarith
  refine ⟨le_refl _, ?_, fun m hm hne htie => absurd htie (hfar m hm hne).ne'⟩
  intro m hm
  by_cases hne : m = top
  · rw [hne]
  · exact (hfar m hm hne).le

end Nearest

/-! ## Formats -/

/-- The widths of the exponent and of the mantissa. -/
structure FloatFormat where
  exponentBits : Nat
  mantissaBits : Nat
  deriving DecidableEq, Repr

namespace FloatFormat

variable (f : FloatFormat)

/-- What the sign bit counts. -/
def signWeight : Nat := 2 ^ (f.exponentBits + f.mantissaBits)

def Negative (bits : Nat) : Prop := bits / f.signWeight % 2 = 1

/-- The pattern without its sign. -/
def magnitude (bits : Nat) : Nat := bits % f.signWeight

/-- The pattern whose exponent is all ones. -/
def infinity : Nat := (2 ^ f.exponentBits - 1) * 2 ^ f.mantissaBits

def IsNaN (bits : Nat) : Prop := f.infinity < f.magnitude bits

/-- The value in units of the smallest subnormal. -/
def quanta (x : Nat) : Nat :=
  if x / 2 ^ f.mantissaBits = 0 then x
  else (2 ^ f.mantissaBits + x % 2 ^ f.mantissaBits) * 2 ^ (x / 2 ^ f.mantissaBits - 1)

def bias : Int := 2 ^ (f.exponentBits - 1) - 1

/-- The smallest subnormal. -/
def quantum : ℚ := 2 ^ (1 - f.bias - f.mantissaBits : ℤ)

/-- The value of a pattern without sign; that of infinity is the next power
of two. -/
def value (x : Nat) : ℚ := f.quanta x * f.quantum

/-- The step to the next pattern. -/
def step (x : Nat) : Nat := 2 ^ (x / 2 ^ f.mantissaBits - 1)

instance (bits : Nat) : Decidable (f.Negative bits) := inferInstanceAs (Decidable (_ = _))

instance (bits : Nat) : Decidable (f.IsNaN bits) := inferInstanceAs (Decidable (_ < _))

/-- The conversion of a pattern of format `f` is right, to nearest even: a
NaN becomes a NaN, and everything else keeps its sign. -/
def Converts (f g : FloatFormat) (bits result : Nat) : Prop :=
  if f.IsNaN bits then g.IsNaN result
  else (g.Negative result ↔ f.Negative bits) ∧
    NearestEven g.value g.infinity (f.value (f.magnitude bits)) (g.magnitude result)

/-- An exponent and a mantissa. One past the last mantissa is the first
value of the next binade. -/
theorem quanta_mul_add (e : Nat) {m : Nat} (hm : m ≤ 2 ^ f.mantissaBits) :
    f.quanta (e * 2 ^ f.mantissaBits + m)
      = if e = 0 then m else (2 ^ f.mantissaBits + m) * 2 ^ (e - 1) := by
  have hpos : 0 < 2 ^ f.mantissaBits := Nat.two_pow_pos _
  rw [quanta]
  generalize 2 ^ f.mantissaBits = N at hm hpos ⊢
  rcases Nat.lt_or_eq_of_le hm with hlt | rfl
  · have hdiv : (e * N + m) / N = e := by
      rw [Nat.mul_comm, Nat.mul_add_div hpos, Nat.div_eq_of_lt hlt, Nat.add_zero]
    have hmod : (e * N + m) % N = m := by
      rw [Nat.mul_comm, Nat.mul_add_mod, Nat.mod_eq_of_lt hlt]
    rw [hdiv, hmod]
    by_cases he : e = 0
    · simp [he]
    · rw [if_neg he, if_neg he]
  · have hdiv : (e * m + m) / m = e + 1 := by
      rw [← Nat.succ_mul, Nat.mul_div_cancel _ hpos]
    have hmod : (e * m + m) % m = 0 := by
      rw [← Nat.succ_mul, Nat.mul_mod_left]
    rw [hdiv, hmod, if_neg (Nat.succ_ne_zero e), Nat.add_zero, Nat.add_sub_cancel]
    cases e with
    | zero => simp
    | succ e =>
      rw [if_neg (Nat.succ_ne_zero e), Nat.add_sub_cancel, Nat.pow_succ]
      ring

/-- Within a binade, and up to the first value of the next, the patterns are
evenly spaced. -/
theorem quanta_add {x j : Nat} (h : x % 2 ^ f.mantissaBits + j ≤ 2 ^ f.mantissaBits) :
    f.quanta (x + j) = f.quanta x + j * f.step x := by
  have hsplit : x = x / 2 ^ f.mantissaBits * 2 ^ f.mantissaBits + x % 2 ^ f.mantissaBits := by
    rw [Nat.mul_comm, Nat.div_add_mod]
  have hx := f.quanta_mul_add (x / 2 ^ f.mantissaBits) (Nat.le_of_add_right_le h)
  have hxj := f.quanta_mul_add (x / 2 ^ f.mantissaBits) h
  rw [← hsplit] at hx
  rw [← Nat.add_assoc, ← hsplit] at hxj
  rw [hx, hxj, step]
  by_cases he : x / 2 ^ f.mantissaBits = 0
  · simp [he]
  · rw [if_neg he, if_neg he]
    ring

theorem quanta_succ (x : Nat) : f.quanta (x + 1) = f.quanta x + f.step x := by
  have hlt := Nat.mod_lt x (Nat.two_pow_pos f.mantissaBits)
  rw [f.quanta_add hlt, Nat.one_mul]

theorem quantum_pos : 0 < f.quantum := zpow_pos two_pos _

/-- The patterns are ordered as their values are. -/
theorem value_strictMono : StrictMono f.value := by
  refine strictMono_nat_of_lt_succ fun x => ?_
  have hstep : 0 < f.step x := Nat.two_pow_pos _
  have hlt : (f.quanta x : ℚ) < f.quanta (x + 1) := by
    rw [f.quanta_succ]
    exact_mod_cast Nat.lt_add_of_pos_right hstep
  exact mul_lt_mul_of_pos_right hlt f.quantum_pos

/-! ## Narrowing the mantissa -/

section Narrow

variable {f g : FloatFormat} {k q low : Nat} (hexp : f.exponentBits = g.exponentBits)
  (hman : f.mantissaBits = g.mantissaBits + k)

include hman in
theorem quanta_mul_two_pow : f.quanta (q * 2 ^ k) = g.quanta q * 2 ^ k := by
  have hlt := Nat.mod_lt q (Nat.two_pow_pos g.mantissaBits)
  have hsplit : q = q / 2 ^ g.mantissaBits * 2 ^ g.mantissaBits + q % 2 ^ g.mantissaBits := by
    rw [Nat.mul_comm, Nat.div_add_mod]
  have hg := g.quanta_mul_add (q / 2 ^ g.mantissaBits) hlt.le
  have hwide : q * 2 ^ k
      = q / 2 ^ g.mantissaBits * 2 ^ f.mantissaBits + q % 2 ^ g.mantissaBits * 2 ^ k := by
    conv_lhs => rw [hsplit]
    rw [hman, Nat.pow_add]
    ring
  have hle : q % 2 ^ g.mantissaBits * 2 ^ k ≤ 2 ^ f.mantissaBits := by
    rw [hman, Nat.pow_add]
    exact Nat.mul_le_mul_right _ hlt.le
  have hf := f.quanta_mul_add (q / 2 ^ g.mantissaBits) hle
  rw [← hwide] at hf
  rw [← hsplit] at hg
  rw [hf, hg, hman, Nat.pow_add]
  by_cases he : q / 2 ^ g.mantissaBits = 0
  · simp [he]
  · rw [if_neg he, if_neg he]
    ring

include hman in
theorem step_mul_two_pow : f.step (q * 2 ^ k) = g.step q := by
  rw [step, step, hman, Nat.pow_add, Nat.mul_div_mul_right _ _ (Nat.two_pow_pos k)]

include hexp hman in
theorem quantum_eq : g.quantum = 2 ^ k * f.quantum := by
  have hbias : f.bias = g.bias := by rw [bias, bias, hexp]
  rw [quantum, quantum, hbias, hman, ← zpow_natCast (2 : ℚ) k, ← zpow_add₀ two_ne_zero]
  congr 1
  push_cast
  ring

include hexp hman in
/-- The bits that are dropped count in steps of the wider format. -/
theorem value_mul_add (hlow : low ≤ 2 ^ k) :
    f.value (q * 2 ^ k + low) = g.value q + low * (g.step q * f.quantum) := by
  have hlt := Nat.mod_lt q (Nat.two_pow_pos g.mantissaBits)
  have hroom : q * 2 ^ k % 2 ^ f.mantissaBits + low ≤ 2 ^ f.mantissaBits := by
    have hmul : (q % 2 ^ g.mantissaBits + 1) * 2 ^ k ≤ 2 ^ g.mantissaBits * 2 ^ k :=
      Nat.mul_le_mul_right _ hlt
    rw [hman, Nat.pow_add, Nat.mul_mod_mul_right]
    linarith
  rw [value, value, f.quanta_add hroom, quanta_mul_two_pow hman, step_mul_two_pow hman,
    quantum_eq hexp hman]
  push_cast
  ring

include hexp hman in
theorem value_succ :
    g.value (q + 1) = g.value q + (2 ^ k : Nat) * (g.step q * f.quantum) := by
  rw [value, value, g.quanta_succ, quantum_eq hexp hman]
  push_cast
  ring

end Narrow

/-- Between two formats with the same zero, a rounding is decided in quanta of
the finer one: the point below is `low` units away, and the next one `w`. -/
theorem nearestEven_floor_of_quanta {f g : FloatFormat} {c p n low w u : Nat}
    (hquantum : g.quantum = c * f.quantum) (hn : n < g.infinity) (hu : 0 < u)
    (hp : f.quanta p = g.quanta n * c + low * u) (hstep : g.step n * c = w * u) (hlow : low ≤ w) :
    NearestEven g.value g.infinity (f.value p) n ↔ 2 * low < w ∨ 2 * low = w ∧ n % 2 = 0 := by
  have hunit : 0 < (u : ℚ) * f.quantum := mul_pos (by exact_mod_cast hu) f.quantum_pos
  have hv : f.value p = g.value n + low * (u * f.quantum) := by
    rw [value, value, hp, hquantum]
    push_cast
    ring
  have hnext : g.value (n + 1) = g.value n + w * (u * f.quantum) := by
    have hcast : (g.step n : ℚ) * c = w * u := by exact_mod_cast hstep
    rw [value, value, g.quanta_succ, hquantum, ← mul_assoc (w : ℚ), ← hcast]
    push_cast
    ring
  exact nearestEven_floor_iff g.value_strictMono hn hv hnext hunit hlow

end FloatFormat

end InfiniOps
