/-
InfiniOps.Ci.PyValueTheorems — which integers are floats, how scaling treats
a sign, and what `float()` reads of plain digits.

`scale_ofRat_iff` is about two roundings in a row: an integer that becomes a
float and is then scaled keeps its value exactly when the scaled one is a
float.
-/
import InfiniOps.Ci.PyValue

namespace InfiniOps.Ci

/-! ## Floats -/

namespace PyFloat

/-- A float that exists: a finite one is what some rational rounds to. -/
def IsDouble : PyFloat → Prop
  | .nan => True
  | .inf _ => True
  | .fin q => ∃ p, ofRat p = .fin q

/-- An integer that is a float. -/
def Exact (n : Nat) : Prop := Rounding.FitsIn 53 n ∧ n < 2 ^ 1024

variable {q : ℚ} {n : Nat} {x : PyFloat}

theorem ofRat_cases (q : ℚ) :
    (∃ negative, ofRat q = .inf negative) ∨ ofRat q = .fin (Rounding.roundFloat 53 (-1074) q) := by
  rw [ofRat]
  split_ifs <;> simp

theorem ofRat_natCast (h : Exact n) : ofRat n = .fin n := by
  have hround : Rounding.roundFloat 53 (-1074) (n : ℚ) = n :=
    Rounding.roundFloat_natCast (by decide) (by decide) h.1
  have hhi : ¬ (2 ^ 1024 : ℚ) ≤ n := by
    rw [not_le]
    exact_mod_cast h.2
  have hlo : ¬ (n : ℚ) ≤ -2 ^ 1024 := by
    rw [not_le]
    exact (neg_lt_zero.mpr (by positivity)).trans_le n.cast_nonneg
  rw [ofRat, hround, if_neg hhi, if_neg hlo]

theorem exact_of_ofRat (h : ofRat q = .fin n) : Exact n := by
  rw [ofRat] at h
  split_ifs at h with hhi hlo
  have hround := PyFloat.fin.inj h
  refine ⟨Rounding.fitsIn_of_roundFloat (by decide) hround, ?_⟩
  rw [hround, not_le] at hhi
  exact_mod_cast hhi

theorem exact_of_lt (h : n < 2 ^ 53) : Exact n := by
  refine ⟨⟨n, 0, (Nat.mul_one n).symm, h⟩, h.trans_le ?_⟩
  gcongr
  · decide
  · decide

theorem Exact.of_mul_two_pow {k : Nat} (h : Exact (n * 2 ^ k)) : Exact n :=
  ⟨Rounding.fitsIn_of_mul_two_pow (by decide) h.1,
    (Nat.le_mul_of_pos_right n (Nat.two_pow_pos k)).trans_lt h.2⟩

/-- An integer and a scaling by a power of two, without loss. -/
theorem scale_ofRat_iff {k : Nat} :
    (ofRat n).scale (2 ^ k) = .fin (n * 2 ^ k : Nat) ↔ Exact (n * 2 ^ k) := by
  constructor
  · intro h
    rcases ofRat_cases n with ⟨negative, hn⟩ | hn
    · rw [hn] at h
      cases h
    · rw [hn] at h
      exact exact_of_ofRat h
  · intro h
    rw [ofRat_natCast h.of_mul_two_pow, ← ofRat_natCast h]
    exact congrArg ofRat (Nat.cast_mul n (2 ^ k)).symm

theorem not_lt_ofRat (hq : q ≤ 0) : (fin 0).lt (ofRat q) = false := by
  have hround : Rounding.roundFloat 53 (-1074) q ≤ 0 := Rounding.roundFloat_nonpos hq
  have hpow : (0 : ℚ) < 2 ^ 1024 := by positivity
  rw [ofRat, if_neg fun h => absurd (h.trans hround) (not_le.mpr hpow)]
  split_ifs
  · rfl
  · exact decide_eq_false (not_lt.mpr hround)

theorem lt_ofRat (hq : 2 ^ (-1074 : Int) ≤ q) : (fin 0).lt (ofRat q) = true := by
  have hround : 0 < Rounding.roundFloat 53 (-1074) q := Rounding.roundFloat_pos (by decide) hq
  have hpow : (-2 ^ 1024 : ℚ) < 0 := neg_lt_zero.mpr (by positivity)
  rw [ofRat]
  split_ifs with hhi hlo
  · rfl
  · exact absurd (hround.trans_le hlo) (not_lt.mpr hpow.le)
  · exact decide_eq_true hround

theorem isDouble_ofRat (q : ℚ) : (ofRat q).IsDouble := by
  cases h : ofRat q with
  | nan => exact trivial
  | inf negative => exact trivial
  | fin p => exact ⟨q, h⟩

theorem IsDouble.le_of_pos (h : (fin q).IsDouble) (hq : 0 < q) : 2 ^ (-1074 : Int) ≤ q := by
  obtain ⟨p, hp⟩ := h
  rcases ofRat_cases p with ⟨negative, heq⟩ | heq
  · rw [heq] at hp
    cases hp
  · rw [heq] at hp
    rw [← PyFloat.fin.inj hp] at hq ⊢
    exact Rounding.le_roundFloat_of_pos hq

/-- Scaling keeps which floats are positive. -/
theorem lt_scale (hx : x.IsDouble) (hn : 0 < n) : (fin 0).lt (x.scale n) = (fin 0).lt x := by
  cases x with
  | nan => rfl
  | inf negative => rfl
  | fin q =>
    rcases le_or_gt q 0 with hle | hgt
    · have hmul : q * n ≤ 0 := mul_nonpos_of_nonpos_of_nonneg hle n.cast_nonneg
      rw [scale, not_lt_ofRat hmul]
      exact (decide_eq_false (not_lt.mpr hle)).symm
    · have hone : (1 : ℚ) ≤ n := by exact_mod_cast hn
      have hmul : 2 ^ (-1074 : Int) ≤ q * n :=
        (hx.le_of_pos hgt).trans (le_mul_of_one_le_right hgt.le hone)
      rw [scale, lt_ofRat hmul]
      exact (decide_eq_true hgt).symm

end PyFloat

/-! ## Numerals -/

theorem isDouble_of_pyFloatOfString {s : List Char} {x : PyFloat}
    (h : pyFloatOfString s = .ok x) : x.IsDouble := by
  rw [pyFloatOfString] at h
  dsimp only at h
  split at h
  · rw [← Except.ok.inj h]
    exact trivial
  · split at h
    · rw [← Except.ok.inj h]
      exact trivial
    · split at h
      · rw [← Except.ok.inj h]
        exact PyFloat.isDouble_ofRat _
      · cases h

theorem stripBy_eq_self {p : Char → Bool} {s : List Char} (h : ∀ c ∈ s, p c = false) :
    stripBy p s = s := by
  have hdrop : ∀ l : List Char, (∀ c ∈ l, p c = false) → l.dropWhile p = l := by
    intro l hl
    cases l with
    | nil => rfl
    | cons c l => simp [hl c List.mem_cons_self]
  rw [stripBy, hdrop s h, hdrop s.reverse fun c hc => h c (List.mem_reverse.mp hc),
    List.reverse_reverse]

section Digits

variable {digits : List Char}

theorem decimalDigit_of_isDigit {c : Char} (h : c.isDigit = true) :
    decimalDigit c = some (c.toNat - 48) := by
  have hrange : 48 ≤ c.toNat ∧ c.toNat < 58 := by
    obtain ⟨hlo, hhi⟩ := Char.isDigit_iff_toNat.mp h
    exact ⟨hlo, Nat.lt_succ_of_le hhi⟩
  rw [decimalDigit, decimalZeros, List.find?_cons_of_pos (by simpa using hrange)]
  rfl

/-- The blocks of digits lie between the spaces. -/
theorem decimalZeros_range : ∀ z ∈ decimalZeros, z = 0x30 ∨ 0x660 ≤ z ∧ z + 10 ≤ 0x1680 ∨
    0x1681 ≤ z ∧ z + 10 ≤ 0x2000 ∨ 0x3001 ≤ z := by
  decide

theorem not_space_of_decimalDigit {c : Char} (h : (decimalDigit c).isSome = true) :
    pyIsSpace c = false := by
  rw [decimalDigit, Option.isSome_map, List.find?_isSome] at h
  obtain ⟨z, hz, hrange⟩ := h
  rw [Bool.and_eq_true, decide_eq_true_eq, decide_eq_true_eq] at hrange
  have hzero := decimalZeros_range z hz
  simp [pyIsSpace]
  omega

theorem not_space_of_isDigit {c : Char} (h : c.isDigit = true) : pyIsSpace c = false := by
  refine not_space_of_decimalDigit ?_
  rw [decimalDigit_of_isDigit h]
  rfl

theorem toLower_of_isDigit {c : Char} (h : c.isDigit = true) : c.toLower = c := by
  have hhi : c.toNat ≤ 57 := (Char.isDigit_iff_toNat.mp h).2
  refine dif_neg fun hupper => ?_
  have hlo : 65 ≤ c.toNat := UInt32.le_iff_toNat_le.mp hupper.1
  omega

theorem map_toLower_digits (h : ∀ c ∈ digits, c.isDigit = true) :
    digits.map Char.toLower = digits := by
  rw [List.map_congr_left fun c hc => toLower_of_isDigit (h c hc), List.map_id']

theorem digitPart_digits (prev : Bool) (h : ∀ c ∈ digits, c.isDigit = true) :
    digitPart prev digits = (digits.map (·.toNat - 48), []) := by
  induction digits generalizing prev with
  | nil => rfl
  | cons c cs ih =>
    have hc := h c List.mem_cons_self
    have hne : c ≠ '_' := by
      rintro rfl
      cases hc
    rw [digitPart, if_neg hne, decimalDigit_of_isDigit hc]
    simp only [ih true fun d hd => h d (List.mem_cons_of_mem c hd), List.map_cons]

theorem digitsValue_map : digitsValue (digits.map (·.toNat - 48)) = Nat.ofDigitChars 10 digits 0 :=
  List.foldl_map

theorem stripBy_digits (h : ∀ c ∈ digits, c.isDigit = true) : stripBy pyIsNumSpace digits = digits := by
  refine stripBy_eq_self fun c hc => ?_
  rw [pyIsNumSpace, not_space_of_isDigit (h c hc), Bool.false_and]

theorem takeSign_digits (h : ∀ c ∈ digits, c.isDigit = true) : takeSign digits = (false, digits) := by
  unfold takeSign
  split
  · exact absurd (h '-' List.mem_cons_self) (by decide)
  · exact absurd (h '+' List.mem_cons_self) (by decide)
  · rfl

/-- Plain digits are read as the number that they denote. -/
theorem pyFloatOfString_digits (hne : digits ≠ []) (h : ∀ c ∈ digits, c.isDigit = true) :
    pyFloatOfString digits = .ok (.ofRat (Nat.ofDigitChars 10 digits 0)) := by
  have hname : ∀ name : List Char, 'n' ∈ name → digits ≠ name := by
    rintro name hn rfl
    exact absurd (h 'n' hn) (by decide)
  have hdecimal : decimalFloat digits = some (Nat.ofDigitChars 10 digits 0 : ℚ) := by
    rw [decimalFloat, digitPart_digits false h]
    simp [hne, exponentPart, digitsValue_map]
  rw [pyFloatOfString, stripBy_digits h, takeSign_digits h]
  dsimp only
  rw [map_toLower_digits h, if_neg (not_or.mpr ⟨hname _ (by decide), hname _ (by decide)⟩), if_neg (hname _ (by decide)), hdecimal]
  rfl

theorem pyIntOfString_digits (hne : digits ≠ []) (h : ∀ c ∈ digits, c.isDigit = true) :
    pyIntOfString digits = .ok (Nat.ofDigitChars 10 digits 0) := by
  rw [pyIntOfString, stripBy_digits h, takeSign_digits h]
  dsimp only
  rw [digitPart_digits false h, ← digitsValue_map]
  cases digits with
  | nil => exact absurd rfl hne
  | cons c cs => rfl

end Digits

end InfiniOps.Ci
