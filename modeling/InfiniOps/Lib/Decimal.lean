/-
InfiniOps.Lib.Decimal — the characters of an integer in decimal notation.
-/
import Mathlib.Init

namespace Decimal

theorem isDigit_of_mem_toDigits {n : Nat} : ∀ c ∈ Nat.toDigits 10 n, c.isDigit = true :=
  fun _ hc => Nat.isDigit_of_mem_toDigits (by decide) (by decide) hc

/-- A sign and decimal digits. -/
theorem toList_toString (n : Int) :
    (toString n).toList = (if n < 0 then ['-'] else []) ++ Nat.toDigits 10 n.natAbs := by
  cases n with
  | ofNat n => exact Nat.toList_repr
  | negSucc n =>
    have htext : toString (Int.negSucc n) = "-" ++ (n + 1).repr := rfl
    rw [htext, String.toList_append, Nat.toList_repr, if_pos (Int.negSucc_lt_zero n)]
    rfl

theorem mem_toString {n : Int} {c : Char} (h : c ∈ (toString n).toList) :
    c = '-' ∨ c.isDigit = true := by
  rw [toList_toString, List.mem_append] at h
  rcases h with h | h
  · split at h
    · exact .inl (List.mem_singleton.mp h)
    · cases h
  · exact .inr (isDigit_of_mem_toDigits c h)

/-- Whatever is neither a sign nor a digit does not occur. -/
theorem ne_of_mem_toString {n : Int} {c d : Char} (h : c ∈ (toString n).toList) (hsign : d ≠ '-')
    (hdigit : d.isDigit = false) : c ≠ d := by
  rintro rfl
  rcases mem_toString h with heq | heq
  · exact hsign heq
  · rw [hdigit] at heq
    cases heq

theorem toString_ne_empty (n : Int) : toString n ≠ "" := by
  intro h
  have hlist := congrArg String.toList h
  rw [toList_toString] at hlist
  exact Nat.toDigits_ne_nil (List.append_eq_nil_iff.mp hlist).2

end Decimal
