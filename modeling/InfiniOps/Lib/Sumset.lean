/-
InfiniOps.Lib.Sumset — sums of two families of integers, and when a
summand can be cancelled.

`sums as bs` lists all `a + b`. Families are compared with multiplicity:
`perm_of_sums_perm` says that a nonempty second family determines the
first. The proof counts with generating polynomials, in the group ring of
the integers, which has no zero divisors. Of two families of natural
numbers with one sum, neither can be below the other in one place only
(`forall_eq_of_le_of_sum_eq`).
-/
import Mathlib.Algebra.Group.UniqueProds.Basic
import Mathlib.Algebra.MonoidAlgebra.NoZeroDivisors
import Mathlib.Algebra.Order.BigOperators.Group.List
import Mathlib.Algebra.Order.Group.Nat
import Mathlib.Algebra.Order.Ring.Int
import Mathlib.Data.List.Perm.Basic
import Mathlib.Data.List.ProdSigma

namespace Sumset

/-- All sums of an element of `as` and one of `bs`. -/
def sums (as bs : List Int) : List Int := as.flatMap fun a => bs.map (a + ·)

theorem mem_sums {as bs : List Int} {x : Int} : x ∈ sums as bs ↔ ∃ a ∈ as, ∃ b ∈ bs, a + b = x := by
  simp [sums]

theorem length_sums (as bs : List Int) : (sums as bs).length = as.length * bs.length := by
  simp [sums, List.length_flatMap]

theorem sums_map {α β : Type} (f : α → Int) (g : β → Int) (as : List α) (bs : List β) :
    sums (as.map f) (bs.map g) = (as ×ˢ bs).map fun p => f p.1 + g p.2 := by
  simp [sums, SProd.sprod, List.product, List.map_flatMap, List.flatMap_map, Function.comp_def]

/-- The generating polynomial of a family. -/
noncomputable def poly (as : List Int) : AddMonoidAlgebra Int Int :=
  (as.map fun a => AddMonoidAlgebra.single a 1).sum

theorem poly_cons (a : Int) (as : List Int) :
    poly (a :: as) = AddMonoidAlgebra.single a 1 + poly as := by
  simp [poly]

theorem poly_append (as bs : List Int) : poly (as ++ bs) = poly as + poly bs := by
  simp [poly]

/-- Its coefficients are the multiplicities. -/
theorem coeff_poly (as : List Int) (x : Int) : (poly as).coeff x = as.count x := by
  induction as with
  | nil => simp [poly]
  | cons a as ih =>
    rw [poly_cons, AddMonoidAlgebra.coeff_add, Finsupp.add_apply, ih]
    by_cases h : a = x
    · simp [h, add_comm]
    · simp [h]

theorem poly_map_add (a : Int) (bs : List Int) :
    poly (bs.map (a + ·)) = AddMonoidAlgebra.single a 1 * poly bs := by
  induction bs with
  | nil => simp [poly]
  | cons b bs ih =>
    rw [List.map_cons, poly_cons, poly_cons, ih, mul_add, AddMonoidAlgebra.single_mul_single,
      one_mul]

theorem poly_sums (as bs : List Int) : poly (sums as bs) = poly as * poly bs := by
  induction as with
  | nil => simp [sums, poly]
  | cons a as ih =>
    rw [sums, List.flatMap_cons, poly_append, poly_map_add, poly_cons, add_mul]
    congr 1

theorem poly_ne_zero {as : List Int} (h : as ≠ []) : poly as ≠ 0 := by
  intro hzero
  obtain ⟨a, as, rfl⟩ := List.exists_cons_of_ne_nil h
  have hcount : (poly (a :: as)).coeff a = 0 := by
    rw [hzero]
    rfl
  rw [coeff_poly, List.count_cons_self] at hcount
  omega

theorem poly_eq_of_perm {as bs : List Int} (h : as.Perm bs) : poly as = poly bs :=
  (h.map _).sum_eq

theorem perm_of_poly_eq {as bs : List Int} (h : poly as = poly bs) : as.Perm bs := by
  refine List.perm_iff_count.mpr fun x => ?_
  have hcount : (as.count x : Int) = bs.count x := by
    rw [← coeff_poly, ← coeff_poly, h]
  exact Int.ofNat.inj hcount

/-- A nonempty summand can be cancelled. -/
theorem perm_of_sums_perm {as as' bs : List Int} (hne : bs ≠ [])
    (h : (sums as bs).Perm (sums as' bs)) :
    as.Perm as' := by
  have hpoly := poly_eq_of_perm h
  rw [poly_sums, poly_sums] at hpoly
  exact perm_of_poly_eq (mul_right_cancel₀ (poly_ne_zero hne) hpoly)

/-- So can a first one, also in another order. -/
theorem perm_of_perm_sums {as as' bs bs' : List Int} (hne : as ≠ []) (has : as.Perm as')
    (h : (sums as bs).Perm (sums as' bs')) : bs.Perm bs' := by
  have hpoly := poly_eq_of_perm h
  rw [poly_sums, poly_sums, ← poly_eq_of_perm has] at hpoly
  exact perm_of_poly_eq (mul_left_cancel₀ (poly_ne_zero hne) hpoly)

/-- Families that are nowhere greater and have the same sum are the same. -/
theorem forall_eq_of_le_of_sum_eq {α : Type} {f g : α → Nat} {l : List α}
    (hle : ∀ x ∈ l, f x ≤ g x) (hsum : (l.map f).sum = (l.map g).sum) : ∀ x ∈ l, f x = g x := by
  intro x hx
  by_contra hne
  have hlt : (l.map f).sum < (l.map g).sum :=
    List.sum_lt_sum f g hle ⟨x, hx, Nat.lt_of_le_of_ne (hle x hx) hne⟩
  exact Nat.ne_of_lt hlt hsum

end Sumset
