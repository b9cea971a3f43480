/-
InfiniOps.Lib.Region — half-open ranges of addresses, laid out one behind
the other.

If each region of a list starts where its predecessor ends or later, any
two of them are disjoint (`pairwise_disjoint`) and all end before the last
one does (`endAddr_le_getLast`).
-/
import Mathlib.Data.List.Chain

/-- The addresses from `base` up to `base + bytes`. -/
structure Region where
  base : Nat
  bytes : Nat
  deriving DecidableEq, Repr

namespace Region

def endAddr (r : Region) : Nat := r.base + r.bytes

theorem base_le_endAddr (r : Region) : r.base ≤ r.endAddr := Nat.le_add_right _ _

def Disjoint (r s : Region) : Prop := r.endAddr ≤ s.base ∨ s.endAddr ≤ r.base

instance (r s : Region) : Decidable (r.Disjoint s) := inferInstanceAs (Decidable (_ ∨ _))

theorem Disjoint.symm {r s : Region} (h : r.Disjoint s) : s.Disjoint r := Or.symm h

/-- `s` starts at the end of `r` or later. -/
def Before (r s : Region) : Prop := r.endAddr ≤ s.base

instance : Trans Before Before Before where
  trans {_ s _} h h' := Nat.le_trans h (Nat.le_trans s.base_le_endAddr h')

variable {rs : List Region}

theorem pairwise_before (h : rs.IsChain Before) : rs.Pairwise Before :=
  List.isChain_iff_pairwise.mp h

theorem pairwise_disjoint (h : rs.IsChain Before) : rs.Pairwise Disjoint :=
  (pairwise_before h).imp Or.inl

theorem endAddr_le_getLast (h : rs.IsChain Before) (hne : rs ≠ []) {r : Region} (hr : r ∈ rs) :
    r.endAddr ≤ (rs.getLast hne).endAddr := by
  have hpairs := pairwise_before h
  rw [← List.dropLast_concat_getLast hne] at hr hpairs
  rw [List.pairwise_append] at hpairs
  rcases List.mem_append.mp hr with hr | hr
  · have hbefore := hpairs.2.2 r hr _ (List.mem_singleton_self _)
    exact Nat.le_trans hbefore (base_le_endAddr _)
  · rw [List.mem_singleton.mp hr]

end Region
