/-
InfiniOps.Cpu.OutputCheck — which broadcast outputs the constructors of
`Add` and `Mul` reject.

The check is `Tensor::HasBroadcastDim`, and `hasBroadcastDim_iff` says what
its scan finds: the index stops at the first extent of 1, so a dimension
counts only if every extent before it differs from 1.
-/
import InfiniOps.Cpu.Elementwise

namespace InfiniOps

open RowMajor

namespace Tensor

variable {t : Tensor}

/-- Dimension `d` repeats its elements. -/
def BroadcastDim (t : Tensor) (d : Nat) : Prop :=
  d < t.ndim ∧ t.shape.getD d 0 ≠ 1 ∧ t.strides.getD d 0 = 0

instance (t : Tensor) (d : Nat) : Decidable (t.BroadcastDim d) :=
  inferInstanceAs (Decidable (_ ∧ _))

/-- No extent before dimension `d` is 1. -/
def ScanReaches (t : Tensor) (d : Nat) : Prop := ∀ e < d, t.shape.getD e 0 ≠ 1

instance (t : Tensor) (d : Nat) : Decidable (t.ScanReaches d) :=
  inferInstanceAs (Decidable (∀ e < d, t.shape.getD e 0 ≠ 1))

/-- Two elements at different multi-indices are one, because they differ
only along a stride of zero. -/
def AliasesThroughZeroStride (t : Tensor) : Prop :=
  ∃ idx d j, Valid t.shape idx ∧ Valid t.shape (idx.set d j) ∧ idx.set d j ≠ idx ∧
    t.strides.getD d 0 = 0

/-- The scan from dimension `i` on. -/
theorem hasBroadcastDim_go_iff (steps i : Nat) :
    hasBroadcastDim.go t steps i = true ↔
      ∃ d, i ≤ d ∧ d < i + steps ∧ t.shape.getD d 0 ≠ 1 ∧ t.strides.getD d 0 = 0 ∧
        ∀ e, i ≤ e → e < d → t.shape.getD e 0 ≠ 1 := by
  induction steps generalizing i with
  | zero =>
    refine iff_of_false (by simp [hasBroadcastDim.go]) ?_
    rintro ⟨d, hle, hlt, -⟩
    omega
  | succ steps ih =>
    rw [hasBroadcastDim.go]
    by_cases hextent : t.shape.getD i 0 = 1
    · -- the index stays here for the rest of the scan
      rw [if_pos hextent, ih]
      have hstuck : ∀ d, i ≤ d → t.shape.getD d 0 ≠ 1 →
          ¬ ∀ e, i ≤ e → e < d → t.shape.getD e 0 ≠ 1 := by
        intro d hle hne hbefore
        rcases Nat.lt_or_eq_of_le hle with hlt | rfl
        · exact hbefore i (Nat.le_refl i) hlt hextent
        · exact hne hextent
      constructor
      · rintro ⟨d, hle, -, hne, -, hbefore⟩
        exact absurd hbefore (hstuck d hle hne)
      · rintro ⟨d, hle, -, hne, -, hbefore⟩
        exact absurd hbefore (hstuck d hle hne)
    · rw [if_neg hextent]
      by_cases hstride : t.strides.getD i 0 = 0
      · refine iff_of_true (if_pos hstride) ⟨i, Nat.le_refl i, by omega, hextent, hstride, ?_⟩
        intro e hle hlt
        omega
      · rw [if_neg hstride, ih]
        constructor
        · rintro ⟨d, hle, hlt, hne, hzero, hbefore⟩
          refine ⟨d, by omega, by omega, hne, hzero, ?_⟩
          intro e hie hed
          rcases Nat.lt_or_eq_of_le hie with hgt | rfl
          · exact hbefore e hgt hed
          · exact hextent
        · rintro ⟨d, hle, hlt, hne, hzero, hbefore⟩
          have hdi : d ≠ i := by
            rintro rfl
            exact hstride hzero
          exact ⟨d, by omega, by omega, hne, hzero, fun e hie hed => hbefore e (by omega) hed⟩

/-- `HasBroadcastDim` finds the broadcast dimensions that stand before the
first extent of 1. -/
theorem hasBroadcastDim_iff :
    t.hasBroadcastDim = true ↔ ∃ d, t.BroadcastDim d ∧ t.ScanReaches d := by
  rw [hasBroadcastDim, hasBroadcastDim_go_iff]
  constructor
  · rintro ⟨d, -, hlt, hne, hzero, hbefore⟩
    rw [Nat.zero_add] at hlt
    exact ⟨d, ⟨hlt, hne, hzero⟩, fun e he => hbefore e (Nat.zero_le e) he⟩
  · rintro ⟨d, ⟨hlt, hne, hzero⟩, hbefore⟩
    exact ⟨d, Nat.zero_le d, by rwa [Nat.zero_add], hne, hzero, fun e _ he => hbefore e he⟩

/-- A coordinate that may change belongs to an extent of two or more. -/
theorem exists_broadcastDim_of_aliases (h : t.AliasesThroughZeroStride) :
    ∃ d, t.BroadcastDim d := by
  obtain ⟨idx, d, j, hidx, hset, hne, hzero⟩ := h
  have hd : d < idx.length := by
    by_contra hge
    exact hne (List.set_eq_of_length_le (Nat.le_of_not_lt hge))
  have hdim : d < t.shape.length := hidx.length_eq ▸ hd
  have hold : idx[d] < t.shape[d] := List.Forall₂.get hidx hd hdim
  have hnew : j < t.shape[d] := by
    have hget := List.Forall₂.get hset (by rwa [List.length_set]) hdim
    simpa using hget
  have hchange : j ≠ idx[d] := by
    rintro rfl
    exact hne (List.set_getElem_self hd)
  refine ⟨d, hdim, ?_, hzero⟩
  rw [List.getD_eq_getElem _ _ hdim]
  omega

end Tensor

namespace Cpu

/-- `HasBroadcastDim` tells the tensors with a broadcast dimension from the
others, and `Add` and `Mul` reject an output that aliases. -/
structure RejectsBroadcast (out : Tensor) : Prop where
  exact : out.hasBroadcastDim = true ↔ ∃ d, out.BroadcastDim d
  rejects : out.AliasesThroughZeroStride →
    ∀ {V C D : Type} (arith : DataType → Arith V C D) (input other : Tensor),
      (add arith).new input other out
          = .error (.aborted "the output of `Add` should NOT have broadcasted dim!") ∧
        (mul arith).new input other out
          = .error (.aborted "the output of `Mul` should NOT have broadcasted dim!")

/-- The check, when it fires, comes before the one of the types. -/
theorem ElementwiseOp.new_of_hasBroadcastDim {V : Type} {op : ElementwiseOp V} {message : String}
    (hop : op.broadcastMessage = some message) {out : Tensor} (h : out.hasBroadcastDim = true)
    (input other : Tensor) : op.new input other out = .error (.aborted message) := by
  rw [new, hop, h]

/-- The outputs for which the check is right: no dimension is broadcast, or
one is that the scan gets to. -/
theorem rejectsBroadcast_iff (out : Tensor) :
    RejectsBroadcast out ↔
      ∀ d, out.BroadcastDim d → ∃ d', out.BroadcastDim d' ∧ out.ScanReaches d' := by
  constructor
  · intro h d hd
    exact Tensor.hasBroadcastDim_iff.mp (h.exact.mpr ⟨d, hd⟩)
  · intro h
    have hcomplete : (∃ d, out.BroadcastDim d) → out.hasBroadcastDim = true := by
      rintro ⟨d, hd⟩
      exact Tensor.hasBroadcastDim_iff.mpr (h d hd)
    refine ⟨⟨?_, hcomplete⟩, ?_⟩
    · intro hfound
      obtain ⟨d, hd, -⟩ := Tensor.hasBroadcastDim_iff.mp hfound
      exact ⟨d, hd⟩
    · intro haliases V C D arith input other
      have hfound := hcomplete (Tensor.exists_broadcastDim_of_aliases haliases)
      exact ⟨ElementwiseOp.new_of_hasBroadcastDim rfl hfound input other,
        ElementwiseOp.new_of_hasBroadcastDim rfl hfound input other⟩

/-- Two elements in one place, behind an extent of 1. -/
def sharedPair : Tensor := { data := 64, shape := [1, 2], strides := [1, 0] }

/-- `sharedPair` aliases and is accepted as the output of `Add`. -/
theorem sharedPair_not_rejected :
    sharedPair.AliasesThroughZeroStride ∧
      (add fun _ => integerArith).new sharedPair sharedPair sharedPair
        = .ok (Elementwise.ofTensors sharedPair sharedPair sharedPair) ∧
      ¬ RejectsBroadcast sharedPair := by
  refine ⟨⟨[0, 0], 1, 1, ?_, ?_, by decide, rfl⟩, rfl, ?_⟩
  · exact .cons (by decide) (.cons (by decide) .nil)
  · exact .cons (by decide) (.cons (by decide) .nil)
  · intro h
    have hfound := h.exact.mpr ⟨1, by decide⟩
    exact absurd hfound (by decide)

end Cpu

end InfiniOps
