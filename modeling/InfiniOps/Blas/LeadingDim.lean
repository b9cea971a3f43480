/-
InfiniOps.Blas.LeadingDim — whether the leading dimensions that `BlasGemm`
passes are ones that BLAS accepts.

BLAS derives the rows of the matrices it is handed from the operations and
from `m`, `n` and `k`, and asks each leading dimension to be at least that
and at least 1 (`BlasArgs.LeadingDimsValid`). `blasArgs_stored` says which
extent of an operand those rows are: the one along its stride of 1, with
the last dimension taken first, so that of two readings of a matrix with
both strides 1 the row-major one wins. A transpose flag is an `int`, and
one that is neither 0 nor 1 equals no `bool`.
-/
import InfiniOps.Blas.OperandTheorems

namespace InfiniOps.Blas

/-! ## What BLAS asks for -/

namespace BlasArgs

variable (x : BlasArgs)

/-- The rows of the stored A. -/
def rowsA : Int := match x.opA with
  | .n => x.m
  | .t => x.k

/-- The rows of the stored B. -/
def rowsB : Int := match x.opB with
  | .n => x.k
  | .t => x.n

/-- The contract for `lda`, `ldb` and `ldc`. -/
structure LeadingDimsValid : Prop where
  a : max 1 x.rowsA ≤ x.lda
  b : max 1 x.rowsB ≤ x.ldb
  c : max 1 x.m ≤ x.ldc

end BlasArgs

/-! ## Operands -/

/-- Operands of consistent matrix shapes, of any extents, with the scalar
arguments of a call. -/
structure MatrixOperands where
  a : Tensor
  b : Tensor
  c : Tensor
  s : Scalars
  batch : Nat
  m : Nat
  n : Nat
  k : Nat
  a_matrix : IsMatrix a batch (if transFlag s.transA then k else m)
    (if transFlag s.transA then m else k)
  b_matrix : IsMatrix b batch (if transFlag s.transB then n else k)
    (if transFlag s.transB then k else n)
  c_matrix : IsMatrix c batch m n

/-- The flag that the operations are chosen by. -/
def flagValue (trans : Option Int) : Int := transValue trans (transFlag trans)

/-- The rows that BLAS takes an operand to have. -/
def storedRows (t : Tensor) (flag : Int) : Nat :=
  if t.stride (-1) = 1 ∧ (flag = 0 ∨ flag = 1) then t.size (-1) else t.size (-2)

/-- One leading dimension, as passed, against the rows, as passed. -/
def LdAccepted (t : Tensor) (flag : Int) : Prop :=
  max 1 (toInt32 (storedRows t flag)) ≤ toInt32 (leadingDim t)

/-- More than one element along a last stride of 1, in a matrix whose other
stride is 1 too. -/
def ThinRow (t : Tensor) : Prop := t.stride (-1) = 1 ∧ t.stride (-2) = 1 ∧ 1 < t.size (-1)

instance (t : Tensor) : Decidable (ThinRow t) := inferInstanceAs (Decidable (_ ∧ _))

/-- An operand that is not a thin row; where an `int` does not hold the
numbers, what is left of them has to do. -/
def LdHolds (t : Tensor) (flag : Int) : Prop :=
  if leadingDim t < 2 ^ 31 ∧ (storedRows t flag : Int) < 2 ^ 31 then
    if flag = 0 ∨ flag = 1 then ¬ ThinRow t else (t.size (-2) : Int) ≤ leadingDim t
  else LdAccepted t flag

/-- `LdHolds` of all three; `c` is never transposed. -/
structure MatrixOperands.LdsHold (x : MatrixOperands) : Prop where
  a : LdHolds x.a (flagValue x.s.transA)
  b : LdHolds x.b (flagValue x.s.transB)
  c : LdHolds x.c 0

/-! ## Which rows BLAS derives -/

theorem transFlag_eq_false_iff (trans : Option Int) :
    transFlag trans = false ↔ flagValue trans = 0 := by
  cases trans <;> simp [transFlag, flagValue, transValue]

/-- A flag of 0 is false, and any other one is true. -/
theorem transFlag_eq (trans : Option Int) : transFlag trans = decide (flagValue trans ≠ 0) := by
  by_cases h : flagValue trans = 0
  · simp [h, (transFlag_eq_false_iff trans).mpr h]
  · have htrue : transFlag trans = true := by
      simpa using mt (transFlag_eq_false_iff trans).mp h
    simp [h, htrue]

/-- The layout flag and the transpose flag pick the extent that is stored
along the columns of the BLAS matrix. -/
theorem IsMatrix.storedRows_eq {t : Tensor} {trans : Option Int} {batch rows cols : Nat}
    (h : IsMatrix t batch (if transFlag trans then cols else rows)
      (if transFlag trans then rows else cols)) :
    storedRows t (flagValue trans)
      = if CudaGemm.boolToInt (t.stride (-1) = 1) = flagValue trans then rows else cols := by
  rw [storedRows, h.size_cols, h.size_rows, transFlag_eq]
  by_cases hzero : flagValue trans = 0
  · by_cases hone : t.stride (-1) = 1 <;> simp [hzero, hone, CudaGemm.boolToInt]
  · by_cases hflag : flagValue trans = 1
    · by_cases hone : t.stride (-1) = 1 <;> simp [hflag, hone, CudaGemm.boolToInt]
    · -- such a flag counts as true, but no layout flag equals it
      by_cases hone : t.stride (-1) = 1 <;>
        simp [hzero, Ne.symm hzero, hflag, Ne.symm hflag, hone, CudaGemm.boolToInt]

namespace MatrixOperands

variable (x : MatrixOperands) (A B : Data)

/-- What `BlasGemm` passes. -/
def blasArgs : BlasArgs := (CudaGemm.new x.a x.b x.s x.c).blasArgs A B x.s

/-- The member `k_` is the inner extent. -/
theorem k_new : (Gemm.new x.a x.b x.s x.c).k = x.k := by
  have hrows := x.a_matrix.size_rows
  have hcols := x.a_matrix.size_cols
  simp only [Gemm.new]
  split at hrows <;> simp_all

/-- A choice of operation is a choice of rows. -/
theorem rows_ite {p : Prop} [Decidable p] (d e : Nat) :
    (match if p then BlasOp.t else BlasOp.n with
      | .n => toInt32 d
      | .t => toInt32 e) = toInt32 (if p then e else d : Nat) := by
  split_ifs <;> rfl

/-- The pairs of rows and leading dimension that BLAS sees are those of the
three operands, whether `a` and `b` are swapped or not. -/
theorem leadingDimsValid_iff :
    (x.blasArgs A B).LeadingDimsValid ↔
      LdAccepted x.a (flagValue x.s.transA) ∧ LdAccepted x.b (flagValue x.s.transB) ∧
        LdAccepted x.c 0 := by
  have ha := x.a_matrix.storedRows_eq
  have hb := x.b_matrix.storedRows_eq
  have hc : storedRows x.c 0 = if x.c.stride (-1) = 1 then x.n else x.m := by
    rw [storedRows, x.c_matrix.size_cols, x.c_matrix.size_rows]
    simp
  have hm : (Gemm.new x.a x.b x.s x.c).m = x.m := x.c_matrix.size_rows
  have hn : (Gemm.new x.a x.b x.s x.c).n = x.n := x.c_matrix.size_cols
  have hk := x.k_new
  have hparts : (x.blasArgs A B).LeadingDimsValid ↔
      max 1 (x.blasArgs A B).rowsA ≤ (x.blasArgs A B).lda ∧
      max 1 (x.blasArgs A B).rowsB ≤ (x.blasArgs A B).ldb ∧
      max 1 (x.blasArgs A B).m ≤ (x.blasArgs A B).ldc :=
    ⟨fun h => ⟨h.a, h.b, h.c⟩, fun h => ⟨h.1, h.2.1, h.2.2⟩⟩
  rw [hparts, LdAccepted, LdAccepted, LdAccepted, ha, hb, hc]
  by_cases hswap : x.c.stride (-1) = 1
  · simp only [blasArgs, CudaGemm.blasArgs, CudaGemm.new, BlasArgs.rowsA, BlasArgs.rowsB,
      CudaGemm.getOpA, CudaGemm.getOpB, hswap, decide_true, if_true, hm, hn, hk, rows_ite]
    exact and_left_comm
  · simp only [blasArgs, CudaGemm.blasArgs, CudaGemm.new, BlasArgs.rowsA, BlasArgs.rowsB,
      CudaGemm.getOpA, CudaGemm.getOpB, hswap, decide_false, Bool.false_eq_true, if_false,
      ne_eq, hm, hn, hk, rows_ite]
    simp only [ite_not]
    exact Iff.rfl

end MatrixOperands

/-! ## When they are accepted -/

/-- Where the numbers fit an `int`, a leading dimension is accepted unless
the operand is a thin row. -/
theorem IsMatrix.ldAccepted_iff {t : Tensor} {batch rows cols : Nat}
    (h : IsMatrix t batch rows cols) (flag : Int) : LdAccepted t flag ↔ LdHolds t flag := by
  unfold LdHolds
  split
  · rename_i hfits
    have hpos := h.leadingDim_pos
    rw [LdAccepted, (toInt32_eq_self_iff (by omega)).mpr hfits.1,
      (toInt32_eq_self_iff (by omega)).mpr hfits.2]
    have hlayout := h.layout
    unfold RowMajor ColMajor at hlayout
    unfold ThinRow
    by_cases hflag : flag = 0 ∨ flag = 1
    · rw [if_pos hflag, storedRows]
      by_cases hone : t.stride (-1) = 1
      · rw [if_pos ⟨hone, hflag⟩]
        unfold leadingDim
        omega
      · rw [if_neg fun hrow => hone hrow.1]
        unfold leadingDim
        omega
    · rw [if_neg hflag, storedRows, if_neg fun hrow => hflag hrow.2]
      omega
  · exact Iff.rfl

/-- Every leading dimension that `BlasGemm` passes is one that BLAS accepts
exactly if `LdHolds` of each operand. -/
theorem leadingDims_valid_iff (x : MatrixOperands) (A B : Data) :
    (x.blasArgs A B).LeadingDimsValid ↔ x.LdsHold := by
  rw [x.leadingDimsValid_iff, x.a_matrix.ldAccepted_iff, x.b_matrix.ldAccepted_iff,
    x.c_matrix.ldAccepted_iff]
  exact ⟨fun h => ⟨h.1, h.2.1, h.2.2⟩, fun h => ⟨h.a, h.b, h.c⟩⟩

/-- A column of four, transposed: its strides are both 1. -/
def thinOperands : MatrixOperands where
  a := { data := 64, shape := [1, 4], strides := [1, 1] }
  b := { data := 128, shape := [4, 2], strides := [2, 1] }
  c := { data := 256, shape := [1, 2], strides := [2, 1] }
  s := {}
  batch := 1
  m := 1
  n := 2
  k := 4
  a_matrix := ⟨by decide, rfl, by decide, by decide⟩
  b_matrix := ⟨by decide, rfl, by decide, by decide⟩
  c_matrix := ⟨by decide, rfl, by decide, by decide⟩

/-- The leading dimension of `a` is 1, for a matrix of four rows. -/
theorem thinOperands_not_valid :
    ColMajor thinOperands.a ∧ ∀ A B, ¬ (thinOperands.blasArgs A B).LeadingDimsValid := by
  refine ⟨by decide, fun A B h => ?_⟩
  obtain ⟨ha, -, -⟩ := (thinOperands.leadingDimsValid_iff A B).mp h
  have hld : leadingDim thinOperands.a = 1 := rfl
  have hrows : storedRows thinOperands.a (flagValue thinOperands.s.transA) = 4 := rfl
  rw [thinOperands.a_matrix.ldAccepted_iff, LdHolds, hld, hrows, if_pos ⟨by omega, by omega⟩,
    if_pos (.inl rfl)] at ha
  exact ha (by decide)

end InfiniOps.Blas
