/-
InfiniOps.Blas.OperandTheorems — how the strides of an operand turn into
a column-major view.

`opFor t trans` is the BLAS operation under which a column-major reading
of `t` with its leading dimension is op(`t`): transposed exactly when the
row-major flag and the transpose flag differ. `opOffset_eq_offset` states
it for every leading dimension that agrees where it matters, so the same
lemma serves exact and narrowed leading dimensions. `BlasOp.flip` is the
other reading of the same data, the one `BlasGemm` uses after swapping the
operands.

The last section is the arithmetic that goes the other way: a sum of
offsets determines the leading dimension (`ld_unique`).
-/
import InfiniOps.Blas.Problem
import Mathlib.Algebra.BigOperators.Ring.List
import Mathlib.Algebra.Order.BigOperators.Group.List
import Mathlib.Algebra.Ring.Int.Defs
import Mathlib.Tactic.Ring

namespace InfiniOps.Blas

/-! ## Sizes and strides -/

theorem IsMatrix.size_rows {t : Tensor} {batch rows cols : Nat} (h : IsMatrix t batch rows cols) :
    t.size (-2) = rows := by
  rcases h.shape with hs | hs <;> simp [Tensor.size, Tensor.effectiveIndex, hs]

theorem IsMatrix.size_cols {t : Tensor} {batch rows cols : Nat} (h : IsMatrix t batch rows cols) :
    t.size (-1) = cols := by
  rcases h.shape with hs | hs <;> simp [Tensor.size, Tensor.effectiveIndex, hs]

theorem IsMatrix.two_le_length {t : Tensor} {batch rows cols : Nat}
    (h : IsMatrix t batch rows cols) : 2 ≤ t.strides.length := by
  rcases h.shape with hs | hs <;> simp [h.length_strides, hs]

theorem strideFromEnd_eq (t : Tensor) (i : Nat) (hi : 0 < i) (h : i ≤ t.strides.length) :
    strideFromEnd t.strides i = t.stride (-i) := by
  have hindex : (Tensor.effectiveIndex (-i) t.strides.length).toNat = t.strides.length - i := by
    unfold Tensor.effectiveIndex
    split <;> omega
  rw [strideFromEnd, Tensor.stride, hindex]

theorem IsMatrix.stride_lt_of {t : Tensor} {batch rows cols : Nat} (h : IsMatrix t batch rows cols)
    (i : Int) : t.stride i < 2 ^ 63 := by
  unfold Tensor.stride
  rw [List.getD_eq_getElem?_getD]
  rcases hget : t.strides[(Tensor.effectiveIndex i t.strides.length).toNat]? with _ | s
  · simp
  · exact h.stride_lt s (List.mem_of_getElem? hget)

/-- The other reading of the same data. -/
def BlasOp.flip : BlasOp → BlasOp
  | .n => .t
  | .t => .n

theorem BlasOp.offset_flip (op : BlasOp) (ld stride : Int) (p r c : Nat) :
    op.flip.offset ld stride p c r = op.offset ld stride p r c := by
  cases op <;> rfl

/-- The operation under which the column-major reading of `t` is op(`t`). -/
def opFor (t : Tensor) (trans : Bool) : BlasOp :=
  if (t.stride (-1) = 1 : Bool) ≠ trans then .t else .n

/-! ## The column-major view -/

section View

variable {t : Tensor} {batch rows cols : Nat}

/-- Within a row- or column-major matrix the flag and the leading dimension
give the address. -/
theorem IsMatrix.elemOffset_eq (h : IsMatrix t batch rows cols) (p : Nat) {r c : Nat}
    (hr : r < rows) (hc : c < cols) :
    elemOffset t p r c = p * batchStride t +
      if t.stride (-1) = 1 then c + r * leadingDim t else r + c * leadingDim t := by
  have hlayout := h.layout
  unfold RowMajor ColMajor at hlayout
  rw [h.size_rows, h.size_cols] at hlayout
  unfold elemOffset leadingDim
  split
  · rename_i hone
    -- a column-major matrix with this stride has one row, so its own stride is 1 too
    have hmax : max (t.stride (-2)) (t.stride (-1)) = t.stride (-2) := by
      rcases hlayout with ⟨-, hge⟩ | ⟨hone', -⟩ <;> omega
    rw [hmax, hone]
    ring
  · rename_i hone
    obtain ⟨hone', hge⟩ := hlayout.resolve_left (fun hrow => hone hrow.1)
    have hmax : max (t.stride (-2)) (t.stride (-1)) = t.stride (-1) := by omega
    rw [hmax, hone']
    ring

theorem IsMatrix.leadingDim_pos (h : IsMatrix t batch rows cols) :
    1 ≤ leadingDim t := by
  have hlayout := h.layout
  unfold RowMajor ColMajor at hlayout
  unfold leadingDim
  omega

theorem IsMatrix.leadingDim_lt (h : IsMatrix t batch rows cols) : leadingDim t < 2 ^ 63 :=
  max_lt (h.stride_lt_of (-2)) (h.stride_lt_of (-1))

/-- The extent that the leading dimension multiplies, seen through op. -/
theorem IsMatrix.ldExtent_eq {trans : Bool}
    (h : IsMatrix t batch (if trans then cols else rows) (if trans then rows else cols)) :
    Problem.ldExtent t = if opFor t trans = .t then rows else cols := by
  unfold Problem.ldExtent opFor
  rw [h.size_rows, h.size_cols]
  cases trans <;> by_cases hone : t.stride (-1) = 1 <;> simp [hone]

/-- op(`t`) as a column-major view, under any leading dimension that is the
right one or is only multiplied by 0. -/
theorem IsMatrix.opOffset_eq_offset {trans : Bool}
    (h : IsMatrix t batch (if trans then cols else rows) (if trans then rows else cols))
    {ld : Int} (hld : ld = leadingDim t ∨ Problem.ldExtent t = 1) (p : Nat) {r c : Nat}
    (hr : r < rows) (hc : c < cols) :
    opOffset t trans p r c = (opFor t trans).offset ld (batchStride t) p r c := by
  have hext := h.ldExtent_eq
  have hswap : ∀ {x : Nat}, x = 0 ∨ ld = leadingDim t → (x : Int) * leadingDim t = x * ld := by
    rintro x (rfl | rfl) <;> simp
  cases trans
  · simp only [Bool.false_eq_true, if_false] at h
    rw [opOffset, if_neg Bool.false_ne_true, h.elemOffset_eq p hr hc]
    by_cases hone : t.stride (-1) = 1
    · simp only [opFor, hone, decide_true, ne_eq, Bool.true_eq_false, not_false_eq_true, if_true]
        at hext ⊢
      rw [BlasOp.offset, hswap (by omega)]
    · simp only [opFor, hone, decide_false, ne_eq, not_true_eq_false, if_false, reduceCtorEq]
        at hext ⊢
      rw [BlasOp.offset, hswap (by omega)]
  · simp only [if_true] at h
    rw [opOffset, if_pos rfl, h.elemOffset_eq p hc hr]
    by_cases hone : t.stride (-1) = 1
    · simp only [opFor, hone, decide_true, ne_eq, not_true_eq_false, if_false, if_true,
        reduceCtorEq] at hext ⊢
      rw [BlasOp.offset, hswap (by omega)]
    · simp only [opFor, hone, decide_false, ne_eq, Bool.false_eq_true, not_false_eq_true, if_true,
        if_false] at hext ⊢
      rw [BlasOp.offset, hswap (by omega)]

end View

/-! ## What a sum of offsets determines -/

theorem sum_map_linear {ι : Type} (visits : List ι) (base mult : ι → Int) (ld : Int) :
    (visits.map fun v => base v + mult v * ld).sum
      = (visits.map base).sum + (visits.map mult).sum * ld := by
  induction visits with
  | nil => simp
  | cons v visits ih =>
    simp only [List.map_cons, List.sum_cons, ih]
    ring

/-- Where the leading dimension is multiplied by something positive, the
sum of all offsets determines it. -/
theorem ld_unique {ι : Type} {visits : List ι} {base : ι → Int} (mult : ι → Int) {ld ld' : Int}
    (hnonneg : ∀ v ∈ visits, 0 ≤ mult v) (hpos : ∃ v ∈ visits, 0 < mult v)
    (h : (visits.map fun v => base v + mult v * ld').sum
      = (visits.map fun v => base v + mult v * ld).sum) : ld' = ld := by
  rw [sum_map_linear, sum_map_linear] at h
  have hmul := Int.add_left_cancel h
  obtain ⟨v, hv, hvpos⟩ := hpos
  have hsum : mult v ≤ (visits.map mult).sum :=
    List.single_le_sum (by simpa using hnonneg) _ (List.mem_map_of_mem hv)
  exact Int.eq_of_mul_eq_mul_left (by omega) hmul

end InfiniOps.Blas
