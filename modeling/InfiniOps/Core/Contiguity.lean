/-
InfiniOps.Core.Contiguity — `Tensor::IsContiguous` characterised
(`src/tensor.cc`).

`defaultStrides` is the backward loop of `Tensor::DefaultStrides`. A scan
over neighbouring dimensions accepts exactly its result, except that it
turns down an extent of 1 with a stride of 0, which the loop produces
before an extent of 0 (`isContiguous_iff_defaultStrides`). Where the scan
accepts, `utils::IndexToOffset` changes no index.
-/
import InfiniOps.Core.Strided

namespace InfiniOps

open RowMajor

namespace Tensor

/-! ## The default strides -/

/-- `Tensor::DefaultStrides`. The product is a `size_t`, and the stride it
is stored in a `ptrdiff_t`. -/
def defaultStrides (shape : List Nat) : List Int :=
  if shape.isEmpty then []
  else go (shape.length - 1) ((List.replicate shape.length 0).set (shape.length - 1) 1)
where
  -- `i + 1` steps are left when the index is `i`. With rank 1 the index
  -- starts at -1, which ends the loop.
  go : (steps : Nat) → (strides : List Int) → List Int
    | 0, strides => strides
    | i + 1, strides =>
      go i (strides.set i (toInt64 (toUInt64 (strides.getD (i + 1) 0 * shape.getD (i + 1) 0))))

/-- Every stride but the last is the product of the next extent and stride,
in the types of the source. -/
def Chained (shape : List Nat) (strides : List Int) : Prop :=
  ∀ i, i + 1 < shape.length →
    strides.getD i 0 = toInt64 (toUInt64 (strides.getD (i + 1) 0 * shape.getD (i + 1) 0))

theorem length_defaultStrides_go (shape : List Nat) (steps : Nat) (strides : List Int) :
    (defaultStrides.go shape steps strides).length = strides.length := by
  induction steps generalizing strides with
  | zero => rfl
  | succ i ih => rw [defaultStrides.go, ih, List.length_set]

/-- The loop leaves alone what it has passed. -/
theorem getD_defaultStrides_go (shape : List Nat) {steps j : Nat} (hj : steps ≤ j)
    (strides : List Int) :
    (defaultStrides.go shape steps strides).getD j 0 = strides.getD j 0 := by
  induction steps generalizing strides with
  | zero => rfl
  | succ i ih =>
    have hne : i ≠ j := by omega
    rw [defaultStrides.go, ih (by omega), List.getD_eq_getElem?_getD, List.getElem?_set_ne hne,
      List.getD_eq_getElem?_getD]

theorem defaultStrides_go_step (shape : List Nat) {steps : Nat} {strides : List Int}
    (hlen : steps < strides.length) {j : Nat} (hj : j < steps) :
    (defaultStrides.go shape steps strides).getD j 0
      = toInt64 (toUInt64 ((defaultStrides.go shape steps strides).getD (j + 1) 0
          * shape.getD (j + 1) 0)) := by
  induction steps generalizing strides with
  | zero => cases hj
  | succ i ih =>
    rw [defaultStrides.go]
    by_cases heq : j = i
    · have hne : i ≠ i + 1 := by omega
      have hget : ∀ x, (strides.set i x).getD i 0 = x := by
        intro x
        rw [List.getD_eq_getElem?_getD, List.getElem?_set_self (by omega), Option.getD_some]
      have hnext : ∀ x, (strides.set i x).getD (i + 1) 0 = strides.getD (i + 1) 0 := by
        intro x
        rw [List.getD_eq_getElem?_getD, List.getElem?_set_ne hne, List.getD_eq_getElem?_getD]
      rw [heq, getD_defaultStrides_go shape (Nat.le_refl i),
        getD_defaultStrides_go shape (Nat.le_succ i), hget, hnext]
    · exact ih (by rw [List.length_set]; omega) (by omega)

@[simp] theorem length_defaultStrides (shape : List Nat) :
    (defaultStrides shape).length = shape.length := by
  cases shape with
  | nil => rfl
  | cons d ds => simp [defaultStrides, length_defaultStrides_go]

theorem defaultStrides_chained (shape : List Nat) : Chained shape (defaultStrides shape) := by
  intro i hi
  have hne : shape.isEmpty = false := by
    cases shape with
    | nil => cases hi
    | cons d ds => rfl
  rw [defaultStrides, hne, if_neg Bool.false_ne_true]
  exact defaultStrides_go_step shape (by simp; omega) (by omega)

theorem getD_defaultStrides_last {shape : List Nat} (h : shape ≠ []) :
    (defaultStrides shape).getD (shape.length - 1) 0 = 1 := by
  have hpos : 0 < shape.length := List.length_pos_iff.mpr h
  rw [defaultStrides, List.isEmpty_eq_false_iff.mpr h, if_neg Bool.false_ne_true,
    getD_defaultStrides_go shape (Nat.le_refl _)]
  simp [List.getD_eq_getElem?_getD, hpos]

/-- The chain and its last stride fix all strides, from the last one back. -/
theorem eq_defaultStrides {shape : List Nat} {strides : List Int}
    (hlen : strides.length = shape.length) (hchained : Chained shape strides)
    (hlast : shape ≠ [] → strides.getD (shape.length - 1) 0 = 1) :
    strides = defaultStrides shape := by
  have hback : ∀ k i, i + k + 1 = shape.length →
      strides.getD i 0 = (defaultStrides shape).getD i 0 := by
    intro k
    induction k with
    | zero =>
      intro i hi
      have hne : shape ≠ [] := List.ne_nil_of_length_pos (by omega)
      have hindex : i = shape.length - 1 := by omega
      rw [hindex, hlast hne, getD_defaultStrides_last hne]
    | succ k ih =>
      intro i hi
      rw [hchained i (by omega), defaultStrides_chained shape i (by omega),
        ih (i + 1) (by omega)]
  refine List.ext_getElem (by simp [hlen]) ?_
  intro i hi hi'
  have hget := hback (shape.length - 1 - i) i (by omega)
  rwa [List.getD_eq_getElem _ _ hi, List.getD_eq_getElem _ _ hi'] at hget

/-! ## The scan -/

variable {t : Tensor}

theorem isMergeable_iff {n : Nat} :
    t.isMergeable 0 n ↔ ∀ i < n, ¬ (t.shape.getD i 0 = 1 ∧ t.strides.getD i 0 = 0) ∧
      toUInt64 (t.strides.getD i 0)
        = toUInt64 (t.shape.getD (i + 1) 0 * t.strides.getD (i + 1) 0) := by
  rw [isMergeable]
  by_cases hzero : 0 = n
  · subst hzero
    simp
  · rw [if_neg hzero, List.all_eq_true]
    simp only [List.mem_range'_1, ← Nat.cast_succ, size_natCast, stride_natCast,
      Bool.not_eq_true', decide_eq_true_eq, decide_eq_false_iff_not]
    grind

theorem isContiguous_iff (hpos : 0 < t.shape.length) :
    t.isContiguous ↔ t.isMergeable 0 (t.shape.length - 1) ∧
      t.strides.getD (t.shape.length - 1) 0 = 1 := by
  have hndim : t.ndim ≠ 0 := Nat.ne_of_gt hpos
  rw [isContiguous, if_neg hndim, stride_natCast, ndim]
  cases t.isMergeable 0 (t.shape.length - 1) <;> simp

/-- A stride, being a `ptrdiff_t`, is known from its `size_t`. -/
theorem eq_toInt64_iff {s x : Int} (hlo : -2 ^ 63 ≤ s) (hhi : s < 2 ^ 63) :
    s = toInt64 (toUInt64 x) ↔ toUInt64 s = toUInt64 x := by
  rw [toInt64_natCast_toUInt64]
  constructor
  · intro heq
    rw [heq, ← toInt64_natCast_toUInt64, toUInt64_toInt64 (toUInt64_lt x)]
  · intro heq
    rw [← toInt64_natCast_toUInt64 x, ← heq, toInt64_natCast_toUInt64, toInt64_eq_self hlo hhi]

/-- The scan compares the strides as `size_t`, which loses nothing. -/
theorem isContiguous_iff_chained (hstrides : ∀ s ∈ t.strides, -2 ^ 63 ≤ s ∧ s < 2 ^ 63)
    (hlen : t.strides.length = t.shape.length) (hpos : 0 < t.shape.length) :
    t.isContiguous ↔ (Chained t.shape t.strides ∧ t.strides.getD (t.shape.length - 1) 0 = 1) ∧
      ∀ i, i + 1 < t.shape.length → ¬ (t.shape.getD i 0 = 1 ∧ t.strides.getD i 0 = 0) := by
  have hstep : ∀ i, i + 1 < t.shape.length →
      (t.strides.getD i 0 = toInt64 (toUInt64 (t.strides.getD (i + 1) 0 * t.shape.getD (i + 1) 0)) ↔
        toUInt64 (t.strides.getD i 0)
          = toUInt64 (t.shape.getD (i + 1) 0 * t.strides.getD (i + 1) 0)) := by
    intro i hi
    have hi' : i < t.strides.length := by omega
    obtain ⟨hlo, hhi⟩ := hstrides _ (List.getElem_mem hi')
    rw [Int.mul_comm, List.getD_eq_getElem _ _ hi', eq_toInt64_iff hlo hhi]
  rw [isContiguous_iff hpos, isMergeable_iff]
  constructor
  · intro h
    refine ⟨⟨fun i hi => ?_, h.2⟩, fun i hi => (h.1 i (by omega)).1⟩
    exact (hstep i hi).mpr (h.1 i (by omega)).2
  · intro h
    refine ⟨fun i hi => ⟨h.2 i (by omega), ?_⟩, h.1.2⟩
    exact (hstep i (by omega)).mp (h.1.1 i (by omega))

/-- What the strides of a contiguous tensor make of a flat index. -/
theorem indexToOffset_of_isContiguous (hlen : t.strides.length = t.shape.length)
    (h : t.isContiguous) {flat : Nat} (hflat : flat < t.shape.prod) (hword : flat < 2 ^ 64) :
    indexToOffset flat t.ndim t.shape t.strides = flat := by
  have hmod := dot_modEq (unravel t.shape flat) (forall₂_of_isContiguous hlen h)
  rw [dot_suffixProds, ravel_unravel hflat] at hmod
  rw [ndim, indexToOffset_eq hlen, toUInt64_eq_iff.mpr hmod, toUInt64_eq_self hword]

/-- A tensor is contiguous just if it has the default strides and none of
them is 0 at an extent of 1 that is not the last; a flat index then is the
offset. -/
theorem isContiguous_iff_defaultStrides (t : Tensor) (hlen : t.strides.length = t.shape.length)
    (hstrides : ∀ s ∈ t.strides, -2 ^ 63 ≤ s ∧ s < 2 ^ 63) :
    (t.isContiguous ↔ t.strides = defaultStrides t.shape ∧
      ∀ i, i + 1 < t.shape.length → ¬ (t.shape.getD i 0 = 1 ∧ t.strides.getD i 0 = 0)) ∧
    (t.isContiguous → t.shape.prod < 2 ^ 64 →
      ∀ flat < t.shape.prod, indexToOffset flat t.ndim t.shape t.strides = flat) := by
  refine ⟨?_, fun h hprod flat hflat =>
    indexToOffset_of_isContiguous hlen h hflat (Nat.lt_trans hflat hprod)⟩
  rcases Nat.eq_zero_or_pos t.shape.length with hzero | hpos
  · have hshape : t.shape = [] := List.eq_nil_of_length_eq_zero hzero
    have hempty : t.strides = [] := List.eq_nil_of_length_eq_zero (hlen.trans hzero)
    simp [isContiguous, ndim, hshape, hempty, defaultStrides]
  · rw [isContiguous_iff_chained hstrides hlen hpos]
    constructor
    · rintro ⟨⟨hchained, hlast⟩, hextent⟩
      exact ⟨eq_defaultStrides hlen hchained fun _ => hlast, hextent⟩
    · rintro ⟨heq, hextent⟩
      refine ⟨⟨?_, ?_⟩, hextent⟩
      · rw [heq]
        exact defaultStrides_chained t.shape
      · rw [heq]
        exact getD_defaultStrides_last (List.ne_nil_of_length_pos hpos)

/-- The default strides of a matrix of one row, and of an empty matrix,
whose row stride is 0. -/
theorem isContiguous_iff_defaultStrides_rows :
    ((⟨0, [1, 3], .kFloat32, {}, [3, 1]⟩ : Tensor).isContiguous ∧
      ∀ flat < 3, indexToOffset flat 2 [1, 3] [3, 1] = flat) ∧
    defaultStrides [1, 0] = [0, 1] ∧
      ¬ (⟨0, [1, 0], .kFloat32, {}, [0, 1]⟩ : Tensor).isContiguous := by
  have hrow := isContiguous_iff_defaultStrides ⟨0, [1, 3], .kFloat32, {}, [3, 1]⟩ rfl (by decide)
  have hempty := isContiguous_iff_defaultStrides ⟨0, [1, 0], .kFloat32, {}, [0, 1]⟩ rfl (by decide)
  have hcontiguous : (⟨0, [1, 3], .kFloat32, {}, [3, 1]⟩ : Tensor).isContiguous := by
    decide +kernel
  refine ⟨⟨hcontiguous, ?_⟩, by decide +kernel, ?_⟩
  · exact hrow.2 hcontiguous (by decide)
  · intro h
    exact absurd ((hempty.1.mp h).2 0 (by decide)) (by decide)

end Tensor

end InfiniOps
