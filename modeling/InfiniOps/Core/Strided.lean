/-
InfiniOps.Core.Strided — where the elements of a tensor lie: contiguity
(`src/tensor.cc`) and `utils::IndexToOffset`
(`src/common/generic_utils.h`).

`Tensor.offset` is what the strides mean: the offset of a multi-index from
the data pointer. `StoredTensor` is a tensor whose elements are in memory,
so that every offset is a `ptrdiff_t`. The results are that both ways the
operators address an element reach that offset: the unravelling loop
(`elementAt_indexToOffset`), and the flat index itself where the strides
are contiguous (`elementAt_of_isContiguous`).
-/
import InfiniOps.Core.MachineInt
import InfiniOps.Core.Tensor
import InfiniOps.Lib.RowMajor
import Mathlib.Data.Finset.Card
import Mathlib.Data.Int.Interval
import Mathlib.Data.List.GetD

namespace InfiniOps

open RowMajor

namespace Tensor

variable (t : Tensor)

/-! ## Contiguity -/

/-- `Tensor::HasBroadcastDim`. The index advances only past extents that
differ from 1. -/
def hasBroadcastDim : Bool := go t.shape.length 0
where
  go : (steps i : Nat) → Bool
    | 0, _ => false
    | steps + 1, i =>
      if t.shape.getD i 0 = 1 then go steps i
      else if t.strides.getD i 0 = 0 then true
      else go steps (i + 1)

/-- `Tensor::IsMergeable`. The product is a `size_t`. -/
def isMergeable (dimStart dimEnd : Nat) : Bool :=
  if dimStart = dimEnd then true
  else (List.range' dimStart (dimEnd - dimStart)).all fun (i : Nat) =>
    !(t.size i = 1 ∧ t.stride i = 0) ∧
      toUInt64 (t.stride i) = toUInt64 (t.size (i + 1) * t.stride (i + 1))

/-- `Tensor::IsContiguous`. -/
def isContiguous : Bool :=
  if t.ndim = 0 then true
  else if !t.isMergeable 0 (t.ndim - 1) then false
  else t.stride ((t.ndim - 1 : Nat) : Int) = 1

/-! ## Offsets -/

/-- The offset of a multi-index from the data pointer, in elements. -/
def offset (idx : List Nat) : Int := dot idx t.strides

/-- The address of the element at a multi-index. -/
def address (idx : List Nat) : Int := t.data + t.elementSize * t.offset idx

end Tensor

/-- `utils::IndexToOffset`, in `size_t` arithmetic. An extent of zero would
divide by zero; the operators have no elements then. -/
def indexToOffset (flatIndex ndim : Nat) (shape : List Nat) (strides : List Int) : Nat :=
  go ndim flatIndex 0
where
  go : (i flatIndex res : Nat) → Nat
    | 0, _, res => res
    | i + 1, flatIndex, res =>
      go i (flatIndex / shape.getD i 0)
        (toUInt64 (res + (flatIndex % shape.getD i 0 : Nat) * strides.getD i 0))

/-- The element that `ptr[index]` reaches, as an offset from `ptr`: pointer
arithmetic wraps with the index. -/
def elementAt (index : Nat) : Int := toInt64 index

/-- A tensor in memory: no element is further than a `ptrdiff_t` from the
data pointer. -/
structure StoredTensor extends Tensor where
  rank_eq : strides.length = shape.length
  addressable : ∀ idx, Valid shape idx →
    -2 ^ 63 < toTensor.offset idx ∧ toTensor.offset idx < 2 ^ 63

/-- Distinct multi-indices are distinct elements. -/
def Tensor.Injective (t : Tensor) : Prop :=
  ∀ idx idx', Valid t.shape idx → Valid t.shape idx' → t.offset idx = t.offset idx' → idx = idx'

instance (t : Tensor) : Decidable t.Injective :=
  decidable_of_iff _ forall_valid_forall_valid_iff.symm

/-- Only a stride of 1 leads to the next element. -/
theorem eq_one_of_mul_eq_one {j : Nat} {stride : Int} (h : j * stride = 1) : stride = 1 := by
  rcases Int.eq_one_or_neg_one_of_mul_eq_one h with hj | hj
  · rw [hj, Int.one_mul] at h
    exact h
  · omega

/-! ## The unravelling loop -/

theorem take_succ_getD {α : Type} (l : List α) (d : α) {i : Nat} (h : i < l.length) :
    l.take (i + 1) = l.take i ++ [l.getD i d] := by
  rw [List.take_succ_eq_append_getElem h, List.getD_eq_getElem _ _ h]

/-- After the loop has consumed the dimensions from `i` on, the rest of the
offset is that of the leading coordinates. -/
theorem indexToOffset_go {shape : List Nat} {strides : List Int}
    (hlen : strides.length = shape.length) {i : Nat} (hi : i ≤ shape.length) (flat : Nat)
    {res : Nat}
    (hres : res < 2 ^ 64) :
    indexToOffset.go shape strides i flat res
      = toUInt64 (res + dot (unravel (shape.take i) flat) (strides.take i)) := by
  induction i generalizing flat res with
  | zero =>
    rw [indexToOffset.go, List.take_zero, unravel_nil, dot_nil_left, Int.add_zero,
      toUInt64_eq_self hres]
  | succ i ih =>
    have hshape := take_succ_getD shape 0 hi
    have hstrides := take_succ_getD strides 0 (hlen ▸ hi)
    have hlen' : (unravel (shape.take i) (flat / shape.getD i 0)).length
        = (strides.take i).length := by
      rw [length_unravel, List.length_take, List.length_take, hlen]
    rw [indexToOffset.go, ih (Nat.le_of_succ_le hi) _ (toUInt64_lt _), toUInt64_natCast_add, hshape,
      hstrides, unravel_append, List.prod_singleton, dot_append hlen']
    congr 1
    simp [unravel]
    ring

/-- With a smaller rank, the loop sees the leading dimensions. -/
theorem indexToOffset_leading {shape : List Nat} {strides : List Int}
    (hlen : strides.length = shape.length) {n : Nat} (hn : n ≤ shape.length) (flat : Nat) :
    indexToOffset flat n shape strides
      = toUInt64 (dot (unravel (shape.take n) flat) (strides.take n)) := by
  rw [indexToOffset, indexToOffset_go hlen hn flat (by decide)]
  simp

theorem indexToOffset_eq {shape : List Nat} {strides : List Int}
    (hlen : strides.length = shape.length) (flat : Nat) :
    indexToOffset flat shape.length shape strides
      = toUInt64 (dot (unravel shape flat) strides) := by
  rw [indexToOffset_leading hlen (Nat.le_refl _), List.take_length, ← hlen, List.take_length]

namespace StoredTensor

variable (t : StoredTensor)

theorem elementAt_offset {idx : List Nat} (h : Valid t.shape idx) :
    elementAt (toUInt64 (t.offset idx)) = t.offset idx := by
  obtain ⟨hlo, hhi⟩ := t.addressable idx h
  rw [elementAt, toInt64_natCast_toUInt64, toInt64_eq_self (Int.le_of_lt hlo) hhi]

theorem elementAt_indexToOffset {flat : Nat} (h : flat < t.shape.prod) :
    elementAt (indexToOffset flat t.shape.length t.shape t.strides)
      = t.offset (unravel t.shape flat) := by
  rw [indexToOffset_eq t.rank_eq]
  exact t.elementAt_offset (unravel_valid (Nat.zero_lt_of_lt h) flat)

end StoredTensor

/-! ## The flat index -/

namespace Tensor

theorem size_natCast (t : Tensor) (i : Nat) : t.size (i : Int) = t.shape.getD i 0 := by
  have hnonneg : ¬ (i : Int) < 0 := by omega
  simp [size, effectiveIndex, hnonneg]

theorem size_neg_one (t : Tensor) (h : 2 ≤ t.shape.length) :
    t.size (-1) = t.shape.getD (t.shape.length - 1) 0 := by
  have hindex : (effectiveIndex (-1) t.shape.length).toNat = t.shape.length - 1 := by
    unfold effectiveIndex
    split <;> omega
  rw [size, hindex]

theorem size_neg_two (t : Tensor) (h : 2 ≤ t.shape.length) :
    t.size (-2) = t.shape.getD (t.shape.length - 2) 0 := by
  have hindex : (effectiveIndex (-2) t.shape.length).toNat = t.shape.length - 2 := by
    unfold effectiveIndex
    split <;> omega
  rw [size, hindex]

theorem stride_neg_one (t : Tensor) (h : 2 ≤ t.strides.length) :
    t.stride (-1) = t.strides.getD (t.strides.length - 1) 0 := by
  have hindex : (effectiveIndex (-1) t.strides.length).toNat = t.strides.length - 1 := by
    unfold effectiveIndex
    split <;> omega
  rw [stride, hindex]

theorem stride_natCast (t : Tensor) (i : Nat) : t.stride (i : Int) = t.strides.getD i 0 := by
  have hnonneg : ¬ (i : Int) < 0 := by omega
  simp [stride, effectiveIndex, hnonneg]

theorem elementSize_pos (t : Tensor) : 0 < t.elementSize := by
  unfold elementSize
  cases t.dtype <;> decide

theorem address_inj {t : Tensor} (hinj : t.Injective) {idx idx' : List Nat}
    (h : Valid t.shape idx) (h' : Valid t.shape idx') (heq : t.address idx = t.address idx') :
    idx = idx' := by
  refine hinj idx idx' h h' ?_
  have hpos : (t.elementSize : Int) ≠ 0 := Int.natCast_ne_zero.mpr (Nat.ne_of_gt t.elementSize_pos)
  exact Int.eq_of_mul_eq_mul_left hpos (Int.add_left_cancel heq)

theorem numel_eq (t : Tensor) : t.numel = t.shape.prod := by
  rw [numel, ← List.prod_eq_foldl]

variable {t : Tensor}

/-- Mergeable dimensions have the strides of a contiguous array, modulo the
width of `size_t`. -/
theorem stride_of_isMergeable {n : Nat} (h : t.isMergeable 0 n) {i : Nat} (hi : i < n) :
    t.strides.getD i 0 ≡ t.shape.getD (i + 1) 0 * t.strides.getD (i + 1) 0 [ZMOD 2 ^ 64] := by
  have hn : ¬ 0 = n := by omega
  rw [isMergeable, if_neg hn, List.all_eq_true] at h
  have hmem : i ∈ List.range' 0 (n - 0) := by
    rw [List.mem_range'_1]
    omega
  have hcheck := h i hmem
  simp only [decide_eq_true_eq] at hcheck
  have hmod := toUInt64_eq_iff.mp hcheck.2
  rw [← Nat.cast_succ, stride_natCast, stride_natCast, size_natCast] at hmod
  exact hmod

theorem forall₂_of_isContiguous (hrank : t.strides.length = t.shape.length)
    (h : t.isContiguous) :
    List.Forall₂ (Int.ModEq (2 ^ 64)) t.strides (suffixProds t.shape) := by
  rw [isContiguous] at h
  by_cases hzero : t.ndim = 0
  · have hshape : t.shape = [] := List.eq_nil_of_length_eq_zero hzero
    rw [hshape] at hrank ⊢
    rw [List.eq_nil_of_length_eq_zero hrank]
    exact .nil
  · rw [if_neg hzero] at h
    have hpos : 0 < t.shape.length := Nat.pos_of_ne_zero hzero
    by_cases hmergeable : t.isMergeable 0 (t.ndim - 1)
    · rw [hmergeable] at h
      have hlast : t.stride ((t.ndim - 1 : Nat) : Int) = 1 := by simpa using h
      rw [stride_natCast] at hlast
      refine forall₂_suffixProds hrank ?_ (fun _ => hlast)
      intro i hi
      exact stride_of_isMergeable hmergeable (by rw [ndim]; omega)
    · simp [hmergeable] at h

end Tensor

namespace StoredTensor

variable {t : StoredTensor}

/-- In a contiguous tensor the flat index reaches the element that it
numbers. -/
theorem elementAt_of_isContiguous (h : t.isContiguous) {flat : Nat} (hlt : flat < t.shape.prod) :
    elementAt flat = t.offset (unravel t.shape flat) := by
  have hvalid := unravel_valid (Nat.zero_lt_of_lt hlt) flat
  obtain ⟨hlo, hhi⟩ := t.addressable _ hvalid
  have hmod := dot_modEq (unravel t.shape flat) (Tensor.forall₂_of_isContiguous t.rank_eq h)
  rw [dot_suffixProds, ravel_unravel hlt] at hmod
  have hword : toUInt64 (t.offset (unravel t.shape flat)) = toUInt64 flat :=
    toUInt64_eq_iff.mpr hmod
  calc elementAt flat = toInt64 (toUInt64 flat) := (toInt64_natCast_toUInt64 flat).symm
    _ = elementAt (toUInt64 (t.offset (unravel t.shape flat))) := by rw [hword, elementAt]
    _ = t.offset (unravel t.shape flat) := t.elementAt_offset hvalid

/-- The offset itself is the flat index: from one element to the next it
cannot go around the word. -/
theorem offset_unravel (h : t.isContiguous) {flat : Nat} (hlt : flat < t.shape.prod) :
    t.offset (unravel t.shape flat) = flat := by
  have hpos := Nat.zero_lt_of_lt hlt
  have hmod : ∀ i < t.shape.prod, (2 ^ 64 : Int) ∣ i - t.offset (unravel t.shape i) := by
    intro i hi
    have hdot := dot_modEq (unravel t.shape i) (Tensor.forall₂_of_isContiguous t.rank_eq h)
    rw [dot_suffixProds, ravel_unravel hi] at hdot
    exact hdot.dvd
  induction flat with
  | zero =>
    obtain ⟨c, hc⟩ := hmod 0 hpos
    obtain ⟨hlo, hhi⟩ := t.addressable _ (unravel_valid hpos 0)
    omega
  | succ flat ih =>
    have hprev := ih (Nat.lt_of_succ_lt hlt)
    obtain ⟨-, hbound⟩ := t.addressable _ (unravel_valid hpos flat)
    obtain ⟨c, hc⟩ := hmod _ hlt
    obtain ⟨hlo, hhi⟩ := t.addressable _ (unravel_valid hpos (flat + 1))
    omega

/-! ## Tensors that are written to -/

/-- A tensor whose elements are distinct has fewer than 2^64 of them. -/
theorem prod_lt (hinj : t.Injective) : t.shape.prod < 2 ^ 64 := by
  have hmaps : ∀ flat ∈ Finset.range t.shape.prod,
      t.offset (unravel t.shape flat) ∈ Finset.Ioo (-2 ^ 63 : Int) (2 ^ 63) := by
    intro flat hflat
    have hlt := Finset.mem_range.mp hflat
    exact Finset.mem_Ioo.mpr (t.addressable _ (unravel_valid (Nat.zero_lt_of_lt hlt) flat))
  have hinjOn : Set.InjOn (fun flat => t.offset (unravel t.shape flat))
      (Finset.range t.shape.prod) := by
    intro m hm n hn heq
    have hm' := Finset.mem_range.mp (Finset.mem_coe.mp hm)
    have hn' := Finset.mem_range.mp (Finset.mem_coe.mp hn)
    have hpos := Nat.zero_lt_of_lt hm'
    exact unravel_inj hm' hn' (hinj _ _ (unravel_valid hpos m) (unravel_valid hpos n) heq)
  have hcard := Finset.card_le_card_of_injOn _ hmaps hinjOn
  rw [Finset.card_range, Int.card_Ioo] at hcard
  omega

/-- A nonempty tensor whose elements are distinct passes the check of the
constructors. -/
theorem not_hasBroadcastDim (hinj : t.Injective) (hpos : 0 < t.shape.prod) :
    t.hasBroadcastDim = false := by
  have hgo : ∀ steps i, i + steps ≤ t.shape.length →
      Tensor.hasBroadcastDim.go t.toTensor steps i = false := by
    intro steps
    induction steps with
    | zero =>
      intro i _
      rfl
    | succ steps ih =>
      intro i hi
      rw [Tensor.hasBroadcastDim.go]
      by_cases hextent : t.shape.getD i 0 = 1
      · rw [if_pos hextent]
        exact ih i (by omega)
      · rw [if_neg hextent]
        by_cases hstride : t.strides.getD i 0 = 0
        · obtain ⟨idx, idx', hidx, hidx', hne, heq⟩ :=
            exists_collision t.rank_eq hpos (by omega) hextent hstride
          exact absurd (hinj idx idx' hidx hidx' heq) hne
        · rw [if_neg hstride]
          exact ih (i + 1) (by omega)
  exact hgo _ 0 (by omega)

end StoredTensor

end InfiniOps
