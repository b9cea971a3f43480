/-
InfiniOps.Ascend.StorageExtent — how many elements an ACL descriptor claims
of the storage behind a view (`src/native/ascend/common.h`).

`BuildAclTensor` and the two constructors of `AclTensorCache` compute the
count separately, in `int64_t`; `descriptorInt64` and `contiguousInt64` are
these loops with every operation narrowed. `MatmulEntry` has the same
descriptors over exact numbers, which is what they are where nothing
overflows (`descriptorInt64_eq`, `contiguousInt64_eq`).

`ExactStorage` is the purpose: the count is one more than the largest
offset. No stride is negative, so that is the offset of the last index.
-/
import InfiniOps.Ascend.MatmulEntryTheorems

namespace InfiniOps.Ascend

open RowMajor

/-! ## The descriptors, in `int64_t` -/

/-- `storage_elems`, counted up from `elems`. -/
def storageElemsInt64 : List Nat → List Int → (elems : Int) → Int
  | d :: ds, s :: ss, elems =>
    if toInt64 d = 0 then 0
    else storageElemsInt64 ds ss
      (if 0 < s ∧ 1 < toInt64 d then toInt64 (elems + toInt64 (toInt64 (toInt64 d - 1) * s))
       else elems)
  | _, _, elems => elems

/-- The loop from the last dimension outwards. -/
def contiguousStridesInt64 (shape : List Nat) : List Int × Int :=
  shape.foldr
    (fun (d : Nat) (strides, stride) => (stride :: strides, toInt64 (stride * toInt64 d))) ([], 1)

/-- The metadata that a view is described by. Below rank 2 there is nothing
to swap. -/
def descriptorInt64 (t : Tensor) (transposeLast2 : Bool) (dtype : AclDataType) : AclTensorCache :=
  let shape := if transposeLast2 ∧ 2 ≤ t.shape.length then swapLast2 t.shape else t.shape
  let strides := if transposeLast2 ∧ 2 ≤ t.shape.length then swapLast2 t.strides else t.strides
  { shape, strides, storageShape := [storageElemsInt64 shape strides 1], dtype }

/-- `BuildAclTensor`: what is passed to `aclCreateTensor`. -/
def buildAclTensor (t : Tensor) (transposeLast2 : Bool) : Except Failure AclTensorCache :=
  (toAclDtype t.dtype).map (descriptorInt64 t transposeLast2)

/-- `AclTensorCache(t, transpose_last2)`. -/
def aclTensorCache (t : Tensor) (transposeLast2 : Bool) : Except Failure AclTensorCache :=
  (toAclDtype t.dtype).map (descriptorInt64 t transposeLast2)

/-- `AclTensorCache(shape, dtype, data)`. -/
def contiguousInt64 (shape : List Nat) (dtype : AclDataType) : AclTensorCache where
  shape
  strides := (contiguousStridesInt64 shape).1
  storageShape := [(contiguousStridesInt64 shape).2]
  dtype

/-! ## What the count is for -/

/-- The storage of a descriptor is `count` elements, and no fewer hold the
view. -/
structure ExactStorage (c : AclTensorCache) (count : Int) : Prop where
  storage : c.storageShape = [count]
  offset_lt : ∀ idx, Valid c.shape idx → c.offset idx < count
  attained : (∃ idx, Valid c.shape idx) → ∃ idx, Valid c.shape idx ∧ count = 1 + c.offset idx
  eq_zero_iff : count = 0 ↔ 0 ∈ c.shape

/-- The shape and the strides of a descriptor are those of the tensor, or of
its transpose. -/
structure IsView (c : AclTensorCache) (t : Tensor) (transposeLast2 : Bool) : Prop where
  shape : c.shape = if transposeLast2 then swapLast2 t.shape else t.shape
  strides : c.strides = if transposeLast2 then swapLast2 t.strides else t.strides

/-- The extents are `int64_t`, and so is the offset past the last element. -/
structure FitsInt64 (t : Tensor) : Prop where
  extent_lt : ∀ d ∈ t.shape, d < 2 ^ 63
  last_lt : dot (lastIndex t.shape) t.strides + 1 < 2 ^ 63

/-! ## Exact numbers -/

/-- One dimension, in `int64_t`: the sum that is left bounds every product. -/
theorem int64_term {d : Nat} {s elems rest : Int} (hd : d ≠ 0) (hs : 0 ≤ s) (helems : 0 ≤ elems)
    (hrest : 0 ≤ rest) (hd' : d < 2 ^ 63) (h : elems + ((d - 1 : Nat) * s + rest) < 2 ^ 63) :
    toInt64 (elems + toInt64 (toInt64 (toInt64 d - 1) * s)) = elems + (d - 1 : Nat) * s := by
  have hcast : ((d - 1 : Nat) : Int) = d - 1 := by omega
  have hterm : 0 ≤ ((d - 1 : Nat) : Int) * s := Int.mul_nonneg (Int.natCast_nonneg _) hs
  rw [toInt64_eq_self (x := (d : Int)) (by omega) (by omega),
    toInt64_eq_self (x := (d : Int) - 1) (by omega) (by omega), ← hcast,
    toInt64_eq_self (x := (d - 1 : Nat) * s) (by omega) (by omega),
    toInt64_eq_self (by omega) (by omega)]

theorem storageElemsInt64_eq {shape : List Nat} {strides : List Int} {elems : Int}
    (hnonneg : ∀ s ∈ strides, 0 ≤ s) (hextent : ∀ d ∈ shape, d < 2 ^ 63) (helems : 0 ≤ elems)
    (hlast : elems + dot (lastIndex shape) strides < 2 ^ 63) :
    storageElemsInt64 shape strides elems = AclTensorCache.storageElems shape strides elems := by
  induction shape generalizing strides elems with
  | nil => cases strides <;> rfl
  | cons d ds ih =>
    cases strides with
    | nil => rfl
    | cons s ss =>
      have hd : d < 2 ^ 63 := hextent d List.mem_cons_self
      have hds : ∀ e ∈ ds, e < 2 ^ 63 := fun e he => hextent e (List.mem_cons_of_mem _ he)
      have hs : 0 ≤ s := hnonneg s List.mem_cons_self
      have hss : ∀ e ∈ ss, 0 ≤ e := fun e he => hnonneg e (List.mem_cons_of_mem _ he)
      have hrest := dot_nonneg (lastIndex ds) hss
      have hself : toInt64 d = d := toInt64_eq_self (by omega) (by omega)
      have hterm : 0 ≤ ((d - 1 : Nat) : Int) * s := Int.mul_nonneg (Int.natCast_nonneg _) hs
      rw [lastIndex, List.map_cons, dot_cons] at hlast
      change elems + ((d - 1 : Nat) * s + dot (lastIndex ds) ss) < 2 ^ 63 at hlast
      simp only [storageElemsInt64, AclTensorCache.storageElems, hself, Int.natCast_eq_zero,
        Nat.one_lt_cast]
      by_cases hzero : d = 0
      · rw [if_pos hzero, if_pos hzero]
      · rw [if_neg hzero, if_neg hzero]
        by_cases hcount : 0 < s ∧ 1 < d
        · have hnext := int64_term hzero hs helems hrest hd hlast
          rw [hself] at hnext
          rw [if_pos hcount, if_pos hcount, hnext]
          exact ih hss hds (by omega) (by omega)
        · rw [if_neg hcount, if_neg hcount]
          exact ih hss hds helems (by omega)

theorem storageElems_eq {shape : List Nat} {strides : List Int}
    (hrank : strides.length = shape.length) (hnonneg : ∀ s ∈ strides, 0 ≤ s) (elems : Int) :
    AclTensorCache.storageElems shape strides elems
      = if 0 ∈ shape then 0 else elems + dot (lastIndex shape) strides := by
  induction shape generalizing strides elems with
  | nil => cases strides <;> simp [AclTensorCache.storageElems, lastIndex]
  | cons d ds ih =>
    cases strides with
    | nil => cases hrank
    | cons s ss =>
      have hss : ∀ e ∈ ss, 0 ≤ e := fun e he => hnonneg e (List.mem_cons_of_mem _ he)
      rw [AclTensorCache.storageElems]
      by_cases hzero : d = 0
      · simp [hzero]
      · have hne : ¬ 0 = d := fun h => hzero h.symm
        rw [if_neg hzero, ih (Nat.succ.inj hrank) hss]
        simp only [List.mem_cons, hne, false_or, lastIndex, List.map_cons, dot_cons]
        by_cases hcount : 0 < s ∧ 1 < d
        · simp only [if_pos hcount, Int.add_assoc]
        · -- an extent of 1 or a stride of 0 adds nothing
          have hterm : ((d - 1 : Nat) : Int) * s = 0 := by
            have hs := hnonneg s List.mem_cons_self
            rcases Nat.lt_or_ge 1 d with hd | hd
            · rw [show s = 0 by omega, Int.mul_zero]
            · rw [show d - 1 = 0 by omega, Nat.cast_zero, Int.zero_mul]
          simp only [if_neg hcount, hterm, Int.zero_add]

theorem contiguousStrides_eq (shape : List Nat) :
    AclTensorCache.contiguousStrides shape = (suffixProds shape, (shape.prod : Int)) := by
  induction shape with
  | nil => rfl
  | cons d ds ih =>
    simp only [AclTensorCache.contiguousStrides, List.bind_eq_flatMap, List.pure_def,
      List.flatMap_cons, List.singleton_append, List.foldr_cons] at ih ⊢
    rw [ih, suffixProds, List.prod_cons, Nat.cast_mul, Int.mul_comm]

theorem contiguousStridesInt64_eq {shape : List Nat} (hextent : ∀ d ∈ shape, d < 2 ^ 63)
    (hprods : ∀ p ∈ suffixProds shape, p < 2 ^ 63) (hprod : shape.prod < 2 ^ 63) :
    contiguousStridesInt64 shape = AclTensorCache.contiguousStrides shape := by
  induction shape with
  | nil => rfl
  | cons d ds ih =>
    have hd : d < 2 ^ 63 := hextent d List.mem_cons_self
    have hds : (ds.prod : Int) < 2 ^ 63 := hprods _ List.mem_cons_self
    have htail := ih (fun e he => hextent e (List.mem_cons_of_mem _ he))
      (fun p hp => hprods p (List.mem_cons_of_mem _ hp)) (by exact_mod_cast hds)
    rw [contiguousStridesInt64] at htail
    rw [contiguousStridesInt64, List.foldr_cons, htail, contiguousStrides_eq, contiguousStrides_eq]
    have hself : toInt64 d = d := toInt64_eq_self (by omega) (by omega)
    have hmul : (ds.prod : Int) * d = ((d :: ds).prod : Nat) := by
      rw [List.prod_cons, Nat.cast_mul, Int.mul_comm]
    simp only [suffixProds, hself, hmul]
    rw [toInt64_eq_self (by omega) (by omega)]

/-! ## Transposed views -/

/-- The products over the dimensions after each one: strides, unit extents
aside. -/
theorem suffixProds_lt {shape : List Nat} {strides : List Int}
    (h : RowMajorStrides shape strides) (hstrides : ∀ s ∈ strides, s < 2 ^ 63)
    (hprod : shape.prod < 2 ^ 63) : ∀ p ∈ suffixProds shape, p < 2 ^ 63 := by
  induction shape generalizing strides with
  | nil => simp [suffixProds]
  | cons d ds ih =>
    cases strides with
    | nil => exact h.elim
    | cons s ss =>
      have hds : (ds.prod : Int) < 2 ^ 63 := by
        by_cases hd : d = 1
        · rw [hd, List.prod_cons, Nat.one_mul] at hprod
          exact_mod_cast hprod
        · rw [← h.1 hd]
          exact hstrides s List.mem_cons_self
      have htail := ih h.2 (fun e he => hstrides e (List.mem_cons_of_mem _ he))
        (by exact_mod_cast hds)
      intro p hp
      rcases List.mem_cons.mp hp with rfl | hp
      · exact hds
      · exact htail p hp

/-- The products that `IsContiguous` compares modulo 2^64 are smaller. -/
theorem rowMajorStrides_of_modEq {shape : List Nat} {strides : List Int}
    (h : List.Forall₂ (Int.ModEq (2 ^ 64)) strides (suffixProds shape)) (hpos : 0 ∉ shape)
    (hstrides : ∀ s ∈ strides, 0 ≤ s ∧ s < 2 ^ 63)
    (hlast : dot (lastIndex shape) strides + 1 < 2 ^ 63) : RowMajorStrides shape strides := by
  induction shape generalizing strides with
  | nil =>
    cases h
    trivial
  | cons d ds ih =>
    cases h with
    | @cons s _ ss _ hmod htail =>
      rw [List.mem_cons, not_or] at hpos
      have hs := hstrides s List.mem_cons_self
      have hss : ∀ e ∈ ss, 0 ≤ e ∧ e < 2 ^ 63 := fun e he => hstrides e (List.mem_cons_of_mem _ he)
      rw [lastIndex, List.map_cons, dot_cons] at hlast
      change ((d - 1 : Nat) : Int) * s + dot (lastIndex ds) ss + 1 < 2 ^ 63 at hlast
      have hterm : 0 ≤ ((d - 1 : Nat) : Int) * s := Int.mul_nonneg (Int.natCast_nonneg _) hs.1
      have hrest := ih htail hpos.2 hss (by omega)
      have hprod := hrest.dot_lastIndex hpos.2
      refine ⟨fun _ => ?_, hrest⟩
      have hword : s % 2 ^ 64 = ds.prod % 2 ^ 64 := hmod
      omega

theorem swapLast2_of_length_lt {α : Type} {l : List α} (h : l.length < 2) : swapLast2 l = l := by
  match l, h with
  | [], _ => rfl
  | [_], _ => rfl

theorem exists_append_pair {α : Type} {l : List α} (h : 2 ≤ l.length) :
    ∃ front x y, l = front ++ [x, y] := by
  have hne : l ≠ [] := by
    rintro rfl
    simp at h
  exact ⟨_, _, _, eq_take_append_pair l (l.head hne) h⟩

theorem swapLast2_perm {α : Type} (l : List α) : (swapLast2 l).Perm l := by
  rcases Nat.lt_or_ge l.length 2 with h | h
  · rw [swapLast2_of_length_lt h]
  · obtain ⟨front, x, y, rfl⟩ := exists_append_pair h
    rw [swapLast2_append]
    exact (List.Perm.swap x y []).append_left front

/-- The last element of the view is the last element of the tensor. -/
theorem dot_lastIndex_swapLast2 {shape : List Nat} {strides : List Int}
    (hrank : strides.length = shape.length) :
    dot (lastIndex (swapLast2 shape)) (swapLast2 strides) = dot (lastIndex shape) strides := by
  rcases Nat.lt_or_ge shape.length 2 with h | h
  · rw [swapLast2_of_length_lt h, swapLast2_of_length_lt (hrank ▸ h)]
  · obtain ⟨front, x, y, rfl⟩ := exists_append_pair h
    obtain ⟨front', s, s', rfl⟩ := exists_append_pair (hrank ▸ h)
    have hfront : (lastIndex front).length = front'.length := by
      simpa [lastIndex] using hrank.symm
    have hsplit : ∀ a b, lastIndex (front ++ [a, b]) = lastIndex front ++ [a - 1, b - 1] := by
      simp [lastIndex]
    rw [swapLast2_append, swapLast2_append, hsplit, hsplit, dot_append hfront, dot_append hfront]
    simp [Int.add_comm]

/-- The guard on the rank is that of the swap. -/
theorem swapped_eq {α : Type} (l : List α) (trans : Bool) {rank : Nat} (hrank : l.length = rank) :
    (if trans ∧ 2 ≤ rank then swapLast2 l else l) = if trans then swapLast2 l else l := by
  by_cases h : 2 ≤ rank
  · simp only [h, and_true]
  · rw [swapLast2_of_length_lt (by omega)]
    simp

/-! ## The descriptors -/

section Descriptors

variable {t : Tensor}

theorem rowMajorStrides_of_isContiguous (hrank : t.strides.length = t.shape.length)
    (hstrides : ∀ s ∈ t.strides, 0 ≤ s ∧ s < 2 ^ 63) (hfits : FitsInt64 t) (hpos : 0 ∉ t.shape)
    (h : t.isContiguous) : RowMajorStrides t.shape t.strides :=
  rowMajorStrides_of_modEq (Tensor.forall₂_of_isContiguous hrank h) hpos hstrides hfits.last_lt

/-- What a descriptor is computed from is as the tensor has it: with the
last two dimensions exchanged, too. -/
theorem describe_view (hrank : t.strides.length = t.shape.length) (trans : Bool)
    (dtype : AclDataType) :
    let c := AclTensorCache.describe t trans dtype
    c.shape.Perm t.shape ∧ c.strides.Perm t.strides ∧
      dot (lastIndex c.shape) c.strides = dot (lastIndex t.shape) t.strides := by
  simp only [AclTensorCache.describe]
  cases trans
  · exact ⟨.refl _, .refl _, rfl⟩
  · exact ⟨swapLast2_perm _, swapLast2_perm _, dot_lastIndex_swapLast2 hrank⟩

/-- The machine's descriptor is the one over exact numbers. -/
theorem descriptorInt64_eq (hrank : t.strides.length = t.shape.length)
    (hnonneg : ∀ s ∈ t.strides, 0 ≤ s) (hfits : FitsInt64 t) (trans : Bool) (dtype : AclDataType) :
    descriptorInt64 t trans dtype = AclTensorCache.describe t trans dtype := by
  obtain ⟨hshape, hstrides, hdot⟩ := describe_view hrank trans dtype
  have hlast := hfits.last_lt
  rw [← hdot] at hlast
  have hcount := storageElemsInt64_eq (fun s hs => hnonneg s (hstrides.mem_iff.mp hs))
    (fun d hd => hfits.extent_lt d (hshape.mem_iff.mp hd)) Int.one_nonneg (by omega)
  simp only [AclTensorCache.describe] at hcount
  simp only [descriptorInt64, AclTensorCache.describe, swapped_eq _ _ rfl, swapped_eq _ _ hrank,
    hcount]

/-- The count is that of the tensor, with the last two dimensions exchanged,
too. -/
theorem describe_storage (hrank : t.strides.length = t.shape.length)
    (hnonneg : ∀ s ∈ t.strides, 0 ≤ s) (trans : Bool) (dtype : AclDataType) :
    (AclTensorCache.describe t trans dtype).storageShape
      = [AclTensorCache.storageElems t.shape t.strides 1] := by
  obtain ⟨hshape, hstrides, hdot⟩ := describe_view hrank trans dtype
  have hrank' : (AclTensorCache.describe t trans dtype).strides.length
      = (AclTensorCache.describe t trans dtype).shape.length := by
    rw [hshape.length_eq, hstrides.length_eq, hrank]
  have hcount := storageElems_eq hrank' (fun s hs => hnonneg s (hstrides.mem_iff.mp hs)) 1
  rw [hdot] at hcount
  simp only [hshape.mem_iff] at hcount
  rw [storageElems_eq hrank hnonneg, ← hcount]
  rfl

/-- One more than the offset of the last element is the exact count. -/
theorem exactStorage_describe (hrank : t.strides.length = t.shape.length)
    (hnonneg : ∀ s ∈ t.strides, 0 ≤ s) (trans : Bool) (dtype : AclDataType) :
    ExactStorage (AclTensorCache.describe t trans dtype)
      (AclTensorCache.storageElems t.shape t.strides 1) := by
  have hstorage := describe_storage hrank hnonneg trans dtype
  obtain ⟨hshape, hstrides, hdot⟩ := describe_view hrank trans dtype
  generalize AclTensorCache.describe t trans dtype = c at *
  have hnonneg' : ∀ s ∈ c.strides, 0 ≤ s := fun s hs => hnonneg s (hstrides.mem_iff.mp hs)
  have hcount := storageElems_eq hrank hnonneg 1
  rw [← hdot] at hcount
  simp only [← hshape.mem_iff] at hcount
  have hlast := dot_nonneg (lastIndex c.shape) hnonneg'
  refine ⟨hstorage, ?_, ?_, ?_⟩
  · intro idx hidx
    have hle := dot_le_dot_lastIndex hidx hnonneg'
    have hzero : 0 ∉ c.shape := fun h => by simpa [List.prod_eq_zero h] using hidx.prod_pos
    rw [hcount, if_neg hzero, AclTensorCache.offset]
    omega
  · rintro ⟨idx, hidx⟩
    have hzero : 0 ∉ c.shape := fun h => by simpa [List.prod_eq_zero h] using hidx.prod_pos
    exact ⟨lastIndex c.shape, lastIndex_valid hzero, by rw [hcount, if_neg hzero]; rfl⟩
  · rw [hcount]
    by_cases hzero : 0 ∈ c.shape
    · simp [hzero]
    · simp only [hzero, if_false, iff_false]
      omega

/-- Where the strides are contiguous, the count is that of the elements. -/
theorem storageElems_of_rowMajor (hrank : t.strides.length = t.shape.length)
    (hnonneg : ∀ s ∈ t.strides, 0 ≤ s) (h : RowMajorStrides t.shape t.strides) :
    AclTensorCache.storageElems t.shape t.strides 1 = t.numel := by
  rw [storageElems_eq hrank hnonneg, Tensor.numel_eq]
  by_cases hzero : 0 ∈ t.shape
  · rw [if_pos hzero, List.prod_eq_zero hzero, Nat.cast_zero]
  · rw [if_neg hzero, ← h.dot_lastIndex hzero, Int.add_comm]

/-- The empty storage. -/
theorem contiguousStridesInt64_of_zero {shape : List Nat} (h : 0 ∈ shape) :
    (contiguousStridesInt64 shape).2 = 0 := by
  induction shape with
  | nil => cases h
  | cons d ds ih =>
    have hzero : toInt64 0 = 0 := toInt64_eq_self (by decide) (by decide)
    show toInt64 ((contiguousStridesInt64 ds).2 * toInt64 d) = 0
    rcases List.mem_cons.mp h with rfl | h
    · rw [Nat.cast_zero, hzero, Int.mul_zero, hzero]
    · rw [ih h, Int.zero_mul, hzero]

/-- The shape-only constructor describes the same storage. -/
theorem contiguousInt64_storage
    (hstrides : ∀ s ∈ t.strides, 0 ≤ s ∧ s < 2 ^ 63) (hfits : FitsInt64 t)
    (h : RowMajorStrides t.shape t.strides) (dtype : AclDataType) :
    (contiguousInt64 t.shape dtype).storageShape = [(t.numel : Int)] := by
  have hprod : t.shape.prod < 2 ^ 63 := by
    by_cases hzero : 0 ∈ t.shape
    · rw [List.prod_eq_zero hzero]
      decide
    · have hlast := hfits.last_lt
      rw [h.dot_lastIndex hzero] at hlast
      exact_mod_cast hlast
  have hprods := suffixProds_lt h (fun s hs => (hstrides s hs).2) hprod
  rw [contiguousInt64, contiguousStridesInt64_eq hfits.extent_lt hprods hprod, contiguousStrides_eq,
    Tensor.numel_eq]

/-- Contiguous strides are row-major, or of no element. -/
theorem rowMajorStrides_or_empty (hrank : t.strides.length = t.shape.length)
    (hstrides : ∀ s ∈ t.strides, 0 ≤ s ∧ s < 2 ^ 63) (hfits : FitsInt64 t)
    (h : t.isContiguous ∨ RowMajorStrides t.shape t.strides) :
    RowMajorStrides t.shape t.strides ∨ 0 ∈ t.shape := by
  by_cases hzero : 0 ∈ t.shape
  · exact .inr hzero
  · exact .inl (h.elim (rowMajorStrides_of_isContiguous hrank hstrides hfits hzero) id)

/-- The two functions make the same descriptor, if the device has the type. -/
theorem exists_descriptor (t : Tensor) (trans : Bool) (hdtype : t.dtype ≠ .kFloat64) :
    ∃ dtype, buildAclTensor t trans = .ok (descriptorInt64 t trans dtype) ∧
      aclTensorCache t trans = .ok (descriptorInt64 t trans dtype) := by
  obtain ⟨dtype, hok⟩ : ∃ dtype, toAclDtype t.dtype = .ok dtype := by
    cases hcase : t.dtype <;> first | exact ⟨_, rfl⟩ | exact absurd hcase hdtype
  refine ⟨dtype, ?_, ?_⟩
  · rw [buildAclTensor, hok]
    rfl
  · rw [aclTensorCache, hok]
    rfl

theorem isView_descriptorInt64 (hrank : t.strides.length = t.shape.length) (trans : Bool)
    (dtype : AclDataType) : IsView (descriptorInt64 t trans dtype) t trans :=
  ⟨swapped_eq _ _ rfl, swapped_eq _ _ hrank⟩

/-- Both functions describe the view of every tensor whose type the device
has, with one count, which is exact; it is that of the elements where the
strides are contiguous. -/
theorem storageExtent_exact (t : Tensor) (hrank : t.strides.length = t.shape.length)
    (hstrides : ∀ s ∈ t.strides, 0 ≤ s ∧ s < 2 ^ 63) (hfits : FitsInt64 t) :
    (t.dtype ≠ .kFloat64 → ∀ trans, ∃ c, buildAclTensor t trans = .ok c ∧
      aclTensorCache t trans = .ok c ∧ IsView c t trans ∧
      ExactStorage c (storageElemsInt64 t.shape t.strides 1)) ∧
    (storageElemsInt64 t.shape t.strides 1 = 0 ↔ 0 ∈ t.shape) ∧
    (t.isContiguous ∨ RowMajorStrides t.shape t.strides →
      storageElemsInt64 t.shape t.strides 1 = t.numel ∧
      ∀ dtype, (contiguousInt64 t.shape dtype).storageShape
        = (descriptorInt64 t false dtype).storageShape) := by
  have hnonneg : ∀ s ∈ t.strides, 0 ≤ s := fun s hs => (hstrides s hs).1
  have hlast := hfits.last_lt
  have hcount : storageElemsInt64 t.shape t.strides 1
      = AclTensorCache.storageElems t.shape t.strides 1 :=
    storageElemsInt64_eq hnonneg hfits.extent_lt (by decide) (by omega)
  rw [hcount]
  refine ⟨?_, ?_, ?_⟩
  · intro hdtype trans
    obtain ⟨dtype, hbuild, hcache⟩ := exists_descriptor t trans hdtype
    refine ⟨_, hbuild, hcache, isView_descriptorInt64 hrank trans dtype, ?_⟩
    rw [descriptorInt64_eq hrank hnonneg hfits]
    exact exactStorage_describe hrank hnonneg trans dtype
  · exact (exactStorage_describe hrank hnonneg false .float).eq_zero_iff
  · intro h
    rcases rowMajorStrides_or_empty hrank hstrides hfits h with h | hzero
    · refine ⟨storageElems_of_rowMajor hrank hnonneg h, fun dtype => ?_⟩
      rw [contiguousInt64_storage hstrides hfits h, descriptorInt64_eq hrank hnonneg hfits,
        describe_storage hrank hnonneg, storageElems_of_rowMajor hrank hnonneg h]
    · have hempty : AclTensorCache.storageElems t.shape t.strides 1 = 0 := by
        rw [storageElems_eq hrank hnonneg, if_pos hzero]
      refine ⟨?_, fun dtype => ?_⟩
      · rw [hempty, Tensor.numel_eq, List.prod_eq_zero hzero, Nat.cast_zero]
      · rw [contiguousInt64, contiguousStridesInt64_of_zero hzero,
          descriptorInt64_eq hrank hnonneg hfits, describe_storage hrank hnonneg, hempty]

/-- A transposed view with a broadcast dimension and gaps between rows. -/
theorem storageExtent_exact_gapped :
    let t : Tensor := { data := 0, shape := [3, 4, 5], strides := [0, 7, 1] }
    let c : AclTensorCache :=
      { shape := [3, 5, 4], strides := [0, 1, 7], storageShape := [26], dtype := .float }
    buildAclTensor t true = .ok c ∧ aclTensorCache t true = .ok c ∧ IsView c t true ∧
      ExactStorage c 26 := by
  obtain ⟨c, hbuild, hcache, hview, hexact⟩ :=
    (storageExtent_exact { data := 0, shape := [3, 4, 5], strides := [0, 7, 1] } (by decide)
      (by decide) ⟨by decide, by decide⟩).1 (by decide) true
  have hgapped : buildAclTensor { data := 0, shape := [3, 4, 5], strides := [0, 7, 1] } true
      = .ok { shape := [3, 5, 4], strides := [0, 1, 7], storageShape := [26], dtype := .float } := by
    decide +kernel
  obtain rfl := Except.ok.inj (hbuild.symm.trans hgapped)
  refine ⟨hbuild, hcache, hview, ?_⟩
  have hcount : storageElemsInt64 [3, 4, 5] [0, 7, 1] 1 = 26 := by decide +kernel
  exact hcount ▸ hexact

end Descriptors

end InfiniOps.Ascend
