/-
InfiniOps.Ascend.Divisors — the integer divisions of constructors and
launchers, and the extents that make a divisor zero.

* The torch hosts `RmsNorm` and `AddRmsNorm` divide by the last extent
  before they ask whether it is zero.
* The custom launchers divide by the number of cores in use, which is zero
  for a tensor without rows.
* The base class of `RotaryEmbedding` divides by the tokens times the head
  size in its initializers, before any of its assertions.
* `Linear` divides by the last extent of `out` on its flattened path.

`dividesByZero_iff` says which calls these are, for every input.
-/
import InfiniOps.Ascend.MatmulEntryTheorems
import InfiniOps.AscendC.CustomLauncher
import InfiniOps.AscendC.LaunchTheorems

namespace InfiniOps.Ascend

open AscendC

/-! ## `RotaryEmbedding` -/

/-- The members of the base class `RotaryEmbedding`. -/
structure RotaryMembers where
  numTokens : Nat
  numHeads : Int
  numKvHeads : Int
  headSize : Int
  rotaryDim : Int
  isNeoxStyle : Bool
  hasKey : Bool
  preGathered : Bool
  deriving DecidableEq, Repr

/-- The heads of `query` or `key`: `numel / (size(0) * head_size)`. -/
def headCount (t : Tensor) (headSize : Int) : Except SizeError Int := do
  let tokens ← SizeError.extent t 0
  let divisor ← SizeError.product tokens headSize
  SizeError.quotient t.numel divisor

/-- `num_kv_heads_`. -/
def kvHeadCount (key : Option Tensor) (headSize : Int) : Except SizeError Int :=
  match key with
  | some key => headCount key headSize
  | none => .ok 0

/-- The assertions of the base class. -/
def rotaryChecks (positions query : Tensor) (key : Option Tensor) (headSize rotaryDim : Int) :
    Except SizeError Unit := do
  SizeError.check (positions.dtype = .kInt64)
    "`RotaryEmbedding`: `positions` must be `int64` (vLLM convention)"
  SizeError.check (query.ndim = 2 ∨ query.ndim = 3)
    ("`RotaryEmbedding`: `query` must be 2D `[T, Nq * head_size]` or 3D " ++
      "`[T, Nq, head_size]`")
  SizeError.check key.isSome
    ("`RotaryEmbedding`: `key` is required; the `key = None` (MLA) path " ++
      "is not yet implemented on any backend")
  SizeError.check (∀ k ∈ key, k.ndim = 2 ∨ k.ndim = 3)
    ("`RotaryEmbedding`: `key` must be 2D `[T, Nkv * head_size]` or 3D " ++
      "`[T, Nkv, head_size]`")
  SizeError.check (rotaryDim ≤ headSize)
    "`RotaryEmbedding`: `rotary_dim` must be `<= head_size`"

/-- The constructor of the base class: the initializers, then the assertions. -/
def RotaryMembers.new (positions query : Tensor) (key : Option Tensor) (headSize : Int)
    (isNeoxStyle : Bool) (rotaryDim : Int) (preGathered : Bool) :
    Except SizeError RotaryMembers := do
  let numTokens ← SizeError.extent query 0
  let numHeads ← headCount query headSize
  let numKvHeads ← kvHeadCount key headSize
  rotaryChecks positions query key headSize rotaryDim
  return { numTokens, numHeads, numKvHeads, headSize, rotaryDim, isNeoxStyle
           hasKey := key.isSome, preGathered }

/-! ## The calls -/

/-- A call of one of the functions, with what its sizes depend on. -/
inductive SizedCall where
  | torchRmsNorm (input weight : AtTensor)
  | torchAddRmsNorm (x1 x2 weight : AtTensor)
  | customRmsNorm (input out : Tensor)
  | customAddRmsNorm (input residual out residualOut : Tensor)
  | rotaryEmbedding (positions query : Tensor) (key : Option Tensor) (headSize : Int)
      (isNeoxStyle : Bool) (rotaryDim : Int) (preGathered : Bool)
  | linear (a b : Tensor) (bias : Option Tensor) (transA transB : Bool) (out : Tensor)

/-- The call comes to an integer division by zero. -/
def SizedCall.DividesByZero (p : Platform) : SizedCall → Prop
  | .torchRmsNorm input weight => rmsNorm p input weight = .error .divideByZero
  | .torchAddRmsNorm x1 x2 weight => addRmsNorm p x1 x2 weight = .error .divideByZero
  | .customRmsNorm input out => InfiniOps.DividesByZero (AscendC.customRmsNorm input out)
  | .customAddRmsNorm input residual out residualOut =>
    InfiniOps.DividesByZero (AscendC.customAddRmsNorm input residual out residualOut)
  | .rotaryEmbedding positions query key headSize isNeoxStyle rotaryDim preGathered =>
    InfiniOps.DividesByZero
      (RotaryMembers.new positions query key headSize isNeoxStyle rotaryDim preGathered)
  | .linear a b bias transA transB out => LinearKernel.new a b bias transA transB out = .ok none

/-- The rows that the custom launchers count. -/
def rowCount (t : Tensor) : Nat :=
  if t.ndim = 2 then t.size (-2) else t.size (-3) * t.size (-2)

/-- What the custom launchers check of the type and the last extent. -/
def CustomAdmits (dtype : DataType) (t : Tensor) : Prop :=
  2 ≤ t.ndim ∧ IsKernelType dtype ∧ 32 / kDataTypeToSize dtype ∣ t.size (-1)

/-- The divisor that the heads of `t` are computed with. -/
def headDivisor (t : Tensor) (headSize : Int) : Int := t.size 0 * headSize

/-- Wherever the checks on the way let the call through to a division, the
extents in the divisor are not zero. -/
def SizedCall.DivisorsNonzero : SizedCall → Prop
  | .torchRmsNorm input weight =>
    0 < input.dim → (input.scalarType = .half ∨ input.scalarType = .float) → weight.dim = 1 →
      weight.size 0 = input.size (-1) → input.size (-1) ≠ 0
  | .torchAddRmsNorm x1 x2 weight =>
    0 < x1.dim → x1.sizes = x2.sizes → x1.scalarType = x2.scalarType →
      (x1.scalarType = .half ∨ x1.scalarType = .float) → weight.dim = 1 →
      weight.size 0 = x1.size (-1) → x1.size (-1) ≠ 0
  | .customRmsNorm input out =>
    input.dtype = out.dtype → CustomAdmits input.dtype out → rowCount out ≠ 0
  | .customAddRmsNorm input residual out residualOut =>
    input.dtype = residual.dtype → input.dtype = out.dtype → input.dtype = residualOut.dtype →
      CustomAdmits input.dtype input → rowCount input ≠ 0
  | .rotaryEmbedding _ query key headSize _ _ _ =>
    0 < query.ndim → headDivisor query headSize ≠ 0 ∧
      (SizeError.InInt64 (headDivisor query headSize) →
        ∀ k ∈ key, 0 < k.ndim → headDivisor k headSize ≠ 0)
  | .linear a b bias transA transB out =>
    (∃ members, Cpu.Linear.new a b bias transA transB out = .ok members) →
      out.dtype ≠ .kFloat64 → bias.isSome → 2 < out.ndim → b.ndim = 2 → transA = false →
      a.isContiguous → out.isContiguous → out.size (-1) ≠ 0

/-! ## The torch hosts -/

/-- The quotient of `numel` is the only one that can fail: a tensor without
elements is not launched, and one with elements has a row to split. -/
theorem hostLaunch_divideByZero {op : String} {kernel : NormKernel} {coefficient : Nat → Nat}
    {p : Platform} {x : AtTensor} (hcores : 0 < p.coreNumAiv) (hdim : 0 < x.dim)
    (htype : x.scalarType = .half ∨ x.scalarType = .float) :
    hostLaunch op kernel coefficient p x = .error .divideByZero ↔ x.size (-1) = 0 := by
  by_cases hlast : x.size (-1) = 0
  · rw [hostLaunch, hlast]
    exact ⟨fun _ => rfl, fun _ => rfl⟩
  · refine ⟨fun h => absurd h ?_, fun h => absurd h hlast⟩
    by_cases hnumel : x.numel = 0
    · rw [hostLaunch, divide_of_pos (Nat.pos_of_ne_zero hlast), ok_bind, hnumel, Nat.zero_div,
        if_pos (.inl rfl)]
      simp [pure, Except.pure]
    · obtain ⟨m, hm⟩ | ⟨l, hl, -⟩ := hostLaunch_cases op kernel coefficient hcores hdim
        (Nat.pos_of_ne_zero hnumel) htype
      · simp [hm]
      · simp [hl]

theorem torchCheck_divideByZero {c : Prop} [Decidable c] {m : String} {f : Unit → HostResult} :
    (torchCheck c m >>= f) = .error .divideByZero ↔ c ∧ f () = .error .divideByZero := by
  by_cases hc : c
  · rw [torchCheck_true hc, ok_bind]
    exact ⟨fun h => ⟨hc, h⟩, And.right⟩
  · rw [torchCheck_false hc, error_bind]
    exact iff_of_false (by simp) fun h => hc h.1

section Torch

variable {p : Platform} (hcores : 0 < p.coreNumAiv)
include hcores

theorem torchRmsNorm_dividesByZero (input weight : AtTensor) :
    ¬ (SizedCall.torchRmsNorm input weight).DividesByZero p ↔
      (SizedCall.torchRmsNorm input weight).DivisorsNonzero := by
  simp only [SizedCall.DividesByZero, SizedCall.DivisorsNonzero, rmsNorm, torchCheck_divideByZero,
    not_and]
  refine forall_congr' fun hdim => forall_congr' fun htype => forall_congr' fun _ =>
    forall_congr' fun _ => ?_
  rw [hostLaunch_divideByZero hcores hdim htype]

theorem torchAddRmsNorm_dividesByZero (x1 x2 weight : AtTensor) :
    ¬ (SizedCall.torchAddRmsNorm x1 x2 weight).DividesByZero p ↔
      (SizedCall.torchAddRmsNorm x1 x2 weight).DivisorsNonzero := by
  simp only [SizedCall.DividesByZero, SizedCall.DivisorsNonzero, addRmsNorm,
    torchCheck_divideByZero, not_and]
  refine forall_congr' fun hdim => forall_congr' fun _ => forall_congr' fun _ =>
    forall_congr' fun htype => forall_congr' fun _ => forall_congr' fun _ => ?_
  rw [hostLaunch_divideByZero hcores hdim htype]

end Torch

/-! ## The custom launchers -/

theorem size?_eq {t : Tensor} {index : Int} (h : 0 ≤ Tensor.effectiveIndex index t.shape.length)
    (hlt : Tensor.effectiveIndex index t.shape.length < t.shape.length) :
    t.size? index = some (t.size index) := by
  have hnat : (Tensor.effectiveIndex index t.shape.length).toNat < t.shape.length := by omega
  simp only [Tensor.size?, if_pos h, Tensor.size]
  rw [List.getElem?_eq_getElem hnat, List.getD_eq_getElem _ _ hnat]

theorem size?_neg {t : Tensor} {k : Nat} (hk : 0 < k) (hle : k ≤ t.ndim) :
    t.size? (-k) = some (t.size (-k)) := by
  unfold Tensor.ndim at hle
  apply size?_eq <;> unfold Tensor.effectiveIndex <;> omega

/-- An extent that the shape does not have. -/
theorem size?_neg_none {t : Tensor} {k : Nat} (hlt : t.ndim < k) : t.size? (-k) = none := by
  unfold Tensor.ndim at hlt
  have hneg : ¬ 0 ≤ Tensor.effectiveIndex (-k) t.shape.length := by
    unfold Tensor.effectiveIndex
    omega
  simp only [Tensor.size?, if_neg hneg]

theorem extent_neg {t : Tensor} {k : Nat} (hk : 0 < k) (hle : k ≤ t.ndim) :
    SizeError.extent t (-k) = .ok (t.size (-k)) := by
  rw [SizeError.extent, size?_neg hk hle]

theorem extent_neg_outside {t : Tensor} {k : Nat} (hlt : t.ndim < k) :
    SizeError.extent t (-k) = .error .outsideShape := by
  rw [SizeError.extent, size?_neg_none hlt]

/-- The extents of a shape of rank 2 or more, whose product is the number of
rows. -/
theorem ofTensor_of_rank {t : Tensor} (h : 2 ≤ t.ndim) : ∃ extents,
    NormExtents.ofTensor t = .ok extents ∧ extents.dim = t.size (-1) ∧
      extents.batchSize * extents.nhead = rowCount t := by
  have hdim : SizeError.extent t (-1) = .ok (t.size (-1)) :=
    extent_neg (k := 1) Nat.one_pos (by omega)
  have hsecond : SizeError.extent t (-2) = .ok (t.size (-2)) := extent_neg (k := 2) Nat.two_pos h
  by_cases hrank : t.ndim = 2
  · refine ⟨⟨t.size (-1), t.size (-2), 1⟩, ?_, rfl, ?_⟩
    · simp only [NormExtents.ofTensor, headExtent, if_pos hrank, hdim, hsecond, ok_bind]
      rfl
    · rw [rowCount, if_pos hrank, Nat.mul_one]
  · have hthird : SizeError.extent t (-3) = .ok (t.size (-3)) :=
      extent_neg (k := 3) (by decide) (by omega)
    refine ⟨⟨t.size (-1), t.size (-3), t.size (-2)⟩, ?_, rfl, ?_⟩
    · simp only [NormExtents.ofTensor, headExtent, if_neg hrank, hdim, hsecond, hthird, ok_bind]
      rfl
    · rw [rowCount, if_neg hrank]

/-- A shape of rank 0 or 1 is read outside. -/
theorem ofTensor_of_lt {t : Tensor} (h : t.ndim < 2) :
    NormExtents.ofTensor t = .error .outsideShape := by
  have hthird : SizeError.extent t (-3) = .error .outsideShape :=
    extent_neg_outside (k := 3) (by omega)
  by_cases hzero : t.ndim = 0
  · have hdim : SizeError.extent t (-1) = .error .outsideShape :=
      extent_neg_outside (k := 1) (by omega)
    rw [NormExtents.ofTensor, hdim, error_bind]
  · have hdim : SizeError.extent t (-1) = .ok (t.size (-1)) :=
      extent_neg (k := 1) Nat.one_pos (by omega)
    rw [NormExtents.ofTensor, hdim, ok_bind, if_neg (by omega), hthird, error_bind]

/-- A kernel type is the type of an instantiation. -/
theorem isKernelType_iff {dtype : DataType} :
    IsKernelType dtype ↔ ∃ T : ElemType, dtype = T.dataType := by
  constructor
  · rintro (rfl | rfl | rfl)
    · exact ⟨.half, rfl⟩
    · exact ⟨.bfloat16, rfl⟩
    · exact ⟨.float, rfl⟩
  · rintro ⟨T, rfl⟩
    cases T <;> decide

theorem eq_alignedRow_iff {T : ElemType} {dim : Nat} :
    dim = alignedRow T dim ↔ 32 / T.size ∣ dim := by
  cases T <;> simp only [alignedRow, ElemType.size] <;> omega

theorem customTiling_divideByZero {rows : Nat} :
    DividesByZero ((customTiling rows).mapError HostError.toSizeError) ↔ rows = 0 := by
  by_cases hrows : rows = 0
  · subst hrows
    exact ⟨fun _ => rfl, fun _ => rfl⟩
  · rw [customTiling, blockTiling_ok (Nat.pos_of_ne_zero hrows) (by decide)]
    exact iff_of_false (by simp [Except.mapError]) hrows

theorem launch_dividesByZero {kernel : NormKernel} {m : CustomNorm} :
    DividesByZero (m.launch kernel) ↔ m.totalRows = 0 := by
  rw [CustomNorm.launch, dividesByZero_bind, customTiling_divideByZero]
  refine or_iff_left fun h => ?_
  obtain ⟨_, _, h⟩ := h
  cases h

/-- A product of extents that overflows is not zero. -/
theorem customTotalRows_cases (extents : NormExtents) :
    customTotalRows extents = .ok (extents.batchSize * extents.nhead) ∨
      customTotalRows extents = .error .overflow ∧ extents.batchSize * extents.nhead ≠ 0 := by
  unfold customTotalRows SizeError.product
  split
  · left
    rw [Except.map, ← Nat.cast_mul, Int.toNat_natCast]
  · rename_i hfits
    refine .inr ⟨rfl, fun hzero => hfits ?_⟩
    rw [← Nat.cast_mul, hzero]
    decide

/-- What the launchers divide by, once the extents are read. -/
theorem new_launch_dividesByZero {op : String} {dtype : DataType} {extents : NormExtents}
    {kernel : NormKernel} :
    DividesByZero (CustomNorm.new op dtype extents >>= CustomNorm.launch kernel) ↔
      IsKernelType dtype ∧ 32 / kDataTypeToSize dtype ∣ extents.dim ∧
        extents.batchSize * extents.nhead = 0 := by
  rw [CustomNorm.new, bind_assoc, dividesByZero_check]
  refine and_congr_right fun htype => ?_
  obtain ⟨T, rfl⟩ := isKernelType_iff.mp htype
  rw [T.kDataTypeToSize_dataType, alignedLength_eq, ← eq_alignedRow_iff]
  change DividesByZero (SizeError.check _ _ >>= _ >>= _) ↔ _
  rw [bind_assoc, dividesByZero_check]
  refine and_congr_right fun _ => ?_
  obtain hrows | ⟨hrows, hne⟩ := customTotalRows_cases extents
  · rw [hrows]
    exact launch_dividesByZero
  · rw [hrows, error_bind, error_bind]
    exact iff_of_false (by simp) hne

theorem customAdmits_iff {dtype : DataType} {t : Tensor} {extents : NormExtents} (h : 2 ≤ t.ndim)
    (hdim : extents.dim = t.size (-1)) :
    CustomAdmits dtype t ↔ IsKernelType dtype ∧ 32 / kDataTypeToSize dtype ∣ extents.dim := by
  rw [CustomAdmits, hdim]
  exact and_iff_right h

theorem customRmsNorm_dividesByZero (p : Platform) (input out : Tensor) :
    ¬ (SizedCall.customRmsNorm input out).DividesByZero p ↔
      (SizedCall.customRmsNorm input out).DivisorsNonzero := by
  simp only [SizedCall.DividesByZero, SizedCall.DivisorsNonzero, AscendC.customRmsNorm,
    rmsNormBase, bind_assoc]
  by_cases hrank : 2 ≤ out.ndim
  · obtain ⟨extents, hextents, hdim, hrows⟩ := ofTensor_of_rank hrank
    rw [hextents, ok_bind, dividesByZero_check, customAdmits_iff hrank hdim, ← hrows]
    change ¬(_ ∧ DividesByZero (CustomNorm.new _ _ extents >>= CustomNorm.launch _)) ↔ _
    simp only [new_launch_dividesByZero, not_and, and_imp, ne_eq]
  · rw [ofTensor_of_lt (Nat.lt_of_not_le hrank)]
    exact ⟨fun _ _ h => absurd h.1 hrank, fun _ => by simp [error_bind]⟩

theorem customAddRmsNorm_dividesByZero (p : Platform) (input residual out residualOut : Tensor) :
    ¬ (SizedCall.customAddRmsNorm input residual out residualOut).DividesByZero p ↔
      (SizedCall.customAddRmsNorm input residual out residualOut).DivisorsNonzero := by
  simp only [SizedCall.DividesByZero, SizedCall.DivisorsNonzero, AscendC.customAddRmsNorm,
    addRmsNormBase, bind_assoc]
  by_cases hrank : 2 ≤ input.ndim
  · obtain ⟨extents, hextents, hdim, hrows⟩ := ofTensor_of_rank hrank
    rw [hextents, ok_bind, customAdmits_iff hrank hdim, ← hrows]
    simp only [dividesByZero_check]
    change ¬(_ ∧ _ ∧ _ ∧ DividesByZero (CustomNorm.new _ _ extents >>= CustomNorm.launch _)) ↔ _
    simp only [new_launch_dividesByZero, not_and, and_imp, ne_eq]
  · rw [ofTensor_of_lt (Nat.lt_of_not_le hrank)]
    exact ⟨fun _ _ _ _ h => absurd h.1 hrank, fun _ => by simp [error_bind]⟩

/-! ## `RotaryEmbedding` -/

theorem extent_zero (t : Tensor) :
    SizeError.extent t 0 = if 0 < t.ndim then .ok (t.size 0) else .error .outsideShape := by
  unfold Tensor.ndim
  by_cases h : 0 < t.shape.length
  · rw [SizeError.extent, size?_eq (by simp [Tensor.effectiveIndex])
      (by simpa [Tensor.effectiveIndex] using h), if_pos h]
  · have hshape : t.shape = [] := List.eq_nil_of_length_eq_zero (by omega)
    rw [if_neg h]
    simp [SizeError.extent, Tensor.size?, Tensor.effectiveIndex, hshape]

/-- How the heads come out, by the rank and the divisor. -/
theorem headCount_cases (t : Tensor) (headSize : Int) :
    headCount t headSize =
      if 0 < t.ndim then
        if SizeError.InInt64 (headDivisor t headSize) then
          SizeError.quotient t.numel (headDivisor t headSize)
        else .error .overflow
      else .error .outsideShape := by
  rw [headCount, extent_zero]
  by_cases hrank : 0 < t.ndim
  · rw [if_pos hrank, if_pos hrank, ok_bind, SizeError.product]
    unfold headDivisor
    split
    · rw [ok_bind]
    · rw [error_bind]
  · rw [if_neg hrank, if_neg hrank, error_bind]

theorem headCount_dividesByZero {t : Tensor} {headSize : Int} :
    DividesByZero (headCount t headSize) ↔ 0 < t.ndim ∧ headDivisor t headSize = 0 := by
  rw [headCount_cases]
  split
  · rename_i hrank
    split
    · rw [dividesByZero_quotient]
      exact ⟨fun h => ⟨hrank, h⟩, And.right⟩
    · rename_i hfits
      refine iff_of_false (by simp) fun h => hfits ?_
      rw [h.2]
      decide
  · rename_i hrank
    exact iff_of_false (by simp) fun h => hrank h.1

theorem headCount_ok_iff {t : Tensor} {headSize : Int} :
    (∃ n, headCount t headSize = .ok n) ↔
      0 < t.ndim ∧ SizeError.InInt64 (headDivisor t headSize) ∧ headDivisor t headSize ≠ 0 := by
  rw [headCount_cases, SizeError.quotient]
  split
  · split
    · split <;> simp_all
    · simp_all
  · simp_all

theorem kvHeadCount_dividesByZero {key : Option Tensor} {headSize : Int} :
    DividesByZero (kvHeadCount key headSize) ↔
      ∃ k ∈ key, 0 < k.ndim ∧ headDivisor k headSize = 0 := by
  cases key with
  | none => simp [kvHeadCount]
  | some k => simp [kvHeadCount, headCount_dividesByZero]

theorem rotaryChecks_dividesByZero {positions query : Tensor} {key : Option Tensor}
    {headSize rotaryDim : Int} :
    ¬ DividesByZero (rotaryChecks positions query key headSize rotaryDim) := by
  simp only [rotaryChecks, dividesByZero_check]
  rw [SizeError.check]
  split
  · simp
  · rintro ⟨-, -, -, -, h⟩
    cases h

/-- The heads of `query` come first; those of `key` are computed only if they
came out. -/
theorem rotaryNew_dividesByZero {positions query : Tensor} {key : Option Tensor}
    {headSize rotaryDim : Int} {isNeoxStyle preGathered : Bool} :
    DividesByZero
        (RotaryMembers.new positions query key headSize isNeoxStyle rotaryDim preGathered) ↔
      DividesByZero (headCount query headSize) ∨
        (∃ n, headCount query headSize = .ok n) ∧ DividesByZero (kvHeadCount key headSize) := by
  rw [RotaryMembers.new, extent_zero]
  by_cases hrank : 0 < query.ndim
  · rw [if_pos hrank, ok_bind, dividesByZero_bind]
    refine or_congr_right ?_
    simp only [dividesByZero_bind, rotaryChecks_dividesByZero, pure, Except.pure,
      dividesByZero_ok, and_false, exists_false, or_false, exists_and_right]
  · rw [if_neg hrank, error_bind, headCount_dividesByZero, headCount_ok_iff]
    exact iff_of_false (by simp) fun h => h.elim (fun h => hrank h.1) fun h => hrank h.1.1

theorem rotaryEmbedding_dividesByZero (p : Platform) (positions query : Tensor)
    (key : Option Tensor) (headSize : Int) (isNeoxStyle : Bool) (rotaryDim : Int)
    (preGathered : Bool) :
    ¬ (SizedCall.rotaryEmbedding positions query key headSize isNeoxStyle rotaryDim
        preGathered).DividesByZero p ↔
      (SizedCall.rotaryEmbedding positions query key headSize isNeoxStyle rotaryDim
        preGathered).DivisorsNonzero := by
  simp only [SizedCall.DividesByZero, SizedCall.DivisorsNonzero, rotaryNew_dividesByZero,
    headCount_dividesByZero, headCount_ok_iff, kvHeadCount_dividesByZero]
  constructor
  · intro h hrank
    have hquery : headDivisor query headSize ≠ 0 := fun hzero => h (.inl ⟨hrank, hzero⟩)
    exact ⟨hquery, fun hfits k hk hkrank hzero =>
      h (.inr ⟨⟨hrank, hfits, hquery⟩, k, hk, hkrank, hzero⟩)⟩
  · intro h hor
    obtain ⟨hrank, hzero⟩ | ⟨⟨hrank, hfits, -⟩, k, hk, hkrank, hzero⟩ := hor
    · exact (h hrank).1 hzero
    · exact (h hrank).2 hfits k hk hkrank hzero

/-! ## `Linear` -/

/-- Operands that the base class accepts are of one type. -/
theorem dtypes_of_linearNew {a b out : Tensor} {bias : Option Tensor} {transA transB : Bool}
    {members : Cpu.Linear} (h : Cpu.Linear.new a b bias transA transB out = .ok members) :
    a.dtype = out.dtype ∧ b.dtype = out.dtype ∧ (∀ t ∈ bias, t.dtype = out.dtype) ∧
      members.hasBias = bias.isSome := by
  simp only [Cpu.Linear.new, bind_assertion_eq_ok] at h
  obtain ⟨hab, hout, -, -, h⟩ := h
  obtain ⟨_, hbias, hm⟩ := bind_eq_ok.mp h
  obtain rfl := Except.ok.inj hm
  refine ⟨hout, hab ▸ hout, ?_, rfl⟩
  intro t ht
  obtain rfl := Option.mem_def.mp ht
  rw [Cpu.Linear.checkBias, bind_assertion_eq_ok] at hbias
  exact hbias.1

theorem flatViews_eq_none {a out : Tensor} {d : AclDataType} (ha : toAclDtype a.dtype = .ok d)
    (hout : toAclDtype out.dtype = .ok d) :
    flatViews a out = .ok none ↔ a.isContiguous ∧ out.isContiguous ∧ out.size (-1) = 0 := by
  rw [flatViews, bind_assertion_eq_ok, bind_assertion_eq_ok, ha, hout, ok_bind, ok_bind]
  refine and_congr_right fun _ => and_congr_right fun _ => ?_
  by_cases hsize : out.size (-1) = 0
  · rw [divide, if_pos hsize]
    exact ⟨fun _ => hsize, fun _ => rfl⟩
  · rw [divide, if_neg hsize]
    exact iff_of_false (by simp [pure, Except.pure]) hsize

theorem ofBias_eq {bias : Option Tensor} {out : Tensor} {d : AclDataType}
    (hout : toAclDtype out.dtype = .ok d) (h : ∀ t ∈ bias, t.dtype = out.dtype) :
    AclTensorCache.ofBias bias = .ok (bias.map fun t => .describe t false d) := by
  cases bias with
  | none => rfl
  | some t =>
    have ht : toAclDtype t.dtype = .ok d := h t rfl ▸ hout
    rw [AclTensorCache.ofBias, AclTensorCache.ofTensor_eq ht]
    rfl

theorem linearNew_eq_none {a b out : Tensor} {bias : Option Tensor} {transA transB : Bool}
    {members : Cpu.Linear} (hnew : Cpu.Linear.new a b bias transA transB out = .ok members)
    (hdtype : out.dtype ≠ .kFloat64) :
    LinearKernel.new a b bias transA transB out = .ok none ↔
      (bias.isSome ∧ 2 < out.ndim ∧ b.ndim = 2 ∧ transA = false) ∧
        a.isContiguous ∧ out.isContiguous ∧ out.size (-1) = 0 := by
  obtain ⟨ha, hb, hbias, hhas⟩ := dtypes_of_linearNew hnew
  obtain ⟨d, hd⟩ := toAclDtype_eq_ok hdtype
  simp only [LinearKernel.new, hnew, AclTensorCache.ofTensor_eq (ha ▸ hd),
    AclTensorCache.ofTensor_eq (hb ▸ hd), AclTensorCache.ofTensor_eq hd, ofBias_eq hd hbias,
    ok_bind, hhas]
  rw [← flatViews_eq_none (ha ▸ hd) hd]
  have hflatten : (bias.isSome ∧ out.ndim > 2 ∧ b.ndim = 2 ∧ (!transA) = true)
      ↔ bias.isSome ∧ 2 < out.ndim ∧ b.ndim = 2 ∧ transA = false := by simp
  by_cases h : bias.isSome ∧ 2 < out.ndim ∧ b.ndim = 2 ∧ transA = false
  · rw [if_pos (hflatten.mpr h), and_iff_right h]
    cases hflat : flatViews a out with
    | error e => exact iff_of_false (by simp) (by simp)
    | ok views =>
      cases views with
      | none => exact ⟨fun _ => rfl, fun _ => rfl⟩
      | some flat => exact iff_of_false (by simp) (by simp)
  · rw [if_neg (mt hflatten.mp h)]
    exact iff_of_false (by simp [pure, Except.pure]) fun hnone => h hnone.1

theorem linear_dividesByZero (p : Platform) (a b : Tensor) (bias : Option Tensor)
    (transA transB : Bool) (out : Tensor) :
    ¬ (SizedCall.linear a b bias transA transB out).DividesByZero p ↔
      (SizedCall.linear a b bias transA transB out).DivisorsNonzero := by
  simp only [SizedCall.DividesByZero, SizedCall.DivisorsNonzero]
  cases hnew : Cpu.Linear.new a b bias transA transB out with
  | error e =>
    simp [LinearKernel.new, hnew, error_bind]
  | ok members =>
    by_cases hdtype : out.dtype = .kFloat64
    · have hfails : LinearKernel.new a b bias transA transB out ≠ .ok none := by
        intro hnone
        simp only [LinearKernel.new, hnew, ok_bind, bind_eq_ok] at hnone
        obtain ⟨_, ha, -⟩ := hnone
        exact AclTensorCache.ne_of_ofTensor ha ((dtypes_of_linearNew hnew).1.trans hdtype)
      simp [hfails, hdtype]
    · rw [linearNew_eq_none hnew hdtype]
      simp only [not_and, and_imp, ne_eq, Except.ok.injEq, exists_eq', forall_const, hdtype,
        not_false_eq_true]

/-! ## All calls -/

/-- A call divides by no zero exactly when the extents in its divisors are not
zero, wherever the checks let it through to them. -/
theorem dividesByZero_iff (p : Platform) (hcores : 0 < p.coreNumAiv) (c : SizedCall) :
    ¬ c.DividesByZero p ↔ c.DivisorsNonzero := by
  cases c with
  | torchRmsNorm input weight => exact torchRmsNorm_dividesByZero hcores input weight
  | torchAddRmsNorm x1 x2 weight => exact torchAddRmsNorm_dividesByZero hcores x1 x2 weight
  | customRmsNorm input out => exact customRmsNorm_dividesByZero p input out
  | customAddRmsNorm input residual out residualOut =>
    exact customAddRmsNorm_dividesByZero p input residual out residualOut
  | rotaryEmbedding positions query key headSize isNeoxStyle rotaryDim preGathered =>
    exact rotaryEmbedding_dividesByZero p positions query key headSize isNeoxStyle rotaryDim
      preGathered
  | linear a b bias transA transB out => exact linear_dividesByZero p a b bias transA transB out

/-- Two rows of 8 elements. -/
theorem dividesByZero_iff_two_rows :
    ¬ (SizedCall.torchRmsNorm ⟨[2, 8], .float⟩ ⟨[8], .float⟩).DividesByZero ⟨40, 196608⟩ :=
  (dividesByZero_iff ⟨40, 196608⟩ (by decide) _).mpr fun _ _ _ _ => by decide

/-- An empty last extent, an empty batch, no tokens and no output features. -/
theorem empty_tensors_divideByZero :
    (SizedCall.torchRmsNorm ⟨[2, 0], .float⟩ ⟨[0], .float⟩).DividesByZero ⟨40, 196608⟩ ∧
    (SizedCall.torchAddRmsNorm ⟨[2, 0], .half⟩ ⟨[2, 0], .half⟩ ⟨[0], .half⟩).DividesByZero
      ⟨40, 196608⟩ ∧
    (SizedCall.customRmsNorm ⟨0, [0, 16], .kFloat16, {}, [16, 1]⟩
      ⟨0, [0, 16], .kFloat16, {}, [16, 1]⟩).DividesByZero ⟨40, 196608⟩ ∧
    (SizedCall.customAddRmsNorm ⟨0, [0, 16], .kFloat16, {}, [16, 1]⟩
      ⟨0, [0, 16], .kFloat16, {}, [16, 1]⟩ ⟨0, [0, 16], .kFloat16, {}, [16, 1]⟩
      ⟨0, [0, 16], .kFloat16, {}, [16, 1]⟩).DividesByZero ⟨40, 196608⟩ ∧
    (SizedCall.rotaryEmbedding ⟨0, [0], .kInt64, {}, [1]⟩
      ⟨0, [0, 8, 64], .kFloat16, {}, [512, 64, 1]⟩
      (some ⟨0, [0, 8, 64], .kFloat16, {}, [512, 64, 1]⟩) 64 true 64 false).DividesByZero
      ⟨40, 196608⟩ ∧
    (SizedCall.linear ⟨0, [2, 2, 3], .kFloat16, {}, [6, 3, 1]⟩ ⟨0, [3, 0], .kFloat16, {}, [0, 1]⟩
      (some ⟨0, [0], .kFloat16, {}, [1]⟩) false false
      ⟨0, [2, 2, 0], .kFloat16, {}, [0, 0, 1]⟩).DividesByZero ⟨40, 196608⟩ := by
  refine ⟨rfl, rfl, rfl, rfl, rfl, ?_⟩
  exact (linearNew_eq_none rfl (by decide)).mpr (by decide +kernel)

end InfiniOps.Ascend
