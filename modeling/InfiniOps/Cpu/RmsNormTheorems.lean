/-
InfiniOps.Cpu.RmsNormTheorems — which rows `RmsNorm` normalizes.

* `compute_eq_storeAll`: with all reads inside of `input` the loops are one
  store per row and column.
* `rows_paired`: if the iterations reach every row they are as many, so
  each is at one row (the extents that the base class drops multiply to 1).
* `rmsNorm_meets_iff`: the result is right for every content just for
  operands that fit; `rowsAgree_of_rank` says that matrices and ranks of
  three always have their rows.
-/
import InfiniOps.Cpu.LinearTheorems
import InfiniOps.Cpu.RmsNorm
import Mathlib.Algebra.Field.Basic
import Mathlib.Data.Finset.Max

namespace InfiniOps

open RowMajor StridedStore

theorem Tensor.size?_neg (t : Tensor) {k : Nat} (hk : 0 < k) :
    t.size? (-(k : Int))
      = if k ≤ t.shape.length then some (t.shape.getD (t.shape.length - k) 0) else none := by
  have hneg : (-(k : Int)) < 0 := by omega
  rw [size?, effectiveIndex, if_pos hneg]
  by_cases hle : k ≤ t.shape.length
  · have hindex : (-(k : Int) + t.shape.length).toNat = t.shape.length - k := by omega
    have hlt : t.shape.length - k < t.shape.length := by omega
    rw [if_pos hle, if_pos (by omega), hindex, List.getElem?_eq_getElem hlt,
      List.getD_eq_getElem _ _ hlt]
  · rw [if_neg hle, if_neg (by omega)]

namespace Cpu

namespace RmsNormProblem

variable (x : RmsNormProblem)

/-! ## The call -/

/-- The members, for a rank of two or more. -/
def members : RmsNorm where
  inputStrides := x.input.strides
  outStrides := x.out.strides
  dim := x.dim
  ndim := x.out.ndim
  batchSize := x.batchSize
  nhead := x.nhead

/-- The constructor reads an extent that a vector does not have. -/
theorem ofTensors_eq : RmsNorm.ofTensors x.input.toTensor x.out.toTensor
    = if 2 ≤ x.out.shape.length then some x.members else none := by
  have hone : x.out.size? (-1) = some x.dim :=
    (x.out.size?_neg Nat.one_pos).trans (if_pos x.rank_pos)
  have htwo : x.out.size? (-2) = if 2 ≤ x.out.shape.length then
      some (x.out.shape.getD (x.out.shape.length - 2) 0) else none := x.out.size?_neg Nat.two_pos
  have hthree : x.out.size? (-3) = if 3 ≤ x.out.shape.length then
      some (x.out.shape.getD (x.out.shape.length - 3) 0) else none := x.out.size?_neg (by decide)
  rw [RmsNorm.ofTensors, hone, htwo, hthree, members, batchSize, nhead, Tensor.ndim]
  rcases Nat.lt_or_ge x.out.shape.length 2 with hlt | hge
  · have hlen : x.out.shape.length = 1 := Nat.le_antisymm (Nat.le_of_lt_succ hlt) x.rank_pos
    simp [hlen]
  · rw [if_pos hge]
    by_cases heq : x.out.shape.length = 2
    · simp [heq]
    · have hthird : 3 ≤ x.out.shape.length := by omega
      simp [heq, hge, hthird]

section Result

variable {K : Type} [Field K] (sqrt : K → K) (eps : K) (inputData : Int → K)
  (weightData : DataType → Int → K) (outData : Int → K)

/-- The call with the given contents of its tensors. -/
def result : Except Failure (Option (Int → K)) :=
  rmsNorm sqrt eps x.input.toTensor x.out.toTensor (x.inputOf inputData) weightData outData

variable {x}

theorem result_eq_dispatch (hrank : 2 ≤ x.out.shape.length) :
    x.result sqrt eps inputData weightData outData
      = (dispatchFunc DataType.code true (fun _ => true) allFloatTypes x.out.dtype
          (fun dtype => (⟨[dtype], .ok (x.members.compute sqrt eps (x.inputOf inputData)
            (weightData dtype) outData)⟩ : Run DataType (Option (Int → K))))
          "`Operator<RmsNorm, Device::Type::kCpu>::operator()`").ending := by
  rw [result, rmsNorm, ofTensors_eq, if_pos hrank, assertion, if_pos x.accepted]
  rfl

theorem result_eq (hrank : 2 ≤ x.out.shape.length) (hdtype : x.out.dtype ∈ allFloatTypes) :
    x.result sqrt eps inputData weightData outData
      = .ok (x.members.compute sqrt eps (x.inputOf inputData) (weightData x.out.dtype)
          outData) := by
  rw [result_eq_dispatch sqrt eps inputData weightData outData hrank,
    dispatchFunc_of_mem _ _ _ _ hdtype rfl]

variable {sqrt eps inputData weightData outData}

theorem rank_of_result {outData' : Int → K}
    (h : x.result sqrt eps inputData weightData outData = .ok (some outData')) :
    2 ≤ x.out.shape.length := by
  by_contra hlt
  rw [result, rmsNorm, ofTensors_eq, if_neg hlt] at h
  cases h

theorem dtype_of_result {outData' : Int → K}
    (h : x.result sqrt eps inputData weightData outData = .ok (some outData')) :
    x.out.dtype ∈ allFloatTypes := by
  by_contra hnot
  rw [result_eq_dispatch _ _ _ _ _ (rank_of_result h)] at h
  obtain ⟨message, habort⟩ : ∃ message, _ = Run.abort message :=
    dispatchFunc_of_not DataType.code true _ _ fun hsupported => hnot hsupported.1
  rw [habort] at h
  cases h

end Result

/-! ## The loops -/

/-- All that an iteration reads of `input` is inside. -/
def ReadsInside (v : Nat × Nat) : Prop :=
  ∀ k < x.dim, RmsNorm.row x.input.strides v + k ∈ elements x.input.toTensor

/-- The iterations of all loops. -/
def steps : List ((Nat × Nat) × Nat) := x.members.iterations ×ˢ List.range x.dim

/-- Where a step stores. -/
def cell (s : (Nat × Nat) × Nat) : Int := RmsNorm.row x.out.strides s.1 + s.2

theorem mem_iterations {bi hi : Nat} :
    (bi, hi) ∈ x.members.iterations ↔ bi < x.batchSize ∧ hi < x.nhead := by
  simp [RmsNorm.iterations, members]

theorem mem_steps {v : Nat × Nat} {k : Nat} :
    (v, k) ∈ x.steps ↔ v ∈ x.members.iterations ∧ k < x.dim := by
  simp [steps]

section Values

variable {K : Type} [Field K] (sqrt : K → K) (eps : K) (inputData : Int → K) (weight : Int → K)

/-- The sum of the squares of a row that is read. -/
def squares (v : Nat × Nat) : K :=
  ((List.range x.dim).map fun (k : Nat) =>
    inputData (RmsNorm.row x.input.strides v + k) ^ 2).sum

/-- What a step stores. -/
def stored (s : (Nat × Nat) × Nat) : K :=
  inputData (RmsNorm.row x.input.strides s.1 + s.2) * weight s.2
    * (1 / sqrt (x.squares inputData s.1 / x.dim + eps))

variable {x}

omit [Field K] in
theorem inputOf_of_mem {o : Int} (h : o ∈ elements x.input.toTensor) :
    x.inputOf inputData o = some (inputData o) :=
  if_pos h

omit [Field K] in
theorem mem_of_isSome_inputOf {o : Int} (h : (x.inputOf inputData o).isSome) :
    o ∈ elements x.input.toTensor := by
  by_contra hnot
  rw [inputOf, if_neg hnot] at h
  cases h

omit [Field K] in
theorem reads_eq_some {v : Nat × Nat} (h : x.ReadsInside v) : ∀ k ∈ List.range x.dim,
    x.inputOf inputData (RmsNorm.row x.input.strides v + (k : Nat))
      = some (inputData (RmsNorm.row x.input.strides v + k)) :=
  fun k hk => inputOf_of_mem inputData (h k (List.mem_range.mp hk))

theorem sumOfSquares_eq {v : Nat × Nat} (h : x.ReadsInside v) :
    x.members.sumOfSquares (x.inputOf inputData) v = some (x.squares inputData v) := by
  refine (foldlM_eq_some _ _ _ (reads_eq_some inputData h) 0).trans ?_
  rw [squares, List.sum_eq_foldl, List.foldl_map]
  simp only [pow_two]

theorem normalizeRow_eq {v : Nat × Nat} (h : x.ReadsInside v) (out : Int → K) :
    x.members.normalizeRow sqrt eps (x.inputOf inputData) weight out v
      = some ((List.range x.dim).foldl (fun out k =>
          Function.update out (x.cell (v, k)) (x.stored sqrt eps inputData weight (v, k))) out) := by
  rw [RmsNorm.normalizeRow, sumOfSquares_eq inputData h]
  exact foldlM_eq_some _ _ _ (reads_eq_some inputData h) out

/-- With all reads inside, the loops are one store for each step. -/
theorem compute_eq_storeAll (h : ∀ v ∈ x.members.iterations, x.ReadsInside v) (out : Int → K) :
    x.members.compute sqrt eps (x.inputOf inputData) weight out
      = some (storeAll x.cell (fun s _ => x.stored sqrt eps inputData weight s) out x.steps) := by
  have hsteps : x.steps
      = x.members.iterations.flatMap fun v => (List.range x.dim).map (Prod.mk v) := rfl
  rw [RmsNorm.compute, foldlM_eq_foldl _ fun v hv out =>
    normalizeRow_eq sqrt eps inputData weight (h v hv) out, storeAll, hsteps, List.foldl_flatMap]
  simp only [List.foldl_map]

/-- The loops end only if all reads are inside. -/
theorem readsInside_of_compute {out out' : Int → K}
    (h : x.members.compute sqrt eps (x.inputOf inputData) weight out = some out') :
    ∀ v ∈ x.members.iterations, x.ReadsInside v := by
  intro v hv k hk
  obtain ⟨out₁, hrow⟩ := exists_of_foldlM_eq_some h v hv
  obtain ⟨out₂, hrow⟩ := Option.isSome_iff_exists.mp hrow
  obtain ⟨ss, hss, -⟩ := Option.bind_eq_some_iff.mp hrow
  have hsome := isSome_of_foldlM_eq_some _ _ hss k (List.mem_range.mpr hk)
  exact mem_of_isSome_inputOf inputData hsome

end Values

/-! ## Addresses -/

variable {x}

theorem outerShape_append : x.out.shape = x.outerShape ++ [x.dim] := by
  have hrank := x.rank_pos
  have hlast : x.out.shape.length - 1 < x.out.shape.length := by omega
  have hsucc : x.out.shape.length - 1 + 1 = x.out.shape.length := by omega
  conv_lhs => rw [← List.take_length (l := x.out.shape), ← hsucc, take_succ_getD _ 0 hlast]
  rfl

/-- An element is at its column, from where its row starts. -/
theorem offset_eq (t : StoredTensor) (hshape : t.shape = x.out.shape) {q : List Nat}
    (hq : Valid x.outerShape q) (j : Nat) :
    t.offset (q ++ [j]) = rowOffset t.toTensor q + j * lastStride t.toTensor := by
  have hrank := x.rank_pos
  have hlen : t.strides.length = x.out.shape.length := t.rank_eq.trans (congrArg _ hshape)
  have hlast : t.strides.length - 1 < t.strides.length := by omega
  have hsucc : t.strides.length - 1 + 1 = t.strides.length := by omega
  have hstrides : t.strides = t.strides.take (t.strides.length - 1) ++ [lastStride t.toTensor] := by
    conv_lhs => rw [← List.take_length (l := t.strides), ← hsucc, take_succ_getD _ 0 hlast]
    rfl
  have hq' : q.length = (t.strides.take (t.strides.length - 1)).length := by
    rw [hq.length_eq, outerShape, List.length_take, List.length_take, hlen]
  rw [Tensor.offset, rowOffset]
  conv_lhs => rw [hstrides, dot_append hq']
  simp

theorem element_valid {q : List Nat} (hq : Valid x.outerShape q) {j : Nat} (hj : j < x.dim) :
    Valid x.out.shape (q ++ [j]) := by
  rw [outerShape_append]
  exact hq.append (.cons hj .nil)

theorem input_mem_elements {q : List Nat} (hq : Valid x.outerShape q) {j : Nat} (hj : j < x.dim) :
    x.input.offset (q ++ [j]) ∈ elements x.input.toTensor := by
  have hvalid : Valid x.input.shape (q ++ [j]) := x.input_shape ▸ element_valid hq hj
  refine List.mem_map.mpr ⟨ravel x.input.shape (q ++ [j]), List.mem_range.mpr (ravel_lt hvalid), ?_⟩
  rw [unravel_ravel hvalid]

theorem weight_offset (j : Nat) : x.weight.offset [j] = j := by
  have hcontiguous := x.weight_contiguous
  have hlen := x.weight.rank_eq
  rw [x.weight_shape, List.length_singleton] at hlen
  obtain ⟨s, hs⟩ := List.length_eq_one_iff.mp hlen
  have hone : s = 1 := by
    simpa [Tensor.isContiguous, Tensor.ndim, Tensor.isMergeable, Tensor.stride,
      Tensor.effectiveIndex, x.weight_shape, hs] using hcontiguous
  simp [Tensor.offset, hs, hone]

/-- Rows of `out` that start at one place are one. -/
theorem rowOffset_inj (hdim : 0 < x.dim) {q q' : List Nat} (hq : Valid x.outerShape q)
    (hq' : Valid x.outerShape q') (h : rowOffset x.out.toTensor q = rowOffset x.out.toTensor q') :
    q = q' := by
  have hoffset : x.out.offset (q ++ [0]) = x.out.offset (q' ++ [0]) := by
    rw [offset_eq x.out rfl hq, offset_eq x.out rfl hq', h]
  have heq := x.injective _ _ (element_valid hq hdim) (element_valid hq' hdim) hoffset
  exact List.append_cancel_right heq

/-! ## Iterations and rows -/

/-- The iteration starts at the row, of both tensors. -/
structure StartsAt (v : Nat × Nat) (q : List Nat) : Prop where
  input : RmsNorm.row x.input.strides v = rowOffset x.input.toTensor q
  out : RmsNorm.row x.out.strides v = rowOffset x.out.toTensor q

theorem rowsAgree_iff : x.RowsAgree ↔ ∀ q, Valid x.outerShape q →
    ∃ v ∈ x.members.iterations, StartsAt (x := x) v q := by
  refine forall₂_congr fun q _ => ?_
  constructor
  · rintro ⟨bi, hbi, hi, hhi, hin, hout⟩
    exact ⟨(bi, hi), mem_iterations x |>.mpr ⟨hbi, hhi⟩, hin, hout⟩
  · rintro ⟨⟨bi, hi⟩, hv, hin, hout⟩
    obtain ⟨hbi, hhi⟩ := (mem_iterations x).mp hv
    exact ⟨bi, hbi, hi, hhi, hin, hout⟩

/-- Up to a rank of three the loops go over all dimensions. -/
theorem rowsAgree_of_rank (hrank : x.out.shape.length = 2 ∨ x.out.shape.length = 3) :
    x.RowsAgree := by
  intro q hq
  have hlenIn : x.input.strides.length = x.out.shape.length :=
    x.input.rank_eq.trans (congrArg _ x.input_shape)
  have hlenOut := x.out.rank_eq
  rcases hrank with htwo | hthree
  · obtain ⟨d, e, hshape⟩ := List.length_eq_two.mp htwo
    obtain ⟨s, t, hin⟩ := List.length_eq_two.mp (hlenIn.trans htwo)
    obtain ⟨s', t', hout⟩ := List.length_eq_two.mp (hlenOut.trans htwo)
    rw [outerShape, hshape] at hq
    cases hq with
    | @cons i _ is _ hi hnil =>
      cases hnil
      refine ⟨i, by simpa [batchSize, Tensor.ndim, hshape] using hi, 0,
        by simp [nhead, Tensor.ndim, hshape], ?_, ?_⟩
      · simp [RmsNorm.row, RmsNorm.strideBatch, rowOffset, hin]
      · simp [RmsNorm.row, RmsNorm.strideBatch, rowOffset, hout]
  · obtain ⟨d, e, f, hshape⟩ := List.length_eq_three.mp hthree
    obtain ⟨s, t, u, hin⟩ := List.length_eq_three.mp (hlenIn.trans hthree)
    obtain ⟨s', t', u', hout⟩ := List.length_eq_three.mp (hlenOut.trans hthree)
    rw [outerShape, hshape] at hq
    cases hq with
    | @cons i _ is _ hi hrest =>
      cases hrest with
      | @cons j _ js _ hj hnil =>
        cases hnil
        refine ⟨i, by simpa [batchSize, Tensor.ndim, hshape] using hi, j,
          by simpa [nhead, Tensor.ndim, hshape] using hj, ?_, ?_⟩
        · simp [RmsNorm.row, RmsNorm.strideBatch, RmsNorm.strideNhead, rowOffset, hin]
        · simp [RmsNorm.row, RmsNorm.strideBatch, RmsNorm.strideNhead, rowOffset, hout]

/-- There are no more iterations than rows. -/
theorem batchSize_mul_nhead_le (hrank : 2 ≤ x.out.shape.length) (hpos : 0 < x.outerShape.prod) :
    x.batchSize * x.nhead ≤ x.outerShape.prod := by
  have hlen : x.outerShape.length = x.out.shape.length - 1 := by simp [outerShape]
  have hget : ∀ i < x.out.shape.length - 1, x.out.shape.getD i 0 = x.outerShape.getD i 0 := by
    intro i hi
    rw [List.getD_eq_getElem?_getD, List.getD_eq_getElem?_getD, outerShape,
      List.getElem?_take_of_lt hi]
  rw [batchSize, nhead, Tensor.ndim]
  by_cases htwo : x.out.shape.length = 2
  · obtain ⟨d, hd⟩ := List.length_eq_one_iff.mp (by omega : x.outerShape.length = 1)
    rw [if_pos htwo, if_pos htwo, hget 0 (by omega), hd]
    simp
  · have hsplit := eq_take_append_pair x.outerShape 0 (by omega)
    have hprod := congrArg List.prod hsplit
    rw [List.prod_append, List.prod_cons, List.prod_singleton, hlen] at hprod
    have hfirst : x.out.shape.length - 1 - 2 = x.out.shape.length - 3 := by omega
    have hsecond : x.out.shape.length - 1 - 1 = x.out.shape.length - 2 := by omega
    rw [hfirst, hsecond] at hprod
    rw [if_neg htwo, if_neg htwo, hget _ (by omega), hget _ (by omega), hprod]
    rw [hprod] at hpos
    exact Nat.le_mul_of_pos_left _ (Nat.pos_of_mul_pos_right hpos)

/-- A relation that covers a finite set by no more elements than it has,
each of which covers at most one, is a pairing. -/
theorem paired_of_card_le {α β : Type} [DecidableEq β] {rows : Finset α} {visits : Finset β}
    {At : β → α → Prop} (hcard : visits.card ≤ rows.card)
    (hcover : ∀ a ∈ rows, ∃ b ∈ visits, At b a)
    (hone : ∀ b, ∀ a ∈ rows, ∀ a' ∈ rows, At b a → At b a' → a = a') :
    (∀ b ∈ visits, ∃ a ∈ rows, At b a) ∧
      ∀ b ∈ visits, ∀ b' ∈ visits, ∀ a ∈ rows, At b a → At b' a → b = b' := by
  rcases rows.eq_empty_or_nonempty with rfl | ⟨a₀, ha₀⟩
  · rw [Finset.card_empty, Nat.le_zero, Finset.card_eq_zero] at hcard
    simp [hcard]
  have hnonempty : Nonempty β := ⟨(hcover a₀ ha₀).choose⟩
  choose! visit hmem hat using hcover
  have hinj : Set.InjOn visit (rows : Set α) := by
    intro a ha a' ha' heq
    exact hone _ a ha a' ha' (hat a ha) (heq ▸ hat a' ha')
  have himage : rows.image visit = visits := by
    refine Finset.eq_of_subset_of_card_le ?_ ?_
    · intro b hb
      obtain ⟨a, ha, rfl⟩ := Finset.mem_image.mp hb
      exact hmem a ha
    · rwa [Finset.card_image_of_injOn hinj]
  have hsource : ∀ b ∈ visits, ∃ a ∈ rows, visit a = b := by
    intro b hb
    rw [← himage] at hb
    exact Finset.mem_image.mp hb
  refine ⟨fun b hb => ?_, fun b hb b' hb' a ha hba hb'a => ?_⟩
  · obtain ⟨a, ha, rfl⟩ := hsource b hb
    exact ⟨a, ha, hat a ha⟩
  · obtain ⟨c, hc, rfl⟩ := hsource b hb
    obtain ⟨c', hc', rfl⟩ := hsource b' hb'
    rw [hone _ c hc a ha (hat c hc) hba, hone _ c' hc' a ha (hat c' hc') hb'a]

/-- If every row is reached, each iteration is at one row, and no row has
two. -/
theorem rows_paired (hrank : 2 ≤ x.out.shape.length) (hpos : 0 < x.out.shape.prod)
    (h : ∀ q, Valid x.outerShape q → ∃ v ∈ x.members.iterations, StartsAt (x := x) v q) :
    (∀ v ∈ x.members.iterations, ∃ q, Valid x.outerShape q ∧ StartsAt (x := x) v q) ∧
      ∀ v ∈ x.members.iterations, ∀ w ∈ x.members.iterations, ∀ q, Valid x.outerShape q →
        StartsAt (x := x) v q → StartsAt (x := x) w q → v = w := by
  have hprod : 0 < x.outerShape.prod ∧ 0 < x.dim := by
    rw [outerShape_append, List.prod_append, List.prod_singleton] at hpos
    exact ⟨Nat.pos_of_mul_pos_right hpos, Nat.pos_of_mul_pos_left hpos⟩
  have hvalid : ∀ i, Valid x.outerShape (unravel x.outerShape i) := unravel_valid hprod.1
  have hnodup : x.members.iterations.Nodup := List.nodup_range.product List.nodup_range
  have hcard : x.members.iterations.toFinset.card ≤ (Finset.range x.outerShape.prod).card := by
    rw [List.toFinset_card_of_nodup hnodup, Finset.card_range, RmsNorm.iterations,
      List.length_product, List.length_range, List.length_range]
    exact batchSize_mul_nhead_le hrank hprod.1
  have hcover : ∀ i ∈ Finset.range x.outerShape.prod, ∃ v ∈ x.members.iterations.toFinset,
      StartsAt (x := x) v (unravel x.outerShape i) := by
    intro i _
    obtain ⟨v, hv, hat⟩ := h _ (hvalid i)
    exact ⟨v, List.mem_toFinset.mpr hv, hat⟩
  have hone : ∀ v, ∀ i ∈ Finset.range x.outerShape.prod, ∀ j ∈ Finset.range x.outerShape.prod,
      StartsAt (x := x) v (unravel x.outerShape i) →
        StartsAt (x := x) v (unravel x.outerShape j) → i = j := by
    intro v i hi j hj hati hatj
    exact unravel_inj (Finset.mem_range.mp hi) (Finset.mem_range.mp hj)
      (rowOffset_inj hprod.2 (hvalid i) (hvalid j) (hati.out.symm.trans hatj.out))
  obtain ⟨hrow, hunique⟩ := paired_of_card_le hcard hcover hone
  refine ⟨fun v hv => ?_, fun v hv w hw q hq hvq hwq => ?_⟩
  · obtain ⟨i, -, hat⟩ := hrow v (List.mem_toFinset.mpr hv)
    exact ⟨_, hvalid i, hat⟩
  · rw [← unravel_ravel hq] at hvq hwq
    exact hunique v (List.mem_toFinset.mpr hv) w (List.mem_toFinset.mpr hw) _
      (Finset.mem_range.mpr (ravel_lt hq)) hvq hwq

/-! ## Operands that fit -/

section Fits

variable {K : Type} [Field K]

theorem offset_of_unitColumns (h : x.UnitColumns) {q : List Nat} (hq : Valid x.outerShape q)
    {j : Nat} (hj : j < x.dim) :
    x.input.offset (q ++ [j]) = rowOffset x.input.toTensor q + j ∧
      x.out.offset (q ++ [j]) = rowOffset x.out.toTensor q + j := by
  rw [offset_eq x.input x.input_shape hq, offset_eq x.out rfl hq]
  rcases h with hone | ⟨hin, hout⟩
  · have hzero : j = 0 := by omega
    simp [hzero]
  · simp [hin, hout]

variable (sqrt : K → K) (eps : K) (inputData : Int → K) (weightData : DataType → Int → K)
  (outData : Int → K)

/-- What an iteration at a row stores is what the specification asks. -/
theorem stored_eq_specAt (hweight : x.weight.dtype = x.out.dtype) (hunit : x.UnitColumns)
    {v : Nat × Nat} {q : List Nat} (hq : Valid x.outerShape q) (hat : StartsAt (x := x) v q) {j : Nat}
    (hj : j < x.dim) :
    x.stored sqrt eps inputData (weightData x.out.dtype) (v, j)
      = x.specAt sqrt eps inputData weightData q j := by
  have hcolumn : ∀ l < x.dim,
      RmsNorm.row x.input.strides v + l = x.input.offset (q ++ [l]) := by
    intro l hl
    rw [(offset_of_unitColumns hunit hq hl).1, hat.input]
  have hsquares : x.squares inputData v
      = ((List.range x.dim).map fun l => inputData (x.input.offset (q ++ [l])) ^ 2).sum := by
    rw [squares]
    congr 1
    refine List.map_congr_left fun l hl => ?_
    rw [hcolumn l (List.mem_range.mp hl)]
  rw [stored, specAt, hcolumn j hj, hsquares, hweight, weight_offset, mul_one_div]

theorem meets_of_empty (hrank : 2 ≤ x.out.shape.length) (hdtype : x.out.dtype ∈ allFloatTypes)
    (hzero : x.out.numel = 0) (hloops : x.dim = 0 ∨ x.batchSize = 0 ∨ x.nhead = 0) : x.Meets K := by
  intro sqrt eps inputData weightData outData
  have hreads : ∀ v ∈ x.members.iterations, x.ReadsInside v := by
    rintro ⟨bi, hi⟩ hv k hk
    have hv' := (mem_iterations x).mp hv
    omega
  refine ⟨_, (result_eq sqrt eps inputData weightData outData hrank hdtype).trans
    (congrArg Except.ok (compute_eq_storeAll sqrt eps inputData _ hreads outData)), ?_⟩
  intro q j hq hj
  have hpos := (element_valid hq hj).prod_pos
  rw [Tensor.numel_eq] at hzero
  omega

theorem meets_of_rows (hrank : 2 ≤ x.out.shape.length) (hdtype : x.out.dtype ∈ allFloatTypes)
    (hpos : 0 < x.out.shape.prod) (hweight : x.weight.dtype = x.out.dtype) (hrows : x.RowsAgree)
    (hunit : x.UnitColumns) : x.Meets K := by
  intro sqrt eps inputData weightData outData
  have hcover := rowsAgree_iff.mp hrows
  obtain ⟨hrow, hunique⟩ := rows_paired hrank hpos hcover
  have hreads : ∀ v ∈ x.members.iterations, x.ReadsInside v := by
    intro v hv k hk
    obtain ⟨q, hq, hat⟩ := hrow v hv
    rw [hat.input, ← (offset_of_unitColumns hunit hq hk).1]
    exact input_mem_elements hq hk
  have hcell : ∀ v q, Valid x.outerShape q → StartsAt (x := x) v q → ∀ k < x.dim,
      x.cell (v, k) = x.out.offset (q ++ [k]) := by
    intro v q hq hat k hk
    rw [cell, hat.out, (offset_of_unitColumns hunit hq hk).2]
  have hnodup : (x.steps.map x.cell).Nodup := by
    have hsteps : x.steps.Nodup :=
      (List.nodup_range.product List.nodup_range).product List.nodup_range
    refine hsteps.map_on ?_
    rintro ⟨v, k⟩ hs ⟨w, l⟩ hs' heq
    obtain ⟨hv, hk⟩ := (mem_steps x).mp hs
    obtain ⟨hw, hl⟩ := (mem_steps x).mp hs'
    obtain ⟨q, hq, hvq⟩ := hrow v hv
    obtain ⟨p, hp, hwp⟩ := hrow w hw
    rw [hcell v q hq hvq k hk, hcell w p hp hwp l hl] at heq
    have hidx := x.injective _ _ (element_valid hq hk) (element_valid hp hl) heq
    obtain ⟨rfl, hkl⟩ := List.append_inj' hidx rfl
    rw [hunique v hv w hw q hq hvq hwp, List.singleton_inj.mp hkl]
  refine ⟨_, (result_eq sqrt eps inputData weightData outData hrank hdtype).trans
    (congrArg Except.ok (compute_eq_storeAll sqrt eps inputData _ hreads outData)), ?_⟩
  intro q j hq hj
  obtain ⟨v, hv, hat⟩ := hcover q hq
  rw [← hcell v q hq hat j hj, storeAll_at_of_nodup _ _ outData hnodup ((mem_steps x).mpr ⟨hv, hj⟩)]
  exact stored_eq_specAt sqrt eps inputData weightData hweight hunit hq hat hj

theorem meets_of_fits (h : x.Fits) : x.Meets K := by
  obtain ⟨hdtype, hrank, hrest⟩ := h
  split at hrest
  · rename_i hzero
    exact meets_of_empty hrank hdtype hzero hrest
  · rename_i hne
    obtain ⟨hweight, hrows, hunit⟩ := hrest
    rw [Tensor.numel_eq] at hne
    exact meets_of_rows hrank hdtype (Nat.pos_of_ne_zero hne) hweight hrows hunit

end Fits

/-! ## Operands that do not -/

/-- A finite set of numbers is not closed under a shift. -/
theorem eq_zero_of_forall_exists_add {f : Nat → Int} {n : Nat} (hn : 0 < n) {c : Int}
    (h : ∀ i < n, ∃ j < n, f j = f i + c) : c = 0 := by
  have hmem : (Finset.range n).Nonempty := ⟨0, Finset.mem_range.mpr hn⟩
  obtain ⟨top, htop, hmax⟩ := (Finset.range n).exists_max_image f hmem
  obtain ⟨bottom, hbottom, hmin⟩ := (Finset.range n).exists_min_image f hmem
  obtain ⟨i, hi, hup⟩ := h top (Finset.mem_range.mp htop)
  obtain ⟨j, hj, hdown⟩ := h bottom (Finset.mem_range.mp hbottom)
  have hle := hmax i (Finset.mem_range.mpr hi)
  have hge := hmin j (Finset.mem_range.mpr hj)
  omega

section Meets

variable {K : Type} [Field K] (h : x.Meets K)
include h

theorem Meets.rank : 2 ≤ x.out.shape.length := by
  obtain ⟨out', hresult, -⟩ := h (fun _ => 1) 0 (fun _ => 0) (fun _ _ => 0) fun _ => 0
  exact rank_of_result hresult

theorem Meets.dtype : x.out.dtype ∈ allFloatTypes := by
  obtain ⟨out', hresult, -⟩ := h (fun _ => 1) 0 (fun _ => 0) (fun _ _ => 0) fun _ => 0
  exact dtype_of_result hresult

theorem Meets.readsInside : ∀ v ∈ x.members.iterations, x.ReadsInside v := by
  obtain ⟨out', hresult, -⟩ := h (fun _ => 1) 0 (fun _ => 0) (fun _ _ => 0) fun _ => 0
  have hcompute := (result_eq _ _ _ _ _ h.rank h.dtype).symm.trans hresult
  exact readsInside_of_compute _ _ _ _ (Except.ok.inj hcompute)

/-- From `out` filled with 0 and without a root, each value asked for that
is not 0 was stored by a step. -/
theorem Meets.exists_step (inputData : Int → K) (weightData : DataType → Int → K) {q : List Nat}
    {j : Nat} (hq : Valid x.outerShape q) (hj : j < x.dim)
    (hne : inputData (x.input.offset (q ++ [j])) * weightData x.weight.dtype j ≠ 0) :
    ∃ v ∈ x.members.iterations, ∃ k < x.dim, x.cell (v, k) = x.out.offset (q ++ [j]) ∧
      inputData (RmsNorm.row x.input.strides v + k) * weightData x.out.dtype k ≠ 0 := by
  obtain ⟨out', hresult, hspec⟩ := h (fun _ => 1) 0 inputData weightData fun _ => 0
  have hcompute := (result_eq _ _ _ _ _ h.rank h.dtype).symm.trans hresult
  rw [compute_eq_storeAll _ _ _ _ h.readsInside] at hcompute
  obtain rfl := Option.some.inj (Except.ok.inj hcompute)
  have hat := hspec q j hq hj
  rw [specAt, weight_offset, div_one] at hat
  rw [← hat] at hne
  obtain ⟨⟨v, k⟩, hs, hcell, hval⟩ := exists_of_storeAll_ne _ _ hne
  obtain ⟨hv, hk⟩ := (mem_steps x).mp hs
  refine ⟨v, hv, k, hk, hcell, ?_⟩
  rw [hval, stored, div_one, mul_one] at hne
  exact hne

theorem Meets.weight_dtype (hpos : 0 < x.out.shape.prod) : x.weight.dtype = x.out.dtype := by
  rw [outerShape_append, List.prod_append, List.prod_singleton] at hpos
  have hq := unravel_valid (Nat.pos_of_mul_pos_right hpos) 0
  obtain ⟨v, -, k, -, -, hne⟩ := h.exists_step (fun _ => 1)
    (fun dtype _ => if dtype = x.weight.dtype then 1 else 0) hq (Nat.pos_of_mul_pos_left hpos)
    (by simp)
  by_contra hdtype
  simp [Ne.symm hdtype] at hne

/-- With one element of `input` and one of `weight` set, the step is at the
column and reads the element. -/
theorem Meets.exists_iteration {q : List Nat} {j : Nat} (hq : Valid x.outerShape q)
    (hj : j < x.dim) : ∃ v ∈ x.members.iterations,
      RmsNorm.row x.input.strides v + j = x.input.offset (q ++ [j]) ∧
        RmsNorm.row x.out.strides v + j = x.out.offset (q ++ [j]) := by
  obtain ⟨v, hv, k, -, hcell, hne⟩ := h.exists_step
    (fun o => if o = x.input.offset (q ++ [j]) then 1 else 0)
    (fun _ o => if o = j then 1 else 0) hq hj (by simp)
  obtain ⟨hk, hin⟩ : k = j ∧ RmsNorm.row x.input.strides v + k = x.input.offset (q ++ [j]) := by
    simpa using hne
  subst hk
  exact ⟨v, hv, hin, hcell⟩

theorem Meets.rowsAgree (hpos : 0 < x.out.shape.prod) : x.RowsAgree := by
  rw [outerShape_append, List.prod_append, List.prod_singleton] at hpos
  refine rowsAgree_iff.mpr fun q hq => ?_
  obtain ⟨v, hv, hin, hout⟩ := h.exists_iteration hq (Nat.pos_of_mul_pos_left hpos)
  rw [offset_eq x.input x.input_shape hq] at hin
  rw [offset_eq x.out rfl hq] at hout
  exact ⟨v, hv, by simpa using hin, by simpa using hout⟩

theorem Meets.unitColumns (hpos : 0 < x.out.shape.prod) : x.UnitColumns := by
  by_cases hone : x.dim = 1
  · exact Or.inl hone
  have hprod := hpos
  rw [outerShape_append, List.prod_append, List.prod_singleton] at hprod
  have houter := Nat.pos_of_mul_pos_right hprod
  have hdim : 1 < x.dim := by
    have := Nat.pos_of_mul_pos_left hprod
    omega
  obtain ⟨hrow, -⟩ := rows_paired h.rank hpos (rowsAgree_iff.mp (h.rowsAgree hpos))
  -- the second element of a row is stored by the iteration of some row
  have hsecond : ∀ q, Valid x.outerShape q → ∃ q', Valid x.outerShape q' ∧
      rowOffset x.input.toTensor q'
        = rowOffset x.input.toTensor q + (lastStride x.input.toTensor - 1) ∧
      rowOffset x.out.toTensor q'
        = rowOffset x.out.toTensor q + (lastStride x.out.toTensor - 1) := by
    intro q hq
    obtain ⟨v, hv, hin, hout⟩ := h.exists_iteration hq hdim
    obtain ⟨q', hq', hat⟩ := hrow v hv
    rw [offset_eq x.input x.input_shape hq, hat.input] at hin
    rw [offset_eq x.out rfl hq, hat.out] at hout
    exact ⟨q', hq', by omega, by omega⟩
  have hout : lastStride x.out.toTensor - 1 = 0 := by
    refine eq_zero_of_forall_exists_add
      (f := fun i => rowOffset x.out.toTensor (unravel x.outerShape i)) houter fun i _ => ?_
    obtain ⟨q', hq', -, heq⟩ := hsecond _ (unravel_valid houter i)
    exact ⟨ravel x.outerShape q', ravel_lt hq', by rw [unravel_ravel hq', heq]⟩
  obtain ⟨q', hq', hin, heq⟩ := hsecond _ (unravel_valid houter 0)
  rw [hout, Int.add_zero] at heq
  rw [rowOffset_inj (by omega) hq' (unravel_valid houter 0) heq] at hin
  exact Or.inr ⟨by omega, by omega⟩

theorem fits_of_meets : x.Fits := by
  refine ⟨h.dtype, h.rank, ?_⟩
  split
  · rename_i hzero
    by_contra hloops
    push Not at hloops
    obtain ⟨hdim, hbatch, hhead⟩ := hloops
    have hv : ((0, 0) : Nat × Nat) ∈ x.members.iterations :=
      (mem_iterations x).mpr ⟨Nat.pos_of_ne_zero hbatch, Nat.pos_of_ne_zero hhead⟩
    have hread := h.readsInside _ hv 0 (Nat.pos_of_ne_zero hdim)
    rw [elements, x.input_shape, ← Tensor.numel_eq, hzero] at hread
    cases hread
  · rename_i hne
    rw [Tensor.numel_eq] at hne
    have hpos := Nat.pos_of_ne_zero hne
    exact ⟨h.weight_dtype hpos, h.rowsAgree hpos, h.unitColumns hpos⟩

end Meets

end RmsNormProblem

/-- `RmsNorm` normalizes every row, in every field and for every content,
just for operands that fit. -/
theorem rmsNorm_meets_iff (x : RmsNormProblem) (K : Type) [Field K] : x.Meets K ↔ x.Fits :=
  ⟨RmsNormProblem.fits_of_meets, RmsNormProblem.meets_of_fits⟩

/-- A vector, which is one row. -/
def contiguousVector : RmsNormProblem where
  input :=
    { data := 0, shape := [5], strides := [1], rank_eq := by decide
      addressable := forall_valid_iff.mpr (by decide) }
  weight :=
    { data := 0, shape := [5], strides := [1], rank_eq := by decide
      addressable := forall_valid_iff.mpr (by decide) }
  out :=
    { data := 64, shape := [5], strides := [1], rank_eq := by decide
      addressable := forall_valid_iff.mpr (by decide) }
  rank_pos := by decide
  input_shape := rfl
  weight_shape := rfl
  weight_contiguous := by decide
  accepted := rfl
  injective := by decide

/-- Two samples, each a row of one element. -/
def batchOfSamples : RmsNormProblem where
  input :=
    { data := 0, shape := [2, 1, 1, 1], strides := [1, 1, 1, 1], rank_eq := by decide
      addressable := forall_valid_iff.mpr (by decide) }
  weight :=
    { data := 0, shape := [1], strides := [1], rank_eq := by decide
      addressable := forall_valid_iff.mpr (by decide) }
  out :=
    { data := 64, shape := [2, 1, 1, 1], strides := [1, 1, 1, 1], rank_eq := by decide
      addressable := forall_valid_iff.mpr (by decide) }
  rank_pos := by decide
  input_shape := rfl
  weight_shape := rfl
  weight_contiguous := by decide
  accepted := rfl
  injective := by decide

/-- A vector makes the constructor read an extent that it does not have,
and of two samples only the first is normalized. -/
theorem ranks_not_met :
    RmsNorm.ofTensors contiguousVector.input.toTensor contiguousVector.out.toTensor = none ∧
      ¬ contiguousVector.Meets ℚ ∧ ¬ batchOfSamples.Meets ℚ := by
  refine ⟨by decide, fun h => ?_, fun h => ?_⟩
  · exact absurd h.rank (by decide)
  · exact absurd (h.rowsAgree (by decide)) (by decide)

end Cpu

end InfiniOps
