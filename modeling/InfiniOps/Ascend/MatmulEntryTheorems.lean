/-
InfiniOps.Ascend.MatmulEntryTheorems — when the entry points of the Ascend
`Gemm` and `Linear` take the operands.

The constructors are evaluated once (`gemmNew_eq`, `linearNew_eq`); after
that each path is a statement about shapes. A descriptor of op(`t`) has the
batch shape of `t` in front of a matrix (`describe_shape`), so that the
inner extents always agree and only the batch shapes are in question.

In the flattened path the views are right where the batch of `a` has as
many matrices as that of `out` (`describesRows_iff`): a broadcast that adds
no elements keeps their order, and any other one leaves the last row of the
view behind the end of `a`.
-/
import InfiniOps.Ascend.MatmulEntry
import InfiniOps.Cpu.LinearTheorems
import InfiniOps.Lib.Except

namespace InfiniOps.Ascend

open RowMajor

/-! ## Descriptors -/

@[simp] theorem swapLast2_append {α : Type} (front : List α) (x y : α) :
    swapLast2 (front ++ [x, y]) = front ++ [y, x] := by
  simp [swapLast2]

theorem length_swapLast2 {α : Type} (l : List α) : (swapLast2 l).length = l.length := by
  unfold swapLast2
  split
  · rename_i x y rest hl
    have hlength := congrArg List.length hl
    rw [List.length_reverse] at hlength
    rw [hlength]
    simp
  · rfl

theorem toAclDtype_eq_ok {dtype : DataType} (h : dtype ≠ .kFloat64) :
    ∃ d, toAclDtype dtype = .ok d := by
  cases dtype <;> first | exact ⟨_, rfl⟩ | exact absurd rfl h

namespace AclTensorCache

/-- The strides of a contiguous matrix. -/
theorem contiguous_offset (rows cols : Nat) (dtype : AclDataType) (r l : Nat) :
    (contiguous [rows, cols] dtype).offset [r, l] = (r * cols + l : Nat) := by
  simp [contiguous, contiguousStrides, offset, dot]

theorem ofTensor_eq {t : Tensor} {d : AclDataType} (h : toAclDtype t.dtype = .ok d)
    (transposeLast2 : Bool) : ofTensor t transposeLast2 = .ok (describe t transposeLast2 d) := by
  rw [ofTensor, h]
  rfl

theorem ne_of_ofTensor {t : Tensor} {transposeLast2 : Bool} {c : AclTensorCache}
    (h : ofTensor t transposeLast2 = .ok c) : t.dtype ≠ .kFloat64 := by
  intro hdtype
  rw [ofTensor, hdtype] at h
  cases h

/-- A descriptor has the rank of its tensor. -/
theorem ndim_of_describe {t : Tensor} {trans : Bool} {d : AclDataType} {shape : List Nat}
    (h : (describe t trans d).shape = shape) : t.ndim = shape.length := by
  rw [← h]
  cases trans with
  | false => rfl
  | true => exact (length_swapLast2 t.shape).symm

/-- The shape of op of a tensor of matrices. -/
theorem describe_shape {t : StoredTensor} (h : 2 ≤ t.shape.length) (trans : Bool)
    (d : AclDataType) :
    (describe t.toTensor trans d).shape
      = Cpu.batchShape t.toTensor ++ [Cpu.opRows t.toTensor trans, Cpu.opCols t.toTensor trans] := by
  have hshape := Cpu.shape_eq h
  cases trans with
  | false => exact hshape
  | true =>
    rw [describe, if_pos rfl, hshape, swapLast2_append]
    rfl

end AclTensorCache

/-! ## `Gemm` -/

section Gemm

variable {x : Blas.MatrixOperands} {da db dc : AclDataType}

/-- The kernel that the constructor builds. -/
def gemmKernel (x : Blas.MatrixOperands) (da db dc : AclDataType) : GemmKernel where
  batched := (Blas.Gemm.new x.a x.b x.s x.c).batchCount > 1
  alphaVal := x.s.alpha.getD 1
  betaVal := x.s.beta.getD 1
  self := .describe x.c false dc
  a := .describe x.a (Blas.transFlag x.s.transA) da
  b := .describe x.b (Blas.transFlag x.s.transB) db
  out := .describe x.c false dc

theorem gemmNew_eq (ha : toAclDtype x.a.dtype = .ok da) (hb : toAclDtype x.b.dtype = .ok db)
    (hc : toAclDtype x.c.dtype = .ok dc) :
    GemmKernel.new x.a x.b x.s x.c = .ok (gemmKernel x da db dc) := by
  rw [GemmKernel.new, AclTensorCache.ofTensor_eq ha, AclTensorCache.ofTensor_eq hb,
    AclTensorCache.ofTensor_eq hc]
  rfl

theorem dtypes_of_gemmNew {kernel : GemmKernel}
    (h : GemmKernel.new x.a x.b x.s x.c = .ok kernel) :
    x.a.dtype ≠ .kFloat64 ∧ x.b.dtype ≠ .kFloat64 ∧ x.c.dtype ≠ .kFloat64 := by
  simp only [GemmKernel.new, bind_eq_ok] at h
  obtain ⟨_, hself, _, ha, _, hb, -⟩ := h
  exact ⟨AclTensorCache.ne_of_ofTensor ha, AclTensorCache.ne_of_ofTensor hb,
    AclTensorCache.ne_of_ofTensor hself⟩

/-- A matrix operand has rank 2 or 3. -/
theorem describe_isMatrix {t : Tensor} {trans : Bool} {batch rows cols : Nat}
    (h : Blas.IsMatrix t batch (if trans then cols else rows) (if trans then rows else cols))
    (d : AclDataType) :
    t.ndim = 2 ∧ (AclTensorCache.describe t trans d).shape = [rows, cols] ∨
      t.ndim = 3 ∧ (AclTensorCache.describe t trans d).shape = [batch, rows, cols] := by
  have hswap := swapLast2_append [batch] cols rows
  have hswap' := swapLast2_append [] cols rows
  rw [List.nil_append, List.nil_append] at hswap'
  rcases h.shape with hs | hs
  · refine .inl ⟨by rw [Tensor.ndim, hs]; rfl, ?_⟩
    cases trans <;> simp_all [AclTensorCache.describe]
  · refine .inr ⟨by rw [Tensor.ndim, hs]; rfl, ?_⟩
    cases trans <;> simp_all [AclTensorCache.describe]

theorem broadcasts_self (shape : List Nat) : Broadcasts shape shape := by
  refine ⟨Nat.le_refl _, ?_⟩
  rw [Nat.sub_self, List.drop_zero]
  exact List.forall₂_same.mpr fun d _ => .inl rfl

/-- The batch count is 1 without a batch dimension. -/
theorem batchCount_eq (x : Blas.MatrixOperands) :
    (Blas.Gemm.new x.a x.b x.s x.c).batchCount = if x.c.ndim = 3 then x.batch else 1 := by
  have hlen := x.c_matrix.length_strides
  rcases x.c_matrix.shape with hs | hs <;>
    simp [Blas.Gemm.new, hlen, hs, Tensor.ndim, Tensor.size, Tensor.effectiveIndex]

theorem gemmKernel_accepts_iff :
    (gemmKernel x da db dc).call.Accepts ↔
      if 1 < (Blas.Gemm.new x.a x.b x.s x.c).batchCount then x.a.ndim = 3 ∧ x.b.ndim = 3
      else x.a.ndim = 2 ∧ x.b.ndim = 2 ∧ x.c.ndim = 2 := by
  have ha := describe_isMatrix x.a_matrix da
  have hb := describe_isMatrix x.b_matrix db
  have hc : x.c.ndim = 2 ∧ (AclTensorCache.describe x.c false dc).shape = [x.m, x.n] ∨
      x.c.ndim = 3 ∧ (AclTensorCache.describe x.c false dc).shape = [x.batch, x.m, x.n] :=
    describe_isMatrix x.c_matrix dc
  by_cases hbatch : 1 < (Blas.Gemm.new x.a x.b x.s x.c).batchCount
  · rw [if_pos hbatch, GemmKernel.call, gemmKernel, decide_eq_true hbatch, if_pos rfl]
    rw [batchCount_eq] at hbatch
    have hrank : x.c.ndim = 3 := by
      by_contra hne
      simp [hne] at hbatch
    have hcshape := (hc.resolve_left (by omega)).2
    constructor
    · rintro ⟨b, m, k, n, hashape, hbshape, -⟩
      exact ⟨AclTensorCache.ndim_of_describe hashape, AclTensorCache.ndim_of_describe hbshape⟩
    · rintro ⟨harank, hbrank⟩
      exact ⟨x.batch, x.m, x.k, x.n, (ha.resolve_left (by omega)).2,
        (hb.resolve_left (by omega)).2, hcshape, broadcasts_self _⟩
  · rw [if_neg hbatch, GemmKernel.call, gemmKernel, decide_eq_false hbatch]
    constructor
    · rintro ⟨m, k, n, hashape, hbshape, hcshape, -⟩
      exact ⟨AclTensorCache.ndim_of_describe hashape, AclTensorCache.ndim_of_describe hbshape,
        AclTensorCache.ndim_of_describe hcshape⟩
    · rintro ⟨harank, hbrank, hcrank⟩
      exact ⟨x.m, x.k, x.n, (ha.resolve_right (by omega)).2, (hb.resolve_right (by omega)).2,
        (hc.resolve_right (by omega)).2, broadcasts_self _⟩

theorem gemmMatches_iff_fits (x : Blas.MatrixOperands) : GemmMatches x ↔ GemmFits x := by
  constructor
  · intro h ha hb hc
    obtain ⟨da, hda⟩ := toAclDtype_eq_ok ha
    obtain ⟨db, hdb⟩ := toAclDtype_eq_ok hb
    obtain ⟨dc, hdc⟩ := toAclDtype_eq_ok hc
    exact gemmKernel_accepts_iff.mp (h _ (gemmNew_eq hda hdb hdc))
  · intro h kernel hnew
    obtain ⟨ha, hb, hc⟩ := dtypes_of_gemmNew hnew
    obtain ⟨da, hda⟩ := toAclDtype_eq_ok ha
    obtain ⟨db, hdb⟩ := toAclDtype_eq_ok hb
    obtain ⟨dc, hdc⟩ := toAclDtype_eq_ok hc
    rw [gemmNew_eq hda hdb hdc] at hnew
    cases hnew
    exact gemmKernel_accepts_iff.mpr (h ha hb hc)

end Gemm

/-! ## `Linear` -/

section Linear

variable {x : Cpu.LinearProblem} {d : AclDataType}

/-- All operands have one type. -/
theorem dtypes_eq (x : Cpu.LinearProblem) :
    x.a.dtype = x.out.dtype ∧ x.b.dtype = x.out.dtype ∧ ∀ t ∈ x.bias, t.dtype = x.out.dtype := by
  obtain ⟨members, h⟩ := x.accepted
  simp only [Cpu.Linear.new, bind_assertion_eq_ok, Cpu.LinearProblem.bind_checkBias_eq_ok] at h
  obtain ⟨hab, hout, -, -, hbias, -⟩ := h
  refine ⟨hout, hab.symm.trans hout, fun t ht => ?_⟩
  exact (hbias t.toTensor (Option.mem_map_of_mem _ ht)).1

/-- The kernel that the constructor builds, with its flat views. -/
def linearKernel (x : Cpu.LinearProblem) (d : AclDataType) (flat : Option FlatViews) :
    LinearKernel where
  batched := x.out.ndim > 2
  bias := x.bias.map fun t => .describe t.toTensor false d
  a := .describe x.a.toTensor x.transA d
  b := .describe x.b.toTensor x.transB d
  out := .describe x.out.toTensor false d
  flat

theorem linearNew_eq (hd : toAclDtype x.out.dtype = .ok d) :
    LinearKernel.new x.a.toTensor x.b.toTensor (x.bias.map (·.toTensor)) x.transA x.transB
        x.out.toTensor
      = if Flattens x then
          (flatViews x.a.toTensor x.out.toTensor).map (·.map fun flat => linearKernel x d (some flat))
        else .ok (some (linearKernel x d none)) := by
  obtain ⟨ha, hb, hbias⟩ := dtypes_eq x
  have hbiasCache : AclTensorCache.ofBias (x.bias.map (·.toTensor))
      = .ok (x.bias.map fun t => .describe t.toTensor false d) := by
    cases hx : x.bias with
    | none => rfl
    | some t =>
      have ht : toAclDtype t.dtype = .ok d := hbias t hx ▸ hd
      rw [Option.map_some, AclTensorCache.ofBias, AclTensorCache.ofTensor_eq ht]
      rfl
  have hflattens : (x.members.hasBias ∧ x.out.ndim > 2 ∧ x.b.ndim = 2 ∧ (!x.transA) = true)
      ↔ Flattens x := by
    simp [Cpu.LinearProblem.members, Cpu.Linear.ofTensors, Flattens]
  simp only [LinearKernel.new, x.checked.new_eq, AclTensorCache.ofTensor_eq (ha ▸ hd),
    AclTensorCache.ofTensor_eq (hb ▸ hd), AclTensorCache.ofTensor_eq hd, hbiasCache]
  by_cases h : Flattens x
  · rw [if_pos h]
    refine (if_pos (hflattens.mpr h)).trans ?_
    cases flatViews x.a.toTensor x.out.toTensor <;> rfl
  · rw [if_neg h]
    exact if_neg (mt hflattens.mp h)

theorem dtype_of_linearNew {result : Option LinearKernel}
    (h : LinearKernel.new x.a.toTensor x.b.toTensor (x.bias.map (·.toTensor)) x.transA x.transB
      x.out.toTensor = .ok result) : x.out.dtype ≠ .kFloat64 := by
  simp only [LinearKernel.new, bind_eq_ok] at h
  obtain ⟨_, -, _, ha, -⟩ := h
  exact (dtypes_eq x).1 ▸ AclTensorCache.ne_of_ofTensor ha

theorem flatViews_eq_ok_iff (hd : toAclDtype x.out.dtype = .ok d) {result : Option FlatViews} :
    flatViews x.a.toTensor x.out.toTensor = .ok result ↔
      x.a.isContiguous ∧ x.out.isContiguous ∧
        (divide x.out.numel x.n).map (fun rows =>
          { a := .contiguous [rows, x.a.size (-1)] d, out := .contiguous [rows, x.n] d })
          = result := by
  have ha : toAclDtype x.a.dtype = .ok d := (dtypes_eq x).1 ▸ hd
  rw [flatViews, bind_assertion_eq_ok, bind_assertion_eq_ok, ha, hd]
  exact Iff.and Iff.rfl (Iff.and Iff.rfl ⟨Except.ok.inj, congrArg _⟩)

/-! ### The three paths -/

theorem shape_a (x : Cpu.LinearProblem) (d : AclDataType) :
    (AclTensorCache.describe x.a.toTensor x.transA d).shape
      = Cpu.batchShape x.a.toTensor ++ [x.m, x.k] := by
  rw [AclTensorCache.describe_shape x.a_rank, ← x.checked.m_eq]
  rfl

theorem shape_b (x : Cpu.LinearProblem) (d : AclDataType) :
    (AclTensorCache.describe x.b.toTensor x.transB d).shape
      = Cpu.batchShape x.b.toTensor ++ [x.k, x.n] := by
  rw [AclTensorCache.describe_shape x.b_rank, ← x.checked.k_eq, ← x.checked.n_eq]

theorem shape_out (x : Cpu.LinearProblem) (d : AclDataType) :
    (AclTensorCache.describe x.out.toTensor false d).shape = x.batches ++ [x.m, x.n] :=
  AclTensorCache.describe_shape x.out_rank false d

theorem matmul_accepts_iff :
    (AclnnCall.matmul (.describe x.a.toTensor x.transA d) (.describe x.b.toTensor x.transB d)
      (.describe x.out.toTensor false d) 1).Accepts ↔ BatchesCovered x := by
  rw [AclnnCall.Accepts, shape_a, shape_b, shape_out, BatchesCovered,
    ← broadcastShape_eq_iff x.a_broadcasts x.b_broadcasts]
  constructor
  · rintro ⟨batchesA, batchesB, batches, m, k, n, ha, hb, hout, h⟩
    rw [← (List.append_inj' ha rfl).1, ← (List.append_inj' hb rfl).1,
      ← (List.append_inj' hout rfl).1] at h
    exact h
  · intro h
    exact ⟨_, _, _, _, _, _, rfl, rfl, rfl, h⟩

theorem bias_broadcasts {t : StoredTensor} (ht : t ∈ x.bias) :
    Broadcasts (AclTensorCache.describe t.toTensor false d).shape (x.batches ++ [x.m, x.n]) := by
  have hshape : (AclTensorCache.describe t.toTensor false d).shape = [x.n] := x.checked.bias_eq t ht
  have hsplit : x.batches ++ [x.m, x.n] = (x.batches ++ [x.m]) ++ [x.n] := by simp
  rw [hshape, hsplit]
  refine ⟨by simp, ?_⟩
  rw [List.length_append, List.length_singleton, Nat.add_sub_cancel, List.drop_left]
  exact .cons (.inl rfl) .nil

theorem ndim_out (x : Cpu.LinearProblem) : x.out.ndim = x.batches.length + 2 := by
  have hrank := x.out_rank
  rw [Cpu.LinearProblem.batches, Cpu.batchShape, List.length_take, Tensor.ndim]
  omega

theorem eq_nil_of_broadcasts {small : List Nat} (h : Broadcasts small []) : small = [] :=
  List.eq_nil_of_length_eq_zero (Nat.le_zero.mp h.1)

theorem baddbmm_accepts_iff {t : StoredTensor} (ht : t ∈ x.bias) (hrank : x.out.ndim > 2) :
    (AclnnCall.baddbmm (.describe t.toTensor false d) (.describe x.a.toTensor x.transA d)
      (.describe x.b.toTensor x.transB d) 1 1 (.describe x.out.toTensor false d)).Accepts
      ↔ RanksAgree x := by
  have hbias := bias_broadcasts (d := d) ht
  have hndim := ndim_out x
  rw [AclnnCall.Accepts, shape_a, shape_b, shape_out, RanksAgree]
  constructor
  · rintro ⟨e, m, k, n, ha, hb, hout, -⟩
    -- the batch shapes are all the one batch extent
    change _ = [e] ++ [m, k] at ha
    change _ = [e] ++ [k, n] at hb
    change _ = [e] ++ [m, n] at hout
    have hba := (List.append_inj' ha rfl).1
    have hbb := (List.append_inj' hb rfl).1
    have hbout : x.batches = [e] := (List.append_inj' hout rfl).1
    rw [hbout] at hndim
    exact .inr ⟨hndim, hba.trans hbout.symm, hbb.trans hbout.symm⟩
  · rintro (htwo | ⟨hthree, ha, hb⟩)
    · omega
    · obtain ⟨e, he⟩ := List.length_eq_one_iff.mp (show x.batches.length = 1 by omega)
      rw [ha, hb]
      change ∃ b m k n, x.batches ++ _ = _ ∧ x.batches ++ _ = _ ∧ x.batches ++ _ = _ ∧ _
      refine ⟨e, x.m, x.k, x.n, ?_, ?_, ?_, hbias⟩ <;> rw [he] <;> rfl

/-- Without a batch all three operands are matrices. -/
theorem addmm_accepts {t : StoredTensor} (ht : t ∈ x.bias) (hnil : x.batches = []) :
    (AclnnCall.addmm (.describe t.toTensor false d) (.describe x.a.toTensor x.transA d)
      (.describe x.b.toTensor x.transB d) 1 1 (.describe x.out.toTensor false d)).Accepts := by
  have hbias := bias_broadcasts (d := d) ht
  have ha := x.a_broadcasts
  have hb := x.b_broadcasts
  change Broadcasts _ x.batches at ha hb
  rw [hnil] at ha hb hbias
  rw [AclnnCall.Accepts, shape_a, shape_b, shape_out, eq_nil_of_broadcasts ha,
    eq_nil_of_broadcasts hb, hnil]
  exact ⟨x.m, x.k, x.n, rfl, rfl, rfl, hbias⟩

theorem biased_accepts_iff {t : StoredTensor} (ht : t ∈ x.bias) :
    (if x.out.ndim > 2 then
      AclnnCall.baddbmm (.describe t.toTensor false d) (.describe x.a.toTensor x.transA d)
        (.describe x.b.toTensor x.transB d) 1 1 (.describe x.out.toTensor false d)
    else .addmm (.describe t.toTensor false d) (.describe x.a.toTensor x.transA d)
        (.describe x.b.toTensor x.transB d) 1 1 (.describe x.out.toTensor false d)).Accepts
      ↔ RanksAgree x := by
  have hndim := ndim_out x
  by_cases hrank : x.out.ndim > 2
  · rw [if_pos hrank]
    exact baddbmm_accepts_iff ht hrank
  · have hnil : x.batches = [] := List.eq_nil_of_length_eq_zero (by omega)
    rw [if_neg hrank]
    exact iff_of_true (addmm_accepts ht hnil) (.inl (by rw [hndim, hnil]; rfl))

/-! ### The flat views -/

/-- The rows of the flat views. -/
theorem divide_eq (x : Cpu.LinearProblem) :
    divide x.out.numel x.n = if x.n = 0 then none else some (x.batches.prod * x.m) := by
  rw [divide, Tensor.numel_eq, Cpu.LinearProblem.prod_shape]
  split
  · rfl
  · rename_i hn
    rw [← Nat.mul_assoc, Nat.mul_div_cancel _ (Nat.pos_of_ne_zero hn)]

/-- An element of a contiguous operand, by the row-major number of its batch. -/
theorem opOffset_eq_ravel {t : StoredTensor} {batches : List Nat} {rows cols : Nat}
    (hshape : t.shape = Cpu.batchShape t.toTensor ++ [rows, cols])
    (hbroadcasts : Broadcasts (Cpu.batchShape t.toTensor) batches) (hcontiguous : t.isContiguous)
    {q : List Nat} {i l : Nat} (hq : Valid batches q) (hi : i < rows) (hl : l < cols) :
    Cpu.opOffset t.toTensor false q i l
      = (ravel (Cpu.batchShape t.toTensor) (broadcastIndex (Cpu.batchShape t.toTensor) q)
          * (rows * cols) + (i * cols + l) : Nat) := by
  have hvalid : Valid t.shape (broadcastIndex (Cpu.batchShape t.toTensor) q ++ [i, l]) := by
    rw [hshape]
    exact (broadcastIndex_valid hbroadcasts hq).append (.cons hi (.cons hl .nil))
  have hflat := StoredTensor.offset_unravel hcontiguous (ravel_lt hvalid)
  rw [unravel_ravel hvalid] at hflat
  rw [Cpu.opOffset, if_neg Bool.false_ne_true, hflat]
  conv_lhs => rw [hshape]
  rw [ravel_append (broadcastIndex_valid hbroadcasts hq).length_eq]
  simp [ravel]

/-- The same element of a flat view. -/
theorem view_offset_eq_ravel {batches q : List Nat} (hq : Valid batches q) (rows cols i l : Nat) :
    (AclTensorCache.contiguous [batches.prod * rows, cols] d).offset
        [ravel (batches ++ [rows]) (q ++ [i]), l]
      = (ravel batches q * (rows * cols) + (i * cols + l) : Nat) := by
  rw [AclTensorCache.contiguous_offset, ravel_append hq.length_eq]
  simp only [ravel, List.prod_cons, List.prod_nil]
  congr 1
  ring

/-- A flat view has the rows of a contiguous operand if there are none, or
if the operand has a batch for each of the output. -/
theorem describesRows_iff {t : StoredTensor} {batches : List Nat} {rows cols : Nat}
    (hshape : t.shape = Cpu.batchShape t.toTensor ++ [rows, cols])
    (hbroadcasts : Broadcasts (Cpu.batchShape t.toTensor) batches) (hcontiguous : t.isContiguous) :
    DescribesRows (.contiguous [batches.prod * rows, cols] d) t.toTensor batches rows cols ↔
      batches.prod = 0 ∨ rows = 0 ∨ cols = 0 ∨
        (Cpu.batchShape t.toTensor).prod = batches.prod := by
  constructor
  · intro h
    by_contra hne
    rw [not_or, not_or, not_or] at hne
    obtain ⟨hbatches, hrows, hcols, hprod⟩ := hne
    have hpos := Nat.pos_of_ne_zero hbatches
    have hcells : 0 < rows * cols :=
      Nat.mul_pos (Nat.pos_of_ne_zero hrows) (Nat.pos_of_ne_zero hcols)
    -- the first row of the last batch
    have hq := unravel_valid hpos (batches.prod - 1)
    have hlast := h.offset _ 0 0 hq (Nat.pos_of_ne_zero hrows) (Nat.pos_of_ne_zero hcols)
    rw [view_offset_eq_ravel hq, opOffset_eq_ravel hshape hbroadcasts hcontiguous hq
      (Nat.pos_of_ne_zero hrows) (Nat.pos_of_ne_zero hcols), ravel_unravel (by omega)] at hlast
    have hnumber := Nat.eq_of_mul_eq_mul_right hcells
      (Nat.add_right_cancel (Int.natCast_inj.mp hlast))
    have hlt := ravel_lt (broadcastIndex_valid hbroadcasts hq)
    have hle := hbroadcasts.prod_le hpos
    omega
  · intro h
    refine ⟨rfl, fun q i l hq hi hl => ?_⟩
    have hpos := hq.prod_pos
    have hprod : (Cpu.batchShape t.toTensor).prod = batches.prod := by omega
    rw [view_offset_eq_ravel hq, opOffset_eq_ravel hshape hbroadcasts hcontiguous hq hi hl,
      hbroadcasts.ravel_eq hprod hq]

/-- The shapes of the two calls of the flattened path agree. -/
theorem flat_accepts {t : StoredTensor} (ht : t ∈ x.bias) (hb : x.b.ndim = 2) (rows : Nat) :
    (AclnnCall.matmul (.contiguous [rows, x.k] d) (.describe x.b.toTensor x.transB d)
      (.contiguous [rows, x.n] d) 1).Accepts ∧
    (AclnnCall.add (.contiguous [rows, x.n] d) (.describe t.toTensor false d) 1
      (.contiguous [rows, x.n] d)).Accepts := by
  have hbatches : Cpu.batchShape x.b.toTensor = [] := by
    rw [Cpu.batchShape, hb]
    rfl
  have hbias : (AclTensorCache.describe t.toTensor false d).shape = [x.n] :=
    x.checked.bias_eq t ht
  refine ⟨⟨[], [], [], rows, x.k, x.n, rfl, ?_, rfl, rfl⟩, ?_⟩
  · rw [shape_b, hbatches]
  · rw [AclnnCall.Accepts, hbias]
    have hrow : Broadcasts [rows, x.n] [rows, x.n] := broadcasts_self _
    have hcol : Broadcasts [x.n] [rows, x.n] := ⟨by simp, .cons (.inl rfl) .nil⟩
    refine (broadcastShape_eq_iff hrow hcol).mpr ⟨rfl, fun i hi => .inl ?_⟩
    rfl

/-- The views, where the row count is defined. -/
def viewsOf (x : Cpu.LinearProblem) (d : AclDataType) : FlatViews where
  a := .contiguous [x.batches.prod * x.m, x.k] d
  out := .contiguous [x.batches.prod * x.m, x.n] d

theorem describesRows_viewsOf_iff (hf : Flattens x) (ha : x.a.isContiguous)
    (hout : x.out.isContiguous) (hn : x.n ≠ 0) :
    DescribesRows (viewsOf x d).a x.a.toTensor x.batches x.m x.k ∧
      DescribesRows (viewsOf x d).out x.out.toTensor x.batches x.m x.n ↔ RowsAgree x := by
  have hshapeA : x.a.shape = Cpu.batchShape x.a.toTensor ++ [x.m, x.k] := by
    rw [x.checked.m_eq, Cpu.LinearProblem.k, hf.2.2.2]
    exact Cpu.shape_eq x.a_rank
  have hnumel : x.out.numel = x.batches.prod * (x.m * x.n) := by
    rw [Tensor.numel_eq, Cpu.LinearProblem.prod_shape]
  have hviewA : DescribesRows (viewsOf x d).a x.a.toTensor x.batches x.m x.k ↔ _ :=
    describesRows_iff hshapeA x.a_broadcasts ha
  have hviewOut : DescribesRows (viewsOf x d).out x.out.toTensor x.batches x.m x.n ↔ _ :=
    describesRows_iff (Cpu.shape_eq x.out_rank) (broadcasts_self _) hout
  rw [hviewA, hviewOut, RowsAgree, hnumel]
  simp only [Nat.mul_eq_zero, hn, or_false, ne_eq, not_false_eq_true, true_and]
  constructor
  · rintro ⟨h, -⟩
    simpa only [or_assoc] using h
  · intro h
    exact ⟨by simpa only [or_assoc] using h, by simp⟩

theorem flatViews_eq_viewsOf_iff (hd : toAclDtype x.out.dtype = .ok d) (hf : Flattens x)
    {result : Option FlatViews} :
    flatViews x.a.toTensor x.out.toTensor = .ok result ↔
      x.a.isContiguous ∧ x.out.isContiguous ∧
        (if x.n = 0 then none else some (viewsOf x d)) = result := by
  have hk : x.a.size (-1) = x.k := by
    rw [Cpu.LinearProblem.k, hf.2.2.2]
    rfl
  rw [flatViews_eq_ok_iff hd, divide_eq, hk]
  split <;> rfl

theorem linearMatches_iff_of_flattens (hd : toAclDtype x.out.dtype = .ok d) (hf : Flattens x) :
    LinearMatches x ↔ (x.a.isContiguous → x.out.isContiguous → RowsAgree x) := by
  obtain ⟨t, ht⟩ := Option.isSome_iff_exists.mp hf.1
  have hnew := linearNew_eq hd
  rw [if_pos hf] at hnew
  constructor
  · intro h ha hout
    have hok := (flatViews_eq_viewsOf_iff hd hf).mpr ⟨ha, hout, rfl⟩
    rw [hok] at hnew
    obtain ⟨kernel, hkernel, -, hflat⟩ := h _ hnew
    by_cases hn : x.n = 0
    · rw [if_pos hn] at hkernel
      cases hkernel
    · rw [if_neg hn] at hkernel
      cases hkernel
      exact (describesRows_viewsOf_iff hf ha hout hn).mp (hflat _ rfl)
  · intro h result hresult
    rw [hnew] at hresult
    cases hok : flatViews x.a.toTensor x.out.toTensor with
    | error e =>
      rw [hok] at hresult
      cases hresult
    | ok views =>
      rw [hok] at hresult
      cases hresult
      obtain ⟨ha, hout, hviews⟩ := (flatViews_eq_viewsOf_iff hd hf).mp hok
      have hrows := h ha hout
      rw [if_neg hrows.1] at hviews
      subst hviews
      refine ⟨linearKernel x d (some (viewsOf x d)), rfl, ?_, ?_⟩
      · intro call hcall
        rw [LinearKernel.calls, linearKernel, ht] at hcall
        obtain ⟨hmatmul, hadd⟩ := flat_accepts (d := d) ht hf.2.2.1 (x.batches.prod * x.m)
        rcases List.mem_cons.mp hcall with rfl | hcall
        · exact hmatmul
        · rw [List.mem_singleton.mp hcall]
          exact hadd
      · intro flat hflat
        cases hflat
        exact (describesRows_viewsOf_iff hf ha hout hrows.1).mpr hrows

theorem linearMatches_iff_of_not_flattens (hd : toAclDtype x.out.dtype = .ok d)
    (hf : ¬ Flattens x) :
    LinearMatches x ↔ if x.bias.isSome then RanksAgree x else BatchesCovered x := by
  have hnew := linearNew_eq hd
  rw [if_neg hf] at hnew
  have hmatches : LinearMatches x ↔ ∀ call ∈ (linearKernel x d none).calls, call.Accepts := by
    constructor
    · intro h
      obtain ⟨kernel, hkernel, hcalls, -⟩ := h _ hnew
      cases hkernel
      exact hcalls
    · intro h result hresult
      rw [hnew] at hresult
      cases hresult
      exact ⟨_, rfl, h, fun flat hflat => by cases hflat⟩
  rw [hmatches, LinearKernel.calls, linearKernel]
  cases hbias : x.bias with
  | none =>
    have haccepts := matmul_accepts_iff (x := x) (d := d)
    simpa using haccepts
  | some t =>
    have haccepts := biased_accepts_iff (d := d) hbias
    by_cases hrank : x.out.ndim > 2
    · rw [if_pos hrank] at haccepts
      simpa [hrank] using haccepts
    · rw [if_neg hrank] at haccepts
      simpa [hrank] using haccepts

theorem linearMatches_iff_fits (x : Cpu.LinearProblem) : LinearMatches x ↔ LinearFits x := by
  by_cases hdtype : x.out.dtype = .kFloat64
  · refine ⟨fun _ hne => absurd hdtype hne, fun _ result hnew => ?_⟩
    exact absurd hdtype (dtype_of_linearNew hnew)
  · obtain ⟨d, hd⟩ := toAclDtype_eq_ok hdtype
    rw [LinearFits]
    by_cases hf : Flattens x
    · rw [if_pos hf, linearMatches_iff_of_flattens hd hf]
      exact ⟨fun h _ => h, fun h => h hdtype⟩
    · rw [if_neg hf, linearMatches_iff_of_not_flattens hd hf]
      exact ⟨fun h _ => h, fun h => h hdtype⟩

end Linear

/-! ## Both operators -/

/-- Operands that the constructors do not reject reach an entry point that
takes them exactly if they fit. -/
theorem entryPoints_match_iff (x : Blas.MatrixOperands) (y : Cpu.LinearProblem) :
    (GemmMatches x ↔ GemmFits x) ∧ (LinearMatches y ↔ LinearFits y) :=
  ⟨gemmMatches_iff_fits x, linearMatches_iff_fits y⟩

/-- A batch of one. -/
def oneBatch : Blas.MatrixOperands where
  a := { data := 64, shape := [1, 2, 3], strides := [6, 3, 1] }
  b := { data := 128, shape := [1, 3, 2], strides := [6, 2, 1] }
  c := { data := 256, shape := [1, 2, 2], strides := [4, 2, 1] }
  s := {}
  batch := 1
  m := 2
  n := 2
  k := 3
  a_matrix := ⟨by decide, rfl, by decide, by decide⟩
  b_matrix := ⟨by decide, rfl, by decide, by decide⟩
  c_matrix := ⟨by decide, rfl, by decide, by decide⟩

/-- A transposed batch of two with one matrix `b` and a bias. -/
def transposedBatch : Cpu.LinearProblem where
  a :=
    { data := 0, shape := [2, 4, 1], strides := [4, 1, 1], rank_eq := by decide
      addressable := forall_valid_iff.mpr (by decide) }
  b :=
    { data := 0, shape := [4, 7], strides := [7, 1], rank_eq := by decide
      addressable := forall_valid_iff.mpr (by decide) }
  bias := some
    { data := 0, shape := [7], strides := [1], rank_eq := by decide
      addressable := forall_valid_iff.mpr (by decide) }
  transA := true
  transB := false
  out :=
    { data := 0, shape := [2, 1, 7], strides := [7, 7, 1], rank_eq := by decide
      addressable := forall_valid_iff.mpr (by decide) }
  a_rank := by decide
  b_rank := by decide
  out_rank := by decide
  accepted := ⟨_, rfl⟩
  a_broadcasts := by decide
  b_broadcasts := by decide
  injective := by decide

/-- `Addmm` is handed batches of one, and `Baddbmm` a matrix. -/
theorem entryPoints_mismatch :
    ¬ GemmMatches oneBatch ∧ transposedBatch.Fits ∧ ¬ LinearMatches transposedBatch := by
  refine ⟨fun h => ?_, by decide, fun h => ?_⟩
  · exact absurd ((gemmMatches_iff_fits _).mp h) (by decide)
  · exact absurd ((linearMatches_iff_fits _).mp h) (by decide)

end InfiniOps.Ascend
