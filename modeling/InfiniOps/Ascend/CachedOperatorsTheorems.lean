/-
InfiniOps.Ascend.CachedOperatorsTheorems — every cached operator carries out
its plain program.

Its executors re-bind all their tensors, or list descriptors that each call
updates; its scratch buffers are asked for once, before they are used, and
written before they are read; and its tensors fit into them (`carries`).
Where `RepeatableExecutor` has the same operator, the actions are the same
(`filterMap_action`).
-/
import InfiniOps.Ascend.CachedCallTheorems
import InfiniOps.Ascend.CachedOperators
import InfiniOps.Ascend.KvCacheTheorems

namespace InfiniOps.Ascend

open RowMajor

/-! ## Sizes -/

/-- The elements lie in the first bytes of a buffer. -/
def AclTensorCache.FitsIn (desc : AclTensorCache) (bytes : Nat) : Prop :=
  ∀ idx, Valid desc.shape idx →
    0 ≤ (desc.dtype.bytes : Int) * desc.offset idx ∧ (desc.dtype.bytes : Int) * desc.offset idx < bytes

theorem bytes_eq {dtype : DataType} {d : AclDataType} (h : toAclDtype dtype = .ok d) :
    d.bytes = kDataTypeToSize dtype := by
  cases dtype <;> cases h <;> rfl

theorem AclDataType.bytes_pos (d : AclDataType) : 0 < d.bytes := by cases d <;> decide

theorem fitsIn_of_rowMajor {desc : AclTensorCache} {bytes : Nat}
    (hstrides : RowMajorStrides desc.shape desc.strides)
    (hbytes : desc.shape.prod * desc.dtype.bytes = bytes) : desc.FitsIn bytes := by
  intro idx hidx
  have hoffset : desc.offset idx = ravel desc.shape idx := hstrides.dot_eq hidx
  have hlt : ravel desc.shape idx < desc.shape.prod := ravel_lt hidx
  have hscaled := Nat.mul_lt_mul_of_pos_left hlt desc.dtype.bytes_pos
  rw [hoffset, ← hbytes, Nat.mul_comm desc.shape.prod]
  exact ⟨Int.mul_nonneg (Int.natCast_nonneg _) (Int.natCast_nonneg _), by exact_mod_cast hscaled⟩

theorem contiguous_rowMajor (shape : List Nat) (d : AclDataType) :
    RowMajorStrides (AclTensorCache.contiguous shape d).shape
      (AclTensorCache.contiguous shape d).strides := by
  show RowMajorStrides shape (AclTensorCache.contiguousStrides shape).1
  rw [contiguousStrides_eq]
  exact .suffixProds shape

theorem fitsIn_contiguous {shape : List Nat} {d : AclDataType} {bytes : Nat}
    (hbytes : shape.prod * d.bytes = bytes) : (AclTensorCache.contiguous shape d).FitsIn bytes :=
  fitsIn_of_rowMajor (contiguous_rowMajor shape d) hbytes

/-- A descriptor and its tensor. -/
theorem ofTensor_eq_ok {t : Tensor} {transpose : Bool} {desc : AclTensorCache}
    (h : AclTensorCache.ofTensor t transpose = .ok desc) :
    desc = AclTensorCache.describe t transpose desc.dtype ∧ desc.dtype.bytes = t.elementSize := by
  rw [AclTensorCache.ofTensor] at h
  cases hd : toAclDtype t.dtype with
  | error e =>
    rw [hd] at h
    cases h
  | ok d =>
    rw [hd] at h
    cases h
    exact ⟨rfl, bytes_eq hd⟩

/-! ## Programs -/

/-- The tensors in scratch buffers. -/
def scratchTensors (ps : List PlainStep) : List (AclTensorCache × Scratch) :=
  ps.flatMap fun p => (p.inputs ++ p.outputs).filterMap fun t =>
    match t.2 with
    | .arg _ => none
    | .scratch s => some (t.1, s)

/-- A program, its executor members and its scratch tensors as they are
listed. -/
theorem carries_of_lists {op : CachedOp} {ps : List PlainStep} {k : List Nat}
    {t : List (AclTensorCache × Scratch)} (hplain : plainSteps op {} op.steps = some ps)
    (hmembers : op.steps.filterMap memberOf = k) (hnodup : k.Nodup)
    (hscratch : scratchTensors ps = t) (hfits : ∀ x ∈ t, x.1.FitsIn (op.scratchBytes x.2)) :
    op.Carries ps := by
  refine ⟨hplain, hmembers ▸ hnodup, fun p hp desc s hmem => hfits (desc, s) ?_⟩
  rw [← hscratch]
  exact List.mem_flatMap.mpr ⟨p, hp, List.mem_filterMap.mpr ⟨_, hmem, rfl⟩⟩

/-- A program without scratch tensors. -/
theorem carries_of_args {op : CachedOp} {ps : List PlainStep} {k : List Nat}
    (hplain : plainSteps op {} op.steps = some ps) (hmembers : op.steps.filterMap memberOf = k)
    (hnodup : k.Nodup) (hscratch : scratchTensors ps = []) : op.Carries ps :=
  carries_of_lists hplain hmembers hnodup hscratch fun _ ht => nomatch ht

section Carries

variable {op : CachedOp}

theorem binaryOp_carries {kernel : AclKernel} {input other out : Tensor}
    (h : binaryOp kernel input other out = .ok op) :
    op.Carries [⟨kernel, [(op.desc 0, .arg 0), (op.desc 1, .arg 1)], [(op.desc 2, .arg 2)]⟩] := by
  simp only [binaryOp, bind_eq_ok, pure, Except.pure, Except.ok.injEq] at h
  obtain ⟨inCache, -, othCache, -, outCache, -, rfl⟩ := h
  exact carries_of_args rfl rfl (List.nodup_singleton 0) rfl

theorem cast_carries {input out : Tensor} (h : Cast.new input out = .ok op) :
    op.Carries ((CachedOperator.cast input out).plain op) := by
  simp only [Cast.new, bind_eq_ok, pure, Except.pure, Except.ok.injEq] at h
  obtain ⟨inCache, -, outCache, -, rfl⟩ := h
  exact carries_of_args rfl rfl (List.nodup_singleton 0) rfl

theorem embedding_carries {inputIds weight out : Tensor}
    (h : Embedding.new inputIds weight out = .ok op) :
    op.Carries ((CachedOperator.embedding inputIds weight out).plain op) := by
  simp only [Embedding.new, bind_eq_ok, pure, Except.pure, Except.ok.injEq] at h
  obtain ⟨idsCache, -, weightCache, -, outCache, -, -, -, rfl⟩ := h
  exact carries_of_args rfl rfl (List.nodup_singleton 0) rfl

theorem matmul_carries {a b c : Tensor} {transA transB : Bool}
    (h : Matmul.new a b c transA transB = .ok op) :
    op.Carries ((CachedOperator.matmul a b c transA transB).plain op) := by
  simp only [Matmul.new, bind_eq_ok, pure, Except.pure, Except.ok.injEq] at h
  obtain ⟨aCache, -, bCache, -, outCache, -, rfl⟩ := h
  exact carries_of_args rfl rfl (List.nodup_singleton 0) rfl

theorem gemm_carries (k : GemmKernel) : k.op.Carries ((CachedOperator.gemm k).plain k.op) :=
  carries_of_args rfl rfl (List.nodup_singleton 0) rfl

theorem linear_carries (k : LinearKernel) : k.op.Carries ((CachedOperator.linear k).plain k.op) := by
  obtain ⟨batched, bias, a, b, out, flat⟩ := k
  cases bias with
  | none => exact carries_of_args rfl rfl (List.nodup_singleton 0) rfl
  | some bias =>
    cases flat with
    | none => exact carries_of_args rfl rfl (List.nodup_singleton 0) rfl
    | some flat => exact carries_of_args rfl rfl (k := [1, 2]) (by decide) rfl

/-! ## `Cat` -/

/-- A descriptor gets an argument. -/
def hold (held : Nat → Option TensorBase) (x : Nat × Nat) : Nat → Option TensorBase :=
  Function.update held x.1 (some (TensorBase.arg x.2))

/-- The descriptors of the inputs. -/
theorem plainSteps_gets (kn : Known) (pairs : List (Nat × Nat)) (steps : List Step) :
    plainSteps op kn (pairs.map (fun x => .get x.1 (.arg x.2)) ++ steps) =
      plainSteps op
        { kn with held := pairs.foldl hold kn.held } steps := by
  induction pairs generalizing kn with
  | nil => rfl
  | cons x pairs ih => exact ih { kn with held := hold kn.held x }

theorem foldl_hold (held : Nat → Option TensorBase) (n d : Nat) :
    ((List.range n).map fun i => (i + 1, i)).foldl hold held d =
      if 1 ≤ d ∧ d ≤ n then some (.arg (d - 1)) else held d := by
  induction n with
  | zero =>
    have hnot : ¬ (1 ≤ d ∧ d ≤ 0) := by omega
    rw [if_neg hnot]
    rfl
  | succ n ih =>
    rw [List.range_succ, List.map_append, List.foldl_append]
    show hold _ (n + 1, n) d = _
    rw [hold]
    by_cases hd : d = n + 1
    · subst hd
      have hin : 1 ≤ n + 1 ∧ n + 1 ≤ n + 1 := by omega
      rw [Function.update_self, if_pos hin]
      rfl
    · rw [Function.update_of_ne hd, ih]
      have hiff : (1 ≤ d ∧ d ≤ n) ↔ 1 ≤ d ∧ d ≤ n + 1 := by omega
      simp only [hiff]

theorem stage_joining {kn : Known} {dim : Int} {count : Nat}
    (hout : kn.held 0 = some (.arg count)) (hins : ∀ i < count, kn.held (i + 1) = some (.arg i)) :
    kn.stage op (joining dim count) =
      some ⟨.cat dim, (List.range count).map fun i => (op.desc (i + 1), .arg i),
        [(op.desc 0, .arg count)]⟩ := by
  have hlisted : ((List.range count).map (· + 1)).mapM kn.held =
      some ((List.range count).map TensorBase.arg) := by
    rw [mapM_eq_some_iff, List.map_map, List.map_map]
    exact List.map_congr_left fun i hi => hins i (List.mem_range.mp hi)
  have hzip : List.zip (((List.range count).map (· + 1)).map op.desc)
      ((List.range count).map TensorBase.arg) =
        (List.range count).map fun i => (op.desc (i + 1), TensorBase.arg i) := by
    rw [List.map_map, List.zip_map']
    rfl
  have hreadable : ∀ x ∈ List.zip ((List.range count).map (· + 1))
      ((List.range count).map TensorBase.arg), kn.Readable x.1 x.2 := by
    intro x hx
    obtain ⟨i, -, hi⟩ := List.mem_map.mp (List.of_mem_zip hx).2
    rw [← hi]
    trivial
  have houtputs : [0].mapM kn.held = some [TensorBase.arg count] := by simp [hout]
  simp only [Known.stage, joining, hlisted, houtputs, List.mapM_nil, Option.pure_def,
    Option.bind_eq_bind, Option.bind_some, List.append_nil, hzip]
  rw [if_pos ⟨rfl, rfl, hreadable⟩]
  rfl

theorem cat_carries {inputs : List Tensor} {dim : Int} {out : Tensor}
    (h : Cat.new inputs dim out = .ok op) :
    op.Carries ((CachedOperator.cat inputs dim out).plain op) := by
  simp only [Cat.new, bind_eq_ok, pure, Except.pure, Except.ok.injEq] at h
  obtain ⟨outCache, -, inCaches, -, rfl⟩ := h
  have hgets : (List.range inputs.length).map (fun i => Step.get (i + 1) (.arg i)) =
      ((List.range inputs.length).map fun i => (i + 1, i)).map fun x => .get x.1 (.arg x.2) := by
    rw [List.map_map]
    rfl
  refine carries_of_args (k := [0]) ?_ ?_ (List.nodup_singleton 0) ?_
  · rw [hgets]
    show plainSteps _ { held := hold (fun _ => none) (0, inputs.length) } (_ ++ _) = _
    rw [plainSteps_gets, plainSteps, stage_joining (foldl_hold ..) fun i hi => ?_]
    · rfl
    · refine (foldl_hold ..).trans (if_pos ?_)
      omega
  · have hnone : ((List.range inputs.length).map fun i => Step.get (i + 1) (.arg i)).filterMap
        memberOf = [] := by
      rw [List.filterMap_eq_nil_iff]
      intro step hstep
      obtain ⟨i, -, rfl⟩ := List.mem_map.mp hstep
      rfl
    rw [List.filterMap_append, List.filterMap_cons_none rfl, hnone]
    rfl
  · simp [scratchTensors, CachedOperator.plain, List.filterMap_map]

/-! ## Operators with scratch buffers -/

/-- A contiguous tensor for the result that an output is to get. -/
theorem staging_fitsIn {out : Tensor} {outCache : AclTensorCache}
    (hout : AclTensorCache.ofTensor out false = .ok outCache) :
    (AclTensorCache.contiguous out.shape outCache.dtype).FitsIn (out.numel * out.elementSize) :=
  fitsIn_contiguous (by rw [(ofTensor_eq_ok hout).2, Tensor.numel_eq])

theorem siluAndMul_carries {input out : Tensor} {dim : Int}
    (h : SiluAndMul.new input dim out = .ok op) :
    op.Carries ((CachedOperator.siluAndMul input dim out).plain op) := by
  simp only [SiluAndMul.new, bind_eq_ok] at h
  obtain ⟨inputCache, -, outCache, hout, h⟩ := h
  split at h
  · rename_i hcontiguous
    cases h
    rw [CachedOperator.plain, if_pos hcontiguous]
    exact carries_of_args rfl rfl (List.nodup_singleton 0) rfl
  · rename_i hcontiguous
    cases h
    rw [CachedOperator.plain, if_neg hcontiguous]
    have hfits := staging_fitsIn hout
    exact carries_of_lists rfl rfl (k := [0, 1]) (by decide)
      (t := List.replicate 2 (.contiguous out.shape outCache.dtype, .staging)) rfl
      fun x hx => List.eq_of_mem_replicate hx ▸ hfits

theorem swiglu_carries {input gate out : Tensor}
    (hsized : (CachedOperator.swiglu input gate out).Sized)
    (h : Swiglu.new input gate out = .ok op) :
    op.Carries ((CachedOperator.swiglu input gate out).plain op) := by
  simp only [Swiglu.new, bind_eq_ok, pure, Except.pure, Except.ok.injEq] at h
  obtain ⟨inCache, -, gateCache, -, outCache, -, tempCache, htemp, rfl⟩ := h
  obtain ⟨hshape, hdtype, hstrides⟩ := hsized
  obtain ⟨hdesc, hbytes⟩ := ofTensor_eq_ok htemp
  have hfits : tempCache.FitsIn (input.numel * input.elementSize) := by
    refine fitsIn_of_rowMajor (by rw [hdesc]; exact hstrides) ?_
    rw [hbytes, hdesc, Tensor.numel_eq, Tensor.elementSize, Tensor.elementSize]
    show gate.shape.prod * kDataTypeToSize gate.dtype = _
    rw [hshape, hdtype]
  exact carries_of_lists rfl rfl (k := [0, 1]) (by decide)
    (t := List.replicate 2 (tempCache, .temp)) rfl fun x hx => List.eq_of_mem_replicate hx ▸ hfits

theorem swigluFused_carries {input gate out : Tensor}
    (h : SwigluFused.new input gate out = .ok op) :
    op.Carries ((CachedOperator.swigluFused input gate out).plain op) := by
  simp only [SwigluFused.new, bind_eq_ok] at h
  obtain ⟨gateCache, -, inCache, hin, outCache, hout, h⟩ := h
  have hcat : (AclTensorCache.contiguous (doubleLast input.shape) inCache.dtype).FitsIn
      ((doubleLast input.shape).prod * input.elementSize) :=
    fitsIn_contiguous (by rw [(ofTensor_eq_ok hin).2])
  split at h
  · rename_i hcontiguous
    cases h
    rw [CachedOperator.plain, if_pos hcontiguous]
    exact carries_of_lists rfl rfl (k := [0, 1]) (by decide)
      (t := List.replicate 2 (.contiguous (doubleLast input.shape) inCache.dtype, .temp)) rfl
      fun x hx => List.eq_of_mem_replicate hx ▸ hcat
  · rename_i hcontiguous
    cases h
    rw [CachedOperator.plain, if_neg hcontiguous]
    have hstaging := staging_fitsIn hout
    refine carries_of_lists rfl rfl (k := [0, 1, 2]) (by decide)
      (t := List.replicate 2 (.contiguous (doubleLast input.shape) inCache.dtype, .temp) ++
        List.replicate 2 (.contiguous out.shape outCache.dtype, .staging)) rfl fun x hx => ?_
    rcases List.mem_append.mp hx with hx | hx
    · exact List.eq_of_mem_replicate hx ▸ hcat
    · exact List.eq_of_mem_replicate hx ▸ hstaging

theorem scaledSoftmax_carries {input out : Tensor} {scale : ℚ}
    (hsized : (CachedOperator.scaledSoftmax input scale out).Sized)
    (h : ScaledSoftmax.new input scale out = .ok op) :
    op.Carries ((CachedOperator.scaledSoftmax input scale out).plain op) := by
  simp only [ScaledSoftmax.new, bind_eq_ok] at h
  obtain ⟨inCache, hin, outCache, -, -, -, -, -, -, -, h⟩ := h
  split at h
  · rename_i hneeds
    cases h
    rw [CachedOperator.plain, if_pos hneeds]
    obtain ⟨hdesc, hbytes⟩ := ofTensor_eq_ok hin
    have hfits : inCache.FitsIn (input.numel * input.elementSize) := by
      refine fitsIn_of_rowMajor (by rw [hdesc]; exact hsized) ?_
      rw [hbytes, hdesc, Tensor.numel_eq]
      rfl
    exact carries_of_lists rfl rfl (k := [0, 1]) (by decide)
      (t := List.replicate 2 (inCache, .temp)) rfl fun x hx => List.eq_of_mem_replicate hx ▸ hfits
  · rename_i hneeds
    cases h
    rw [CachedOperator.plain, if_neg hneeds]
    exact carries_of_args rfl rfl (List.nodup_singleton 1) rfl

theorem rstd_fitsIn (t : Tensor) :
    (AclTensorCache.contiguous (rstdShape t) .float).FitsIn (rstdBytes t .temp) :=
  fitsIn_contiguous rfl

theorem rmsNorm_carries {input weight out : Tensor} {eps : ℚ}
    (h : RmsNorm.new input weight eps out = .ok op) :
    op.Carries ((CachedOperator.rmsNorm input weight eps out).plain op) := by
  simp only [RmsNorm.new, bind_eq_ok, pure, Except.pure, Except.ok.injEq] at h
  obtain ⟨inCache, -, weightCache, -, outCache, -, rfl⟩ := h
  have hfits := rstd_fitsIn out
  exact carries_of_lists rfl rfl (List.nodup_singleton 0)
    (t := [(.contiguous (rstdShape out) .float, .temp)]) rfl
    fun x hx => List.mem_singleton.mp hx ▸ hfits

theorem addRmsNorm_carries {input residual weight out residualOut : Tensor} {eps : ℚ}
    (h : AddRmsNorm.new input residual weight eps out residualOut = .ok op) :
    op.Carries ((CachedOperator.addRmsNorm input residual weight eps out residualOut).plain op) := by
  simp only [AddRmsNorm.new, bind_eq_ok, pure, Except.pure, Except.ok.injEq] at h
  obtain ⟨inCache, -, residualCache, -, weightCache, -, outCache, -, residualOutCache, -, rfl⟩ := h
  have hfits := rstd_fitsIn input
  exact carries_of_lists rfl rfl (k := [0, 1]) (by decide)
    (t := [(.contiguous (rstdShape input) .float, .temp)]) rfl
    fun x hx => List.mem_singleton.mp hx ▸ hfits

/-- Whatever a constructor returns carries out the plain program of its
operator. -/
theorem carries {x : CachedOperator} (h : x.new = .ok op) (hsized : x.Sized) :
    op.Carries (x.plain op) := by
  cases x with
  | add input other out => exact binaryOp_carries h
  | mul input other out => exact binaryOp_carries h
  | cast input out => exact cast_carries h
  | embedding inputIds weight out => exact embedding_carries h
  | matmul a b c transA transB => exact matmul_carries h
  | gemm k =>
    cases h
    exact gemm_carries k
  | linear k =>
    cases h
    exact linear_carries k
  | cat inputs dim out => exact cat_carries h
  | siluAndMul input dim out => exact siluAndMul_carries h
  | swiglu input gate out => exact swiglu_carries hsized h
  | swigluFused input gate out => exact swigluFused_carries h
  | scaledSoftmax input scale out => exact scaledSoftmax_carries hsized h
  | rmsNorm input weight eps out => exact rmsNorm_carries h
  | addRmsNorm input residual weight eps out residualOut => exact addRmsNorm_carries h

end Carries

/-! ## The actions of `RepeatableExecutor` -/

def Pointer.operand : Pointer → Operand
  | .arg i => .arg i
  | .scratch _ => .temp
  | .saved _ => .temp

/-- A step as an action on one scratch buffer. Descriptors are pointed where
their tensors are. -/
def Step.action : Step → Option Action
  | .get _ _ => none
  | .ensure _ => some .ensureTemp
  | .launch k st =>
    some (.stage k
      { inputs := st.setInputs.map fun x => x.2.operand
        outputs := st.setOutputs.map fun x => x.2.operand
        setInputs := st.setInputs.map fun x => (x.1, x.2.operand)
        setOutputs := st.setOutputs.map fun x => (x.1, x.2.operand) })

def CachedOperator.kind : CachedOperator → Option OperatorKind
  | .swiglu _ _ _ => some .swiglu
  | .scaledSoftmax _ scale _ => some (.scaledSoftmax (1 / 1000000 < |scale - 1|))
  | .rmsNorm _ _ _ _ => some .rmsNorm
  | .addRmsNorm _ _ _ _ _ _ => some .addRmsNorm
  | _ => none

/-- Operators that both modules have do the same. -/
theorem filterMap_action {x : CachedOperator} {op : CachedOp} (h : x.new = .ok op)
    {kind : OperatorKind} (hkind : x.kind = some kind) :
    op.steps.filterMap Step.action = kind.actions := by
  cases x with
  | swiglu input gate out =>
    cases hkind
    simp only [CachedOperator.new, Swiglu.new, bind_eq_ok, pure, Except.pure, Except.ok.injEq] at h
    obtain ⟨inCache, -, gateCache, -, outCache, -, tempCache, -, rfl⟩ := h
    rfl
  | scaledSoftmax input scale out =>
    cases hkind
    simp only [CachedOperator.new, ScaledSoftmax.new, bind_eq_ok] at h
    obtain ⟨inCache, -, outCache, -, -, -, -, -, -, -, h⟩ := h
    split at h
    · rename_i hneeds
      cases h
      rw [decide_eq_true hneeds]
      rfl
    · rename_i hneeds
      cases h
      rw [decide_eq_false hneeds]
      rfl
  | rmsNorm input weight eps out =>
    cases hkind
    simp only [CachedOperator.new, RmsNorm.new, bind_eq_ok, pure, Except.pure, Except.ok.injEq] at h
    obtain ⟨inCache, -, weightCache, -, outCache, -, rfl⟩ := h
    rfl
  | addRmsNorm input residual weight eps out residualOut =>
    cases hkind
    simp only [CachedOperator.new, AddRmsNorm.new, bind_eq_ok, pure, Except.pure,
      Except.ok.injEq] at h
    obtain ⟨inCache, -, residualCache, -, weightCache, -, outCache, -, residualOutCache, -, rfl⟩ := h
    rfl
  | add | mul | cast | embedding | matmul | gemm | linear | cat | siluAndMul | swigluFused =>
    cases hkind

end InfiniOps.Ascend
