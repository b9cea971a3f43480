/-
InfiniOps.Ascend.CachedEffects — cached operators as assignments.

A scratch buffer that is written and read back holds the result that was
written, and copying a staged result is storing it at once; so the plain
program of an operator amounts to assignments to its output tensors
(`runPlain_effect`). With this, any mix of cached operators on one pool
changes the memory of its user as if each call assigned what its operator
computes (`cached_run_eq_effects`).
-/
import InfiniOps.Ascend.CachedOperatorsTheorems

namespace InfiniOps.Ascend

open RowMajor

/-! ## Plain programs without their scratch buffers -/

section Scratch

variable {α : Type} {K : AclnnLibrary α} {args : Nat → Nat} {vars : Cell → α}

/-- The memory of the user. -/
def userPart (vars : Cell → α) : DeviceMemory α := fun a => vars (.user a)

theorem storeAll_user {ι : Type} (addr : ι → Int) (val : ι → α) (visits : List ι)
    (vars : Cell → α) :
    userPart (StridedStore.storeAll (fun v => Cell.user (addr v)) (fun v _ => val v) vars visits) =
      StridedStore.storeAll addr (fun v _ => val v) (userPart vars) visits := by
  induction visits generalizing vars with
  | nil => rfl
  | cons v visits ih =>
    have hupdate : userPart (Function.update vars (.user (addr v)) (val v)) =
        Function.update (userPart vars) (addr v) (val v) := by
      funext a
      show Function.update vars (.user (addr v)) (val v) (.user a) = _
      by_cases ha : a = addr v
      · rw [ha, Function.update_self, Function.update_self]
      · have hne : Cell.user a ≠ .user (addr v) := fun heq => ha (Cell.user.inj heq)
        rw [Function.update_of_ne hne, Function.update_of_ne ha]
        rfl
    rw [StridedStore.storeAll_cons, ih, hupdate]
    rfl

/-- Writing an argument. -/
theorem writeTensor_arg (desc : AclTensorCache) (i : Nat) (element : Nat → α) :
    userPart (writeTensor desc ((TensorBase.arg i).cell args) element vars) =
      writeTensor desc (fun n => args i + n) element (userPart vars) :=
  storeAll_user (fun idx => args i + desc.dtype.bytes * desc.offset idx) _ _ vars

/-- Writing a scratch buffer leaves the memory of the user alone. -/
theorem writeTensor_scratch (desc : AclTensorCache) (s : Scratch) (element : Nat → α) :
    userPart (writeTensor desc ((TensorBase.scratch s).cell args) element vars) = userPart vars := by
  funext a
  show writeTensor desc ((TensorBase.scratch s).cell args) element vars (.user a) = vars (.user a)
  rw [writeTensor]
  refine StridedStore.storeAll_of_notMem _ _ vars fun hmem => ?_
  obtain ⟨idx, -, heq⟩ := List.mem_map.mp hmem
  cases heq

/-- What was written into a scratch buffer is read back. -/
theorem readTensor_written {desc : AclTensorCache} (hstrides : RowMajorStrides desc.shape desc.strides)
    (s : Scratch) (kernel : AclKernel) (ins : List (TensorValue α)) :
    readTensor desc ((TensorBase.scratch s).cell args)
        (writeTensor desc ((TensorBase.scratch s).cell args) (K.compute kernel ins 0) vars) =
      CachedOperator.result K kernel ins desc := by
  have hoffset : ∀ idx ∈ indices desc.shape, desc.offset idx = ravel desc.shape idx :=
    fun idx hidx => hstrides.dot_eq (mem_indices.mp hidx)
  have hnodup : ((indices desc.shape).map fun idx =>
      (TensorBase.scratch s).cell args (desc.dtype.bytes * desc.offset idx)).Nodup := by
    have hindices : (indices desc.shape).Nodup := by
      rw [indices_eq]
      exact List.nodup_range.map_on fun m hm n hn heq =>
        unravel_inj (List.mem_range.mp hm) (List.mem_range.mp hn) heq
    refine hindices.map_on fun idx hidx idx' hidx' heq => ?_
    have hbytes := Int.eq_of_mul_eq_mul_left
      (Int.natCast_ne_zero.mpr (Nat.ne_of_gt desc.dtype.bytes_pos)) (Cell.scratch.inj heq).2
    rw [hoffset idx hidx, hoffset idx' hidx'] at hbytes
    rw [← unravel_ravel (mem_indices.mp hidx), Int.natCast_inj.mp hbytes,
      unravel_ravel (mem_indices.mp hidx')]
  have helements : (indices desc.shape).map (fun idx =>
      writeTensor desc ((TensorBase.scratch s).cell args) (K.compute kernel ins 0) vars
        ((TensorBase.scratch s).cell args (desc.dtype.bytes * desc.offset idx))) =
      (indices desc.shape).map fun idx => K.compute kernel ins 0 (ravel desc.shape idx) :=
    List.map_congr_left fun idx hidx =>
      StridedStore.storeAll_at_of_nodup _ _ vars hnodup hidx
  rw [readTensor, helements, indices_eq, List.map_map]
  refine congrArg (TensorValue.mk desc.shape desc.dtype) (List.map_congr_left fun n hn => ?_)
  show K.compute kernel ins 0 (ravel desc.shape (unravel desc.shape n)) = _
  rw [ravel_unravel (List.mem_range.mp hn)]

/-- The values of the inputs of a step. -/
def inputValues (args : Nat → Nat) (vars : Cell → α) (ins : List (AclTensorCache × TensorBase)) :
    List (TensorValue α) := ins.map fun t => readTensor t.1 (t.2.cell args) vars

variable {kernel : AclKernel} {ins : List (AclTensorCache × TensorBase)} {desc : AclTensorCache}

theorem run_eq_writeOutputs (hkernel : kernel.inPlace = false)
    (outs : List (AclTensorCache × TensorBase)) :
    PlainStep.run K args vars ⟨kernel, ins, outs⟩ =
      writeOutputs (K.compute kernel (inputValues args vars ins)) (outs.map (plainAt args)) 0 vars := by
  have hvalues : ((ins.map fun t => (t.1, t.2.cell args)).map fun t => readTensor t.1 t.2 vars) =
      inputValues args vars ins := by
    rw [List.map_map]
    rfl
  rw [PlainStep.run, runKernel, hvalues]
  simp only [hkernel]
  rfl

/-- A step that stores into an argument. -/
theorem userPart_run (hkernel : kernel.inPlace = false) (i : Nat) :
    userPart (PlainStep.run K args vars ⟨kernel, ins, [(desc, .arg i)]⟩) =
      CachedOperator.assign K args desc i kernel (inputValues args vars ins) (userPart vars) := by
  rw [run_eq_writeOutputs hkernel]
  exact writeTensor_arg desc i _

/-- A side output in a scratch buffer changes nothing. -/
theorem userPart_run_side (hkernel : kernel.inPlace = false) (i : Nat) (side : AclTensorCache)
    (s : Scratch) :
    userPart (PlainStep.run K args vars ⟨kernel, ins, [(desc, .arg i), (side, .scratch s)]⟩) =
      CachedOperator.assign K args desc i kernel (inputValues args vars ins) (userPart vars) := by
  rw [run_eq_writeOutputs hkernel]
  exact (writeTensor_scratch side s _).trans (writeTensor_arg desc i _)

/-- A step that stores into a scratch buffer. -/
theorem userPart_run_scratch (hkernel : kernel.inPlace = false) (s : Scratch) :
    userPart (PlainStep.run K args vars ⟨kernel, ins, [(desc, .scratch s)]⟩) = userPart vars := by
  rw [run_eq_writeOutputs hkernel]
  exact writeTensor_scratch desc s _

variable (K args) in
/-- What it stores there is read back. -/
theorem readTensor_run (hkernel : kernel.inPlace = false)
    (hstrides : RowMajorStrides desc.shape desc.strides) (s : Scratch) (vars : Cell → α)
    (ins : List (AclTensorCache × TensorBase)) :
    readTensor desc ((TensorBase.scratch s).cell args)
        (PlainStep.run K args vars ⟨kernel, ins, [(desc, .scratch s)]⟩) =
      CachedOperator.result K kernel (inputValues args vars ins) desc := by
  rw [run_eq_writeOutputs hkernel]
  exact readTensor_written hstrides s kernel _

theorem writeTensor_congr {cell : Int → Int} {f g : Nat → α} {mem : DeviceMemory α}
    (h : ∀ n < desc.shape.prod, f n = g n) :
    writeTensor desc cell f mem = writeTensor desc cell g mem :=
  List.foldl_ext _ _ mem fun m idx hidx => by
    show Function.update m _ (f (ravel desc.shape idx)) = Function.update m _ (g (ravel desc.shape idx))
    rw [h _ (ravel_lt (mem_indices.mp hidx))]

/-- Copying a result out of a scratch buffer is storing it at once. -/
theorem userPart_copy {out : AclTensorCache} (i : Nat) {s : Scratch} {vals : List (TensorValue α)}
    (hshape : desc.shape = out.shape)
    (hsrc : readTensor desc ((TensorBase.scratch s).cell args) vars =
      CachedOperator.result K kernel vals desc) :
    userPart (PlainStep.run K args vars ⟨.inplaceCopy, [(out, .arg i), (desc, .scratch s)], []⟩) =
      CachedOperator.assign K args out i kernel vals (userPart vars) := by
  have hstep : userPart (PlainStep.run K args vars
      ⟨.inplaceCopy, [(out, .arg i), (desc, .scratch s)], []⟩) =
        writeTensor out (fun n => args i + n)
          (K.compute .inplaceCopy [CachedOperator.value args (userPart vars) out i,
            CachedOperator.result K kernel vals desc] 0) (userPart vars) := by
    rw [← hsrc]
    exact writeTensor_arg out i _
  rw [hstep, CachedOperator.assign]
  refine writeTensor_congr fun n hn => K.copies _ _ n _ ?_
  rw [← hshape] at hn
  simp [CachedOperator.result, hn]

end Scratch

/-! ## What a call does to the memory of its user -/

section Effect

variable {α : Type} [Inhabited α] {K : AclnnLibrary α} {args : Nat → Nat} {op : CachedOp}

theorem runPlain_eq (ps : List PlainStep) (mem : DeviceMemory α) :
    runPlain K args ps mem = userPart (ps.foldl (PlainStep.run K args) (startVars mem)) := rfl

/-- One launch into an argument. -/
theorem runPlain_single {kernel : AclKernel} (hkernel : kernel.inPlace = false)
    (ins : List (AclTensorCache × TensorBase)) (desc : AclTensorCache) (i : Nat)
    (mem : DeviceMemory α) :
    runPlain K args [⟨kernel, ins, [(desc, .arg i)]⟩] mem =
      CachedOperator.assign K args desc i kernel (inputValues args (startVars mem) ins) mem :=
  (runPlain_eq ..).trans (userPart_run hkernel i)

/-- A launch into an argument, and another one. -/
theorem runPlain_pair (kernel : AclKernel) (hkernel : kernel.inPlace = false)
    (ins : List (AclTensorCache × TensorBase)) (desc : AclTensorCache) (i : Nat) (p : PlainStep)
    (mem : DeviceMemory α) :
    ∃ vars, userPart vars =
        CachedOperator.assign K args desc i kernel (inputValues args (startVars mem) ins) mem ∧
      runPlain K args [⟨kernel, ins, [(desc, .arg i)]⟩, p] mem =
        userPart (PlainStep.run K args vars p) :=
  ⟨_, userPart_run hkernel i, runPlain_eq ..⟩

/-- A launch into a scratch buffer, and whatever comes after. -/
theorem runPlain_scratch (kernel : AclKernel) (hkernel : kernel.inPlace = false)
    (ins : List (AclTensorCache × TensorBase)) {desc : AclTensorCache}
    (hstrides : RowMajorStrides desc.shape desc.strides) (s : Scratch) (ps : List PlainStep)
    (mem : DeviceMemory α) :
    ∃ vars, userPart vars = mem ∧
      readTensor desc ((TensorBase.scratch s).cell args) vars =
        CachedOperator.result K kernel (inputValues args (startVars mem) ins) desc ∧
      runPlain K args (⟨kernel, ins, [(desc, .scratch s)]⟩ :: ps) mem =
        userPart (ps.foldl (PlainStep.run K args) vars) :=
  ⟨_, userPart_run_scratch hkernel s, readTensor_run K args hkernel hstrides s _ _, runPlain_eq ..⟩

theorem linear_effect (k : LinearKernel) (mem : DeviceMemory α) :
    runPlain K args ((CachedOperator.linear k).plain op) mem =
      (CachedOperator.linear k).effect K args op mem := by
  obtain ⟨batched, bias, a, b, out, flat⟩ := k
  cases bias with
  | none => exact runPlain_single rfl _ _ _ _
  | some bias =>
    cases flat with
    | none => cases batched <;> exact runPlain_single rfl _ _ _ _
    | some flat =>
      obtain ⟨vars, huser, hrun⟩ := runPlain_pair (.matmul 1) rfl
        [(flat.a, .arg 0), (b, .arg 1)] flat.out 3
        ⟨.add (.float 1), [(flat.out, .arg 3), (bias, .arg 2)], [(flat.out, .arg 3)]⟩ mem
      refine hrun.trans ((userPart_run rfl 3).trans ?_)
      show CachedOperator.assign K args flat.out 3 _ [CachedOperator.value args (userPart vars) _ _,
        CachedOperator.value args (userPart vars) _ _] _ = _
      rw [huser]
      rfl

theorem cat_effect (inputs : List Tensor) (dim : Int) (out : Tensor) (mem : DeviceMemory α) :
    runPlain K args ((CachedOperator.cat inputs dim out).plain op) mem =
      (CachedOperator.cat inputs dim out).effect K args op mem := by
  refine (runPlain_single rfl _ _ _ _).trans ?_
  rw [inputValues, List.map_map]
  rfl

theorem siluAndMul_effect {input out : Tensor} {dim : Int}
    (h : SiluAndMul.new input dim out = .ok op) (mem : DeviceMemory α) :
    runPlain K args ((CachedOperator.siluAndMul input dim out).plain op) mem =
      (CachedOperator.siluAndMul input dim out).effect K args op mem := by
  simp only [SiluAndMul.new, bind_eq_ok] at h
  obtain ⟨inputCache, -, outCache, hout, h⟩ := h
  split at h
  · rename_i hcontiguous
    rw [CachedOperator.plain, if_pos hcontiguous]
    exact runPlain_single rfl _ _ _ _
  · rename_i hcontiguous
    cases h
    rw [CachedOperator.plain, if_neg hcontiguous]
    obtain ⟨vars, huser, hread, hrun⟩ := runPlain_scratch (.swiGlu dim) rfl [(inputCache, .arg 0)]
      (contiguous_rowMajor out.shape outCache.dtype) .staging
      [⟨.inplaceCopy, [(outCache, .arg 1),
        (.contiguous out.shape outCache.dtype, .scratch .staging)], []⟩] mem
    have hshape : out.shape = outCache.shape := by rw [(ofTensor_eq_ok hout).1]; rfl
    refine hrun.trans ((userPart_copy 1 hshape hread).trans ?_)
    rw [huser]
    rfl

theorem swiglu_effect {input gate out : Tensor}
    (hsized : (CachedOperator.swiglu input gate out).Sized) (h : Swiglu.new input gate out = .ok op)
    (mem : DeviceMemory α) :
    runPlain K args ((CachedOperator.swiglu input gate out).plain op) mem =
      (CachedOperator.swiglu input gate out).effect K args op mem := by
  simp only [Swiglu.new, bind_eq_ok, pure, Except.pure, Except.ok.injEq] at h
  obtain ⟨inCache, -, gateCache, -, outCache, -, tempCache, htemp, rfl⟩ := h
  have hstrides : RowMajorStrides tempCache.shape tempCache.strides := by
    rw [(ofTensor_eq_ok htemp).1]
    exact hsized.2.2
  obtain ⟨vars, huser, hread, hrun⟩ := runPlain_scratch .silu rfl [(gateCache, .arg 1)] hstrides .temp
    [⟨.mul, [(inCache, .arg 0), (tempCache, .scratch .temp)], [(outCache, .arg 2)]⟩] mem
  refine hrun.trans ((userPart_run rfl 2).trans ?_)
  show CachedOperator.assign K args outCache 2 .mul
    [CachedOperator.value args (userPart vars) inCache 0, readTensor tempCache _ vars] _ = _
  rw [hread, huser]
  rfl

theorem scaledSoftmax_effect {input out : Tensor} {scale : ℚ}
    (hsized : (CachedOperator.scaledSoftmax input scale out).Sized)
    (h : ScaledSoftmax.new input scale out = .ok op) (mem : DeviceMemory α) :
    runPlain K args ((CachedOperator.scaledSoftmax input scale out).plain op) mem =
      (CachedOperator.scaledSoftmax input scale out).effect K args op mem := by
  simp only [ScaledSoftmax.new, bind_eq_ok] at h
  obtain ⟨inCache, hin, outCache, -, -, -, -, -, -, -, h⟩ := h
  split at h
  · rename_i hneeds
    cases h
    have hstrides : RowMajorStrides inCache.shape inCache.strides := by
      rw [(ofTensor_eq_ok hin).1]
      exact hsized
    rw [CachedOperator.plain, if_pos hneeds]
    obtain ⟨vars, huser, hread, hrun⟩ := runPlain_scratch (.muls (.float scale)) rfl
      [(inCache, .arg 0)] hstrides .temp
      [⟨.softmax (-1), [(inCache, .scratch .temp)], [(outCache, .arg 1)]⟩] mem
    refine hrun.trans ((userPart_run rfl 1).trans ?_)
    show CachedOperator.assign K args outCache 1 _ [readTensor inCache _ vars] _ = _
    rw [hread, huser, CachedOperator.effect, if_pos hneeds]
    rfl
  · rename_i hneeds
    rw [CachedOperator.plain, if_neg hneeds, CachedOperator.effect, if_neg hneeds]
    exact runPlain_single rfl _ _ _ _

theorem swigluFused_effect {input gate out : Tensor} (h : SwigluFused.new input gate out = .ok op)
    (mem : DeviceMemory α) :
    runPlain K args ((CachedOperator.swigluFused input gate out).plain op) mem =
      (CachedOperator.swigluFused input gate out).effect K args op mem := by
  simp only [SwigluFused.new, bind_eq_ok] at h
  obtain ⟨gateCache, -, inCache, -, outCache, hout, h⟩ := h
  have hcat := contiguous_rowMajor (doubleLast input.shape) inCache.dtype
  split at h
  · rename_i hcontiguous
    cases h
    rw [CachedOperator.plain, if_pos hcontiguous]
    obtain ⟨vars, huser, hread, hrun⟩ := runPlain_scratch (.cat (out.ndim - 1)) rfl
      [(gateCache, .arg 1), (inCache, .arg 0)] hcat .temp
      [⟨.swiGlu (out.ndim - 1), [(.contiguous (doubleLast input.shape) inCache.dtype,
        .scratch .temp)], [(outCache, .arg 2)]⟩] mem
    refine hrun.trans ((userPart_run rfl 2).trans ?_)
    show CachedOperator.assign K args outCache 2 _ [readTensor _ _ vars] _ = _
    rw [hread, huser]
    rfl
  · rename_i hcontiguous
    cases h
    rw [CachedOperator.plain, if_neg hcontiguous]
    obtain ⟨vars, huser, hread, hrun⟩ := runPlain_scratch (.cat (out.ndim - 1)) rfl
      [(gateCache, .arg 1), (inCache, .arg 0)] hcat .temp
      [⟨.swiGlu (out.ndim - 1), [(.contiguous (doubleLast input.shape) inCache.dtype,
          .scratch .temp)], [(.contiguous out.shape outCache.dtype, .scratch .staging)]⟩,
        ⟨.inplaceCopy, [(outCache, .arg 2),
          (.contiguous out.shape outCache.dtype, .scratch .staging)], []⟩] mem
    have hshape : out.shape = outCache.shape := by rw [(ofTensor_eq_ok hout).1]; rfl
    have hswiGlu : AclKernel.inPlace (.swiGlu (out.ndim - 1)) = false := rfl
    have hstaged := readTensor_run K args hswiGlu (contiguous_rowMajor out.shape outCache.dtype)
      .staging vars [(.contiguous (doubleLast input.shape) inCache.dtype, .scratch .temp)]
    refine hrun.trans ((userPart_copy 2 hshape hstaged).trans ?_)
    rw [userPart_run_scratch rfl, huser]
    show CachedOperator.assign K args outCache 2 _ [readTensor _ _ vars] _ = _
    rw [hread]
    rfl

theorem rmsNorm_effect (input weight : Tensor) (eps : ℚ) (out : Tensor) (mem : DeviceMemory α) :
    runPlain K args ((CachedOperator.rmsNorm input weight eps out).plain op) mem =
      (CachedOperator.rmsNorm input weight eps out).effect K args op mem :=
  (runPlain_eq ..).trans (userPart_run_side rfl 2 (op.desc 3) .temp)

theorem addRmsNorm_effect (input residual weight : Tensor) (eps : ℚ) (out residualOut : Tensor)
    (mem : DeviceMemory α) :
    runPlain K args ((CachedOperator.addRmsNorm input residual weight eps out residualOut).plain op)
        mem =
      (CachedOperator.addRmsNorm input residual weight eps out residualOut).effect K args op mem := by
  obtain ⟨vars, huser, hrun⟩ := runPlain_pair (.add (.float 1)) rfl
    [(op.desc 0, .arg 0), (op.desc 1, .arg 1)] (op.desc 4) 4
    ⟨.rmsNorm eps, [(op.desc 4, .arg 4), (op.desc 2, .arg 2)],
      [(op.desc 3, .arg 3), (op.desc 5, .scratch .temp)]⟩ mem
  refine hrun.trans ((userPart_run_side rfl 3 (op.desc 5) .temp).trans ?_)
  show CachedOperator.assign K args _ 3 _ [CachedOperator.value args (userPart vars) _ _,
    CachedOperator.value args (userPart vars) _ _] _ = _
  rw [huser]
  rfl

/-- A plain program amounts to the operator's assignments. -/
theorem runPlain_effect {x : CachedOperator} (h : x.new = .ok op) (hsized : x.Sized)
    (mem : DeviceMemory α) : runPlain K args (x.plain op) mem = x.effect K args op mem := by
  cases x with
  | add input other out => exact runPlain_single rfl _ _ _ _
  | mul input other out => exact runPlain_single rfl _ _ _ _
  | cast input out => exact runPlain_single rfl _ _ _ _
  | embedding inputIds weight out => exact runPlain_single rfl _ _ _ _
  | matmul a b c transA transB => exact runPlain_single rfl _ _ _ _
  | gemm k => exact runPlain_single (by cases k.batched <;> rfl) _ _ _ _
  | linear k => exact linear_effect k mem
  | cat inputs dim out => exact cat_effect inputs dim out mem
  | siluAndMul input dim out => exact siluAndMul_effect h mem
  | swiglu input gate out => exact swiglu_effect hsized h mem
  | swigluFused input gate out => exact swigluFused_effect h mem
  | scaledSoftmax input scale out => exact scaledSoftmax_effect hsized h mem
  | rmsNorm input weight eps out => exact rmsNorm_effect input weight eps out mem
  | addRmsNorm input residual weight eps out residualOut =>
    exact addRmsNorm_effect input residual weight eps out residualOut mem

end Effect

/-- Whatever happens on the device between its calls, the memory of the user
changes as if every call were an assignment of what its operator computes:
no executor, descriptor or buffer that the instances share is seen. -/
theorem cached_run_eq_effects {α : Type} [Inhabited α] (K : AclnnLibrary α) {user : Set Int}
    {xs : Nat → CachedOperator} {ops : Nat → CachedOp} (hnew : ∀ i, (xs i).new = .ok (ops i))
    (hsized : ∀ i, (xs i).Sized) {es : List (DeviceEvent α)}
    (hes : ∀ e ∈ es, e.Ok user fun i => (xs i).plain (ops i)) (mem : DeviceMemory α) :
    ∀ a ∈ user, (es.foldl (Device.apply K ops) { mem }).mem a =
      es.foldl (DeviceEvent.effect K xs ops) mem a := by
  have hplain : ∀ e ∈ es, ∀ m, e.plain K (fun i => (xs i).plain (ops i)) m =
      e.effect K xs ops m := by
    intro e _ m
    cases e with
    | call i c => exact runPlain_effect (hnew i) (hsized i) m
    | request c => rfl
    | other f => rfl
  have hagree := runs_agree K (fun i => carries (hnew i) (hsized i)) hes (agree_new mem)
  rw [List.foldl_ext _ _ mem fun m e he => hplain e he m] at hagree
  exact hagree.memory

/-! ## A staged output -/

namespace StagedSwiglu

/-- Blocks above 2000, away from what is below. -/
def malloc : Malloc := fun heap n => (Malloc.bump heap n).map (· + 2000)

theorem malloc_serves : malloc.Serves {a | 1000 ≤ a ∧ a < 2000} where
  fresh heap n base hbase e he := by
    obtain ⟨low, hlow, rfl⟩ := Option.map_eq_some_iff.mp hbase
    have hle : e.1 + e.2 ≤ heap.extents.sup fun e => e.1 + e.2 :=
      Finset.le_sup (f := fun e : Nat × Nat => e.1 + e.2) he
    cases hlow
    refine .inr ?_
    show e.1 + e.2 ≤ _
    omega
  succeeds heap n := ⟨_, rfl⟩
  avoids heap n base hbase a ha := by
    obtain ⟨low, -, rfl⟩ := Option.map_eq_some_iff.mp hbase
    have hhigh : a < 2000 := ha.2
    push_cast
    omega

/-- Every function but the copy adds all elements, and the position. -/
def library : AclnnLibrary Int where
  compute kernel ins _ n :=
    match kernel, ins with
    | .inplaceCopy, [_, src] => src.elements.getD n 0
    | _, _ => (ins.flatMap TensorValue.elements).sum + n
  copies _ src n x hx := by simp [hx]

/-- Two elements, the output with a gap. -/
def operator : CachedOperator :=
  .swigluFused ⟨1000, [2], .kFloat16, {}, [1]⟩ ⟨1010, [2], .kFloat16, {}, [1]⟩
    ⟨1020, [2], .kFloat16, {}, [2]⟩

def op : CachedOp := (operator.new.toOption).getD { descs := [], steps := [] }

def call : DeviceCall Int where
  thread := 0
  stream := 7
  args i := 1000 + 10 * i
  wsSize _ := 16
  malloc := malloc
  noise _ _ := -1

/-- Between two calls, somebody asks for a larger buffer, and the first
element of the gate is changed. -/
def events : List (DeviceEvent Int) :=
  [.call 0 call, .request ⟨1, 7, 512, tempSlot, malloc⟩, .other fun mem => Function.update mem 1010 0,
    .call 0 call]

/-- Two elements at one of the addresses. -/
theorem pair_ofUser {stride : Int} (hlow : 0 ≤ stride) (hhigh : stride ≤ 2) {i : Nat} (hi : i < 3)
    (storage : List Int) {idx : List Nat} (hidx : Valid [2] idx) :
    (call.args i + (AclDataType.float16.bytes : Int) *
      AclTensorCache.offset ⟨[2], [stride], storage, .float16⟩ idx) ∈
        {a : Int | 1000 ≤ a ∧ a < 2000} := by
  obtain ⟨k, rest, hk, hrest, rfl⟩ := List.forall₂_cons_right_iff.mp hidx
  rw [List.forall₂_nil_right_iff.mp hrest]
  have hbound : (k : Int) * stride ≤ 2 := by
    have hone : (k : Int) ≤ 1 := by omega
    calc (k : Int) * stride ≤ 1 * 2 := Int.mul_le_mul hone hhigh hlow (by decide)
      _ = 2 := rfl
  have hnonneg : 0 ≤ (k : Int) * stride := Int.mul_nonneg (Int.natCast_nonneg k) hlow
  show 1000 ≤ ((1000 + 10 * i : Nat) : Int) + 2 * (k * stride + 0) ∧
    ((1000 + 10 * i : Nat) : Int) + 2 * (k * stride + 0) < 2000
  push_cast
  omega

theorem ofUser : ∀ p ∈ operator.plain op, p.OfUser {a | 1000 ≤ a ∧ a < 2000} call.args := by
  have hplain : operator.plain op =
      [⟨.cat 0, [(⟨[2], [1], [2], .float16⟩, .arg 1), (⟨[2], [1], [2], .float16⟩, .arg 0)],
          [(.contiguous [4] .float16, .scratch .temp)]⟩,
        ⟨.swiGlu 0, [(.contiguous [4] .float16, .scratch .temp)],
          [(.contiguous [2] .float16, .scratch .staging)]⟩,
        ⟨.inplaceCopy, [(⟨[2], [2], [3], .float16⟩, .arg 2),
          (.contiguous [2] .float16, .scratch .staging)], []⟩] := rfl
  rw [hplain]
  intro p hp desc i hmem idx hidx
  simp only [List.mem_cons, List.not_mem_nil, or_false] at hp
  rcases hp with rfl | rfl | rfl
  · simp only [List.cons_append, List.nil_append, List.mem_cons, List.not_mem_nil, or_false,
      Prod.mk.injEq, reduceCtorEq, and_false] at hmem
    rcases hmem with ⟨rfl, harg⟩ | ⟨rfl, harg⟩
    · cases harg
      exact pair_ofUser (by decide) (by decide) (by decide) _ hidx
    · cases harg
      exact pair_ofUser (by decide) (by decide) (by decide) _ hidx
  · simp at hmem
  · simp only [List.append_nil, List.mem_cons, List.not_mem_nil, or_false, Prod.mk.injEq,
      reduceCtorEq, and_false] at hmem
    obtain ⟨rfl, harg⟩ := hmem
    cases harg
    exact pair_ofUser (by decide) (by decide) (by decide) _ hidx

theorem events_ok : ∀ e ∈ events, e.Ok {a | 1000 ≤ a ∧ a < 2000} fun _ => operator.plain op := by
  intro e he
  simp only [events, List.mem_cons, List.not_mem_nil, or_false] at he
  rcases he with rfl | rfl | rfl | rfl
  · exact ⟨malloc_serves, ofUser⟩
  · exact malloc_serves
  · intro mem mem' hsame a ha
    show Function.update mem 1010 0 a = Function.update mem' 1010 0 a
    by_cases hgate : a = 1010
    · rw [hgate, Function.update_self, Function.update_self]
    · rw [Function.update_of_ne hgate, Function.update_of_ne hgate, hsame a ha]
  · exact ⟨malloc_serves, ofUser⟩

/-- 1000, 1002, 0 and 1012 are joined and added up twice. -/
theorem cached_run_eq_effects_staged :
    (events.foldl (Device.apply library fun _ => op) { mem := id }).mem 1024 = 12063 := by
  have hrun := @cached_run_eq_effects _ _ library _ (fun _ => operator) (fun _ => op) (fun _ => rfl)
    (fun _ => trivial) _ events_ok id 1024 ⟨by decide, by decide⟩
  exact hrun.trans (by decide)

end StagedSwiglu

end InfiniOps.Ascend
