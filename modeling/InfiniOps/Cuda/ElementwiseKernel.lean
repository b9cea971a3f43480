/-
InfiniOps.Cuda.ElementwiseKernel — `CudaAdd` and `CudaSwiglu`
(`src/native/cuda/ops/add`, `src/native/cuda/ops/swiglu`).

Host and device: the constructor copies shapes and strides to the device,
the call launches one thread per element, and a thread reads its two
operands and writes one element. Arithmetic is that of the device, one
function for each class of types.

`launch_ends`: in whatever order the threads read and write, they leave the
scalar function of the operands in `out`, and nothing else is touched.
-/
import InfiniOps.Cpu.Elementwise
import InfiniOps.Cuda.ElementwiseLaunch
import InfiniOps.Cuda.KernelLaunch

namespace InfiniOps.Cuda

open Cpu Grid RowMajor Softmax

/-! ## Device functions -/

/-- The arithmetic of the device on values of an element type, with `float`
beside it. -/
structure DeviceArith (V F : Type) where
  add : V → V → V
  mul : V → V → V
  hadd : V → V → V
  toFloat : V → F
  ofFloat : F → V
  one : F
  faddRn : F → F → F
  fmulRn : F → F → F
  frcpRn : F → F
  fadd : F → F → F
  fdiv : F → F → F
  neg : F → F
  fastExpf : F → F
  expf : F → F

namespace DeviceArith

variable {V F : Type} (dev : DeviceArith V F)

/-- `AddOp`. -/
def addOp (dtype : DataType) (input other : V) : V :=
  if dtype ∈ reducedFloatTypes then dev.hadd input other
  else if dtype = .kFloat32 then dev.ofFloat (dev.faddRn (dev.toFloat input) (dev.toFloat other))
  else dev.add input other

/-- `Sigmoid` of a `float`, in the fast functions. -/
def fastSigmoid (x : F) : F := dev.frcpRn (dev.faddRn dev.one (dev.fastExpf (dev.neg x)))

/-- The element that `SwigluKernel` writes, from `up` and `gate`. -/
def swigluOp (dtype : DataType) (up gate : V) : V :=
  if dtype ∈ reducedFloatTypes ∨ dtype = .kFloat32 then
    let gatef := dev.toFloat gate
    dev.ofFloat (dev.fmulRn (dev.fmulRn gatef (dev.fastSigmoid gatef)) (dev.toFloat up))
  else
    let sigmoid := dev.ofFloat (dev.fdiv dev.one
      (dev.fadd dev.one (dev.expf (dev.neg (dev.toFloat gate)))))
    dev.mul (dev.mul gate sigmoid) up

end DeviceArith

/-! ## Host -/

/-- What one of the two operators is made of: the checks of its base class,
its dispatch and its scalar function. -/
structure CudaElementwise (V : Type) extends ElementwiseOp V where
  types_nonempty : types ≠ []

section Operators

variable {V F : Type} (dev : DeviceArith V F)

/-- `CudaAdd`. -/
def cudaAdd : CudaElementwise V where
  broadcastMessage := some "the output of `Add` should NOT have broadcasted dim!"
  dtypeMessage := "operator `Add` requires all input and output Tensors to have the same dtype"
  types := allTypes
  context := "CudaAdd::operator()"
  scalar := dev.addOp
  types_nonempty := List.cons_ne_nil _ _

/-- `CudaSwiglu`. -/
def cudaSwiglu : CudaElementwise V where
  broadcastMessage := none
  dtypeMessage := "operator `Swiglu` requires all input and output tensors to have the same dtype"
  types := allFloatTypes
  context := "CudaSwiglu::operator()"
  scalar := dev.swigluOp
  types_nonempty := List.cons_ne_nil _ _

end Operators

/-- The arrays that the constructor copies to `d_metadata_`: `ndim_` words
of each shape, then of each stride array. -/
def metadataArrays (m : Elementwise) : List (List Int) :=
  [m.inputShape, m.otherShape, m.outShape].map (fun shape => (shape.take m.ndim).map Int.ofNat)
    ++ [m.inputStrides, m.otherStrides, m.outStrides].map (List.take m.ndim)

/-- `ndim_` words of `d_metadata_`, behind those of `k` arrays. -/
def deviceArray (m : Elementwise) (k : Nat) : List Int :=
  ((metadataArrays m).flatten.drop (k * m.ndim)).take m.ndim

/-- `d_input_shape_`, `d_other_shape_` and `d_out_shape_`. -/
def deviceShape (m : Elementwise) (k : Nat) : List Nat := (deviceArray m k).map Int.toNat

/-- `d_input_strides_`, `d_other_strides_` and `d_out_strides_`. -/
def deviceStrides (m : Elementwise) (k : Nat) : List Int := deviceArray m (3 + k)

/-! ## Kernels -/

section Kernel

variable {V : Type}

/-- The index of an operand, by its own arrays on the device. -/
def deviceIndex (m : Elementwise) (idx k : Nat) (contiguous : Bool) : Nat :=
  if contiguous then idx else indexToOffset idx m.ndim (deviceShape m k) (deviceStrides m k)

/-- `AddKernel` and `SwigluKernel`. -/
def elementwiseKernel (m : Elementwise) (dtype : DataType) (scalar : V → V → V)
    (input other out : Tensor) (dims : LaunchDims) (t : Thread) : Prog Int V (Collective V) :=
  let idx := dims.index t
  if idx < m.outputSize then
    let outIdx := deviceIndex m idx 2 m.isOutContiguous
    let inputIdx := deviceIndex m idx 0 m.isInputContiguous
    let otherIdx := deviceIndex m idx 1 m.isOtherContiguous
    .read (Elementwise.elementAddress input.data dtype inputIdx) fun x =>
    .read (Elementwise.elementAddress other.data dtype otherIdx) fun y =>
    .write (Elementwise.elementAddress out.data dtype outIdx) (scalar x y) .stop
  else .stop

/-- The launch of the kernel. -/
def elementwiseGrid (m : Elementwise) (dtype : DataType) (scalar : V → V → V)
    (input other out : Tensor) (dims : LaunchDims) : Launch Int V where
  gridX := dims.gridDim
  gridY := 1
  blockDim := dims.blockDim
  kernel b t := elementwiseKernel m dtype scalar input other out dims ⟨b.1, t⟩

/-- What is invoked for a type and a block size: the launch, `none` if its
grid divides by zero. -/
def CudaElementwise.functor (op : CudaElementwise V) (m : Elementwise) (blockSize : Nat)
    (input other out : Tensor) : Functor (Option (Launch Int V)) :=
  .total fun items => do
    let dtype ← op.types.find? fun (t : DataType) => t.code = items.getD 0 0
    let dims ← elementwiseLaunch blockSize m.outputSize
    return elementwiseGrid m dtype (op.scalar dtype) input other out dims

/-- Construct the operator and call it. -/
def CudaElementwise.launch (op : CudaElementwise V) (d : CudaDevice) (input other out : Tensor) :
    Except Failure (Option (Launch Int V)) := do
  let members ← op.toElementwiseOp.new input other out
  let blockSize := getOptimalBlockSize d.maxThreads
  (dispatchKeys (op.functor members blockSize input other out) op.context
    [.ofDataTypes op.types op.types_nonempty, cudaBlockSizes]
    [members.outType.code, blockSize]).ending

end Kernel

/-! ## Where a thread reads and writes -/

theorem take_drop_flatten {α : Type} {n : Nat} {arrays : List (List α)}
    (hlen : ∀ a ∈ arrays, a.length = n) {k : Nat} (hk : k < arrays.length) :
    (arrays.flatten.drop (k * n)).take n = arrays[k] := by
  induction arrays generalizing k with
  | nil => cases hk
  | cons a arrays ih =>
    have ha := hlen a List.mem_cons_self
    rw [List.flatten_cons]
    cases k with
    | zero => rw [Nat.zero_mul, List.drop_zero, ← ha, List.take_left, List.getElem_cons_zero]
    | succ k =>
      have hdrop : (k + 1) * n = a.length + k * n := by
        rw [ha, Nat.succ_mul, Nat.add_comm]
      rw [hdrop, List.drop_length_add_append, List.getElem_cons_succ]
      exact ih (fun b hb => hlen b (List.mem_cons_of_mem a hb)) (Nat.lt_of_succ_lt_succ hk)

section Addresses

variable (x : Operands)

/-- The operands in the order of their arrays. -/
def operand (x : Operands) : Nat → StoredTensor
  | 0 => x.input
  | 1 => x.other
  | _ => x.out

theorem operand_shape (k : Nat) : (operand x k).shape = x.out.shape := by
  unfold operand
  split
  · exact x.input_shape
  · exact x.other_shape
  · rfl

theorem operand_strides_length (k : Nat) :
    (operand x k).strides.length = x.out.shape.length :=
  (operand x k).rank_eq.trans (congrArg List.length (operand_shape x k))

theorem metadataArrays_members : metadataArrays x.members
    = [(operand x 0).shape.map Int.ofNat, (operand x 1).shape.map Int.ofNat,
        (operand x 2).shape.map Int.ofNat, (operand x 0).strides, (operand x 1).strides,
        (operand x 2).strides] := by
  have hshape : ∀ k, (operand x k).shape.take x.out.ndim = (operand x k).shape := fun k => by
    rw [operand_shape x k, Tensor.ndim, List.take_length]
  have hstrides : ∀ k, (operand x k).strides.take x.out.ndim = (operand x k).strides := fun k => by
    rw [Tensor.ndim, ← operand_strides_length x k, List.take_length]
  have hshapes := congrArg₂ List.cons (congrArg (List.map Int.ofNat) (hshape 0))
    (congrArg₂ List.cons (congrArg (List.map Int.ofNat) (hshape 1))
      (congrArg₂ List.cons (congrArg (List.map Int.ofNat) (hshape 2)) (Eq.refl [])))
  have hall := congrArg₂ List.cons (hstrides 0)
    (congrArg₂ List.cons (hstrides 1) (congrArg₂ List.cons (hstrides 2) (Eq.refl [])))
  exact congrArg₂ (· ++ ·) hshapes hall

/-- An array on the device is the operand's. -/
theorem deviceArray_members {k : Nat} (hk : k < 3) :
    deviceShape x.members k = (operand x k).shape ∧
      deviceStrides x.members k = (operand x k).strides := by
  have hlen : ∀ a ∈ metadataArrays x.members, a.length = x.members.ndim := by
    have hndim : x.members.ndim = x.out.shape.length := rfl
    rw [metadataArrays_members]
    intro a ha
    simp only [List.mem_cons, List.not_mem_nil, or_false] at ha
    rcases ha with rfl | rfl | rfl | rfl | rfl | rfl <;>
      simp only [List.length_map, operand_shape, operand_strides_length, hndim]
  have hget : ∀ j (hj : j < (metadataArrays x.members).length),
      deviceArray x.members j = (metadataArrays x.members)[j] := fun j hj =>
    take_drop_flatten hlen hj
  have hcast : ∀ shape : List Nat, (shape.map Int.ofNat).map Int.toNat = shape := fun shape => by
    rw [List.map_map]
    exact List.map_id' shape
  simp only [metadataArrays_members] at hget
  rw [deviceShape, deviceStrides]
  obtain rfl | rfl | rfl : k = 0 ∨ k = 1 ∨ k = 2 := by omega
  · exact ⟨(congrArg _ (hget 0 (by simp))).trans (hcast _), hget 3 (by simp)⟩
  · exact ⟨(congrArg _ (hget 1 (by simp))).trans (hcast _), hget 4 (by simp)⟩
  · exact ⟨(congrArg _ (hget 2 (by simp))).trans (hcast _), hget 5 (by simp)⟩

/-- A thread finds the element of its index in every operand. -/
theorem elementAddress_deviceIndex {k : Nat} (hk : k < 3) {i : Nat} (hi : i < x.out.shape.prod) :
    Elementwise.elementAddress (operand x k).data (operand x k).dtype
        (deviceIndex x.members i k (operand x k).isContiguous)
      = (operand x k).address (unravel x.out.shape i) := by
  obtain ⟨hshape, hstrides⟩ := deviceArray_members x hk
  have hindex : deviceIndex x.members i k (operand x k).isContiguous
      = x.members.getIdx i (operand x k).isContiguous (operand x k).shape
          (operand x k).strides := by
    rw [deviceIndex, Elementwise.getIdx, hshape, hstrides]
  rw [hindex]
  exact Elementwise.elementAddress_getIdx (operand_shape x k) rfl hi

end Addresses

/-! ## The threads of the launch -/

/-- An element of one of the operands. -/
def IsElement (x : Operands) (a : Int) : Prop :=
  ∃ k < 3, ∃ idx ∈ indices x.out.shape, (operand x k).address idx = a

instance (x : Operands) (a : Int) : Decidable (IsElement x a) :=
  inferInstanceAs (Decidable (∃ k < 3, _))

/-- The elements of the operands, and nothing else. -/
def allocated {V : Type} (x : Operands) (mem : Memory V) : Mem Int V := fun a =>
  if IsElement x a then some (mem a) else none

section Threads

variable {V : Type} (x : Operands) (f : V → V → V) (dims : LaunchDims)

/-- The address of the element of operand `k` at a flat index. -/
def cell (k i : Nat) : Int := (operand x k).address (unravel x.out.shape i)

/-- The element that a thread handles. -/
def handles (t : Thread) : Option Nat := dims.handled x.out.shape.prod t

/-- What a thread reads. -/
def reads (t : Thread) : Set Int := {a | ∃ i ∈ handles x dims t, a = cell x 0 i ∨ a = cell x 1 i}

/-- What a thread writes. -/
def writes (t : Thread) : Set Int := {a | ∃ i ∈ handles x dims t, a = cell x 2 i}

variable {x f dims}

theorem handles_lt {t : Thread} {i : Nat} (h : i ∈ handles x dims t) : i < x.out.shape.prod :=
  (LaunchDims.lt_of_handled h).1

theorem allocated_cell (mem : Memory V) {k i : Nat} (hk : k < 3) (hi : i < x.out.shape.prod) :
    allocated x mem (cell x k i) = some (mem (cell x k i)) := by
  have hvalid := unravel_valid (Nat.zero_lt_of_lt hi) i
  exact if_pos ⟨k, hk, _, mem_indices.mpr hvalid, rfl⟩

/-- A thread alone writes the element that it handles. -/
theorem solo_kernel {mem mem' : Memory V} (hinput : x.input.dtype = x.out.dtype)
    (hother : x.other.dtype = x.out.dtype) (hmem : Computes f x mem mem') (t : Thread) :
    ∃ own, Solo (reads x dims t) (writes x dims t) (allocated x mem)
        (elementwiseKernel x.members x.out.dtype f x.input.toTensor x.other.toTensor
          x.out.toTensor dims t) (if (handles x dims t).isSome then 3 else 0) own .stop ∧
      ∀ a ∈ writes x dims t, own a = allocated x mem' a := by
  rw [elementwiseKernel, x.outputSize_members]
  by_cases hlt : dims.index t < x.out.shape.prod
  · have hhandles : handles x dims t = some (dims.index t) := if_pos hlt
    have haddress : ∀ k < 3, (operand x k).dtype = x.out.dtype →
        Elementwise.elementAddress (operand x k).data x.out.dtype
          (deviceIndex x.members (dims.index t) k (operand x k).isContiguous)
        = cell x k (dims.index t) := fun k hk hdtype =>
      hdtype ▸ elementAddress_deviceIndex x hk hlt
    have hin := haddress 0 (by decide) hinput
    have hoth := haddress 1 (by decide) hother
    have hout := haddress 2 (by decide) rfl
    have hvalid := unravel_valid (Nat.zero_lt_of_lt hlt) (dims.index t)
    rw [if_pos hlt, hhandles, Option.isSome_some, if_pos rfl]
    refine ⟨Function.update (allocated x mem) (cell x 2 (dims.index t))
      (some (f (mem (cell x 0 (dims.index t))) (mem (cell x 1 (dims.index t))))), ?_, ?_⟩
    · refine .read ⟨_, hhandles, .inl hin⟩ ((congrArg _ hin).trans
        (allocated_cell mem (by decide) hlt)) (.read ⟨_, hhandles, .inr hoth⟩
          ((congrArg _ hoth).trans (allocated_cell mem (by decide) hlt))
          (.write ⟨_, hhandles, hout⟩ ?_ ?_))
      · exact (congrArg Option.isSome ((congrArg _ hout).trans
          (allocated_cell mem (by decide) hlt))).trans rfl
      · exact hout ▸ .stop _
    · rintro a ⟨i, hi, rfl⟩
      obtain rfl := Option.some.inj (hhandles.symm.trans hi)
      rw [Function.update_self, allocated_cell mem' (by decide) hlt]
      exact congrArg some (hmem.element _ hvalid).symm
  · have hhandles : handles x dims t = none := if_neg hlt
    rw [if_neg hlt, hhandles]
    refine ⟨allocated x mem, .stop _, ?_⟩
    rintro a ⟨i, hi, -⟩
    rw [hhandles] at hi
    cases hi

/-- No thread reads an element of `out`. -/
theorem ne_out_of_reads {t : Thread} {a : Int} (ha : a ∈ reads x dims t) {idx : List Nat}
    (hidx : Valid x.out.shape idx) : a ≠ x.out.address idx := by
  have hnot : ∀ {s : StoredTensor} {j : Nat}, s.shape = x.out.shape → Separate s.toTensor
      x.out.toTensor → j < x.out.shape.prod → s.address (unravel x.out.shape j)
        ≠ x.out.address idx := fun hshape hsep hj =>
    hsep _ _ (hshape ▸ unravel_valid (Nat.zero_lt_of_lt hj) _) hidx
  obtain ⟨j, hj, rfl | rfl⟩ := ha
  · exact hnot x.input_shape x.input_separate (handles_lt hj)
  · exact hnot x.other_shape x.other_separate (handles_lt hj)

/-- Only the thread of an element needs what it writes. -/
theorem eq_of_writes (hcovers : Covers (some dims) x.out.shape.prod) {t t' : Thread}
    (ht : dims.HasThread t) (ht' : dims.HasThread t') {a : Int} (ha : a ∈ writes x dims t)
    (ha' : a ∈ reads x dims t' ∨ a ∈ writes x dims t') : t = t' := by
  obtain ⟨i, hi, rfl⟩ := ha
  have hvalid := unravel_valid (Nat.zero_lt_of_lt (handles_lt hi)) i
  rcases ha' with hreads | ⟨j, hj, heq⟩
  · exact absurd rfl (ne_out_of_reads hreads hvalid)
  · have hvalid' := unravel_valid (Nat.zero_lt_of_lt (handles_lt hj)) j
    obtain rfl := unravel_inj (handles_lt hi) (handles_lt hj)
      (Tensor.address_inj x.injective hvalid hvalid' heq)
    obtain ⟨d, hd, hall, -⟩ := hcovers
    obtain rfl := Option.some.inj hd
    obtain ⟨u, -, hunique⟩ := hall i (handles_lt hi)
    exact (hunique t ⟨ht, hi⟩).trans (hunique t' ⟨ht', hj⟩).symm

/-- Where no element of `out` is, both memories are the same. -/
theorem allocated_frame {mem mem' : Memory V} (hmem : Computes f x mem mem') {a : Int}
    (ha : ∀ idx, Valid x.out.shape idx → a ≠ x.out.address idx) :
    allocated x mem a = allocated x mem' a := by
  unfold allocated
  rw [hmem.frame a ha]

end Threads

/-! ## The launch -/

section Launch

variable {V : Type} {x : Operands} {f : V → V → V} {dims : LaunchDims}

/-- In any order, the threads leave the scalar function in `out` and the
rest of memory as it is. -/
theorem elementwiseGrid_ends {mem mem' : Memory V} (hinput : x.input.dtype = x.out.dtype)
    (hother : x.other.dtype = x.out.dtype) (hmem : Computes f x mem mem')
    (hcovers : Covers (some dims) x.out.shape.prod) (hpos : 0 < dims.blockDim) :
    (elementwiseGrid x.members x.out.dtype f x.input.toTensor x.other.toTensor x.out.toTensor
      dims).Ends (allocated x mem) (· = allocated x mem') := by
  have hthread : ∀ (b : Fin dims.gridDim × Fin 1) (t : Fin dims.blockDim),
      dims.HasThread ⟨b.1, t⟩ := fun b t => ⟨b.1.isLt, t.isLt⟩
  have hnonempty : Nonempty (Fin dims.blockDim) := ⟨⟨0, hpos⟩⟩
  choose own hsolo hown using fun t : Thread =>
    @solo_kernel V x f dims mem mem' hinput hother hmem t
  let inBlock (b : Fin dims.gridDim × Fin 1) (cells : Thread → Set Int) : Set Int :=
    {a | ∃ t : Fin dims.blockDim, a ∈ cells ⟨b.1, t⟩}
  refine Launch.ends_of_blocks hpos
    (F := fun b => inBlock b fun t => reads x dims t ∪ writes x dims t)
    (W := fun b => inBlock b (writes x dims))
    (P := fun b final => ∀ a ∈ inBlock b (writes x dims), final a = allocated x mem' a)
    (n := fun b => (∑ t : Fin dims.blockDim,
      if (handles x dims ⟨b.1, t⟩).isSome then 3 else 0) + 0) ?_ ?_ ?_
  · rintro b b' hne a ⟨t, ht⟩ ⟨t', ht'⟩
    have heq := eq_of_writes hcovers (hthread b t) (hthread b' t') ht ht'
    refine hne (Prod.ext (Fin.ext (congrArg Thread.blockIdx heq))
      (@Subsingleton.elim (Fin 1) _ _ _))
  · intro b
    refine Block.Ends.phase (τ := Fin dims.blockDim) (R := fun t => reads x dims ⟨b.1, t⟩)
      (W := fun t => writes x dims ⟨b.1, t⟩) (q := fun _ => .stop) ?_ (fun t a ha => ⟨t, ha⟩) (fun t a ha => ⟨t, ha⟩) (fun t => hsolo ⟨b.1, t⟩)
      (fun t => hown ⟨b.1, t⟩) ?_ (.stop (fun _ => rfl) ?_)
    · intro t t' hne a ha
      refine not_or.mp fun ha' => hne ?_
      have heq := eq_of_writes hcovers (hthread b t) (hthread b t') ha ha'
      exact Fin.ext (congrArg Thread.threadIdx heq)
    · rintro a ⟨t, ha | ha⟩ hout
      · exact allocated_frame hmem fun idx hidx => ne_out_of_reads ha hidx
      · exact absurd ha (hout t)
    · rintro mem₁ hagree a ⟨t, ha⟩
      exact (hagree a ⟨t, .inr ha⟩).symm
  · intro final hblocks hframe
    funext a
    by_cases ha : ∃ b, a ∈ inBlock b (writes x dims)
    · obtain ⟨b, hb⟩ := ha
      exact hblocks b a hb
    · rw [hframe a fun b hb => ha ⟨b, hb⟩]
      refine allocated_frame hmem fun idx hidx heq => ha ?_
      obtain ⟨d, hd, hall, -⟩ := hcovers
      obtain rfl := Option.some.inj hd
      obtain ⟨t, ⟨ht, hi⟩, -⟩ := hall _ (ravel_lt hidx)
      refine ⟨(⟨t.blockIdx, ht.1⟩, (0 : Fin 1)), ⟨t.threadIdx, ht.2⟩, _, hi, heq.trans ?_⟩
      exact congrArg x.out.address (unravel_ravel hidx).symm

end Launch

/-! ## The call -/

section Call

variable {V : Type} (op : CudaElementwise V) (d : CudaDevice)

/-- With members, the call launches the kernel for a type of the dispatch. -/
theorem launch_of_new {input other out : Tensor} {members : Elementwise} {dims : LaunchDims}
    (hnew : op.toElementwiseOp.new input other out = .ok members)
    (htype : members.outType ∈ op.types)
    (hdims : elementwiseLaunch (getOptimalBlockSize d.maxThreads) members.outputSize = some dims) :
    op.launch d input other out = .ok (some (elementwiseGrid members members.outType
      (op.scalar members.outType) input other out dims)) := by
  have hdispatch := dispatchKeys_types (d := d)
    (f := op.functor members (getOptimalBlockSize d.maxThreads) input other out)
    (fun _ _ => rfl) op.context op.types_nonempty htype
  have hfunctor : (op.functor members (getOptimalBlockSize d.maxThreads) input other out).call
      [members.outType.code, getOptimalBlockSize d.maxThreads]
      = some (elementwiseGrid members members.outType (op.scalar members.outType) input other out
          dims) := by
    simp only [CudaElementwise.functor, Functor.total, List.getD_cons_zero, find_code htype, hdims]
    rfl
  rw [CudaElementwise.launch, hnew]
  exact (congrArg Run.ending hdispatch).trans (congrArg Except.ok hfunctor)

/-- The call launches a grid that the device takes and whose threads, in any
order, leave what a CPU operator with the same scalar function leaves. -/
def CudaElementwise.Agrees : Prop :=
  ∀ d : CudaDevice, 2 ^ 25 ≤ d.maxGridX → 0 < d.maxGridY →
    ∀ (x : Operands) (mem : Memory V), x.Supported op.toElementwiseOp →
      0 < x.out.numel → x.out.numel ≤ 2 ^ 32 →
      ∃ l mem', op.launch d x.input.toTensor x.other.toTensor x.out.toTensor = .ok (some l) ∧
        l.Accepted d ∧ l.Ends (allocated x mem) (· = allocated x mem') ∧
        Computes (op.scalar x.out.dtype) x mem mem' ∧
        ∀ (cpu : ElementwiseOp V) (s : Cpu.Schedule) (cpuMem : Memory V),
          cpu.scalar x.out.dtype = op.scalar x.out.dtype →
          cpu.run s.order x.input.toTensor x.other.toTensor x.out.toTensor mem = .ok cpuMem →
          cpuMem = mem'

theorem computes_unique {f : V → V → V} {x : Operands} {mem mem₁ mem₂ : Memory V}
    (h₁ : Computes f x mem mem₁) (h₂ : Computes f x mem mem₂) : mem₁ = mem₂ := by
  funext a
  by_cases ha : ∃ idx, Valid x.out.shape idx ∧ a = x.out.address idx
  · obtain ⟨idx, hidx, rfl⟩ := ha
    rw [h₁.element idx hidx, h₂.element idx hidx]
  · have hne : ∀ idx, Valid x.out.shape idx → a ≠ x.out.address idx := fun idx hidx heq =>
      ha ⟨idx, hidx, heq⟩
    rw [h₁.frame a hne, h₂.frame a hne]

variable {op d}

theorem launch_accepted (hgrid : 2 ^ 25 ≤ d.maxGridX) (hgridY : 0 < d.maxGridY) {outputSize : Nat}
    (hpos : 0 < outputSize) (hle : outputSize ≤ 2 ^ 32) :
    ∃ dims, elementwiseLaunch (getOptimalBlockSize d.maxThreads) outputSize = some dims ∧
      0 < dims.blockDim ∧ ∀ (m : Elementwise) (dtype : DataType) (f : V → V → V)
        (input other out : Tensor), (elementwiseGrid m dtype f input other out dims).Accepted d := by
  have hcases : getOptimalBlockSize d.maxThreads = 128 ∨ getOptimalBlockSize d.maxThreads = 256 ∨
      getOptimalBlockSize d.maxThreads = 512 ∨ getOptimalBlockSize d.maxThreads = 1024 ∨
      getOptimalBlockSize d.maxThreads = 2048 := by
    simpa [allCudaBlockSizes] using getOptimalBlockSize_mem d.maxThreads
  have hfits := getOptimalBlockSize_le d
  generalize getOptimalBlockSize d.maxThreads = blockSize at hcases hfits ⊢
  refine ⟨_, elementwiseLaunch_eq (by omega) (by omega) hpos hle, by simp only; omega,
    fun m dtype f input other out => ⟨?_, ⟨Nat.one_pos, hgridY⟩, by
      simp only [elementwiseGrid]
      omega⟩⟩
  have hgridDim : 0 < (outputSize + min blockSize outputSize - 1) / min blockSize outputSize ∧
      (outputSize + min blockSize outputSize - 1) / min blockSize outputSize ≤ 2 ^ 25 := by
    by_cases hsmall : outputSize ≤ blockSize
    · have hone : (outputSize + outputSize - 1) / outputSize = 1 := by
        rw [Nat.div_eq_iff hpos]
        omega
      rw [Nat.min_eq_right hsmall, hone]
      decide
    · rw [Nat.min_eq_left (by omega)]
      obtain rfl | rfl | rfl | rfl | rfl := hcases <;> omega
  simp only [elementwiseGrid]
  rw [toUInt32_eq_self (by omega)]
  exact ⟨hgridDim.1, hgridDim.2.trans hgrid⟩

theorem CudaElementwise.agrees : op.Agrees := by
  intro d hgrid hgridY x mem hsupported hpos hle
  obtain ⟨hinput, hother, htype⟩ := hsupported
  have hbroadcast := StoredTensor.not_hasBroadcastDim x.injective (Tensor.numel_eq _ ▸ hpos)
  have hnew := ElementwiseOp.new_eq_ok op.toElementwiseOp ⟨hinput.trans hother.symm, hother⟩
    hbroadcast
  rw [Tensor.numel_eq] at hpos hle
  obtain ⟨dims, hdims, hblock, haccepted⟩ := launch_accepted (V := V) hgrid hgridY hpos hle
  have hcovers : Covers (some dims) x.out.shape.prod :=
    hdims ▸ (elementwiseLaunch_covers_iff (getOptimalBlockSize_mem _) _).mpr ⟨hpos, hle⟩
  have hcomputes := x.computes_compute hinput hother (op.scalar x.out.dtype) (.refl _) mem
  refine ⟨_, _, launch_of_new op d hnew htype (x.outputSize_members.symm ▸ hdims), haccepted _ _ _ _ _ _,
    elementwiseGrid_ends hinput hother hcomputes hcovers hblock, hcomputes, ?_⟩
  intro cpu s cpuMem hscalar hrun
  have hcpu := (cpu.correct x s mem).1 cpuMem hrun
  rw [hscalar] at hcpu
  exact computes_unique hcpu hcomputes

end Call

/-- `CudaAdd` and `CudaSwiglu` agree with the CPU under every schedule. -/
theorem cuda_elementwise_agrees {V F : Type} (dev : DeviceArith V F) :
    (cudaAdd dev).Agrees ∧ (cudaSwiglu dev).Agrees :=
  ⟨CudaElementwise.agrees, CudaElementwise.agrees⟩

/-- Arithmetic on integers alone. -/
def integerDevice : DeviceArith Int Int where
  add := (· + ·)
  mul := (· * ·)
  hadd := (· + ·)
  toFloat := id
  ofFloat := id
  one := 1
  faddRn := (· + ·)
  fmulRn := (· * ·)
  frcpRn x := 1 / x
  fadd := (· + ·)
  fdiv := (· / ·)
  neg := (- ·)
  fastExpf x := x
  expf x := x

/-- A shared row that is read backwards, added to a contiguous operand into
a transposed `out`. -/
theorem cuda_elementwise_agrees_mixed :
    ∃ l mem', (cudaAdd integerDevice).launch smallDevice mixedOperands.input.toTensor
        mixedOperands.other.toTensor mixedOperands.out.toTensor = .ok (some l) ∧
      l.Ends (allocated mixedOperands id) (· = allocated mixedOperands mem') := by
  obtain ⟨l, mem', hlaunch, -, hends, -⟩ := (cuda_elementwise_agrees integerDevice).1 smallDevice
    (by decide) (by decide) mixedOperands id (by decide) (by decide) (by decide)
  exact ⟨l, mem', hlaunch, hends⟩

end InfiniOps.Cuda
