/-
InfiniOps.Cpu.Elementwise — the elementwise CPU operators `Add`, `Mul` and
`Swiglu` (`src/native/cpu/ops`, `src/base`).

The three differ in their checks, the types they are dispatched over and
the scalar function, which is what an `ElementwiseOp` holds; members,
addressing and loop are the same. Each operand is addressed by the flat
index or by `IndexToOffset`, as its own `IsContiguous` says.

Memory is addressed in bytes, by the first byte of an element; elements
are aligned. The loop is parallel, so it takes the order of its iterations
as an argument. `ElementwiseOp.computes` shows that an order, the strides
and the mix of both ways to address make no difference to the result.
-/
import InfiniOps.Core.Dispatcher
import InfiniOps.Core.Strided
import InfiniOps.Lib.StridedStore

namespace InfiniOps.Cpu

open RowMajor StridedStore

/-- The contents of memory, by the address of an element. -/
abbrev Memory (V : Type) := Int → V

/-! ## Scalar functions -/

/-- The arithmetic of an element type: the casts to and from `ComputeType`
and to and from `double`, and the operations. -/
structure Arith (V C D : Type) where
  toCompute : V → C
  ofCompute : C → V
  add : C → C → C
  mul : C → C → C
  toDouble : C → D
  ofDouble : D → C
  one : D
  addDouble : D → D → D
  divDouble : D → D → D
  negDouble : D → D
  exp : D → D

namespace Arith

variable {V C D : Type} (arith : Arith V C D)

/-- The element that `Add` stores. -/
def addValue (input other : V) : V :=
  arith.ofCompute (arith.add (arith.toCompute input) (arith.toCompute other))

/-- The element that `Mul` stores. -/
def mulValue (input other : V) : V :=
  arith.ofCompute (arith.mul (arith.toCompute input) (arith.toCompute other))

/-- The element that `Swiglu` stores. -/
def swigluValue (input gate : V) : V :=
  let gateVal := arith.toCompute gate
  let sigmoidGate := arith.ofDouble (arith.divDouble arith.one
    (arith.addDouble arith.one (arith.exp (arith.negDouble (arith.toDouble gateVal)))))
  let swishGate := arith.mul gateVal sigmoidGate
  arith.ofCompute (arith.mul (arith.toCompute input) swishGate)

end Arith

/-! ## Members -/

/-- The members of `Add`, `Mul` and `Swiglu`, whose second operand is named
`gate`. -/
structure Elementwise where
  ndim : Nat
  outputSize : Nat
  inputType : DataType
  otherType : DataType
  outType : DataType
  inputShape : List Nat
  otherShape : List Nat
  outShape : List Nat
  inputStrides : List Int
  otherStrides : List Int
  outStrides : List Int
  isInputContiguous : Bool
  isOtherContiguous : Bool
  isOutContiguous : Bool

/-- What one of the three operators is made of. -/
structure ElementwiseOp (V : Type) where
  /-- The text of the check that `out` has no broadcast dimension, if made. -/
  broadcastMessage : Option String
  dtypeMessage : String
  /-- The types of the dispatch, and its context. -/
  types : List DataType
  context : String
  scalar : DataType → V → V → V

section Operators

variable {V C D : Type} (arith : DataType → Arith V C D)

/-- `Operator<Add, kCpu>`. -/
def add : ElementwiseOp V where
  broadcastMessage := some "the output of `Add` should NOT have broadcasted dim!"
  dtypeMessage := "operator `Add` requires all input and output Tensors to have the same dtype"
  types := allTypes
  context := "`Operator<Add, Device::Type::kCpu>::operator()`"
  scalar dtype := (arith dtype).addValue

/-- `Operator<Mul, kCpu>`. -/
def mul : ElementwiseOp V where
  broadcastMessage := some "the output of `Mul` should NOT have broadcasted dim!"
  dtypeMessage := "operator `Mul` requires all input and output tensors to have the same dtype"
  types := allTypes
  context := "`Operator<Mul, Device::Type::kCpu>::operator()`"
  scalar dtype := (arith dtype).mulValue

/-- `Operator<Swiglu, kCpu>`. -/
def swiglu : ElementwiseOp V where
  broadcastMessage := none
  dtypeMessage := "operator `Swiglu` requires all input and output tensors to have the same dtype"
  types := allFloatTypes
  context := "Operator<Swiglu, Device::Type::kCpu>::operator()"
  scalar dtype := (arith dtype).swigluValue

end Operators

/-- The members that a constructor initializes. `numel` is a `size_t`. -/
def Elementwise.ofTensors (input other out : Tensor) : Elementwise where
  ndim := out.ndim
  outputSize := toUInt64 out.numel
  inputType := input.dtype
  otherType := other.dtype
  outType := out.dtype
  inputShape := input.shape
  otherShape := other.shape
  outShape := out.shape
  inputStrides := input.strides
  otherStrides := other.strides
  outStrides := out.strides
  isInputContiguous := input.isContiguous
  isOtherContiguous := other.isContiguous
  isOutContiguous := out.isContiguous

/-- The constructor with its assertions. -/
def ElementwiseOp.new {V : Type} (op : ElementwiseOp V) (input other out : Tensor) :
    Except Failure Elementwise :=
  let members := Elementwise.ofTensors input other out
  match op.broadcastMessage, out.hasBroadcastDim with
  | some message, true => .error (.aborted message)
  | _, _ =>
    if members.inputType = members.otherType ∧ members.otherType = members.outType then .ok members
    else .error (.aborted op.dtypeMessage)

/-! ## The loop -/

namespace Elementwise

variable {V : Type} (m : Elementwise)

/-- `get_idx`. -/
def getIdx (i : Nat) (isContig : Bool) (shape : List Nat) (strides : List Int) : Nat :=
  if isContig then i else indexToOffset i m.ndim shape strides

/-- The address of `ptr[index]`, for a pointer to elements of type `dtype`. -/
def elementAddress (ptr : Nat) (dtype : DataType) (index : Nat) : Int :=
  ptr + kDataTypeToSize dtype * elementAt index

/-- `Compute<T>`, with its iterations in the given order. -/
def compute (dtype : DataType) (scalar : V → V → V) (input other out : Tensor) (order : List Nat)
    (mem : Memory V) : Memory V :=
  order.foldl (fun mem i =>
    let inputIdx := m.getIdx i m.isInputContiguous m.inputShape m.inputStrides
    let otherIdx := m.getIdx i m.isOtherContiguous m.otherShape m.otherStrides
    let outIdx := m.getIdx i m.isOutContiguous m.outShape m.outStrides
    Function.update mem (elementAddress out.data dtype outIdx)
      (scalar (mem (elementAddress input.data dtype inputIdx))
        (mem (elementAddress other.data dtype otherIdx)))) mem

end Elementwise

/-- Construct the operator and call it. `schedule n` is the order in which
the parallel loop runs its `n` iterations. -/
def ElementwiseOp.run {V : Type} (op : ElementwiseOp V) (schedule : Nat → List Nat)
    (input other out : Tensor) (mem : Memory V) : Except Failure (Memory V) := do
  let members ← op.new input other out
  let dispatched : Run DataType (Memory V) :=
    dispatchFunc DataType.code true (fun _ => true) op.types members.outType
      (fun dtype => ⟨[dtype], .ok (members.compute dtype (op.scalar dtype) input other out
        (schedule members.outputSize) mem)⟩) op.context
  dispatched.ending

/-! ## What the operators have to do -/

/-- No element of `t` is one of `out`. -/
def Separate (t out : Tensor) : Prop :=
  ∀ idx idx', Valid t.shape idx → Valid out.shape idx' → t.address idx ≠ out.address idx'

instance (t out : Tensor) : Decidable (Separate t out) :=
  decidable_of_iff _ forall_valid_forall_valid_iff.symm

/-- Operands of equal shape, with distinct elements in `out` and none of
them in an operand that is read. -/
structure Operands where
  input : StoredTensor
  other : StoredTensor
  out : StoredTensor
  input_shape : input.shape = out.shape
  other_shape : other.shape = out.shape
  injective : out.Injective
  input_separate : Separate input.toTensor out.toTensor
  other_separate : Separate other.toTensor out.toTensor

/-- An order of the iterations for every loop bound. -/
structure Schedule where
  order : Nat → List Nat
  perm : ∀ n, (order n).Perm (List.range n)

/-- Every element of `out` is `f` of the operands at its multi-index, and
the rest of memory is as before. -/
structure Computes {V : Type} (f : V → V → V) (x : Operands) (mem mem' : Memory V) : Prop where
  element : ∀ idx, Valid x.out.shape idx →
    mem' (x.out.address idx) = f (mem (x.input.address idx)) (mem (x.other.address idx))
  frame : ∀ p, (∀ idx, Valid x.out.shape idx → p ≠ x.out.address idx) → mem' p = mem p

/-- The checks that remain for operands of equal shape. -/
def Operands.Supported {V : Type} (x : Operands) (op : ElementwiseOp V) : Prop :=
  x.input.dtype = x.out.dtype ∧ x.other.dtype = x.out.dtype ∧ x.out.dtype ∈ op.types

instance {V : Type} (x : Operands) (op : ElementwiseOp V) : Decidable (x.Supported op) :=
  inferInstanceAs (Decidable (_ ∧ _))

/-- A call that goes through computes the scalar function, and one with
supported operands and an element to write goes through. -/
def ElementwiseOp.Correct {V : Type} (op : ElementwiseOp V) : Prop :=
  ∀ (x : Operands) (s : Schedule) (mem : Memory V),
    let result := op.run s.order x.input.toTensor x.other.toTensor x.out.toTensor mem
    (∀ mem', result = .ok mem' → Computes (op.scalar x.out.dtype) x mem mem') ∧
      (x.Supported op → 0 < x.out.numel → ∃ mem', result = .ok mem')

/-! ## Addresses -/

section Compute

variable {V : Type} (x : Operands)

/-- Both paths of `get_idx` reach the element that the flat index numbers. -/
theorem Elementwise.elementAddress_getIdx {m : Elementwise} {t : StoredTensor} {shape : List Nat}
    (hshape : t.shape = shape) (hndim : m.ndim = shape.length) {i : Nat} (hi : i < shape.prod) :
    elementAddress t.data t.dtype (m.getIdx i t.isContiguous t.shape t.strides)
      = t.address (unravel shape i) := by
  subst hshape
  rw [elementAddress, Tensor.address, Tensor.elementSize, getIdx]
  split
  · rename_i hcontiguous
    rw [StoredTensor.elementAt_of_isContiguous hcontiguous hi]
  · rw [hndim, StoredTensor.elementAt_indexToOffset t hi]

/-- The members that the three tensors give. -/
def Operands.members : Elementwise :=
  Elementwise.ofTensors x.input.toTensor x.other.toTensor x.out.toTensor

theorem Operands.outputSize_members : x.members.outputSize = x.out.shape.prod := by
  rw [members, Elementwise.ofTensors, Tensor.numel_eq,
    toUInt64_eq_self (StoredTensor.prod_lt x.injective)]

/-- An iteration stores one element. -/
theorem Operands.compute_eq_foldl (hinput : x.input.dtype = x.out.dtype)
    (hother : x.other.dtype = x.out.dtype) (f : V → V → V) {order : List Nat}
    (horder : ∀ i ∈ order, i < x.out.shape.prod) (mem : Memory V) :
    x.members.compute x.out.dtype f x.input.toTensor x.other.toTensor x.out.toTensor order mem
      = order.foldl (fun mem i =>
          Function.update mem (x.out.address (unravel x.out.shape i))
            (f (mem (x.input.address (unravel x.out.shape i)))
              (mem (x.other.address (unravel x.out.shape i))))) mem := by
  rw [Elementwise.compute]
  refine List.foldl_ext _ _ _ fun mem i hi => ?_
  have hlt := horder i hi
  have hindex : ∀ t : StoredTensor, t.shape = x.out.shape → t.dtype = x.out.dtype →
      Elementwise.elementAddress t.data x.out.dtype
        (x.members.getIdx i t.isContiguous t.shape t.strides)
        = t.address (unravel x.out.shape i) := by
    intro t hshape hdtype
    rw [← hdtype]
    exact Elementwise.elementAddress_getIdx hshape rfl hlt
  have hout : Elementwise.elementAddress x.out.data x.out.dtype
      (x.members.getIdx i x.members.isOutContiguous x.members.outShape x.members.outStrides)
        = x.out.address (unravel x.out.shape i) := hindex x.out rfl rfl
  have hin : Elementwise.elementAddress x.input.data x.out.dtype
      (x.members.getIdx i x.members.isInputContiguous x.members.inputShape x.members.inputStrides)
        = x.input.address (unravel x.out.shape i) := hindex x.input x.input_shape hinput
  have hoth : Elementwise.elementAddress x.other.data x.out.dtype
      (x.members.getIdx i x.members.isOtherContiguous x.members.otherShape x.members.otherStrides)
        = x.other.address (unravel x.out.shape i) := hindex x.other x.other_shape hother
  dsimp only
  rw [hout, hin, hoth]

/-- The loop, in any order. -/
theorem Operands.computes_compute (hinput : x.input.dtype = x.out.dtype)
    (hother : x.other.dtype = x.out.dtype) (f : V → V → V) {order : List Nat}
    (horder : order.Perm (List.range x.out.shape.prod)) (mem : Memory V) :
    Computes f x mem (x.members.compute x.out.dtype f x.input.toTensor x.other.toTensor
      x.out.toTensor order mem) := by
  have hmem : ∀ i, i ∈ order ↔ i < x.out.shape.prod := fun i => by
    rw [horder.mem_iff, List.mem_range]
  have hvalid : ∀ i ∈ order, Valid x.out.shape (unravel x.out.shape i) := fun i hi =>
    unravel_valid (Nat.zero_lt_of_lt ((hmem i).mp hi)) i
  have hnodup : (order.map fun i => x.out.address (unravel x.out.shape i)).Nodup := by
    refine (horder.nodup_iff.mpr List.nodup_range).map_on fun i hi j hj heq => ?_
    exact unravel_inj ((hmem i).mp hi) ((hmem j).mp hj)
      (Tensor.address_inj x.injective (hvalid i hi) (hvalid j hj) heq)
  rw [x.compute_eq_foldl hinput hother f (fun i hi => (hmem i).mp hi),
    foldl_update_eq_storeAll _ fun p => ∃ idx, Valid x.out.shape idx ∧ x.out.address idx = p]
  · refine ⟨fun idx hidx => ?_, fun p hp => ?_⟩
    · have hi : ravel x.out.shape idx ∈ order := (hmem _).mpr (ravel_lt hidx)
      have hat := storeAll_at_of_nodup _
        (fun i _ => f (mem (x.input.address (unravel x.out.shape i)))
          (mem (x.other.address (unravel x.out.shape i)))) mem hnodup hi
      rwa [unravel_ravel hidx] at hat
    · refine storeAll_of_notMem _ _ mem fun hwritten => ?_
      obtain ⟨i, hi, heq⟩ := List.mem_map.mp hwritten
      exact hp _ (hvalid i hi) heq.symm
  · exact fun i hi => ⟨_, hvalid i hi, rfl⟩
  · intro i hi m hm
    have hreadInput : ¬ ∃ idx, Valid x.out.shape idx ∧
        x.out.address idx = x.input.address (unravel x.out.shape i) := by
      rintro ⟨idx, hidx, heq⟩
      exact x.input_separate _ idx (x.input_shape ▸ hvalid i hi) hidx heq.symm
    have hreadOther : ¬ ∃ idx, Valid x.out.shape idx ∧
        x.out.address idx = x.other.address (unravel x.out.shape i) := by
      rintro ⟨idx, hidx, heq⟩
      exact x.other_separate _ idx (x.other_shape ▸ hvalid i hi) hidx heq.symm
    rw [hm _ hreadInput, hm _ hreadOther]

end Compute

/-! ## The operators -/

section Run

variable {V : Type} {op : ElementwiseOp V} {input other out : Tensor}

theorem ElementwiseOp.of_new_eq_ok {members : Elementwise}
    (h : op.new input other out = .ok members) :
    members = Elementwise.ofTensors input other out ∧ input.dtype = other.dtype ∧
      other.dtype = out.dtype := by
  unfold new at h
  dsimp only at h
  split at h
  · cases h
  · split at h
    · rename_i hdtype
      exact ⟨(Except.ok.inj h).symm, hdtype⟩
    · cases h

variable (op) in
theorem ElementwiseOp.new_eq_ok (hdtype : input.dtype = other.dtype ∧ other.dtype = out.dtype)
    (hbroadcast : out.hasBroadcastDim = false) :
    op.new input other out = .ok (Elementwise.ofTensors input other out) := by
  unfold new
  rw [hbroadcast]
  cases op.broadcastMessage with
  | none => exact if_pos hdtype
  | some message => exact if_pos hdtype

/-- With members, a call is the loop for a supported type and aborts for
any other. -/
theorem ElementwiseOp.run_of_new (schedule : Nat → List Nat) {members : Elementwise}
    (mem : Memory V)
    (hnew : op.new input other out = .ok members) :
    (members.outType ∈ op.types → op.run schedule input other out mem
      = .ok (members.compute members.outType (op.scalar members.outType) input other out
          (schedule members.outputSize) mem)) ∧
    (members.outType ∉ op.types →
      ∃ message, op.run schedule input other out mem = .error (.aborted message)) := by
  rw [run, hnew]
  refine ⟨fun hmem => ?_, fun hnotMem => ?_⟩
  · exact congrArg Run.ending (dispatchFunc_of_mem _ _ _ _ hmem rfl)
  · obtain ⟨message, habort⟩ : ∃ message, dispatchFunc DataType.code true (fun _ => true) op.types
        members.outType (fun dtype => (⟨[dtype], .ok (members.compute dtype (op.scalar dtype)
          input other out (schedule members.outputSize) mem)⟩ : Run DataType (Memory V))) op.context
        = .abort message :=
      dispatchFunc_of_not _ _ _ _ fun h => hnotMem h.1
    exact ⟨message, congrArg Run.ending habort⟩

variable (op) in
theorem ElementwiseOp.correct : op.Correct := by
  intro x s mem
  refine ⟨?_, ?_⟩
  · intro mem' hrun
    cases hnew : op.new x.input.toTensor x.other.toTensor x.out.toTensor with
    | error failure =>
      rw [run, hnew] at hrun
      cases hrun
    | ok members =>
      obtain ⟨hmembers, hinput, hother⟩ := of_new_eq_ok hnew
      obtain ⟨hsupported, hunsupported⟩ := run_of_new s.order mem hnew
      by_cases hmem : members.outType ∈ op.types
      · rw [hsupported hmem] at hrun
        obtain rfl := Except.ok.inj hrun
        subst hmembers
        exact x.computes_compute (hinput.trans hother) hother _
          (x.outputSize_members ▸ s.perm x.members.outputSize) mem
      · obtain ⟨message, habort⟩ := hunsupported hmem
        rw [habort] at hrun
        cases hrun
  · rintro ⟨hinput, hother, hmem⟩ hpos
    rw [Tensor.numel_eq] at hpos
    have hbroadcast := StoredTensor.not_hasBroadcastDim x.injective hpos
    have hnew := new_eq_ok op ⟨hinput.trans hother.symm, hother⟩ hbroadcast
    exact ⟨_, (run_of_new s.order mem hnew).1 hmem⟩

end Run

/-- `Add`, `Mul` and `Swiglu` respect the strides of their operands. -/
theorem elementwise_correct {V C D : Type} (arith : DataType → Arith V C D) :
    (add arith).Correct ∧ (mul arith).Correct ∧ (swiglu arith).Correct :=
  ⟨(add arith).correct, (mul arith).correct, (swiglu arith).correct⟩

/-- A row that is shared and read backwards, a contiguous operand and a
transposed `out`. -/
def mixedOperands : Operands where
  input :=
    { data := 1000, shape := [2, 2], strides := [0, -1], rank_eq := rfl
      addressable := forall_valid_iff.mpr (by decide) }
  other :=
    { data := 2000, shape := [2, 2], strides := [2, 1], rank_eq := rfl
      addressable := forall_valid_iff.mpr (by decide) }
  out :=
    { data := 3000, shape := [2, 2], strides := [1, 2], rank_eq := rfl
      addressable := forall_valid_iff.mpr (by decide) }
  input_shape := rfl
  other_shape := rfl
  injective := by decide
  input_separate := by decide
  other_separate := by decide

/-- The iterations from the last to the first. -/
def Schedule.backwards : Schedule where
  order n := (List.range n).reverse
  perm _ := List.reverse_perm _

/-- Arithmetic on integers alone, for runs on small operands. -/
def integerArith : Arith Int Int Int where
  toCompute := id
  ofCompute := id
  add := (· + ·)
  mul := (· * ·)
  toDouble := id
  ofDouble := id
  one := 1
  addDouble := (· + ·)
  divDouble := (· / ·)
  negDouble := (- ·)
  exp x := x

theorem add_mixedOperands :
    ∃ mem', (add fun _ => integerArith).run Schedule.backwards.order mixedOperands.input.toTensor
        mixedOperands.other.toTensor mixedOperands.out.toTensor id = .ok mem' ∧
      Computes integerArith.addValue mixedOperands id mem' := by
  obtain ⟨hcomputes, hruns⟩ :=
    (elementwise_correct fun _ => integerArith).1 mixedOperands .backwards id
  obtain ⟨mem', hrun⟩ := hruns (by decide) (by decide)
  exact ⟨mem', hrun, hcomputes mem' hrun⟩

end InfiniOps.Cpu
