/-
InfiniOps.Ascend.CachedOperators — the Ascend operators whose executors are
repeatable and fully re-bound (`src/native/ascend/ops`): `Add`, `Mul`,
`Cast`, `Embedding`, `Matmul`, `Gemm`, `Linear`, `Cat`, `SiluAndMul`,
`Swiglu` (both implementations), `ScaledSoftmax`, `RmsNorm` and `AddRmsNorm`
(implementation 0).

`new` are the constructors, as far as they make descriptors and sizes, with
the assertions of the Ascend classes; those of the base classes are left
out. The members of an instance are numbered in the order of declaration,
optional ones where they are present, and its arguments in that of
`operator()`. `plain` lists the launches of each operator over its own
tensors, and `effect` says what they amount to: assignments to the output
tensors, without intermediate buffers.
-/
import InfiniOps.Ascend.CachedCall
import InfiniOps.Core.Contiguity

namespace InfiniOps.Ascend

open RowMajor

/-! ## Launches that re-bind everything -/

/-- The tensors in the order of the size query, each set on later calls to
the pointer next to its descriptor. -/
def rebinding (kernel : AclKernel) (ins outs : List (Nat × Pointer)) : AclnnStage where
  kernel
  inputs := ins.map Prod.fst
  outputs := outs.map Prod.fst
  setInputs := ins.zipIdx.map fun x => (x.2, x.1.2)
  setOutputs := outs.zipIdx.map fun x => (x.2, x.1.2)

/-- `aclnnInplaceCopy(out, src)`: both are inputs. -/
def copying (out src : Nat × Pointer) : AclnnStage := rebinding .inplaceCopy [out, src] []

/-! ## Constructors and calls -/

/-- `IsIntegerDtype`. -/
def isIntegerDtype : DataType → Bool
  | .kInt8 | .kInt16 | .kInt32 | .kInt64 | .kUInt8 | .kUInt16 | .kUInt32 | .kUInt64 => true
  | _ => false

/-- `alpha_` of `Add`. -/
def addAlpha (dtype : DataType) : AclScalar := if isIntegerDtype dtype then .int64 1 else .float 1

/-- Two inputs, one output, one launch. -/
def binaryOp (kernel : AclKernel) (input other out : Tensor) : Except Failure CachedOp := do
  let inCache ← AclTensorCache.ofTensor input false
  let othCache ← AclTensorCache.ofTensor other false
  let outCache ← AclTensorCache.ofTensor out false
  return {
    descs := [inCache, othCache, outCache]
    steps := [.get 0 (.arg 0), .get 1 (.arg 1), .get 2 (.arg 2),
      .launch 0 (rebinding kernel [(0, .arg 0), (1, .arg 1)] [(2, .arg 2)])] }

def Add.new (input other out : Tensor) : Except Failure CachedOp :=
  binaryOp (.add (addAlpha input.dtype)) input other out

def Mul.new (input other out : Tensor) : Except Failure CachedOp := binaryOp .mul input other out

/-- `acl_out_dtype_` is the type that `aclnnCast` converts to. -/
def Cast.new (input out : Tensor) : Except Failure CachedOp := do
  let inCache ← AclTensorCache.ofTensor input false
  let outCache ← AclTensorCache.ofTensor out false
  return {
    descs := [inCache, outCache]
    steps := [.get 0 (.arg 0), .get 1 (.arg 1),
      .launch 0 (rebinding (.cast outCache.dtype) [(0, .arg 0)] [(1, .arg 1)])] }

/-- `operator()(input_ids, weight, out)`. The weight comes first in the
launch. -/
def Embedding.new (inputIds weight out : Tensor) : Except Failure CachedOp := do
  let inputIdsCache ← AclTensorCache.ofTensor inputIds false
  let weightCache ← AclTensorCache.ofTensor weight false
  let outCache ← AclTensorCache.ofTensor out false
  assertion (weight.dtype = .kFloat16 ∨ weight.dtype = .kBFloat16 ∨ weight.dtype = .kFloat32)
    "`Embedding`: Ascend path supports `float16`, `bfloat16`, and `float32` weights."
  return {
    descs := [inputIdsCache, weightCache, outCache]
    steps := [.get 1 (.arg 1), .get 0 (.arg 0), .get 2 (.arg 2),
      .launch 0 (rebinding .embedding [(1, .arg 1), (0, .arg 0)] [(2, .arg 2)])] }

/-- `operator()(a, b, c, trans_a, trans_b)`. -/
def Matmul.new (a b c : Tensor) (transA transB : Bool) : Except Failure CachedOp := do
  let aCache ← AclTensorCache.ofTensor a transA
  let bCache ← AclTensorCache.ofTensor b transB
  let outCache ← AclTensorCache.ofTensor c false
  return {
    descs := [aCache, bCache, outCache]
    steps := [.get 0 (.arg 0), .get 1 (.arg 1), .get 2 (.arg 2),
      .launch 0 (rebinding (.matmul 1) [(0, .arg 0), (1, .arg 1)] [(2, .arg 2)])] }

/-- `operator()(a, b, ..., c)` of `Gemm`. `c` has two descriptors. -/
def GemmKernel.op (k : GemmKernel) : CachedOp where
  descs := [k.self, k.a, k.b, k.out]
  steps := [.get 0 (.arg 2), .get 1 (.arg 0), .get 2 (.arg 1), .get 3 (.arg 2),
    .launch 0 (rebinding
      (if k.batched then .baddbmm k.betaVal k.alphaVal else .addmm k.betaVal k.alphaVal)
      [(0, .arg 2), (1, .arg 0), (2, .arg 1)] [(3, .arg 2)])]

/-- `operator()(a, b, bias, ..., out)` of `Linear`. -/
def LinearKernel.op (k : LinearKernel) : CachedOp :=
  match k.bias, k.flat with
  | some bias, some flat =>
    { descs := [bias, flat.a, k.b, flat.out]
      steps := [.get 0 (.arg 2), .get 1 (.arg 0), .get 2 (.arg 1), .get 3 (.arg 3),
        .launch 1 (rebinding (.matmul 1) [(1, .arg 0), (2, .arg 1)] [(3, .arg 3)]),
        .launch 2 (rebinding (.add (.float 1)) [(3, .arg 3), (0, .arg 2)] [(3, .arg 3)])] }
  | some bias, none =>
    { descs := [bias, k.a, k.b, k.out]
      steps := [.get 1 (.arg 0), .get 2 (.arg 1), .get 3 (.arg 3), .get 0 (.arg 2),
        .launch 0 (rebinding (if k.batched then .baddbmm 1 1 else .addmm 1 1)
          [(0, .arg 2), (1, .arg 0), (2, .arg 1)] [(3, .arg 3)])] }
  | none, _ =>
    { descs := [k.a, k.b, k.out]
      steps := [.get 0 (.arg 0), .get 1 (.arg 1), .get 2 (.arg 3),
        .launch 0 (rebinding (.matmul 1) [(0, .arg 0), (1, .arg 1)] [(2, .arg 3)])] }

/-- `dim_`, counted from the front. -/
def catDim (dim : Int) (out : Tensor) : Int := if dim < 0 then dim + out.ndim else dim

/-- `aclnnCat` of a tensor list. Only the output is set on later calls. -/
def joining (dim : Int) (count : Nat) : AclnnStage where
  kernel := .cat dim
  listed := (List.range count).map (· + 1)
  inputs := []
  outputs := [0]
  setInputs := []
  setOutputs := [(0, .arg count)]

/-- `operator()(first_input, rest_inputs, dim, out)`. -/
def Cat.new (inputs : List Tensor) (dim : Int) (out : Tensor) : Except Failure CachedOp := do
  let outCache ← AclTensorCache.ofTensor out false
  let inCaches ← inputs.mapM fun t => AclTensorCache.ofTensor t false
  let count := inputs.length
  return {
    descs := outCache :: inCaches
    steps := .get 0 (.arg count) :: (List.range count).map (fun i => .get (i + 1) (.arg i)) ++
      [.launch 0 (joining (catDim dim out) count)] }

/-- `operator()(input, dim, out)`. `aclnnSwiGlu` takes no output strides: a
result for an output that is not contiguous is staged. -/
def SiluAndMul.new (input : Tensor) (dim : Int) (out : Tensor) : Except Failure CachedOp := do
  let inputCache ← AclTensorCache.ofTensor input false
  let outCache ← AclTensorCache.ofTensor out false
  if out.isContiguous then
    return {
      descs := [inputCache, outCache]
      steps := [.get 0 (.arg 0), .get 1 (.arg 1),
        .launch 0 (rebinding (.swiGlu dim) [(0, .arg 0)] [(1, .arg 1)])] }
  else
    return {
      descs := [inputCache, outCache, .contiguous out.shape outCache.dtype]
      scratchBytes := fun
        | .staging => out.numel * out.elementSize
        | .temp => 0
      steps := [.get 0 (.arg 0), .get 1 (.arg 1), .ensure .staging, .get 2 (.scratch .staging),
        .launch 0 (rebinding (.swiGlu dim) [(0, .arg 0)] [(2, .saved .staging)]),
        .launch 1 (copying (1, .arg 1) (2, .saved .staging))] }

/-- `operator()(input, gate, out)` of implementation 0. -/
def Swiglu.new (input gate out : Tensor) : Except Failure CachedOp := do
  let inCache ← AclTensorCache.ofTensor input false
  let gateCache ← AclTensorCache.ofTensor gate false
  let outCache ← AclTensorCache.ofTensor out false
  let tempCache ← AclTensorCache.ofTensor
    { gate with data := 0, strides := Tensor.defaultStrides gate.shape } false
  return {
    descs := [inCache, gateCache, outCache, tempCache]
    scratchBytes := fun
      | .temp => input.numel * input.elementSize
      | .staging => 0
    steps := [.get 0 (.arg 0), .get 1 (.arg 1), .get 2 (.arg 2), .ensure .temp,
      .get 3 (.scratch .temp),
      .launch 0 (rebinding .silu [(1, .arg 1)] [(3, .scratch .temp)]),
      .launch 1 (rebinding .mul [(0, .arg 0), (3, .scratch .temp)] [(2, .arg 2)])] }

/-- `cat_shape_`: the last extent doubled. -/
def doubleLast (shape : List Nat) : List Nat :=
  shape.dropLast ++ (shape.getLast?.map (· * 2)).toList

/-- `aclnnCat` of gate and input into the scratch buffer. Only its output is
set on later calls. -/
def concatenating (dim : Int) : AclnnStage where
  kernel := .cat dim
  listed := [0, 1]
  inputs := []
  outputs := [3]
  setInputs := []
  setOutputs := [(0, .scratch .temp)]

/-- `operator()(input, gate, out)` of implementation 1. -/
def SwigluFused.new (input gate out : Tensor) : Except Failure CachedOp := do
  let gateCache ← AclTensorCache.ofTensor gate false
  let inCache ← AclTensorCache.ofTensor input false
  let outCache ← AclTensorCache.ofTensor out false
  let dim : Int := out.ndim - 1
  let catShape := doubleLast input.shape
  let catBytes := catShape.prod * input.elementSize
  let head : List Step := [.get 0 (.arg 1), .get 1 (.arg 0), .get 2 (.arg 2), .ensure .temp,
    .get 3 (.scratch .temp), .launch 0 (concatenating dim)]
  if out.isContiguous then
    return {
      descs := [gateCache, inCache, outCache, .contiguous catShape inCache.dtype]
      scratchBytes := fun
        | .temp => catBytes
        | .staging => 0
      steps := head ++
        [.launch 1 (rebinding (.swiGlu dim) [(3, .scratch .temp)] [(2, .arg 2)])] }
  else
    return {
      descs := [gateCache, inCache, outCache, .contiguous catShape inCache.dtype,
        .contiguous out.shape outCache.dtype]
      scratchBytes := fun
        | .temp => catBytes
        | .staging => out.numel * out.elementSize
      steps := head ++
        [.ensure .staging, .get 4 (.scratch .staging),
          .launch 1 (rebinding (.swiGlu dim) [(3, .scratch .temp)] [(4, .saved .staging)]),
          .launch 2 (copying (2, .arg 2) (4, .saved .staging))] }

/-- `operator()(input, scale, out)`. `needs_scale_` is whether `scale` is
further than 1e-6 from 1. -/
def ScaledSoftmax.new (input : Tensor) (scale : ℚ) (out : Tensor) : Except Failure CachedOp := do
  let inCache ← AclTensorCache.ofTensor input false
  let outCache ← AclTensorCache.ofTensor out false
  assertion (input.dtype = .kFloat16 ∨ input.dtype = .kBFloat16 ∨ input.dtype = .kFloat32)
    "`ScaledSoftmax` Ascend path requires float16, bfloat16, or float32 input."
  assertion input.isContiguous "`ScaledSoftmax` Ascend path requires contiguous input."
  assertion out.isContiguous "`ScaledSoftmax` Ascend path requires contiguous output."
  if 1 / 1000000 < |scale - 1| then
    return {
      descs := [inCache, outCache, inCache]
      scratchBytes := fun
        | .temp => input.numel * input.elementSize
        | .staging => 0
      steps := [.get 0 (.arg 0), .get 1 (.arg 1), .ensure .temp, .get 2 (.scratch .temp),
        .launch 0 (rebinding (.muls (.float scale)) [(0, .arg 0)] [(2, .scratch .temp)]),
        .launch 1 (rebinding (.softmax (-1)) [(2, .scratch .temp)] [(1, .arg 1)])] }
  else
    return {
      descs := [inCache, outCache, inCache]
      steps := [.get 0 (.arg 0), .get 1 (.arg 1),
        .launch 1 (rebinding (.softmax (-1)) [(0, .arg 0)] [(1, .arg 1)])] }

/-- `batch_size_` and `nhead_`, the shape of `rstd`. -/
def rstdShape (t : Tensor) : List Nat :=
  if t.ndim = 2 then [t.size (-2), 1] else [t.size (-3), t.size (-2)]

def rstdBytes (t : Tensor) : Scratch → Nat
  | .temp => (rstdShape t).prod * 4
  | .staging => 0

/-- `operator()(input, weight, eps, out)`. -/
def RmsNorm.new (input weight : Tensor) (eps : ℚ) (out : Tensor) : Except Failure CachedOp := do
  let inCache ← AclTensorCache.ofTensor input false
  let weightCache ← AclTensorCache.ofTensor weight false
  let outCache ← AclTensorCache.ofTensor out false
  return {
    descs := [inCache, weightCache, outCache, .contiguous (rstdShape out) .float]
    scratchBytes := rstdBytes out
    steps := [.get 0 (.arg 0), .get 1 (.arg 1), .get 2 (.arg 2), .ensure .temp,
      .get 3 (.scratch .temp),
      .launch 0 (rebinding (.rmsNorm eps) [(0, .arg 0), (1, .arg 1)]
        [(2, .arg 2), (3, .scratch .temp)])] }

/-- `operator()(input, residual, weight, eps, out, residual_out)`. -/
def AddRmsNorm.new (input residual weight : Tensor) (eps : ℚ) (out residualOut : Tensor) :
    Except Failure CachedOp := do
  let inputCache ← AclTensorCache.ofTensor input false
  let residualCache ← AclTensorCache.ofTensor residual false
  let weightCache ← AclTensorCache.ofTensor weight false
  let outCache ← AclTensorCache.ofTensor out false
  let residualOutCache ← AclTensorCache.ofTensor residualOut false
  return {
    descs := [inputCache, residualCache, weightCache, outCache, residualOutCache,
      .contiguous (rstdShape input) .float]
    scratchBytes := rstdBytes input
    steps := [.get 0 (.arg 0), .get 1 (.arg 1), .get 2 (.arg 2), .get 3 (.arg 3), .get 4 (.arg 4),
      .launch 0 (rebinding (.add (.float 1)) [(0, .arg 0), (1, .arg 1)] [(4, .arg 4)]),
      .ensure .temp, .get 5 (.scratch .temp),
      .launch 1 (rebinding (.rmsNorm eps) [(4, .arg 4), (2, .arg 2)]
        [(3, .arg 3), (5, .scratch .temp)])] }

/-! ## Plain programs -/

/-- A cached operator with the arguments of its constructor; `Gemm` and
`Linear` with the members that theirs makes. -/
inductive CachedOperator where
  | add (input other out : Tensor)
  | mul (input other out : Tensor)
  | cast (input out : Tensor)
  | embedding (inputIds weight out : Tensor)
  | matmul (a b c : Tensor) (transA transB : Bool)
  | gemm (k : GemmKernel)
  | linear (k : LinearKernel)
  | cat (inputs : List Tensor) (dim : Int) (out : Tensor)
  | siluAndMul (input : Tensor) (dim : Int) (out : Tensor)
  | swiglu (input gate out : Tensor)
  | swigluFused (input gate out : Tensor)
  | scaledSoftmax (input : Tensor) (scale : ℚ) (out : Tensor)
  | rmsNorm (input weight : Tensor) (eps : ℚ) (out : Tensor)
  | addRmsNorm (input residual weight : Tensor) (eps : ℚ) (out residualOut : Tensor)

namespace CachedOperator

def new : CachedOperator → Except Failure CachedOp
  | add input other out => Add.new input other out
  | mul input other out => Mul.new input other out
  | cast input out => Cast.new input out
  | embedding inputIds weight out => Embedding.new inputIds weight out
  | matmul a b c transA transB => Matmul.new a b c transA transB
  | gemm k => .ok k.op
  | linear k => .ok k.op
  | cat inputs dim out => Cat.new inputs dim out
  | siluAndMul input dim out => SiluAndMul.new input dim out
  | swiglu input gate out => Swiglu.new input gate out
  | swigluFused input gate out => SwigluFused.new input gate out
  | scaledSoftmax input scale out => ScaledSoftmax.new input scale out
  | rmsNorm input weight eps out => RmsNorm.new input weight eps out
  | addRmsNorm input residual weight eps out residualOut =>
    AddRmsNorm.new input residual weight eps out residualOut

/-- The launches over an instance's tensors. -/
def plain (op : CachedOp) : CachedOperator → List PlainStep
  | add input _ _ =>
    [⟨.add (addAlpha input.dtype), [(op.desc 0, .arg 0), (op.desc 1, .arg 1)],
      [(op.desc 2, .arg 2)]⟩]
  | mul _ _ _ => [⟨.mul, [(op.desc 0, .arg 0), (op.desc 1, .arg 1)], [(op.desc 2, .arg 2)]⟩]
  | cast _ _ => [⟨.cast (op.desc 1).dtype, [(op.desc 0, .arg 0)], [(op.desc 1, .arg 1)]⟩]
  | embedding _ _ _ =>
    [⟨.embedding, [(op.desc 1, .arg 1), (op.desc 0, .arg 0)], [(op.desc 2, .arg 2)]⟩]
  | matmul _ _ _ _ _ =>
    [⟨.matmul 1, [(op.desc 0, .arg 0), (op.desc 1, .arg 1)], [(op.desc 2, .arg 2)]⟩]
  | gemm k =>
    [⟨if k.batched then .baddbmm k.betaVal k.alphaVal else .addmm k.betaVal k.alphaVal,
      [(k.self, .arg 2), (k.a, .arg 0), (k.b, .arg 1)], [(k.out, .arg 2)]⟩]
  | linear k =>
    match k.bias, k.flat with
    | some bias, some flat =>
      [⟨.matmul 1, [(flat.a, .arg 0), (k.b, .arg 1)], [(flat.out, .arg 3)]⟩,
        ⟨.add (.float 1), [(flat.out, .arg 3), (bias, .arg 2)], [(flat.out, .arg 3)]⟩]
    | some bias, none =>
      [⟨if k.batched then .baddbmm 1 1 else .addmm 1 1,
        [(bias, .arg 2), (k.a, .arg 0), (k.b, .arg 1)], [(k.out, .arg 3)]⟩]
    | none, _ => [⟨.matmul 1, [(k.a, .arg 0), (k.b, .arg 1)], [(k.out, .arg 3)]⟩]
  | cat inputs dim out =>
    [⟨.cat (catDim dim out), (List.range inputs.length).map fun i => (op.desc (i + 1), .arg i),
      [(op.desc 0, .arg inputs.length)]⟩]
  | siluAndMul _ dim out =>
    if out.isContiguous then [⟨.swiGlu dim, [(op.desc 0, .arg 0)], [(op.desc 1, .arg 1)]⟩]
    else
      [⟨.swiGlu dim, [(op.desc 0, .arg 0)], [(op.desc 2, .scratch .staging)]⟩,
        ⟨.inplaceCopy, [(op.desc 1, .arg 1), (op.desc 2, .scratch .staging)], []⟩]
  | swiglu _ _ _ =>
    [⟨.silu, [(op.desc 1, .arg 1)], [(op.desc 3, .scratch .temp)]⟩,
      ⟨.mul, [(op.desc 0, .arg 0), (op.desc 3, .scratch .temp)], [(op.desc 2, .arg 2)]⟩]
  | swigluFused _ _ out =>
    let dim : Int := out.ndim - 1
    let joined : PlainStep :=
      ⟨.cat dim, [(op.desc 0, .arg 1), (op.desc 1, .arg 0)], [(op.desc 3, .scratch .temp)]⟩
    if out.isContiguous then
      [joined, ⟨.swiGlu dim, [(op.desc 3, .scratch .temp)], [(op.desc 2, .arg 2)]⟩]
    else
      [joined, ⟨.swiGlu dim, [(op.desc 3, .scratch .temp)], [(op.desc 4, .scratch .staging)]⟩,
        ⟨.inplaceCopy, [(op.desc 2, .arg 2), (op.desc 4, .scratch .staging)], []⟩]
  | scaledSoftmax _ scale _ =>
    if 1 / 1000000 < |scale - 1| then
      [⟨.muls (.float scale), [(op.desc 0, .arg 0)], [(op.desc 2, .scratch .temp)]⟩,
        ⟨.softmax (-1), [(op.desc 2, .scratch .temp)], [(op.desc 1, .arg 1)]⟩]
    else [⟨.softmax (-1), [(op.desc 0, .arg 0)], [(op.desc 1, .arg 1)]⟩]
  | rmsNorm _ _ eps _ =>
    [⟨.rmsNorm eps, [(op.desc 0, .arg 0), (op.desc 1, .arg 1)],
      [(op.desc 2, .arg 2), (op.desc 3, .scratch .temp)]⟩]
  | addRmsNorm _ _ _ eps _ _ =>
    [⟨.add (.float 1), [(op.desc 0, .arg 0), (op.desc 1, .arg 1)], [(op.desc 4, .arg 4)]⟩,
      ⟨.rmsNorm eps, [(op.desc 4, .arg 4), (op.desc 2, .arg 2)],
        [(op.desc 3, .arg 3), (op.desc 5, .scratch .temp)]⟩]

/-- Scratch buffers that are sized by one tensor and described by another. -/
def Sized : CachedOperator → Prop
  | swiglu input gate _ =>
    gate.shape = input.shape ∧ gate.dtype = input.dtype ∧
      RowMajorStrides gate.shape (Tensor.defaultStrides gate.shape)
  | scaledSoftmax input _ _ => RowMajorStrides input.shape input.strides
  | _ => True

/-! ## What they compute -/

section Effect

variable {α : Type} (K : AclnnLibrary α) (args : Nat → Nat)

/-- The value of an argument. -/
def value (mem : DeviceMemory α) (desc : AclTensorCache) (i : Nat) : TensorValue α :=
  readTensor desc (fun n => args i + n) mem

/-- The result of a function, as a tensor of a shape. -/
def result (kernel : AclKernel) (ins : List (TensorValue α)) (desc : AclTensorCache) :
    TensorValue α :=
  ⟨desc.shape, desc.dtype, (List.range desc.shape.prod).map (K.compute kernel ins 0)⟩

/-- The result is stored in an argument. -/
def assign (desc : AclTensorCache) (i : Nat) (kernel : AclKernel) (ins : List (TensorValue α))
    (mem : DeviceMemory α) : DeviceMemory α :=
  writeTensor desc (fun n => args i + n) (K.compute kernel ins 0) mem

/-- What a call does to the memory of its user. -/
def effect (op : CachedOp) (x : CachedOperator) (mem : DeviceMemory α) : DeviceMemory α :=
  let value := value args mem
  match x with
  | add input _ _ =>
    assign K args (op.desc 2) 2 (.add (addAlpha input.dtype))
      [value (op.desc 0) 0, value (op.desc 1) 1] mem
  | mul _ _ _ => assign K args (op.desc 2) 2 .mul [value (op.desc 0) 0, value (op.desc 1) 1] mem
  | cast _ _ => assign K args (op.desc 1) 1 (.cast (op.desc 1).dtype) [value (op.desc 0) 0] mem
  | embedding _ _ _ =>
    assign K args (op.desc 2) 2 .embedding [value (op.desc 1) 1, value (op.desc 0) 0] mem
  | matmul _ _ _ _ _ =>
    assign K args (op.desc 2) 2 (.matmul 1) [value (op.desc 0) 0, value (op.desc 1) 1] mem
  | gemm k =>
    assign K args k.out 2
      (if k.batched then .baddbmm k.betaVal k.alphaVal else .addmm k.betaVal k.alphaVal)
      [value k.self 2, value k.a 0, value k.b 1] mem
  | linear k =>
    match k.bias, k.flat with
    | some bias, some flat =>
      -- The sum is formed in place.
      let product := assign K args flat.out 3 (.matmul 1) [value flat.a 0, value k.b 1] mem
      assign K args flat.out 3 (.add (.float 1))
        [CachedOperator.value args product flat.out 3, CachedOperator.value args product bias 2] product
    | some bias, none =>
      assign K args k.out 3 (if k.batched then .baddbmm 1 1 else .addmm 1 1)
        [value bias 2, value k.a 0, value k.b 1] mem
    | none, _ => assign K args k.out 3 (.matmul 1) [value k.a 0, value k.b 1] mem
  | cat inputs dim out =>
    assign K args (op.desc 0) inputs.length (.cat (catDim dim out))
      ((List.range inputs.length).map fun i => value (op.desc (i + 1)) i) mem
  | siluAndMul _ dim _ => assign K args (op.desc 1) 1 (.swiGlu dim) [value (op.desc 0) 0] mem
  | swiglu _ _ _ =>
    assign K args (op.desc 2) 2 .mul
      [value (op.desc 0) 0, result K .silu [value (op.desc 1) 1] (op.desc 3)] mem
  | swigluFused _ _ out =>
    let dim : Int := out.ndim - 1
    assign K args (op.desc 2) 2 (.swiGlu dim)
      [result K (.cat dim) [value (op.desc 0) 1, value (op.desc 1) 0] (op.desc 3)] mem
  | scaledSoftmax _ scale _ =>
    let input := value (op.desc 0) 0
    assign K args (op.desc 1) 1 (.softmax (-1))
      [if 1 / 1000000 < |scale - 1| then result K (.muls (.float scale)) [input] (op.desc 2)
        else input] mem
  | rmsNorm _ _ eps _ =>
    assign K args (op.desc 2) 2 (.rmsNorm eps) [value (op.desc 0) 0, value (op.desc 1) 1] mem
  | addRmsNorm _ _ _ eps _ _ =>
    -- `residual_out` is read back.
    let sum := assign K args (op.desc 4) 4 (.add (.float 1))
      [value (op.desc 0) 0, value (op.desc 1) 1] mem
    assign K args (op.desc 3) 3 (.rmsNorm eps)
      [CachedOperator.value args sum (op.desc 4) 4, CachedOperator.value args sum (op.desc 2) 2] sum

end Effect

end CachedOperator

/-- An event on the memory of the user alone. -/
def DeviceEvent.effect {α : Type} (K : AclnnLibrary α) (xs : Nat → CachedOperator)
    (ops : Nat → CachedOp) (mem : DeviceMemory α) : DeviceEvent α → DeviceMemory α
  | .call i c => (xs i).effect K c.args (ops i) mem
  | .request _ => mem
  | .other f => f mem

end InfiniOps.Ascend
