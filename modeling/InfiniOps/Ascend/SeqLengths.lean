/-
InfiniOps.Ascend.SeqLengths — the sequence lengths that the Ascend
attention operators hand to the fused attention call.

`extractSeqLengths` and `cumSeqLengths` are those of `FlashAttention`
(`src/native/ascend/ops/flash_attention/kernel.h`), `readIntTensor`,
`createCumSeqLengths` and `createDiffSeqLengths` those of
`fia_common_.h`. Both read a tensor from the host, or copy it from the
device first; the former always as `int64_t`.

Memory is bytes, little-endian, of which those of the tensor can be read.
A read of any other byte has no result. An `aclIntArray` is the list of
its values. Differences of `int64_t` wrap.
-/
import InfiniOps.Core.Dispatcher
import InfiniOps.Core.Strided
import InfiniOps.Lib.ByteMemory

namespace InfiniOps.Ascend

open ByteMemory RowMajor

/-- Host and device memory. -/
structure Memory where
  host : Bytes
  device : Bytes

/-- The part of the ACL runtime that is used here. -/
structure AclRuntime where
  /-- `aclrtMemcpyAsync` from device to host, and `aclrtSynchronizeStream`. -/
  memcpyToHost : (device : Bytes) → (src : Int) → (count : Nat) → Option (List UInt8)
  memcpyToHost_eq : ∀ device src count, memcpyToHost device src count = readBytes device src count

/-- The `i`th `int64_t` from `base` on. -/
def loadInt64 (m : Bytes) (base : Int) (i : Nat) : Option Int :=
  (readBytes m (base + 8 * i) 8).map fun bytes => toInt64 (littleEndian bytes)

/-- The `i`th `int32_t` from `base` on. -/
def loadInt32 (m : Bytes) (base : Int) (i : Nat) : Option Int :=
  (readBytes m (base + 4 * i) 4).map fun bytes => toInt32 (littleEndian bytes)

section Extraction

variable (rt : AclRuntime) (mem : Memory) (cuSeqlens : Tensor)

/-- A host pointer to the elements of a tensor, of `size` bytes each: its
own, or one to a copy. -/
def hostPointer (size : Nat) : Option (Bytes × Int) :=
  if cuSeqlens.device.type = .kCpu then some (mem.host, cuSeqlens.data)
  else do
    let buf ← rt.memcpyToHost mem.device cuSeqlens.data (cuSeqlens.numel * size)
    return (ofBuffer buf, 0)

/-! ## `FlashAttention` -/

/-- `detail::extractSeqLengths`. -/
def extractSeqLengths : Option (List Int) := do
  let (cuHost, base) ← hostPointer rt mem cuSeqlens 8
  (List.range (cuSeqlens.numel - 1)).mapM fun i => do
    let next ← loadInt64 cuHost base (i + 1)
    let this ← loadInt64 cuHost base i
    return toInt64 (next - this)

/-- `detail::cumSeqLengths`. -/
def cumSeqLengths : Option (List Int) := do
  let (cuHost, base) ← hostPointer rt mem cuSeqlens 8
  (List.range (cuSeqlens.numel - 1)).mapM fun i => loadInt64 cuHost base (i + 1)

/-! ## `fia_common_.h` -/

/-- `ReadIntTensor`. -/
def readIntTensor : Except Failure (Option (List Int)) := do
  assertion (cuSeqlens.ndim = 1) "`FIA`: sequence tensor must be 1D"
  let n := cuSeqlens.numel
  if cuSeqlens.dtype = .kInt32 then
    return do
      let (src, base) ← hostPointer rt mem cuSeqlens 4
      (List.range n).mapM fun i => loadInt32 src base i
  else if cuSeqlens.dtype = .kInt64 then
    return do
      let (src, base) ← hostPointer rt mem cuSeqlens 8
      (List.range n).mapM fun i => loadInt64 src base i
  else .error (.aborted "`FIA`: sequence tensor must be `int32` or `int64`")

/-- `CreateCumSeqLengths`. -/
def createCumSeqLengths : Except Failure (Option (List Int)) := do
  match ← readIntTensor rt mem cuSeqlens with
  | none => return none
  | some values =>
    assertion (values.length > 1) "`FIA`: `cu_seqlens` must contain a batch"
    return some (values.drop 1)

/-- `CreateDiffSeqLengths`. -/
def createDiffSeqLengths : Except Failure (Option (List Int)) := do
  match ← readIntTensor rt mem cuSeqlens with
  | none => return none
  | some values =>
    assertion (values.length > 1) "`FIA`: `cu_seqlens` must contain a batch"
    return some ((List.range (values.length - 1)).map fun i =>
      toInt64 (values.getD (i + 1) 0 - values.getD i 0))

end Extraction

/-! ## The tensors that `FlashAttention` accepts -/

/-- The assertions about one of the two sequence tensors. -/
def checkCuSeqlens (name : String) (t : Tensor) : Except Failure Unit := do
  assertion (t.ndim = 1) ("`FlashAttention` requires `" ++ name ++ "` to be 1D")
  assertion (t.dtype = .kInt32 ∨ t.dtype = .kInt64)
    ("`FlashAttention` requires `" ++ name ++ "` to be `int32` or `int64`")

/-- The addresses of the bytes of a tensor. -/
def IsByteOf (t : Tensor) (addr : Int) : Prop :=
  ∃ i < t.numel, ∃ k < t.elementSize, addr = t.address [i] + k

instance (t : Tensor) (addr : Int) : Decidable (IsByteOf t addr) :=
  inferInstanceAs (Decidable (∃ i < t.numel, ∃ k < t.elementSize, addr = t.address [i] + k))

/-- A sequence tensor and the contents of the memory that it is in. -/
structure SeqTensor where
  cu : Tensor
  rank_eq : cu.strides.length = cu.shape.length
  accepted : checkCuSeqlens "cu_seqlens_q" cu = .ok () ∨ checkCuSeqlens "cu_seqlens_kv" cu = .ok ()
  two_le : 2 ≤ cu.numel
  contents : Int → UInt8

namespace SeqTensor

variable (x : SeqTensor)

/-- The bytes of the tensor, and nothing else. -/
def bytes : Bytes := fun addr => if IsByteOf x.cu addr then some (x.contents addr) else none

def memory : Memory :=
  if x.cu.device.type = .kCpu then ⟨x.bytes, fun _ => none⟩ else ⟨fun _ => none, x.bytes⟩

/-- The integer at index `i`, of the tensor's own type. -/
def value (i : Nat) : Int :=
  let raw := littleEndian ((List.range x.cu.elementSize).map fun (k : Nat) =>
    x.contents (x.cu.address [i] + k))
  if x.cu.dtype = .kInt32 then toInt32 raw else toInt64 raw

/-- The lengths of the sequences, and their ends. -/
def lengths : List Int := (List.range (x.cu.numel - 1)).map fun i => x.value (i + 1) - x.value i

@[inherit_doc lengths]
def ends : List Int := (List.range (x.cu.numel - 1)).map fun i => x.value (i + 1)

/-- Both pairs of functions give the lengths and the ends, and read only
the tensor. -/
structure Follows (rt : AclRuntime) : Prop where
  extract : extractSeqLengths rt x.memory x.cu = some x.lengths
  cum : cumSeqLengths rt x.memory x.cu = some x.ends
  createDiff : createDiffSeqLengths rt x.memory x.cu = .ok (some x.lengths)
  createCum : createCumSeqLengths rt x.memory x.cu = .ok (some x.ends)

/-- Adjacent `int64` elements, with differences of that type. -/
structure Fits : Prop where
  dtype : x.cu.dtype = .kInt64
  stride : x.cu.stride 0 = 1
  differences : ∀ i < x.cu.numel - 1,
    -2 ^ 63 ≤ x.value (i + 1) - x.value i ∧ x.value (i + 1) - x.value i < 2 ^ 63

end SeqTensor

end InfiniOps.Ascend
