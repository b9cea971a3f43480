/-
InfiniOps.Ascend.DerivedTables — device data that cached Ascend operators
derive from a caller's buffer and keep between calls.

* `AddRmsNorm` (custom AscendC kernel, implementation 2) keeps an fp32
  copy of a 16-bit weight. `last_weight_ptr_` is the pointer it was cast
  from; the cast is skipped while the caller passes the same pointer.
* `RotaryEmbedding` (implementations 0 and 1, with a full `cos_sin_cache`)
  keeps the expanded cos and sin tables. They are uploaded by the
  constructor and again when `cos_sin_cache_data_` is not the pointer of
  the call.

`RmsNorm` (custom AscendC kernel, implementation 1) casts on every call and
is modelled for comparison.

A call is seen with the contents that device memory has at its time, so
whatever happens between two calls (writes, frees, buffers handed out
again) shows as a different memory. The buffers that the operators own are
not part of that memory. The shadow a fresh operator allocates holds
arbitrary bytes until the first cast. `aclnnCast` is not part of the
repository and is a parameter.
-/
import InfiniOps.Core.DataType
import InfiniOps.Lib.PointerMemo

namespace InfiniOps.Ascend.DerivedTables

/-! ## Device memory and calls -/

/-- The contents of device memory. -/
abbrev DeviceMem := Nat → UInt8

/-- `n` bytes from address `p`. -/
def DeviceMem.read (mem : DeviceMem) (p n : Nat) : List UInt8 :=
  (List.range n).map fun i => mem (p + i)

/-- The data pointer of a live device buffer. -/
structure DevPtr where
  addr : Nat
  ne_null : addr ≠ 0
  deriving DecidableEq

/-- A call as far as the derived data depend on it: device memory at the
time of the call and the pointer of the weight or `cos_sin_cache`. -/
structure Call where
  mem : DeviceMem
  ptr : DevPtr

/-- The values consumed along a sequence of calls on one instance. -/
def consumedAlong {σ ν : Type} (op : σ → Call → σ × ν) : σ → List Call → List ν
  | _, [] => []
  | s, c :: cs => (op s c).2 :: consumedAlong op (op s c).1 cs

/-- The state after a sequence of calls. -/
def stateAfter {σ ν : Type} (op : σ → Call → σ × ν) (s : σ) (cs : List Call) : σ :=
  cs.foldl (fun s c => (op s c).1) s

/-! ## `AddRmsNorm`, implementation 2 -/

/-- `aclnnCast` of a buffer of the given dtype to fp32, as bytes. -/
abbrev AclnnCast := DataType → List UInt8 → List UInt8

/-- The members that the constructor fixes. -/
structure AddRmsNorm where
  dtype : DataType
  dim : Nat

/-- The mutable members: `last_weight_ptr_` and the contents of
`weight_fp32_data_`. -/
structure AddRmsNorm.State where
  lastWeightPtr : Nat := 0
  weightFp32 : List UInt8

/-- The part of `operator()` that provides the fp32 weight to the kernel
launch: the new state and the bytes that the launch reads. -/
def AddRmsNorm.call (cast : AclnnCast) (op : AddRmsNorm) (s : State) (c : Call) :
    State × List UInt8 :=
  if op.dtype ≠ .kFloat32 then
    let s :=
      if c.ptr.addr ≠ s.lastWeightPtr then
        { lastWeightPtr := c.ptr.addr
          weightFp32 := cast op.dtype (c.mem.read c.ptr.addr (op.dim * kDataTypeToSize op.dtype)) }
      else s
    (s, s.weightFp32)
  else
    (s, c.mem.read c.ptr.addr (op.dim * kDataTypeToSize op.dtype))

/-- What an operator constructed for this call alone consumes. -/
def AddRmsNorm.fresh (cast : AclnnCast) (op : AddRmsNorm) (uninit : List UInt8) (c : Call) :
    List UInt8 :=
  (op.call cast { weightFp32 := uninit } c).2

/-! ## `RmsNorm`, implementation 1 -/

/-- The members that the constructor fixes. -/
structure RmsNorm where
  dtype : DataType
  dim : Nat

/-- The part of `operator()` that provides the fp32 weight. The state is
the contents of `weight_fp32_data_`. -/
def RmsNorm.call (cast : AclnnCast) (op : RmsNorm) (s : List UInt8) (c : Call) :
    List UInt8 × List UInt8 :=
  if op.dtype ≠ .kFloat32 then
    let s := cast op.dtype (c.mem.read c.ptr.addr (op.dim * kDataTypeToSize op.dtype))
    (s, s)
  else
    (s, c.mem.read c.ptr.addr (op.dim * kDataTypeToSize op.dtype))

/-! ## `RotaryEmbedding`, implementations 0 and 1 -/

/-- `std::memcpy(dst.data() + dst_off, src.data() + src_off, n)`. -/
def memcpy (dst : List UInt8) (dstOff : Nat) (src : List UInt8) (srcOff n : Nat) : List UInt8 :=
  dst.mapIdx fun i b =>
    if dstOff ≤ i ∧ i < dstOff + n then src.getD (srcOff + (i - dstOff)) 0 else b

/-- The two implementations. -/
inductive RopeImpl where
  /-- Index 0, over `aclnnApplyRotaryPosEmbV2`. -/
  | aclnn
  /-- Index 1, over ATB `Rope`. -/
  | atb
  deriving DecidableEq, Repr

/-- The members that the constructor fixes. -/
structure RotaryEmbedding where
  impl : RopeImpl
  maxSeqLen : Nat
  headSize : Nat
  elemSz : Nat
  isNeoxStyle : Bool

namespace RotaryEmbedding

/-- The expanded device tables. -/
structure Tables where
  cos : List UInt8
  sin : List UInt8
  deriving DecidableEq

/-- The mutable members: `cos_sin_cache_data_` and the contents of
`cos_table_dev_` and `sin_table_dev_`. -/
structure State where
  cosSinCacheData : Nat
  tables : Tables

def halfHeadDim (op : RotaryEmbedding) : Nat := op.headSize / 2

def tableBytes (op : RotaryEmbedding) : Nat := op.maxSeqLen * op.headSize * op.elemSz

/-- Where element `j` of a row's half goes in the expanded row: front and
back for the neox layout, pair-wise for the interleaved one. Only
implementation 1 has the second. -/
def columns (op : RotaryEmbedding) (j : Nat) : Nat × Nat :=
  match op.impl with
  | .aclnn => (j, op.halfHeadDim + j)
  | .atb => if op.isNeoxStyle then (j, op.halfHeadDim + j) else (2 * j, 2 * j + 1)

/-- The body of the two loops of `UploadCosSinCache`. -/
def expandElement (op : RotaryEmbedding) (cacheHost : List UInt8) (p : Nat) (t : Tables)
    (j : Nat) : Tables :=
  let cSrc := (p * op.headSize + j) * op.elemSz
  let sSrc := (p * op.headSize + op.halfHeadDim + j) * op.elemSz
  let front := (p * op.headSize + (op.columns j).1) * op.elemSz
  let back := (p * op.headSize + (op.columns j).2) * op.elemSz
  { cos := memcpy (memcpy t.cos front cacheHost cSrc op.elemSz) back cacheHost cSrc op.elemSz
    sin := memcpy (memcpy t.sin front cacheHost sSrc op.elemSz) back cacheHost sSrc op.elemSz }

/-- `UploadCosSinCache`: copy the cache to the host, expand, upload. -/
def uploadCosSinCache (op : RotaryEmbedding) (mem : DeviceMem) (p : DevPtr) : Tables :=
  let cacheHost := mem.read p.addr op.tableBytes
  let zero := List.replicate op.tableBytes 0
  (List.range op.maxSeqLen).foldl
    (fun t p => (List.range op.halfHeadDim).foldl (op.expandElement cacheHost p) t)
    { cos := zero, sin := zero }

/-- The constructor. -/
def new (op : RotaryEmbedding) (c : Call) : State :=
  { cosSinCacheData := c.ptr.addr, tables := op.uploadCosSinCache c.mem c.ptr }

/-- The part of `operator()` that provides the tables to
`aclnnIndexSelect`: the new state and the tables that are read. -/
def call (op : RotaryEmbedding) (s : State) (c : Call) : State × Tables :=
  let s :=
    if c.ptr.addr ≠ s.cosSinCacheData then
      { cosSinCacheData := c.ptr.addr, tables := op.uploadCosSinCache c.mem c.ptr }
    else s
  (s, s.tables)

/-- What an operator constructed for this call alone consumes. -/
def fresh (op : RotaryEmbedding) (c : Call) : Tables := (op.call (op.new c) c).2

end RotaryEmbedding

end InfiniOps.Ascend.DerivedTables
