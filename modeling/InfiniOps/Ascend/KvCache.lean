/-
InfiniOps.Ascend.KvCache — the paged KV cache: the three implementations of
`ReshapeAndCache` that write it and the views through which the attention
operators read it (`src/native/ascend/ops/reshape_and_cache`,
`paged_attention`, `flash_attention`, `mha_varlen_fwd` and
`mha_fwd_kvcache`).

The cache is one tensor `[2, num_blocks, block_size, num_kv_heads,
head_size]`, keys before values. Every operator describes a half of it anew,
by an address and by a shape of its own: in slots, in blocks, with the heads
before the positions of a block or flattened into one dimension.

What the scattering functions of the vendor do is not part of the
repository. `CacheKernels.Documented` is what is known of them: for distinct slots of the
cache, and rows that are no part of it, each row goes to its slot and
nothing else changes.

Memory is a function from addresses to elements. The elements of
`slot_mapping` are given as integers. Pool buffers, streams and the
executor of the cast are left out.
-/
import InfiniOps.Ascend.MatmulEntry
import InfiniOps.Core.MachineInt
import InfiniOps.Lib.RecordStore

namespace InfiniOps.Ascend

open RowMajor RecordStore StridedStore

/-! ## Views -/

/-- A tensor as a kernel is given it. -/
structure AclView where
  desc : AclTensorCache
  data : Int
  elementSize : Nat

namespace AclView

/-- The address of an element. -/
def addr (v : AclView) (idx : List Nat) : Int := v.data + v.elementSize * v.desc.offset idx

/-- The views have no element in common. -/
def Separate (v w : AclView) : Prop :=
  ∀ idx idx', Valid v.desc.shape idx → Valid w.desc.shape idx' → v.addr idx ≠ w.addr idx'

/-- No two elements share an address. -/
def Distinct (v : AclView) : Prop :=
  ∀ idx idx', Valid v.desc.shape idx → Valid v.desc.shape idx' → v.addr idx = v.addr idx' → idx = idx'

end AclView

/-- `ToAtbTensor`. There are no strides. -/
def toAtbTensor (shape : List Nat) (dtype : AclDataType) (data : Int) (elementSize : Nat) : AclView :=
  ⟨.contiguous shape dtype, data, elementSize⟩

/-! ## The functions of the vendor -/

abbrev DeviceMemory (α : Type) := Int → α

/-- Those that write the cache, and the cast of the slots. -/
structure CacheKernels (α : Type) where
  /-- `aclnnInplaceIndexCopy(self, dim, index, source)`. -/
  inplaceIndexCopy : (self : AclView) → (dim : Nat) → (index : List Int) → (source : AclView) →
    DeviceMemory α → DeviceMemory α
  /-- `aclnnScatterPaKvCache(key, keyCache, slotMapping, value, valueCache)`. -/
  scatterPaKvCache : (key keyCache : AclView) → (slotMapping : List Int) →
    (value valueCache : AclView) → DeviceMemory α → DeviceMemory α
  /-- The ATB operation `ReshapeAndCache`, for slots in `int32`. -/
  reshapeAndCache : (key value keyCache valueCache : AclView) → (slotMapping : List Int) →
    DeviceMemory α → DeviceMemory α
  /-- `aclnnCast` from `int64` to `int32`. -/
  castInt32 : List Int → List Int

/-- The slot of a row. -/
def slotOf (slots : List Int) (i : Nat) : Nat := (slots.getD i 0).toNat

/-- An element of the rows, by token, head and position in the head. -/
def rowIndex (v : Nat × Nat × Nat) : List Nat := [v.1, v.2.1, v.2.2]

/-- Where it goes, in a cache of slots. -/
def slotIndex (slots : List Int) (v : Nat × Nat × Nat) : List Nat := [slotOf slots v.1, v.2.1, v.2.2]

/-- Where it goes, in a cache of blocks. -/
def blockIndex (blockSize : Nat) (slots : List Int) (v : Nat × Nat × Nat) : List Nat :=
  [slotOf slots v.1 / blockSize, slotOf slots v.1 % blockSize, v.2.1, v.2.2]

/-- The slots of a call: each once, and in the cache. -/
structure GoodSlots (slots : List Int) (count : Nat) : Prop where
  inside : ∀ s ∈ slots, 0 ≤ s ∧ s < count
  nodup : slots.Nodup

/-- Rows and a half of the cache, as the vendor takes them. -/
structure ScatterArgs (rows cache : AclView) (shape : List Nat) (tokens heads dims : Nat) : Prop where
  rowsShape : rows.desc.shape = [tokens, heads, dims]
  cacheShape : cache.desc.shape = shape ++ [heads, dims]
  distinct : cache.Distinct
  separate : rows.Separate cache

/-- Both halves are scattered to. -/
def ScattersBlocks {α : Type} (key keyCache value valueCache : AclView) (slots : List Int)
    (blockSize heads dims : Nat) (mem mem' : DeviceMemory α) : Prop :=
  ∃ mid, Copied (keyCache.addr ∘ blockIndex blockSize slots) (key.addr ∘ rowIndex)
      (triples slots.length heads dims) mem mid ∧
    Copied (valueCache.addr ∘ blockIndex blockSize slots) (value.addr ∘ rowIndex)
      (triples slots.length heads dims) mid mem'

/-- What both halves of a cache of blocks must be. -/
structure BlockArgs (key keyCache value valueCache : AclView) (slots : List Int)
    (blocks blockSize heads dims : Nat) : Prop where
  good : GoodSlots slots (blocks * blockSize)
  keys : ScatterArgs key keyCache [blocks, blockSize] slots.length heads dims
  values : ScatterArgs value valueCache [blocks, blockSize] slots.length heads dims
  keyValue : key.Separate valueCache
  valueKey : value.Separate keyCache
  halves : keyCache.Separate valueCache

/-- What is documented of these functions. -/
structure CacheKernels.Documented {α : Type} (K : CacheKernels α) : Prop where
  indexCopy : ∀ self index source mem count heads dims, GoodSlots index count →
    ScatterArgs source self [count] index.length heads dims →
    Copied (self.addr ∘ slotIndex index) (source.addr ∘ rowIndex) (triples index.length heads dims)
      mem (K.inplaceIndexCopy self 0 index source mem)
  scatterPa : ∀ key keyCache slots value valueCache mem blocks blockSize heads dims,
    BlockArgs key keyCache value valueCache slots blocks blockSize heads dims →
    ScattersBlocks key keyCache value valueCache slots blockSize heads dims mem
      (K.scatterPaKvCache key keyCache slots value valueCache mem)
  atb : ∀ key value keyCache valueCache slots mem blocks blockSize heads dims,
    BlockArgs key keyCache value valueCache slots blocks blockSize heads dims →
    (∀ s ∈ slots, s < 2 ^ 31) →
    ScattersBlocks key keyCache value valueCache slots blockSize heads dims mem
      (K.reshapeAndCache key value keyCache valueCache slots mem)
  cast : ∀ slots, (∀ s ∈ slots, 0 ≤ s ∧ s < 2 ^ 31) → K.castInt32 slots = slots

/-! ## `ReshapeAndCache` -/

/-- The arguments of a call. `slots` are the elements of `slot_mapping`. -/
structure CacheArgs where
  key : Tensor
  value : Tensor
  kvCache : Tensor
  slotMapping : Tensor
  slots : List Int
  kvCacheOut : Tensor

/-- The members of the base class. -/
structure ReshapeAndCache where
  numTokens : Nat
  numKvHeads : Nat
  headSize : Nat
  blockSize : Nat

/-- The constructor of the base class. -/
def ReshapeAndCache.new (x : CacheArgs) : Except Failure ReshapeAndCache := do
  assertion (x.key.shape = x.value.shape) "`ReshapeAndCache` requires key and value same shape"
  assertion (x.kvCache.ndim = 5) ("`ReshapeAndCache` requires kv_cache to be 5D [2, num_blocks, " ++
    "block_size, num_kv_heads, head_size]")
  assertion (x.slotMapping.ndim = 1) "`ReshapeAndCache` requires slot_mapping to be 1D"
  return ⟨x.key.size 0, x.key.size 1, x.key.size 2, x.kvCache.size 2⟩

/-- `v_offset_bytes_`. -/
def CacheArgs.vOffsetBytes (x : CacheArgs) : Int := x.kvCacheOut.stride 0 * x.kvCacheOut.elementSize

section Implementations

variable {α : Type} (K : CacheKernels α) (x : CacheArgs) (mem : DeviceMemory α)

/-- A tensor behind the descriptor that was made of it. -/
def viewOf (t : Tensor) : Except Failure AclView := do
  let desc ← AclTensorCache.ofTensor t false
  return ⟨desc, t.data, t.elementSize⟩

/-- Implementation 0: `aclnnInplaceIndexCopy` for either half. -/
def indexCopyCache : Except Failure (DeviceMemory α) := do
  let op ← ReshapeAndCache.new x
  let key ← viewOf x.key
  let value ← viewOf x.value
  let _ ← AclTensorCache.ofTensor x.slotMapping false
  let aclDt ← toAclDtype x.key.dtype
  let desc := AclTensorCache.contiguous [x.kvCache.size 1 * op.blockSize, op.numKvHeads, op.headSize]
    aclDt
  let kvK : AclView := ⟨desc, x.kvCacheOut.data, x.key.elementSize⟩
  let kvV : AclView := ⟨desc, x.kvCacheOut.data + x.vOffsetBytes, x.key.elementSize⟩
  return K.inplaceIndexCopy kvV 0 x.slots value (K.inplaceIndexCopy kvK 0 x.slots key mem)

/-- Implementation 1: `aclnnScatterPaKvCache` for both. -/
def scatterPaCache : Except Failure (DeviceMemory α) := do
  let op ← ReshapeAndCache.new x
  let key ← viewOf x.key
  let value ← viewOf x.value
  let _ ← AclTensorCache.ofTensor x.slotMapping false
  let aclDt ← toAclDtype x.key.dtype
  let desc := AclTensorCache.contiguous [x.kvCache.size 1, op.blockSize, op.numKvHeads, op.headSize]
    aclDt
  let kvK : AclView := ⟨desc, x.kvCacheOut.data, x.key.elementSize⟩
  let kvV : AclView := ⟨desc, x.kvCacheOut.data + x.vOffsetBytes, x.key.elementSize⟩
  return K.scatterPaKvCache key kvK x.slots value kvV mem

/-- Implementation 2: the ATB operation, behind a cast of the slots unless
they are in `int32`. -/
def atbCache : Except Failure (DeviceMemory α) := do
  let op ← ReshapeAndCache.new x
  let aclDt ← toAclDtype x.key.dtype
  let kvShape := [x.kvCache.size 1, op.blockSize, op.numKvHeads, op.headSize]
  let keyShape := [op.numTokens, op.numKvHeads, op.headSize]
  let slots32 := if x.slotMapping.elementSize = 4 then x.slots else K.castInt32 x.slots
  let key := toAtbTensor keyShape aclDt x.key.data x.key.elementSize
  let value := toAtbTensor keyShape aclDt x.value.data x.key.elementSize
  let kvK := toAtbTensor kvShape aclDt x.kvCacheOut.data x.key.elementSize
  let kvV := toAtbTensor kvShape aclDt (x.kvCacheOut.data + x.vOffsetBytes) x.key.elementSize
  return K.reshapeAndCache key value kvK kvV slots32 mem

/-- `implementation_index`. -/
inductive CacheImpl where
  | indexCopy
  | scatterPa
  | atb
  deriving DecidableEq, Repr

def writeCache : CacheImpl → Except Failure (DeviceMemory α)
  | .indexCopy => indexCopyCache K x mem
  | .scatterPa => scatterPaCache K x mem
  | .atb => atbCache K x mem

end Implementations

/-! ## Readers -/

/-- `kv_cache[half]`. -/
def cacheHalf (kv : Tensor) (half : Nat) : Tensor :=
  { kv with
    data := (kv.data + half * (kv.stride 0 * kv.elementSize)).toNat
    shape := kv.shape.tail
    strides := kv.strides.tail }

/-- The operators that read the cache through a block table. -/
inductive CacheReader where
  | pagedAttention
  | flashAttention
  | mhaVarlenFwd
  | mhaFwdKvcache
  deriving DecidableEq, Repr

/-- `PagedAttention`: `[num_blocks, block_size, num_kv_heads, head_size]`. -/
def pagedAttentionKv (cache : Tensor) (dtype : AclDataType) : AclView :=
  toAtbTensor [cache.size 0, cache.size 1, cache.size 2, cache.size 3] dtype cache.data
    cache.elementSize

/-- `FlashAttention` and `MhaVarlenFwd`: `[num_blocks, block_size,
num_kv_heads * head_size]`. -/
def flatHeadsKv (cache : Tensor) (dtype : AclDataType) : AclView :=
  let nkvD := cache.size 2 * cache.size 3
  ⟨{ shape := [cache.size 0, cache.size 1, nkvD]
     strides := [cache.size 1 * nkvD, nkvD, 1]
     storageShape := [cache.size 0 * cache.size 1 * nkvD]
     dtype }, cache.data, cache.elementSize⟩

/-- `MhaFwdKvcache`: `[num_blocks, num_kv_heads, block_size, head_dim]`, over
the same elements. -/
def mhaFwdKvcacheKv (cache : Tensor) (dtype : AclDataType) : AclView :=
  ⟨{ shape := [cache.size 0, cache.size 2, cache.size 1, cache.size 3]
     strides := [cache.size 1 * cache.size 2 * cache.size 3, cache.size 3, cache.size 2 * cache.size 3,
       1]
     storageShape := [cache.size 0 * cache.size 1 * cache.size 2 * cache.size 3]
     dtype }, cache.data, cache.elementSize⟩

namespace CacheReader

def view (cache : Tensor) (dtype : AclDataType) : CacheReader → AclView
  | .pagedAttention => pagedAttentionKv cache dtype
  | .flashAttention => flatHeadsKv cache dtype
  | .mhaVarlenFwd => flatHeadsKv cache dtype
  | .mhaFwdKvcache => mhaFwdKvcacheKv cache dtype

/-- Where a view has an element of a block. -/
def index (dims block offset head d : Nat) : CacheReader → List Nat
  | .pagedAttention => [block, offset, head, d]
  | .flashAttention => [block, offset, head * dims + d]
  | .mhaVarlenFwd => [block, offset, head * dims + d]
  | .mhaFwdKvcache => [block, head, offset, d]

end CacheReader

end InfiniOps.Ascend
