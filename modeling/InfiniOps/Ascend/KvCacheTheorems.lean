/-
InfiniOps.Ascend.KvCacheTheorems — the paged KV cache is a store of rows by
slot.

Addresses first: in every view, an element of slot `s` lies at
`place kv half heads dims s`, where the halves of the cache do not meet if
its outer stride spans a half (`KvLayout`). So each implementation of
`ReshapeAndCache` copies rows into the places of their slots
(`writeCache_spec`), and the cache holds a store of keys and one of values
that every call updates alike (`Holds.write`).

`reads_last_write` is this over a run: what any of the readers finds in a
slot is what was last written to it.
-/
import InfiniOps.Ascend.KvCache
import InfiniOps.Ascend.StorageExtent

namespace InfiniOps.Ascend

open RowMajor RecordStore StridedStore

/-! ## Addresses -/

/-- An element of a tensor. -/
def elementAddr (t : Tensor) (idx : List Nat) : Int := t.data + t.elementSize * dot idx t.strides

/-- The `n`th element of one half of the cache. -/
def cellAddr (kv : Tensor) (half n : Nat) : Int :=
  kv.data + kv.elementSize * (half * kv.stride 0 + n)

/-- An element of a slot. -/
def place (kv : Tensor) (half heads dims s : Nat) (f : Nat × Nat) : Int :=
  cellAddr kv half ((s * heads + f.1) * dims + f.2)

/-- A head and a position in it. -/
def Field (heads dims : Nat) (f : Nat × Nat) : Prop := f.1 < heads ∧ f.2 < dims

/-- A cache of this shape, the halves of which do not meet. -/
structure KvLayout (kv : Tensor) (blocks blockSize heads dims : Nat) : Prop where
  shape : kv.shape = [2, blocks, blockSize, heads, dims]
  apart : ((blocks * blockSize * heads * dims : Nat) : Int) ≤ kv.stride 0
  dtype : ∃ d, toAclDtype kv.dtype = .ok d

theorem elementSize_pos (t : Tensor) : 0 < t.elementSize := by
  rw [Tensor.elementSize]
  cases t.dtype <;> decide

namespace AclTensorCache

theorem contiguous_offset_eq (shape idx : List Nat) (dtype : AclDataType) :
    (contiguous shape dtype).offset idx = ravel shape idx := by
  rw [offset, contiguous, contiguousStrides_eq, dot_suffixProds]

end AclTensorCache

theorem ravel_slot (count heads dims s h d : Nat) :
    ravel [count, heads, dims] [s, h, d] = (s * heads + h) * dims + d := by
  simp [ravel]
  ring

/-- A slot has an element where its block has it. -/
theorem ravel_block (blocks blockSize heads dims s h d : Nat) :
    ravel [blocks, blockSize, heads, dims] [s / blockSize, s % blockSize, h, d] =
      (s * heads + h) * dims + d := by
  have hsplit : s / blockSize * blockSize + s % blockSize = s := Nat.div_add_mod' s blockSize
  calc ravel [blocks, blockSize, heads, dims] [s / blockSize, s % blockSize, h, d]
      = ((s / blockSize * blockSize + s % blockSize) * heads + h) * dims + d := by
        simp [ravel]
        ring
    _ = (s * heads + h) * dims + d := by rw [hsplit]

theorem valid_slot {count heads dims s h d : Nat} (hs : s < count) (hh : h < heads) (hd : d < dims) :
    Valid [count, heads, dims] [s, h, d] := .cons hs (.cons hh (.cons hd .nil))

theorem valid_block {blocks blockSize heads dims s h d : Nat} (hs : s < blocks * blockSize)
    (hh : h < heads) (hd : d < dims) :
    Valid [blocks, blockSize, heads, dims] [s / blockSize, s % blockSize, h, d] := by
  have hpos : 0 < blockSize := Nat.pos_of_mul_pos_left (Nat.zero_lt_of_lt hs)
  exact .cons ((Nat.div_lt_iff_lt_mul hpos).mpr hs)
    (.cons (Nat.mod_lt s hpos) (.cons hh (.cons hd .nil)))

/-- An element lies inside its half. -/
theorem element_lt {count heads dims s h d : Nat} (hs : s < count) (hh : h < heads)
    (hd : d < dims) : (s * heads + h) * dims + d < count * heads * dims := by
  have hlt := ravel_lt (valid_slot hs hh hd)
  rw [ravel_slot] at hlt
  simpa [Nat.mul_assoc] using hlt

theorem element_inj {count heads dims s h d s' h' d' : Nat} (hs : s < count) (hh : h < heads)
    (hd : d < dims) (hs' : s' < count) (hh' : h' < heads) (hd' : d' < dims)
    (heq : (s * heads + h) * dims + d = (s' * heads + h') * dims + d') :
    s = s' ∧ h = h' ∧ d = d' := by
  have hidx : [s, h, d] = [s', h', d'] := by
    rw [← unravel_ravel (valid_slot hs hh hd), ravel_slot, heq,
      ← ravel_slot count, unravel_ravel (valid_slot hs' hh' hd')]
  simpa using hidx

theorem cellAddr_inj {kv : Tensor} {half n n' : Nat} (h : cellAddr kv half n = cellAddr kv half n') :
    n = n' := by
  have hpos : (0 : Int) < kv.elementSize := by exact_mod_cast elementSize_pos kv
  have hoff := Int.eq_of_mul_eq_mul_left (Int.ne_of_gt hpos) (Int.add_left_cancel h)
  exact_mod_cast Int.add_left_cancel hoff

/-- Every element of a half belongs to one slot. -/
theorem place_disjoint (kv : Tensor) (half count heads dims : Nat) :
    Disjoint (place kv half heads dims) count (Field heads dims) := by
  intro s hs s' hs' f f' hf hf' heq
  obtain ⟨hslot, hhead, hdim⟩ := element_inj hs hf.1 hf.2 hs' hf'.1 hf'.2 (cellAddr_inj heq)
  exact ⟨hslot, Prod.ext hhead hdim⟩

section Layout

variable {kv : Tensor} {blocks blockSize heads dims : Nat}
  (hkv : KvLayout kv blocks blockSize heads dims)

include hkv

/-- The halves do not meet. -/
theorem KvLayout.cellAddr_ne {n n' : Nat} (hn : n < blocks * blockSize * heads * dims) :
    cellAddr kv 0 n ≠ cellAddr kv 1 n' := by
  intro heq
  have hpos : (0 : Int) < kv.elementSize := by exact_mod_cast elementSize_pos kv
  have hoff := Int.eq_of_mul_eq_mul_left (Int.ne_of_gt hpos) (Int.add_left_cancel heq)
  have hapart := hkv.apart
  simp only [Nat.cast_zero, Int.zero_mul, Int.zero_add, Nat.cast_one, Int.one_mul] at hoff
  omega

theorem KvLayout.place_ne {s s' : Nat} (hs : s < blocks * blockSize) {f f' : Nat × Nat}
    (hf : Field heads dims f) : place kv 0 heads dims s f ≠ place kv 1 heads dims s' f' :=
  hkv.cellAddr_ne (element_lt hs hf.1 hf.2)

end Layout

/-! ## Views of a half -/

/-- A half as the implementations describe it. -/
def halfView (kv : Tensor) (half : Nat) (shape : List Nat) (dtype : AclDataType) : AclView :=
  ⟨.contiguous shape dtype, kv.data + half * (kv.stride 0 * kv.elementSize), kv.elementSize⟩

section HalfView

variable (kv : Tensor) (half : Nat) (shape : List Nat) (dtype : AclDataType)

theorem halfView_addr (idx : List Nat) :
    (halfView kv half shape dtype).addr idx = cellAddr kv half (ravel shape idx) := by
  rw [AclView.addr, halfView, AclTensorCache.contiguous_offset_eq, cellAddr]
  ring

theorem halfView_distinct : (halfView kv half shape dtype).Distinct := by
  intro idx idx' hidx hidx' heq
  change Valid shape idx at hidx
  change Valid shape idx' at hidx'
  rw [halfView_addr, halfView_addr] at heq
  rw [← unravel_ravel hidx, cellAddr_inj heq, unravel_ravel hidx']

end HalfView

/-! ## Calls -/

/-- Rows of a call: of the type of the cache, and no part of it. -/
structure RowsOk (kv rows : Tensor) (blocks blockSize heads dims tokens : Nat) : Prop where
  shape : rows.shape = [tokens, heads, dims]
  dtype : rows.dtype = kv.dtype
  outside : ∀ idx, Valid rows.shape idx → ∀ half < 2, ∀ n < blocks * blockSize * heads * dims,
    elementAddr rows idx ≠ cellAddr kv half n

/-- A call on the cache. -/
structure CallOk (kv : Tensor) (blocks blockSize heads dims : Nat) (impl : CacheImpl)
    (x : CacheArgs) : Prop where
  out : x.kvCacheOut = kv
  cache : x.kvCache.shape = kv.shape
  key : RowsOk kv x.key blocks blockSize heads dims x.slots.length
  value : RowsOk kv x.value blocks blockSize heads dims x.slots.length
  slotRank : x.slotMapping.ndim = 1
  slotDtype : x.slotMapping.dtype = .kInt32 ∨ x.slotMapping.dtype = .kInt64
  good : GoodSlots x.slots (blocks * blockSize)
  /-- The ATB operation is given no strides, and slots in `int32`. -/
  atb : impl = .atb → x.key.strides = suffixProds x.key.shape ∧
    x.value.strides = suffixProds x.value.shape ∧ blocks * blockSize ≤ 2 ^ 31

/-- Where an element of a row goes. -/
def rowPlace (kv : Tensor) (half heads dims : Nat) (slots : List Int) (v : Nat × Nat × Nat) : Int :=
  place kv half heads dims (slotOf slots v.1) v.2

/-- What a call does to the cache. -/
def Writes {α : Type} (kv : Tensor) (heads dims : Nat) (x : CacheArgs)
    (mem mem' : DeviceMemory α) : Prop :=
  ∃ mid, Copied (rowPlace kv 0 heads dims x.slots) (elementAddr x.key ∘ rowIndex)
      (triples x.slots.length heads dims) mem mid ∧
    Copied (rowPlace kv 1 heads dims x.slots) (elementAddr x.value ∘ rowIndex)
      (triples x.slots.length heads dims) mid mem'

theorem GoodSlots.slotOf_lt {slots : List Int} {count i : Nat} (h : GoodSlots slots count)
    (hi : i < slots.length) : slotOf slots i < count := by
  have hmem := h.inside _ (List.getElem_mem hi)
  rw [slotOf, List.getD_eq_getElem _ _ hi]
  omega

section Call

variable {kv : Tensor} {blocks blockSize heads dims : Nat} {impl : CacheImpl} {x : CacheArgs}

theorem rowsView {rows : Tensor} {tokens : Nat} {d : AclDataType}
    (hrows : RowsOk kv rows blocks blockSize heads dims tokens) (hd : toAclDtype kv.dtype = .ok d) :
    viewOf rows = .ok ⟨AclTensorCache.describe rows false d, rows.data, rows.elementSize⟩ := by
  rw [viewOf, AclTensorCache.ofTensor_eq (hrows.dtype ▸ hd)]
  rfl

/-- What the constructor of the base class reads off the tensors. -/
theorem CallOk.new_eq (hkv : KvLayout kv blocks blockSize heads dims)
    (hx : CallOk kv blocks blockSize heads dims impl x) :
    ReshapeAndCache.new x = .ok ⟨x.slots.length, heads, dims, blockSize⟩ := by
  have hshape : x.key.shape = x.value.shape := hx.key.shape.trans hx.value.shape.symm
  have hrank : x.kvCache.ndim = 5 := by
    rw [Tensor.ndim, hx.cache, hkv.shape]
    rfl
  rw [ReshapeAndCache.new, assertion, if_pos hshape, assertion, if_pos hrank, assertion,
    if_pos hx.slotRank]
  simp [Tensor.size, Tensor.effectiveIndex, hx.key.shape, hx.cache, hkv.shape, ok_bind, pure,
    Except.pure]

theorem CallOk.numBlocks (hkv : KvLayout kv blocks blockSize heads dims)
    (hx : CallOk kv blocks blockSize heads dims impl x) : x.kvCache.size 1 = blocks := by
  simp [Tensor.size, Tensor.effectiveIndex, hx.cache, hkv.shape]

theorem CallOk.slotDesc (hx : CallOk kv blocks blockSize heads dims impl x) :
    ∃ c, AclTensorCache.ofTensor x.slotMapping false = .ok c := by
  rcases hx.slotDtype with h | h
  · exact ⟨_, AclTensorCache.ofTensor_eq (d := .int32) (by rw [h]; rfl) false⟩
  · exact ⟨_, AclTensorCache.ofTensor_eq (d := .int64) (by rw [h]; rfl) false⟩

/-- The descriptors of the halves. -/
theorem CallOk.halfView_zero (hx : CallOk kv blocks blockSize heads dims impl x) (shape : List Nat)
    (d : AclDataType) :
    (⟨.contiguous shape d, x.kvCacheOut.data, x.key.elementSize⟩ : AclView) =
      halfView kv 0 shape d := by
  simp [halfView, hx.out, Tensor.elementSize, hx.key.dtype]

theorem CallOk.halfView_one (hx : CallOk kv blocks blockSize heads dims impl x) (shape : List Nat)
    (d : AclDataType) :
    (⟨.contiguous shape d, x.kvCacheOut.data + x.vOffsetBytes, x.key.elementSize⟩ : AclView) =
      halfView kv 1 shape d := by
  simp [halfView, CacheArgs.vOffsetBytes, hx.out, Tensor.elementSize, hx.key.dtype]

/-- A view of the elements of a tensor. -/
structure ViewsRows (v : AclView) (rows : Tensor) : Prop where
  shape : v.desc.shape = rows.shape
  addr : ∀ idx, v.addr idx = elementAddr rows idx

theorem viewsRows_describe (rows : Tensor) (d : AclDataType) :
    ViewsRows ⟨AclTensorCache.describe rows false d, rows.data, rows.elementSize⟩ rows :=
  ⟨rfl, fun _ => rfl⟩

/-- Without strides, the elements of a contiguous tensor. -/
theorem viewsRows_atb {rows : Tensor} {shape : List Nat} (hshape : rows.shape = shape)
    (hstrides : rows.strides = suffixProds rows.shape) (d : AclDataType) :
    ViewsRows (toAtbTensor shape d rows.data rows.elementSize) rows where
  shape := hshape.symm
  addr idx := by
    rw [AclView.addr, toAtbTensor, AclTensorCache.contiguous_offset_eq, elementAddr, hstrides,
      dot_suffixProds, hshape]

variable {rows : Tensor} {tokens half : Nat} {shape : List Nat} {d : AclDataType} {v : AclView}

theorem RowsOk.separate (hrows : RowsOk kv rows blocks blockSize heads dims tokens)
    (hv : ViewsRows v rows) (hprod : shape.prod = blocks * blockSize * heads * dims)
    (hhalf : half < 2) : v.Separate (halfView kv half shape d) := by
  intro idx idx' hidx hidx' heq
  have hlt : ravel shape idx' < shape.prod := ravel_lt hidx'
  rw [hprod] at hlt
  rw [hv.shape] at hidx
  rw [hv.addr, halfView_addr] at heq
  exact hrows.outside idx hidx half hhalf _ hlt heq

theorem RowsOk.scatterArgs (hrows : RowsOk kv rows blocks blockSize heads dims tokens)
    (hv : ViewsRows v rows) (hprod : (shape ++ [heads, dims]).prod = blocks * blockSize * heads * dims)
    (hhalf : half < 2) :
    ScatterArgs v (halfView kv half (shape ++ [heads, dims]) d) shape tokens heads dims where
  rowsShape := hv.shape.trans hrows.shape
  cacheShape := rfl
  distinct := halfView_distinct kv half _ d
  separate := hrows.separate hv hprod hhalf

/-- Both halves, as a cache of blocks. -/
theorem CallOk.blockArgs (hkv : KvLayout kv blocks blockSize heads dims)
    (hx : CallOk kv blocks blockSize heads dims impl x) {key value : AclView}
    (hkey : ViewsRows key x.key) (hvalue : ViewsRows value x.value) (d : AclDataType) :
    BlockArgs key (halfView kv 0 [blocks, blockSize, heads, dims] d) value
      (halfView kv 1 [blocks, blockSize, heads, dims] d) x.slots blocks blockSize heads dims := by
  have hprod : [blocks, blockSize, heads, dims].prod = blocks * blockSize * heads * dims := by
    simp [Nat.mul_assoc]
  have hkeys : ScatterArgs key (halfView kv 0 ([blocks, blockSize] ++ [heads, dims]) d)
      [blocks, blockSize] x.slots.length heads dims := hx.key.scatterArgs hkey hprod Nat.two_pos
  have hvalues : ScatterArgs value (halfView kv 1 ([blocks, blockSize] ++ [heads, dims]) d)
      [blocks, blockSize] x.slots.length heads dims :=
    hx.value.scatterArgs hvalue hprod Nat.one_lt_two
  refine ⟨hx.good, hkeys, hvalues, hx.key.separate hkey hprod Nat.one_lt_two,
    hx.value.separate hvalue hprod Nat.two_pos, ?_⟩
  intro idx idx' hidx _ heq
  have hlt : ravel [blocks, blockSize, heads, dims] idx < [blocks, blockSize, heads, dims].prod :=
    ravel_lt hidx
  rw [halfView_addr, halfView_addr] at heq
  exact hkv.cellAddr_ne (hprod ▸ hlt) heq

/-- Scattering by slot. -/
theorem copied_slots {α : Type} {mem mem' : DeviceMemory α} (hv : ViewsRows v rows)
    (h : Copied ((halfView kv half [blocks * blockSize, heads, dims] d).addr ∘ slotIndex x.slots)
      (v.addr ∘ rowIndex) (triples x.slots.length heads dims) mem mem') :
    Copied (rowPlace kv half heads dims x.slots) (elementAddr rows ∘ rowIndex)
      (triples x.slots.length heads dims) mem mem' := by
  refine h.congr (fun u _ => ?_) fun u _ => hv.addr _
  rw [Function.comp, halfView_addr, slotIndex, ravel_slot]
  rfl

/-- Scattering by block. -/
theorem copied_blocks {α : Type} {mem mem' : DeviceMemory α} (hv : ViewsRows v rows)
    (h : Copied ((halfView kv half [blocks, blockSize, heads, dims] d).addr ∘
        blockIndex blockSize x.slots)
      (v.addr ∘ rowIndex) (triples x.slots.length heads dims) mem mem') :
    Copied (rowPlace kv half heads dims x.slots) (elementAddr rows ∘ rowIndex)
      (triples x.slots.length heads dims) mem mem' := by
  refine h.congr (fun u _ => ?_) fun u _ => hv.addr _
  rw [Function.comp, halfView_addr, blockIndex, ravel_block]
  rfl

theorem ScattersBlocks.writes {α : Type} {mem mem' : DeviceMemory α} {key value : AclView}
    (hkey : ViewsRows key x.key) (hvalue : ViewsRows value x.value)
    (h : ScattersBlocks key (halfView kv 0 [blocks, blockSize, heads, dims] d) value
      (halfView kv 1 [blocks, blockSize, heads, dims] d) x.slots blockSize heads dims mem mem') :
    Writes kv heads dims x mem mem' := by
  obtain ⟨mid, hfirst, hsecond⟩ := h
  exact ⟨mid, copied_blocks hkey hfirst, copied_blocks hvalue hsecond⟩

/-! ## One call -/

variable {α : Type} {K : CacheKernels α} (hK : K.Documented)
  (hkv : KvLayout kv blocks blockSize heads dims) (mem : DeviceMemory α)

include hK hkv

theorem indexCopyCache_spec (hx : CallOk kv blocks blockSize heads dims .indexCopy x) :
    ∃ mem', indexCopyCache K x mem = .ok mem' ∧ Writes kv heads dims x mem mem' := by
  obtain ⟨d, hd⟩ := hkv.dtype
  obtain ⟨c, hc⟩ := hx.slotDesc
  have hprod : ([blocks * blockSize] ++ [heads, dims]).prod = blocks * blockSize * heads * dims := by
    simp [Nat.mul_assoc]
  have hfirst := hK.indexCopy _ x.slots _ mem (blocks * blockSize) heads dims hx.good
    (hx.key.scatterArgs (d := d) (viewsRows_describe x.key d) hprod Nat.two_pos)
  have hsecond := hK.indexCopy _ x.slots _
    (K.inplaceIndexCopy (halfView kv 0 ([blocks * blockSize] ++ [heads, dims]) d) 0 x.slots
      ⟨AclTensorCache.describe x.key false d, x.key.data, x.key.elementSize⟩ mem)
    (blocks * blockSize) heads dims hx.good
    (hx.value.scatterArgs (d := d) (viewsRows_describe x.value d) hprod Nat.one_lt_two)
  refine ⟨_, ?_, _, copied_slots (viewsRows_describe x.key d) hfirst,
    copied_slots (viewsRows_describe x.value d) hsecond⟩
  rw [indexCopyCache, hx.new_eq hkv, ok_bind, rowsView hx.key hd, ok_bind, rowsView hx.value hd,
    ok_bind, hc, ok_bind, hx.key.dtype, hd, ok_bind, hx.numBlocks hkv]
  simp only [hx.halfView_zero, hx.halfView_one]
  rfl

theorem scatterPaCache_spec (hx : CallOk kv blocks blockSize heads dims .scatterPa x) :
    ∃ mem', scatterPaCache K x mem = .ok mem' ∧ Writes kv heads dims x mem mem' := by
  obtain ⟨d, hd⟩ := hkv.dtype
  obtain ⟨c, hc⟩ := hx.slotDesc
  have hkey := viewsRows_describe x.key d
  have hvalue := viewsRows_describe x.value d
  have hscatter := hK.scatterPa _ _ x.slots _ _ mem blocks blockSize heads dims
    (hx.blockArgs hkv hkey hvalue d)
  refine ⟨_, ?_, hscatter.writes hkey hvalue⟩
  rw [scatterPaCache, hx.new_eq hkv, ok_bind, rowsView hx.key hd, ok_bind, rowsView hx.value hd,
    ok_bind, hc, ok_bind, hx.key.dtype, hd, ok_bind, hx.numBlocks hkv]
  simp only [hx.halfView_zero, hx.halfView_one]
  rfl

theorem atbCache_spec (hx : CallOk kv blocks blockSize heads dims .atb x) :
    ∃ mem', atbCache K x mem = .ok mem' ∧ Writes kv heads dims x mem mem' := by
  obtain ⟨d, hd⟩ := hkv.dtype
  obtain ⟨hkeyStrides, hvalueStrides, hcount⟩ := hx.atb rfl
  have hbound : ∀ s ∈ x.slots, 0 ≤ s ∧ s < 2 ^ 31 := by
    intro s hs
    have hinside := hx.good.inside s hs
    have hcount' : ((blocks * blockSize : Nat) : Int) ≤ 2 ^ 31 := by exact_mod_cast hcount
    omega
  have hslots : (if x.slotMapping.elementSize = 4 then x.slots else K.castInt32 x.slots) = x.slots := by
    split
    · rfl
    · exact hK.cast x.slots hbound
  have hkey := viewsRows_atb hx.key.shape hkeyStrides d
  have hvalue := viewsRows_atb hx.value.shape hvalueStrides d
  have hscatter := hK.atb _ _ _ _ x.slots mem blocks blockSize heads dims
    (hx.blockArgs hkv hkey hvalue d) fun s hs => (hbound s hs).2
  have hsize : x.value.elementSize = x.key.elementSize := by
    rw [Tensor.elementSize, Tensor.elementSize, hx.value.dtype, hx.key.dtype]
  refine ⟨_, ?_, hscatter.writes hkey hvalue⟩
  rw [atbCache, hx.new_eq hkv, ok_bind, hx.key.dtype, hd, ok_bind, hx.numBlocks hkv]
  simp only [hslots, hsize, toAtbTensor, hx.halfView_zero, hx.halfView_one]
  rfl

/-- Every implementation copies the rows of the call to the places of their
slots. -/
theorem writeCache_spec (hx : CallOk kv blocks blockSize heads dims impl x) :
    ∃ mem', writeCache K x mem impl = .ok mem' ∧ Writes kv heads dims x mem mem' := by
  cases impl with
  | indexCopy => exact indexCopyCache_spec hK hkv mem hx
  | scatterPa => exact scatterPaCache_spec hK hkv mem hx
  | atb => exact atbCache_spec hK hkv mem hx

end Call

/-! ## The store -/

/-- What the cache holds: a row of keys and one of values for every slot. -/
structure KvStore (α : Type) where
  key : Nat → Nat × Nat → α
  value : Nat → Nat × Nat → α

/-- The memory holds the store. -/
structure Cached {α : Type} (kv : Tensor) (count heads dims : Nat) (mem : DeviceMemory α)
    (store : KvStore α) : Prop where
  key : Holds (place kv 0 heads dims) count (Field heads dims) mem store.key
  value : Holds (place kv 1 heads dims) count (Field heads dims) mem store.value

/-- The rows of a tensor, by token. -/
def rowsAt {α : Type} (mem : DeviceMemory α) (rows : Tensor) (i : Nat) (f : Nat × Nat) : α :=
  mem (elementAddr rows [i, f.1, f.2])

/-- A call on the store: a row goes to its slot. -/
def KvStore.put {α : Type} (store : KvStore α) (x : CacheArgs) (mem : DeviceMemory α) : KvStore α where
  key := putAll (x.slots.map Int.toNat) (rowsAt mem x.key) store.key
  value := putAll (x.slots.map Int.toNat) (rowsAt mem x.value) store.value

section Store

variable {α : Type} {kv : Tensor} {blocks blockSize heads dims : Nat} {impl : CacheImpl}
  {x : CacheArgs} {mem mem' : DeviceMemory α} {store : KvStore α}

theorem GoodSlots.nodup_toNat {slots : List Int} {count : Nat} (h : GoodSlots slots count) :
    (slots.map Int.toNat).Nodup := by
  refine h.nodup.map_on fun s hs s' hs' heq => ?_
  have hs := h.inside s hs
  have hs' := h.inside s' hs'
  omega

theorem mem_visits {tokens heads dims : Nat} (v : Nat × Nat × Nat) :
    v ∈ triples tokens heads dims ↔ ∃ i < tokens, ∃ f, Field heads dims f ∧ v = (i, f) := by
  obtain ⟨i, h, d⟩ := v
  rw [mem_triples]
  constructor
  · rintro ⟨hi, hh, hd⟩
    exact ⟨i, hi, (h, d), ⟨hh, hd⟩, rfl⟩
  · rintro ⟨i', hi, f, hf, heq⟩
    cases heq
    exact ⟨hi, hf.1, hf.2⟩

/-- One half takes the rows. -/
theorem holds_rows {half : Nat} {rows : Tensor} {slots : List Int} {count : Nat}
    {records : Nat → Nat × Nat → α}
    (h : Holds (place kv half heads dims) count (Field heads dims) mem records)
    (hgood : GoodSlots slots count)
    (hcopied : Copied (rowPlace kv half heads dims slots) (elementAddr rows ∘ rowIndex)
      (triples slots.length heads dims) mem mem') :
    Holds (place kv half heads dims) count (Field heads dims) mem'
      (putAll (slots.map Int.toNat) (rowsAt mem rows) records) := by
  refine h.copied (place_disjoint kv half count heads dims) hgood.nodup_toNat ?_ (fun i f => (i, f))
    ?_ ?_ hcopied
  · intro s hs
    obtain ⟨z, hz, rfl⟩ := List.mem_map.mp hs
    have hz := hgood.inside z hz
    omega
  · intro i hi f _
    rw [List.length_map] at hi
    rw [rowPlace, slotOf, List.getD_eq_getElem _ _ hi, List.getElem_map]
  · intro v
    rw [List.length_map]
    exact mem_visits v

/-- A row of a call lies outside the cache. -/
theorem RowsOk.ne_place {rows : Tensor} {tokens : Nat}
    (hrows : RowsOk kv rows blocks blockSize heads dims tokens) {i : Nat} (hi : i < tokens)
    {f : Nat × Nat} (hf : Field heads dims f) {half : Nat} (hhalf : half < 2) {s : Nat}
    (hs : s < blocks * blockSize) {f' : Nat × Nat} (hf' : Field heads dims f') :
    elementAddr rows [i, f.1, f.2] ≠ place kv half heads dims s f' :=
  hrows.outside _ (hrows.shape ▸ valid_slot hi hf.1 hf.2) half hhalf _ (element_lt hs hf'.1 hf'.2)

/-- A call updates the store. -/
theorem Cached.write (hkv : KvLayout kv blocks blockSize heads dims)
    (hx : CallOk kv blocks blockSize heads dims impl x)
    (h : Cached kv (blocks * blockSize) heads dims mem store)
    (hwrites : Writes kv heads dims x mem mem') :
    Cached kv (blocks * blockSize) heads dims mem' (store.put x mem) := by
  obtain ⟨mid, hfirst, hsecond⟩ := hwrites
  have hvalue : Holds (place kv 1 heads dims) (blocks * blockSize) (Field heads dims) mid
      store.value := by
    refine h.value.frame fun s _ f _ => hfirst.frame_of_ne fun v hv => ?_
    obtain ⟨i, hi, f', hf', rfl⟩ := (mem_visits v).mp hv
    exact hkv.place_ne (hx.good.slotOf_lt hi) hf'
  constructor
  · refine (holds_rows h.key hx.good hfirst).frame fun s hs f hf => hsecond.frame_of_ne fun v _ => ?_
    exact (hkv.place_ne hs hf).symm
  · -- the values are read after the keys have been written, and are no part of them
    refine (holds_rows hvalue hx.good hsecond).congr fun s f hf => putAll_congr (fun i hi => ?_) s
    rw [List.length_map] at hi
    refine hfirst.frame_of_ne fun v hv => ?_
    obtain ⟨j, hj, f', hf', rfl⟩ := (mem_visits v).mp hv
    exact (hx.value.ne_place hi hf Nat.two_pos (hx.good.slotOf_lt hj) hf').symm

end Store

/-! ## Runs -/

/-- What happens to the memory: a call on the cache, or anything else. -/
inductive CacheEvent (α : Type) where
  | write (impl : CacheImpl) (x : CacheArgs)
  | other (f : DeviceMemory α → DeviceMemory α)

/-- An event that is a call on this cache, or leaves it alone. -/
def CacheEvent.Ok {α : Type} (kv : Tensor) (blocks blockSize heads dims : Nat) :
    CacheEvent α → Prop
  | .write impl x => CallOk kv blocks blockSize heads dims impl x
  | .other f => ∀ mem, ∀ half < 2, ∀ n < blocks * blockSize * heads * dims,
    f mem (cellAddr kv half n) = mem (cellAddr kv half n)

/-- The event writes a slot. -/
def CacheEvent.Hits {α : Type} (s : Int) : CacheEvent α → Prop
  | .write _ x => s ∈ x.slots
  | .other _ => False

def CacheEvent.apply {α : Type} (K : CacheKernels α) (mem : DeviceMemory α) :
    CacheEvent α → Except Failure (DeviceMemory α)
  | .write impl x => writeCache K x mem impl
  | .other f => .ok (f mem)

def runCache {α : Type} (K : CacheKernels α) (es : List (CacheEvent α)) (mem : DeviceMemory α) :
    Except Failure (DeviceMemory α) := es.foldlM (CacheEvent.apply K) mem

section Runs

variable {α : Type} {K : CacheKernels α} {kv : Tensor} {blocks blockSize heads dims : Nat}

theorem runCache_cons (e : CacheEvent α) (es : List (CacheEvent α)) (mem : DeviceMemory α) :
    runCache K (e :: es) mem = e.apply K mem >>= runCache K es := List.foldlM_cons ..

theorem runCache_append (es es' : List (CacheEvent α)) (mem : DeviceMemory α) :
    runCache K (es ++ es') mem = runCache K es mem >>= runCache K es' := List.foldlM_append ..

/-- What one event does to the store. -/
theorem Cached.event (hK : K.Documented) (hkv : KvLayout kv blocks blockSize heads dims)
    {e : CacheEvent α} (he : e.Ok kv blocks blockSize heads dims) {mem : DeviceMemory α}
    {store : KvStore α} (h : Cached kv (blocks * blockSize) heads dims mem store) :
    ∃ mem' store', e.apply K mem = .ok mem' ∧ Cached kv (blocks * blockSize) heads dims mem' store' ∧
      ∀ s : Nat, ¬ e.Hits (s : Int) → store'.key s = store.key s ∧ store'.value s = store.value s := by
  cases e with
  | write impl x =>
    obtain ⟨mem', hok, hwrites⟩ := writeCache_spec hK hkv mem he
    refine ⟨mem', store.put x mem, hok, h.write hkv he hwrites, fun s hs => ?_⟩
    have hnot : s ∉ x.slots.map Int.toNat := by
      rintro hmem
      obtain ⟨z, hz, heq⟩ := List.mem_map.mp hmem
      have hinside := he.good.inside z hz
      have hcast : (s : Int) = z := by omega
      exact hs (hcast ▸ hz)
    exact ⟨putAll_of_notMem hnot, putAll_of_notMem hnot⟩
  | other f =>
    refine ⟨f mem, store, rfl, ⟨?_, ?_⟩, fun _ _ => ⟨rfl, rfl⟩⟩
    · exact h.key.frame fun s hs g hg => he mem 0 Nat.two_pos _ (element_lt hs hg.1 hg.2)
    · exact h.value.frame fun s hs g hg => he mem 1 Nat.one_lt_two _ (element_lt hs hg.1 hg.2)

/-- Over a run, a slot changes only where it is written. -/
theorem Cached.run (hK : K.Documented) (hkv : KvLayout kv blocks blockSize heads dims)
    {es : List (CacheEvent α)} (hes : ∀ e ∈ es, e.Ok kv blocks blockSize heads dims)
    {mem : DeviceMemory α} {store : KvStore α}
    (h : Cached kv (blocks * blockSize) heads dims mem store) :
    ∃ mem' store', runCache K es mem = .ok mem' ∧
      Cached kv (blocks * blockSize) heads dims mem' store' ∧
      ∀ s : Nat, (∀ e ∈ es, ¬ e.Hits (s : Int)) →
        store'.key s = store.key s ∧ store'.value s = store.value s := by
  induction es generalizing mem store with
  | nil => exact ⟨mem, store, rfl, h, fun _ _ => ⟨rfl, rfl⟩⟩
  | cons e es ih =>
    obtain ⟨mem₁, store₁, hok, hcached, hsame⟩ := h.event hK hkv (hes e List.mem_cons_self)
    obtain ⟨mem', store', hrun, hcached', hsame'⟩ :=
      ih (fun e he => hes e (List.mem_cons_of_mem _ he)) hcached
    refine ⟨mem', store', by rw [runCache_cons, hok, ok_bind, hrun], hcached', fun s hs => ?_⟩
    obtain ⟨hkey, hvalue⟩ := hsame s (hs e List.mem_cons_self)
    obtain ⟨hkey', hvalue'⟩ := hsame' s fun e he => hs e (List.mem_cons_of_mem _ he)
    exact ⟨hkey'.trans hkey, hvalue'.trans hvalue⟩

/-! ## Readers -/

theorem cacheHalf_size (hkv : KvLayout kv blocks blockSize heads dims) (half : Nat) :
    (cacheHalf kv half).size 0 = blocks ∧ (cacheHalf kv half).size 1 = blockSize ∧
      (cacheHalf kv half).size 2 = heads ∧ (cacheHalf kv half).size 3 = dims := by
  simp [cacheHalf, Tensor.size, Tensor.effectiveIndex, hkv.shape]

theorem cacheHalf_data (hkv : KvLayout kv blocks blockSize heads dims) (half : Nat) :
    ((cacheHalf kv half).data : Int) = kv.data + half * (kv.stride 0 * kv.elementSize) := by
  have hstride : 0 ≤ kv.stride 0 := le_trans (Int.natCast_nonneg _) hkv.apart
  have hhalf : 0 ≤ (half : Int) * (kv.stride 0 * kv.elementSize) :=
    Int.mul_nonneg (Int.natCast_nonneg _) (Int.mul_nonneg hstride (Int.natCast_nonneg _))
  exact Int.toNat_of_nonneg (Int.add_nonneg (Int.natCast_nonneg _) hhalf)

/-- An element of a view of a half. -/
theorem view_addr (hkv : KvLayout kv blocks blockSize heads dims) {half n : Nat}
    {desc : AclTensorCache} {idx : List Nat} (hoffset : desc.offset idx = n) :
    (⟨desc, (cacheHalf kv half).data, (cacheHalf kv half).elementSize⟩ : AclView).addr idx =
      cellAddr kv half n := by
  rw [AclView.addr, hoffset, cacheHalf_data hkv, cellAddr]
  change (kv.data + half * (kv.stride 0 * kv.elementSize) + kv.elementSize * (n : Int) : Int) = _
  ring

/-- The heads of a position, in one dimension. -/
theorem flatHeads_offset (hkv : KvLayout kv blocks blockSize heads dims) (half : Nat)
    (d : AclDataType) (block offset : Nat) (f : Nat × Nat) :
    (flatHeadsKv (cacheHalf kv half) d).desc.offset [block, offset, f.1 * dims + f.2] =
      (((block * blockSize + offset) * heads + f.1) * dims + f.2 : Nat) := by
  obtain ⟨-, h1, h2, h3⟩ := cacheHalf_size hkv half
  simp only [flatHeadsKv, AclTensorCache.offset, dot, h1, h2, h3]
  push_cast
  ring

/-- The heads before the positions of a block. -/
theorem headsFirst_offset (hkv : KvLayout kv blocks blockSize heads dims) (half : Nat)
    (d : AclDataType) (block offset : Nat) (f : Nat × Nat) :
    (mhaFwdKvcacheKv (cacheHalf kv half) d).desc.offset [block, f.1, offset, f.2] =
      (((block * blockSize + offset) * heads + f.1) * dims + f.2 : Nat) := by
  obtain ⟨-, h1, h2, h3⟩ := cacheHalf_size hkv half
  simp only [mhaFwdKvcacheKv, AclTensorCache.offset, dot, h1, h2, h3]
  push_cast
  ring

/-- Every reader finds a slot in its block. -/
theorem reader_addr (hkv : KvLayout kv blocks blockSize heads dims) (r : CacheReader) (half : Nat)
    (d : AclDataType) (s : Nat) (f : Nat × Nat) :
    (r.view (cacheHalf kv half) d).addr (r.index dims (s / blockSize) (s % blockSize) f.1 f.2) =
      place kv half heads dims s f := by
  have hsplit : s / blockSize * blockSize + s % blockSize = s := Nat.div_add_mod' s blockSize
  have hflat := flatHeads_offset hkv half d (s / blockSize) (s % blockSize) f
  have hfirst := headsFirst_offset hkv half d (s / blockSize) (s % blockSize) f
  rw [hsplit] at hflat hfirst
  cases r with
  | pagedAttention =>
    obtain ⟨h0, h1, h2, h3⟩ := cacheHalf_size hkv half
    rw [CacheReader.view, pagedAttentionKv, toAtbTensor, h0, h1, h2, h3, CacheReader.index,
      view_addr hkv (AclTensorCache.contiguous_offset_eq ..), ravel_block, place]
  | flashAttention => exact view_addr hkv hflat
  | mhaVarlenFwd => exact view_addr hkv hflat
  | mhaFwdKvcache => exact view_addr hkv hfirst

theorem KvStore.put_slot {impl : CacheImpl} {x : CacheArgs}
    (hx : CallOk kv blocks blockSize heads dims impl x) {i : Nat} (hi : i < x.slots.length)
    (store : KvStore α) (mem : DeviceMemory α) :
    (store.put x mem).key (slotOf x.slots i) = rowsAt mem x.key i ∧
      (store.put x mem).value (slotOf x.slots i) = rowsAt mem x.value i := by
  have hmap : i < (x.slots.map Int.toNat).length := by rwa [List.length_map]
  have hslot : slotOf x.slots i = (x.slots.map Int.toNat)[i] := by
    rw [slotOf, List.getD_eq_getElem _ _ hi, List.getElem_map]
  rw [hslot]
  exact ⟨putAll_getElem hx.good.nodup_toNat hmap, putAll_getElem hx.good.nodup_toNat hmap⟩

end Runs

/-! ## Kernels that copy one element after the other -/

/-- Row by row. -/
def copyRows {α : Type} (dst src : Nat × Nat × Nat → Int) (rows : AclView) (tokens : Nat)
    (mem : DeviceMemory α) : DeviceMemory α :=
  storeAll dst (fun v _ => mem (src v)) mem
    (triples tokens (rows.desc.shape.getD 1 0) (rows.desc.shape.getD 2 0))

/-- Both halves, by block. -/
def copyBlocks {α : Type} (key keyCache value valueCache : AclView) (slots : List Int)
    (mem : DeviceMemory α) : DeviceMemory α :=
  let blockSize := keyCache.desc.shape.getD 1 0
  copyRows (valueCache.addr ∘ blockIndex blockSize slots) (value.addr ∘ rowIndex) value slots.length
    (copyRows (keyCache.addr ∘ blockIndex blockSize slots) (key.addr ∘ rowIndex) key slots.length mem)

def copyKernels (α : Type) : CacheKernels α where
  inplaceIndexCopy self _ index source mem :=
    copyRows (self.addr ∘ slotIndex index) (source.addr ∘ rowIndex) source index.length mem
  scatterPaKvCache key keyCache slots value valueCache mem :=
    copyBlocks key keyCache value valueCache slots mem
  reshapeAndCache key value keyCache valueCache slots mem :=
    copyBlocks key keyCache value valueCache slots mem
  castInt32 := List.map toInt32

section CopyKernels

variable {α : Type} {rows cache : AclView} {shape : List Nat} {slots : List Int}
  {count blocks blockSize heads dims : Nat} {mem : DeviceMemory α}

/-- Two elements of the rows that go to one place are the same. -/
theorem nodup_of_index {index : Nat × Nat × Nat → List Nat}
    (hgood : GoodSlots slots count)
    (hargs : ScatterArgs rows cache shape slots.length heads dims)
    (hvalid : ∀ v ∈ triples slots.length heads dims, Valid (shape ++ [heads, dims]) (index v))
    (hindex : ∀ u v, index u = index v → slotOf slots u.1 = slotOf slots v.1 ∧ u.2 = v.2) :
    ((triples slots.length heads dims).map (cache.addr ∘ index)).Nodup := by
  refine (nodup_triples ..).map_on fun u hu v hv heq => ?_
  have hsame := hargs.distinct _ _ (hargs.cacheShape ▸ hvalid u hu) (hargs.cacheShape ▸ hvalid v hv)
    heq
  obtain ⟨hslot, hrest⟩ := hindex u v hsame
  obtain ⟨i, hi, f, -, rfl⟩ := (mem_visits u).mp hu
  obtain ⟨j, hj, g, -, rfl⟩ := (mem_visits v).mp hv
  have hi' : i < (slots.map Int.toNat).length := by rwa [List.length_map]
  have hj' : j < (slots.map Int.toNat).length := by rwa [List.length_map]
  have hmap : (slots.map Int.toNat)[i] = (slots.map Int.toNat)[j] := by
    simpa [slotOf, hi, hj] using hslot
  exact Prod.ext (hgood.nodup_toNat.getElem_inj_iff.mp hmap) hrest

theorem copyRows_copied {index : Nat × Nat × Nat → List Nat} (hgood : GoodSlots slots count)
    (hargs : ScatterArgs rows cache shape slots.length heads dims)
    (hvalid : ∀ v ∈ triples slots.length heads dims, Valid (shape ++ [heads, dims]) (index v))
    (hindex : ∀ u v, index u = index v → slotOf slots u.1 = slotOf slots v.1 ∧ u.2 = v.2) :
    Copied (cache.addr ∘ index) (rows.addr ∘ rowIndex) (triples slots.length heads dims) mem
      (copyRows (cache.addr ∘ index) (rows.addr ∘ rowIndex) rows slots.length mem) := by
  rw [copyRows, hargs.rowsShape]
  exact copied_storeAll (nodup_of_index hgood hargs hvalid hindex) mem

theorem copyBlocks_scatters {key keyCache value valueCache : AclView}
    (h : BlockArgs key keyCache value valueCache slots blocks blockSize heads dims) :
    ScattersBlocks key keyCache value valueCache slots blockSize heads dims mem
      (copyBlocks key keyCache value valueCache slots mem) := by
  have hvalid : ∀ v ∈ triples slots.length heads dims,
      Valid ([blocks, blockSize] ++ [heads, dims]) (blockIndex blockSize slots v) := by
    intro v hv
    obtain ⟨i, hi, f, hf, rfl⟩ := (mem_visits v).mp hv
    exact valid_block (h.good.slotOf_lt hi) hf.1 hf.2
  have hindex : ∀ u v, blockIndex blockSize slots u = blockIndex blockSize slots v →
      slotOf slots u.1 = slotOf slots v.1 ∧ u.2 = v.2 := by
    intro u v heq
    simp only [blockIndex, List.cons.injEq, and_true] at heq
    obtain ⟨hdiv, hmod, hhead, hdim⟩ := heq
    refine ⟨?_, Prod.ext hhead hdim⟩
    rw [← Nat.div_add_mod' (slotOf slots u.1) blockSize, hdiv, hmod, Nat.div_add_mod']
  rw [copyBlocks, h.keys.cacheShape]
  exact ⟨_, copyRows_copied h.good h.keys hvalid hindex, copyRows_copied h.good h.values hvalid hindex⟩

theorem copyKernels_documented (α : Type) : (copyKernels α).Documented where
  indexCopy self index source mem count heads dims hgood hargs := by
    refine copyRows_copied hgood hargs (fun v hv => ?_) fun u v heq => ?_
    · obtain ⟨i, hi, f, hf, rfl⟩ := (mem_visits v).mp hv
      exact valid_slot (hgood.slotOf_lt hi) hf.1 hf.2
    · simp only [slotIndex, List.cons.injEq, and_true] at heq
      exact ⟨heq.1, Prod.ext heq.2.1 heq.2.2⟩
  scatterPa _ _ _ _ _ _ _ _ _ _ h := copyBlocks_scatters h
  atb _ _ _ _ _ _ _ _ _ _ h _ := copyBlocks_scatters h
  cast slots h := by
    refine (List.map_congr_left fun s hs => ?_).trans (List.map_id slots)
    obtain ⟨hlow, hhigh⟩ := h s hs
    exact toInt32_eq_self (by omega) (by omega)

end CopyKernels

/-! ## Reading what was written -/

section Last

variable {α : Type} {K : CacheKernels α} {kv : Tensor} {blocks blockSize heads dims : Nat}

/-- After any run, every reader finds in a slot the rows that were last
written to it. -/
theorem reads_last_write (hK : K.Documented) (hkv : KvLayout kv blocks blockSize heads dims)
    {before after : List (CacheEvent α)} {impl : CacheImpl} {x : CacheArgs}
    (hbefore : ∀ e ∈ before, e.Ok kv blocks blockSize heads dims)
    (hx : CallOk kv blocks blockSize heads dims impl x)
    (hafter : ∀ e ∈ after, e.Ok kv blocks blockSize heads dims) (mem : DeviceMemory α)
    {i : Nat} (hi : i < x.slots.length) (hlast : ∀ e ∈ after, ¬ e.Hits x.slots[i]) :
    ∃ called final, runCache K before mem = .ok called ∧
      runCache K (before ++ .write impl x :: after) mem = .ok final ∧
      ∀ (r : CacheReader) (d : AclDataType) (h e : Nat), h < heads → e < dims →
        final ((r.view (cacheHalf kv 0) d).addr (r.index dims (slotOf x.slots i / blockSize)
          (slotOf x.slots i % blockSize) h e)) = called (elementAddr x.key [i, h, e]) ∧
        final ((r.view (cacheHalf kv 1) d).addr (r.index dims (slotOf x.slots i / blockSize)
          (slotOf x.slots i % blockSize) h e)) = called (elementAddr x.value [i, h, e]) := by
  have hself : Cached kv (blocks * blockSize) heads dims mem
      ⟨fun s f => mem (place kv 0 heads dims s f), fun s f => mem (place kv 1 heads dims s f)⟩ :=
    ⟨holds_self mem, holds_self mem⟩
  obtain ⟨called, store₁, hrun, hcached, -⟩ := hself.run hK hkv hbefore
  obtain ⟨mem₂, hok, hwrites⟩ := writeCache_spec hK hkv called hx
  obtain ⟨final, store₂, hrun', hcached', hsame⟩ := (hcached.write hkv hx hwrites).run hK hkv hafter
  refine ⟨called, final, hrun, ?_, fun r d h e hh he => ?_⟩
  · rw [runCache_append, hrun, ok_bind, runCache_cons]
    exact (congrArg (· >>= runCache K after) hok).trans hrun'
  · have hinside := hx.good.inside _ (List.getElem_mem hi)
    have hcast : ((slotOf x.slots i : Nat) : Int) = x.slots[i] := by
      rw [slotOf, List.getD_eq_getElem _ _ hi]
      omega
    have hlt := hx.good.slotOf_lt hi
    obtain ⟨hkey, hvalue⟩ := hsame (slotOf x.slots i) (hcast ▸ hlast)
    obtain ⟨hkey', hvalue'⟩ := KvStore.put_slot hx hi store₁ called
    rw [reader_addr hkv r 0 d _ (h, e), reader_addr hkv r 1 d _ (h, e),
      hcached'.key _ hlt (h, e) ⟨hh, he⟩, hcached'.value _ hlt (h, e) ⟨hh, he⟩, hkey, hvalue,
      hkey', hvalue']
    exact ⟨rfl, rfl⟩

end Last

/-- A call on a cache of one block of two slots, in memory at zero. -/
def slotCall (slot : Int) : CacheArgs where
  key := ⟨100, [1, 1, 1], .kFloat16, {}, [1, 1, 1]⟩
  value := ⟨200, [1, 1, 1], .kFloat16, {}, [1, 1, 1]⟩
  kvCache := ⟨0, [2, 1, 2, 1, 1], .kFloat16, {}, [2, 2, 1, 1, 1]⟩
  slotMapping := ⟨300, [1], .kInt64, {}, [1]⟩
  slots := [slot]
  kvCacheOut := ⟨0, [2, 1, 2, 1, 1], .kFloat16, {}, [2, 2, 1, 1, 1]⟩

theorem slotCall_rows {data : Nat} (hdata : 8 ≤ data) :
    RowsOk (slotCall 0).kvCacheOut ⟨data, [1, 1, 1], .kFloat16, {}, [1, 1, 1]⟩ 1 2 1 1 1 where
  shape := rfl
  dtype := rfl
  outside idx hidx half hhalf n hn heq := by
    have hsize : (⟨data, [1, 1, 1], .kFloat16, {}, [1, 1, 1]⟩ : Tensor).elementSize = 2 := rfl
    have hzero : idx = [0, 0, 0] := by
      cases hidx with
      | cons hi hrest =>
        cases hrest with
        | cons hj hrest =>
          cases hrest with
          | cons hk hrest =>
            cases hrest
            rw [Nat.lt_one_iff.mp hi, Nat.lt_one_iff.mp hj, Nat.lt_one_iff.mp hk]
    subst hzero
    change ((data : Int) + 2 * 0 = 0 + 2 * (half * 2 + n)) at heq
    omega

theorem slotCall_ok {slot : Int} (hlow : 0 ≤ slot) (hhigh : slot < 2) (impl : CacheImpl) :
    CallOk (slotCall 0).kvCacheOut 1 2 1 1 impl (slotCall slot) where
  out := rfl
  cache := rfl
  key := slotCall_rows (by decide)
  value := slotCall_rows (by decide)
  slotRank := rfl
  slotDtype := .inr rfl
  good := ⟨fun s hs => List.mem_singleton.mp hs ▸ ⟨hlow, hhigh⟩, List.nodup_singleton slot⟩
  atb _ := ⟨rfl, rfl, by decide⟩

theorem reads_last_write_first :
    ∃ called final : DeviceMemory Int,
      runCache (copyKernels Int) [.write .scatterPa (slotCall 1)] id = .ok called ∧
      runCache (copyKernels Int) [.write .scatterPa (slotCall 1), .write .atb (slotCall 0),
        .write .indexCopy (slotCall 1)] id = .ok final ∧
      final ((CacheReader.mhaFwdKvcache.view (cacheHalf (slotCall 0).kvCacheOut 1) .float16).addr
        [0, 0, 0, 0]) = called 200 := by
  have hlayout : KvLayout (slotCall 0).kvCacheOut 1 2 1 1 :=
    ⟨rfl, by decide, .float16, rfl⟩
  have hfirst : CallOk (slotCall 0).kvCacheOut 1 2 1 1 .atb (slotCall 0) :=
    slotCall_ok (by decide) (by decide) .atb
  have hone : ∀ impl, ∀ e ∈ [CacheEvent.write (α := Int) impl (slotCall 1)],
      e.Ok (slotCall 0).kvCacheOut 1 2 1 1 := by
    intro impl e he
    rw [List.mem_singleton.mp he]
    exact slotCall_ok (by decide) (by decide) impl
  obtain ⟨called, final, hcalled, hfinal, hreads⟩ := reads_last_write (copyKernels_documented Int)
    hlayout (hone .scatterPa) hfirst (hone .indexCopy) id (i := 0) Nat.one_pos
    (by simp [CacheEvent.Hits, slotCall])
  exact ⟨called, final, hcalled, hfinal,
    (hreads .mhaFwdKvcache .float16 0 0 Nat.one_pos Nat.one_pos).2⟩

end InfiniOps.Ascend
