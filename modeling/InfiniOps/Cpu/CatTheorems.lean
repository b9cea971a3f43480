/-
InfiniOps.Cpu.CatTheorems — what the copies of `Cat` do together.

`copies_eq` takes the machine arithmetic off: below 2^64 bytes the copies
are those of the exact offsets (`exactCopies`), also where a wrapped
product of extents is not the exact one, because some other extent is zero
then. The exact copies tile `out` (`tiles_exactCopies`).
-/
import InfiniOps.Cpu.Cat
import InfiniOps.Lib.Except

namespace InfiniOps.Cpu

open RowMajor BlockStore

/-- The elements of a contiguous tensor lie in row-major order. -/
theorem byteAddress_eq {t : Tensor} (h : Packed t) {idx : List Nat} (hidx : Valid t.shape idx) :
    byteAddress t idx = t.data + (t.elementSize * ravel t.shape idx : Nat) := by
  have hoffset : t.offset idx ≡ (ravel t.shape idx : Int) [ZMOD 2 ^ 64] := by
    rw [← dot_suffixProds]
    exact dot_modEq idx (Tensor.forall₂_of_isContiguous h.rank_eq h.contiguous)
  have hlt : t.data + t.elementSize * ravel t.shape idx < 2 ^ 64 := by
    refine Nat.lt_of_lt_of_le (Nat.add_lt_add_left ?_ _) h.in_space
    rw [Tensor.numel_eq]
    exact Nat.mul_lt_mul_of_pos_left (ravel_lt hidx) t.elementSize_pos
  have haddress : t.address idx
      ≡ (t.data + t.elementSize * ravel t.shape idx : Nat) [ZMOD 2 ^ 64] := by
    push_cast
    exact (hoffset.mul_left _).add_left _
  rw [byteAddress, toUInt64_eq_of_emod haddress hlt]
  push_cast
  rfl

namespace Cat

/-! ## Construction -/

/-- `input` has the shape of `out`, but for its own extent at `d`. -/
structure Fits (d : Nat) (out input : Tensor) : Prop where
  shape : input.shape = out.shape.set d (input.shape.getD d 0)
  dtype : input.dtype = out.dtype

theorem set_eq_of_getD {shape shape' : List Nat} {d : Nat} (hlen : shape.length = shape'.length)
    (h : ∀ i < shape'.length, i ≠ d → shape.getD i 0 = shape'.getD i 0) :
    shape = shape'.set d (shape.getD d 0) := by
  refine List.ext_getElem (by simpa using hlen) fun i hi hi' => ?_
  have hi'' : i < shape'.length := hlen ▸ hi
  rw [List.getElem_set]
  split
  · rename_i hdi
    subst hdi
    exact (List.getD_eq_getElem _ _ hi).symm
  · rename_i hdi
    have hget := h i hi'' (Ne.symm hdi)
    rwa [List.getD_eq_getElem _ _ hi, List.getD_eq_getElem _ _ hi''] at hget

theorem set_getD_self (shape : List Nat) (d : Nat) : shape.set d (shape.getD d 0) = shape :=
  (set_eq_of_getD rfl fun _ _ _ => rfl).symm

theorem getD_set_self {shape : List Nat} {d : Nat} (h : d < shape.length) (n : Nat) :
    (shape.set d n).getD d 0 = n := by
  simp [h]

/-- One of the inputs passed its checks. -/
theorem extend_eq_ok {d : Nat} {out input : Tensor} {expected expected' : List Nat}
    (hlen : expected.length = out.ndim) (h : extend d out expected input = .ok expected') :
    expected' = expected.set d (toUInt64 (expected.getD d 0 + input.shape.getD d 0)) ∧
      input.dtype = out.dtype ∧ input.shape = expected.set d (input.shape.getD d 0) := by
  rw [extend, bind_assertion_eq_ok, bind_assertion_eq_ok, bind_assertion_eq_ok,
    bind_assertion_eq_ok] at h
  obtain ⟨hndim, hdtype, -, hshape, hexpected⟩ := h
  have hexpected' := Except.ok.inj hexpected
  rw [Int.toNat_natCast, Tensor.size_natCast] at hexpected'
  refine ⟨hexpected'.symm, hdtype, set_eq_of_getD (hndim.trans hlen.symm) fun i hi hne => ?_⟩
  have hget := hshape i hi (by simpa using hne)
  rwa [Tensor.size_natCast] at hget

theorem foldlM_extend_eq_ok {d : Nat} {out : Tensor} {inputs : List Tensor}
    {expected expected' : List Nat} (hlen : expected.length = out.ndim)
    (h : inputs.foldlM (extend d out) expected = .ok expected') :
    (inputs ≠ [] → expected' = expected.set d
        (toUInt64 (expected.getD d 0 + (inputs.map fun t => t.shape.getD d 0).sum : Nat))) ∧
      (inputs = [] → expected' = expected) ∧
      ∀ t ∈ inputs, t.dtype = out.dtype ∧ t.shape = expected.set d (t.shape.getD d 0) := by
  induction inputs generalizing expected with
  | nil =>
    have heq : expected = expected' := Except.ok.inj h
    simp [heq]
  | cons t ts ih =>
    rw [List.foldlM_cons] at h
    obtain ⟨next, ht, h⟩ := bind_eq_ok.mp h
    obtain ⟨rfl, hdtype, hshape⟩ := extend_eq_ok hlen ht
    obtain ⟨hsome, hnone, hrest⟩ := ih (by simpa using hlen) h
    refine ⟨fun _ => ?_, by simp, ?_⟩
    · by_cases hd : d < expected.length
      · by_cases hts : ts = []
        · simp [hnone hts, hts]
        · rw [hsome hts, List.set_set, getD_set_self hd, List.map_cons, List.sum_cons]
          congr 1
          push_cast
          rw [toUInt64_natCast_add, Int.add_assoc]
      · have hset : ∀ n, expected.set d n = expected := fun n =>
          List.set_eq_of_length_le (Nat.le_of_not_lt hd)
        by_cases hts : ts = []
        · rw [hnone hts, hset, hset]
        · rw [hsome hts, hset, hset, hset]
    · intro s hs
      rcases List.mem_cons.mp hs with rfl | hs
      · exact ⟨hdtype, hshape⟩
      · obtain ⟨hdtype', hshape'⟩ := hrest s hs
        rw [List.set_set] at hshape'
        exact ⟨hdtype', hshape'⟩

/-- What an accepted list of operands looks like. -/
structure Accepted (m : Cat) (inputs : List Tensor) (out : Tensor) : Prop where
  axis_lt : m.dim.toNat < out.shape.length
  inputCount : m.inputCount = inputs.length
  fits : ∀ t ∈ inputs, Fits m.dim.toNat out t
  extent : out.shape.getD m.dim.toNat 0
    = toUInt64 ((inputs.map fun t => t.shape.getD m.dim.toNat 0).sum : Nat)

theorem accepted_of_new {first out : Tensor} {rest : List Tensor} {dim : Int} {m : Cat}
    (h : new first rest dim out = .ok m) : m.Accepted (first :: rest) out := by
  unfold new at h
  dsimp only at h
  rw [bind_assertion_eq_ok, bind_assertion_eq_ok, bind_assertion_eq_ok, bind_assertion_eq_ok,
    bind_assertion_eq_ok] at h
  obtain ⟨hcount, ⟨hnonneg, hlt⟩, hndim, hdtype, -, h⟩ := h
  generalize hdim : (if dim < 0 then dim + (out.ndim : Int) else dim) = dim' at hnonneg hlt h
  obtain ⟨d, rfl⟩ := Int.eq_ofNat_of_zero_le hnonneg
  have hd : d < out.shape.length := by
    rw [Tensor.ndim] at hlt
    omega
  cases hexpected : rest.foldlM (extend d out) first.shape with
  | error failure =>
    rw [hexpected] at h
    cases h
  | ok expected =>
    rw [hexpected] at h
    obtain ⟨hshape, hm⟩ := bind_assertion_eq_ok.mp h
    obtain rfl := Except.ok.inj hm
    have hrest : rest ≠ [] := by
      rintro rfl
      simp at hcount
    obtain ⟨hsome, -, hall⟩ := foldlM_extend_eq_ok hndim hexpected
    have hout := hshape.trans (hsome hrest)
    have hfirst : d < first.shape.length := by
      rwa [show first.shape.length = out.shape.length from hndim]
    have hfits : ∀ t ∈ first :: rest, Fits d out t := by
      intro t ht
      rcases List.mem_cons.mp ht with rfl | ht
      · refine ⟨?_, hdtype⟩
        rw [hout, List.set_set, set_getD_self]
      · obtain ⟨htype, hset⟩ := hall t ht
        refine ⟨?_, htype⟩
        rwa [hout, List.set_set]
    have hextent : out.shape.getD d 0
        = toUInt64 (((first :: rest).map fun t => t.shape.getD d 0).sum : Nat) := by
      rw [hout, getD_set_self hfirst, List.map_cons, List.sum_cons]
    exact ⟨hd, by simp [Nat.add_comm], hfits, hextent⟩

/-! ## Exact copies -/

/-- The copies of a slice without machine arithmetic. `extent` is that of
the concatenation, and `block` the bytes of one step along `dim`. -/
def exactSlice (d : Nat) (out : Tensor) (extent block o : Nat) : (offset : Nat) → List Tensor →
    List Copy
  | _, [] => []
  | offset, t :: ts =>
    { dst := out.data + ((o * extent + offset) * block : Nat)
      src := t.data + (o * t.shape.getD d 0 * block : Nat)
      size := t.shape.getD d 0 * block } ::
      exactSlice d out extent block o (offset + t.shape.getD d 0) ts

def exactCopies (d : Nat) (out : Tensor) (extent block outer : Nat) (inputs : List Tensor) :
    List Copy :=
  (List.range outer).flatMap fun o => exactSlice d out extent block o 0 inputs

section Exact

variable {d : Nat} {out : Tensor} {extent block o : Nat}

/-- The extents of some inputs, together. -/
def extentSum (d : Nat) (inputs : List Tensor) : Nat := (inputs.map fun t => t.shape.getD d 0).sum

@[simp] theorem extentSum_nil : extentSum d [] = 0 := rfl

@[simp] theorem extentSum_cons (t : Tensor) (ts : List Tensor) :
    extentSum d (t :: ts) = t.shape.getD d 0 + extentSum d ts := rfl

/-- A count of blocks in bytes, computed modulo 2^64, is exact if it fits. -/
theorem toUInt64_mul_block {inner elemSize block n : Nat} {count : Int}
    (hblock : (inner * elemSize : Int) ≡ block [ZMOD 2 ^ 64]) (hcount : count ≡ n [ZMOD 2 ^ 64])
    (hlt : n * block < 2 ^ 64) : toUInt64 (count * inner * elemSize) = n * block := by
  refine toUInt64_eq_of_emod ?_ hlt
  rw [Int.mul_assoc]
  push_cast
  exact hcount.mul hblock

theorem slice_eq {inner elemSize outDimSize : Nat}
    (hblock : (inner * elemSize : Int) ≡ block [ZMOD 2 ^ 64])
    (hextent : (outDimSize : Int) ≡ extent [ZMOD 2 ^ 64])
    (hbytes : (o + 1) * (extent * block) < 2 ^ 64) {inputs : List Tensor}
    {offset offset' : Nat} (hoffset : (offset' : Int) ≡ offset [ZMOD 2 ^ 64])
    (hsum : offset + extentSum d inputs = extent) :
    slice d out o inner elemSize outDimSize offset' inputs
      = exactSlice d out extent block o offset inputs := by
  induction inputs generalizing offset offset' with
  | nil => rfl
  | cons t ts ih =>
    rw [extentSum_cons] at hsum
    rw [slice, exactSlice]
    generalize t.shape.getD d 0 = e at hsum ⊢
    -- every byte offset is at most the end of the slice
    have hbound : ∀ n ≤ (o + 1) * extent, n * block < 2 ^ 64 := by
      intro n hn
      refine Nat.lt_of_le_of_lt ?_ hbytes
      rw [← Nat.mul_assoc]
      exact Nat.mul_le_mul_right _ hn
    have he : e ≤ extent := by omega
    have hsrc : toUInt64 (o * e * inner * elemSize) = o * e * block := by
      refine toUInt64_mul_block hblock (by push_cast; rfl) (hbound _ ?_)
      exact Nat.mul_le_mul (Nat.le_succ o) he
    have hdst : toUInt64 ((o * outDimSize + offset') * inner * elemSize)
        = (o * extent + offset) * block := by
      refine toUInt64_mul_block hblock ?_ (hbound _ ?_)
      · push_cast
        exact (hextent.mul_left _).add hoffset
      · rw [Nat.succ_mul]
        omega
    have hsize : toUInt64 (e * inner * elemSize) = e * block := by
      refine toUInt64_mul_block hblock rfl (hbound _ ?_)
      rw [Nat.succ_mul]
      omega
    have hnext : (toUInt64 (offset' + e) : Int) ≡ (offset + e : Nat) [ZMOD 2 ^ 64] := by
      push_cast
      exact (toUInt64_emod _).trans (hoffset.add_right _)
    rw [hsrc, hdst, hsize, ih hnext (by omega)]

/-- A slice is written from its start to its end. -/
theorem tiles_exactSlice (inputs : List Tensor) (offset : Nat) :
    Tiles Copy.dst Copy.size (out.data + ((o * extent + offset) * block : Nat))
      (exactSlice d out extent block o offset inputs)
      (out.data + ((o * extent + (offset + extentSum d inputs)) * block : Nat)) := by
  induction inputs generalizing offset with
  | nil => simp [exactSlice, Tiles]
  | cons t ts ih =>
    refine ⟨rfl, ?_⟩
    have hstart : out.data + ((o * extent + offset) * block : Nat)
        + ((t.shape.getD d 0 * block : Nat) : Int)
        = out.data + ((o * extent + (offset + t.shape.getD d 0)) * block : Nat) := by
      push_cast
      ring
    have hrest := ih (offset + t.shape.getD d 0)
    rwa [← hstart, Nat.add_assoc offset] at hrest

/-- The slices are written one behind the other. -/
theorem tiles_exactCopies {inputs : List Tensor} (hsum : extentSum d inputs = extent)
    (outer : Nat) :
    Tiles Copy.dst Copy.size out.data (exactCopies d out extent block outer inputs)
      (out.data + (outer * (extent * block) : Nat)) := by
  induction outer with
  | zero => simp [exactCopies, Tiles]
  | succ o ih =>
    have hslice : Tiles Copy.dst Copy.size _ (exactSlice d out extent block o 0 inputs) _ :=
      tiles_exactSlice inputs 0
    rw [Nat.zero_add, hsum, Nat.add_zero, Nat.mul_assoc, ← Nat.succ_mul, Nat.mul_assoc] at hslice
    rw [exactCopies, List.range_succ, List.flatMap_append, List.flatMap_singleton]
    exact ih.append hslice

/-- The copy of one input. -/
theorem mem_exactSlice (before : List Tensor) (t : Tensor) (after : List Tensor) (offset : Nat) :
    { dst := out.data + ((o * extent + (offset + extentSum d before)) * block : Nat)
      src := t.data + (o * t.shape.getD d 0 * block : Nat)
      size := t.shape.getD d 0 * block }
        ∈ exactSlice d out extent block o offset (before ++ t :: after) := by
  induction before generalizing offset with
  | nil => exact List.mem_cons_self
  | cons s ss ih =>
    have hmem := ih (offset + s.shape.getD d 0)
    rw [Nat.add_assoc offset] at hmem
    exact List.mem_cons_of_mem _ hmem

/-- What a slice reads belongs to an input. -/
theorem exists_of_mem_exactSlice {inputs : List Tensor} {offset : Nat} {c : Copy}
    (h : c ∈ exactSlice d out extent block o offset inputs) :
    ∃ t ∈ inputs, c.src = t.data + (o * t.shape.getD d 0 * block : Nat) ∧
      c.size = t.shape.getD d 0 * block := by
  induction inputs generalizing offset with
  | nil => cases h
  | cons t ts ih =>
    rcases List.mem_cons.mp h with rfl | h
    · exact ⟨t, List.mem_cons_self, rfl, rfl⟩
    · obtain ⟨s, hs, hsrc, hsize⟩ := ih h
      exact ⟨s, List.mem_cons_of_mem t hs, hsrc, hsize⟩

end Exact

/-- A wrapped product is the exact one, wrapped. -/
theorem extentProduct_eq (extents : List Nat) :
    extentProduct extents = toUInt64 (extents.prod : Nat) := by
  have hfrom : ∀ n : Nat,
      extents.foldl (fun (product extent : Nat) => toUInt64 (product * extent)) (toUInt64 n)
        = toUInt64 (n * extents.prod : Nat) := by
    induction extents with
    | nil => simp
    | cons e es ih =>
      intro n
      have hnext := ih (n * e)
      rw [List.foldl_cons, toUInt64_natCast_mul, List.prod_cons, ← Nat.mul_assoc, ← hnext]
      simp
  have hone : toUInt64 (1 : Nat) = 1 := toUInt64_eq_self (by decide)
  have hstart := hfrom 1
  rwa [hone, Nat.one_mul] at hstart

end Cat

namespace CatOperands

open Cat

variable (x : CatOperands)

theorem accepts : x.members.Accepted x.inputs x.out := accepted_of_new x.accepted

theorem axis_lt : x.axis < x.out.shape.length := x.accepts.axis_lt

/-! ## Sizes -/

/-- The extents before `dim`, multiplied. -/
def outer : Nat := (x.out.shape.take x.axis).prod

/-- Those after it. -/
def inner : Nat := (x.out.shape.drop (x.axis + 1)).prod

/-- The bytes of one step along `dim`. -/
def block : Nat := x.inner * x.out.elementSize

/-- The extent of the concatenation. -/
def extent : Nat := extentSum x.axis x.inputs

variable {x} in
theorem fits_of_mem {t : Tensor} (ht : t ∈ x.inputs) : Fits x.axis x.out t := x.accepts.fits t ht

variable {x} in
theorem bytes_of_mem {t : Tensor} (ht : t ∈ x.inputs) :
    t.elementSize * t.numel = x.outer * t.shape.getD x.axis 0 * x.block := by
  have hfits := fits_of_mem ht
  have hprod : t.shape.prod = (x.out.shape.take x.axis).prod * t.shape.getD x.axis 0
      * (x.out.shape.drop (x.axis + 1)).prod := by
    conv_lhs => rw [hfits.shape, List.prod_set, if_pos x.axis_lt]
  rw [Tensor.numel_eq, Tensor.elementSize, hfits.dtype, hprod, outer, block, inner, Tensor.elementSize]
  ring

/-- All inputs together. -/
theorem total_lt : x.outer * (x.extent * x.block) < 2 ^ 64 := by
  have hsum : ∀ ts : List Tensor, (∀ t ∈ ts, t ∈ x.inputs) →
      (ts.map fun t => t.elementSize * t.numel).sum
        = x.outer * (extentSum x.axis ts * x.block) := by
    intro ts hts
    induction ts with
    | nil => simp
    | cons t ts ih =>
      rw [List.map_cons, List.sum_cons, ih fun s hs => hts s (List.mem_cons_of_mem t hs),
        bytes_of_mem (hts t List.mem_cons_self), extentSum_cons]
      ring
  exact hsum x.inputs (fun _ ht => ht) ▸ x.bytes_lt

/-- The outer loop has the exact bound, unless it writes nothing. -/
theorem wrapped_outer :
    toUInt64 x.outer * (x.extent * x.block) = x.outer * (x.extent * x.block) := by
  rcases Nat.eq_zero_or_pos (x.extent * x.block) with hzero | hpos
  · rw [hzero, Nat.mul_zero, Nat.mul_zero]
  · have hlt : x.outer < 2 ^ 64 :=
      Nat.lt_of_le_of_lt (Nat.le_mul_of_pos_right _ hpos) x.total_lt
    rw [toUInt64_eq_self hlt]

theorem bytes_out : x.out.elementSize * x.out.numel = x.outer * (x.extent * x.block) := by
  have hprod : x.out.shape.prod = (x.out.shape.take x.axis).prod * x.out.shape.getD x.axis 0
      * (x.out.shape.drop (x.axis + 1)).prod := by
    conv_lhs => rw [← set_getD_self x.out.shape x.axis, List.prod_set, if_pos x.axis_lt]
  have hextent : x.out.shape.getD x.axis 0 = toUInt64 x.extent := x.accepts.extent
  rw [Tensor.numel_eq, hprod, hextent]
  rcases Nat.eq_zero_or_pos (x.outer * x.block) with hzero | hpos
  · calc x.out.elementSize * ((x.out.shape.take x.axis).prod * toUInt64 x.extent
            * (x.out.shape.drop (x.axis + 1)).prod)
        = x.outer * x.block * toUInt64 x.extent := by
          rw [outer, block, inner]
          ring
      _ = x.outer * x.block * x.extent := by rw [hzero, Nat.zero_mul, Nat.zero_mul]
      _ = x.outer * (x.extent * x.block) := by ring
  · have hlt : x.extent < 2 ^ 64 := by
      refine Nat.lt_of_le_of_lt (Nat.le_mul_of_pos_left _ hpos) ?_
      calc x.outer * x.block * x.extent = x.outer * (x.extent * x.block) := by ring
        _ < 2 ^ 64 := x.total_lt
    rw [toUInt64_eq_self hlt, outer, block, inner]
    ring

/-! ## The copies of the call -/

theorem copies_eq :
    x.copies = exactCopies x.axis x.out x.extent x.block (toUInt64 x.outer) x.inputs := by
  have htake : (x.first :: x.rest).take x.members.inputCount = x.inputs := by
    rw [x.accepts.inputCount]
    exact List.take_length
  have hblock : (toUInt64 (x.out.shape.drop (x.axis + 1)).prod * kDataTypeToSize x.out.dtype : Int)
      ≡ x.block [ZMOD 2 ^ 64] := by
    rw [block, inner]
    push_cast
    exact Int.ModEq.mul_right _ (toUInt64_emod _)
  have hextent : (x.out.shape.getD x.axis 0 : Int) ≡ x.extent [ZMOD 2 ^ 64] := by
    have h : x.out.shape.getD x.axis 0 = toUInt64 x.extent := x.accepts.extent
    rw [h]
    exact toUInt64_emod _
  rw [copies, Cat.copies, htake, extentProduct_eq, extentProduct_eq, exactCopies]
  refine List.flatMap_congr fun o ho => ?_
  have hbytes : (o + 1) * (x.extent * x.block) < 2 ^ 64 := by
    refine Nat.lt_of_le_of_lt ?_ (x.wrapped_outer ▸ x.total_lt)
    exact Nat.mul_le_mul_right _ (List.mem_range.mp ho)
  exact slice_eq hblock hextent hbytes (Int.ModEq.refl _) (Nat.zero_add _)

/-- Together the copies write `out`. -/
theorem tiles_copies : Tiles Copy.dst Copy.size x.out.data x.copies
    (x.out.data + (x.out.elementSize * x.out.numel : Nat)) := by
  rw [copies_eq, bytes_out, ← wrapped_outer]
  exact tiles_exactCopies rfl _

/-! ## Elements -/

variable {x} {before after : List Tensor} {t : Tensor} {idx : List Nat}

theorem mem_of_split (h : x.inputs = before ++ t :: after) : t ∈ x.inputs := by
  simp [h]

theorem out_shape_eq (ht : t ∈ x.inputs) :
    x.out.shape = t.shape.set x.axis (x.out.shape.getD x.axis 0) := by
  conv_rhs => rw [(fits_of_mem ht).shape, List.set_set, set_getD_self]

/-- An input with elements leaves no extent of zero but its own. -/
theorem pos_of_valid (ht : t ∈ x.inputs) (hidx : Valid t.shape idx) :
    0 < x.outer ∧ 0 < x.block := by
  have hbytes : 0 < t.elementSize * t.numel := by
    rw [Tensor.numel_eq]
    exact Nat.mul_pos t.elementSize_pos hidx.prod_pos
  rw [bytes_of_mem ht] at hbytes
  exact ⟨Nat.pos_of_mul_pos_right (Nat.pos_of_mul_pos_right hbytes),
    Nat.pos_of_mul_pos_left hbytes⟩

/-- The extent of `out` is then the exact sum. -/
theorem extent_eq_of_valid (ht : t ∈ x.inputs) (hidx : Valid t.shape idx) :
    x.out.shape.getD x.axis 0 = x.extent := by
  obtain ⟨houter, hblock⟩ := pos_of_valid ht hidx
  have hlt : x.extent < 2 ^ 64 := by
    refine Nat.lt_of_le_of_lt ?_ x.total_lt
    exact (Nat.le_mul_of_pos_right _ hblock).trans (Nat.le_mul_of_pos_left _ houter)
  have hextent : x.out.shape.getD x.axis 0 = toUInt64 x.extent := x.accepts.extent
  rw [hextent, toUInt64_eq_self hlt]

theorem extent_of_split (h : x.inputs = before ++ t :: after) :
    x.extent = extentSum x.axis before + (t.shape.getD x.axis 0 + extentSum x.axis after) := by
  rw [extent, h]
  simp [extentSum]

theorem axis_lt_of_mem (ht : t ∈ x.inputs) : x.axis < t.shape.length := by
  rw [(fits_of_mem ht).shape, List.length_set]
  exact x.axis_lt

theorem shifted_valid (h : x.inputs = before ++ t :: after) (hidx : Valid t.shape idx) :
    Valid x.out.shape (x.shifted before idx) := by
  have ht := mem_of_split h
  have hcoord := hidx.getD_lt (axis_lt_of_mem ht)
  have hextent := extent_of_split h
  rw [out_shape_eq ht, extent_eq_of_valid ht hidx]
  refine hidx.set x.axis ?_
  change extentSum x.axis before + _ < _
  omega

variable (x) in
/-- The coordinates before `dim`, as a number. -/
def outerIndex (idx : List Nat) : Nat := ravel (x.out.shape.take x.axis) (idx.take x.axis)

variable (x) in
/-- Those after it. -/
def innerIndex (idx : List Nat) : Nat :=
  ravel (x.out.shape.drop (x.axis + 1)) (idx.drop (x.axis + 1))

theorem take_shape (ht : t ∈ x.inputs) : t.shape.take x.axis = x.out.shape.take x.axis := by
  rw [(fits_of_mem ht).shape, List.take_set_of_le (Nat.le_refl _)]

theorem drop_shape (ht : t ∈ x.inputs) :
    t.shape.drop (x.axis + 1) = x.out.shape.drop (x.axis + 1) := by
  rw [(fits_of_mem ht).shape, List.drop_set_of_lt (Nat.lt_succ_self _)]

theorem outerIndex_lt (ht : t ∈ x.inputs) (hidx : Valid t.shape idx) :
    x.outerIndex idx < x.outer := by
  have hleading : Valid (t.shape.take x.axis) (idx.take x.axis) := List.forall₂_take _ hidx
  rw [take_shape ht] at hleading
  exact ravel_lt hleading

theorem innerIndex_lt (ht : t ∈ x.inputs) (hidx : Valid t.shape idx) :
    x.innerIndex idx < x.inner := by
  have htrailing : Valid (t.shape.drop (x.axis + 1)) (idx.drop (x.axis + 1)) :=
    List.forall₂_drop _ hidx
  rw [drop_shape ht] at htrailing
  exact ravel_lt htrailing

theorem ravel_input (ht : t ∈ x.inputs) (hidx : Valid t.shape idx) :
    ravel t.shape idx
      = (x.outerIndex idx * t.shape.getD x.axis 0 + idx.getD x.axis 0) * x.inner
          + x.innerIndex idx := by
  rw [ravel_eq_around hidx.length_eq (axis_lt_of_mem ht), take_shape ht, drop_shape ht]
  rfl

theorem ravel_shifted (h : x.inputs = before ++ t :: after) (hidx : Valid t.shape idx) :
    ravel x.out.shape (x.shifted before idx)
      = (x.outerIndex idx * x.extent + (extentSum x.axis before + idx.getD x.axis 0)) * x.inner
          + x.innerIndex idx := by
  have ht := mem_of_split h
  have hdim : x.axis < idx.length := by
    rw [hidx.length_eq]
    exact axis_lt_of_mem ht
  rw [ravel_eq_around (shifted_valid h hidx).length_eq x.axis_lt, extent_eq_of_valid ht hidx,
    shifted, List.take_set_of_le (Nat.le_refl _), List.drop_set_of_lt (Nat.lt_succ_self _),
    getD_set_self hdim]
  rfl

theorem copy_mem (h : x.inputs = before ++ t :: after) {o : Nat} (ho : o < toUInt64 x.outer) :
    { dst := x.out.data + ((o * x.extent + extentSum x.axis before) * x.block : Nat)
      src := t.data + (o * t.shape.getD x.axis 0 * x.block : Nat)
      size := t.shape.getD x.axis 0 * x.block } ∈ x.copies := by
  have hslice : _ ∈ exactSlice x.axis x.out x.extent x.block o 0 (before ++ t :: after) :=
    mem_exactSlice before t after 0
  rw [Nat.zero_add] at hslice
  rw [copies_eq, exactCopies, List.mem_flatMap, h]
  exact ⟨o, List.mem_range.mpr ho, hslice⟩

/-- The copy that an element of an input is in, and where. -/
theorem exists_copy (h : x.inputs = before ++ t :: after) (hidx : Valid t.shape idx) {k : Nat}
    (hk : k < x.out.elementSize) :
    ∃ c ∈ x.copies, ∃ q < c.size, byteAddress t idx + k = c.src + q ∧
      byteAddress x.out (x.shifted before idx) + k = c.dst + q := by
  have ht := mem_of_split h
  have hj := hidx.getD_lt (axis_lt_of_mem ht)
  have hr := innerIndex_lt ht hidx
  have ho : x.outerIndex idx < toUInt64 x.outer := by
    have hextent := extent_of_split h
    have hpos : 0 < x.extent * x.block := Nat.mul_pos (by omega) (pos_of_valid ht hidx).2
    rw [Nat.eq_of_mul_eq_mul_right hpos x.wrapped_outer]
    exact outerIndex_lt ht hidx
  have hsize : t.elementSize = x.out.elementSize := by
    rw [Tensor.elementSize, (fits_of_mem ht).dtype, Tensor.elementSize]
  refine ⟨_, copy_mem h ho,
    (idx.getD x.axis 0 * x.inner + x.innerIndex idx) * x.out.elementSize + k, ?_, ?_, ?_⟩
  · calc (idx.getD x.axis 0 * x.inner + x.innerIndex idx) * x.out.elementSize + k
        < (idx.getD x.axis 0 * x.inner + x.innerIndex idx + 1) * x.out.elementSize := by
          rw [Nat.succ_mul]
          omega
      _ ≤ (idx.getD x.axis 0 + 1) * x.inner * x.out.elementSize := by
          refine Nat.mul_le_mul_right _ ?_
          rw [Nat.succ_mul]
          omega
      _ ≤ t.shape.getD x.axis 0 * x.inner * x.out.elementSize :=
          Nat.mul_le_mul_right _ (Nat.mul_le_mul_right _ hj)
      _ = t.shape.getD x.axis 0 * x.block := by rw [block, Nat.mul_assoc]
  · rw [byteAddress_eq (x.inputs_packed t ht) hidx, ravel_input ht hidx, hsize, block]
    push_cast
    ring
  · rw [byteAddress_eq x.out_packed (shifted_valid h hidx), ravel_shifted h hidx, block]
    push_cast
    ring

theorem exists_split {d j : Nat} {inputs : List Tensor} (h : j < extentSum d inputs) :
    ∃ before t after, inputs = before ++ t :: after ∧ extentSum d before ≤ j ∧
      j < extentSum d before + t.shape.getD d 0 := by
  induction inputs generalizing j with
  | nil => cases h
  | cons t ts ih =>
    by_cases hhead : j < t.shape.getD d 0
    · exact ⟨[], t, ts, rfl, Nat.zero_le j, by simpa using hhead⟩
    · rw [extentSum_cons] at h
      obtain ⟨before, s, after, rfl, hle, hlt⟩ := ih (j := j - t.shape.getD d 0) (by omega)
      refine ⟨t :: before, s, after, rfl, ?_, ?_⟩
      · rw [extentSum_cons]
        omega
      · rw [extentSum_cons]
        omega

/-- Every index of `out` is that of an element of an input. -/
theorem exists_shifted (hidx : Valid x.out.shape idx) : ∃ before t after idx',
    x.inputs = before ++ t :: after ∧ Valid t.shape idx' ∧ x.shifted before idx' = idx := by
  have hextent : x.out.shape.getD x.axis 0 = toUInt64 x.extent := x.accepts.extent
  have hj : idx.getD x.axis 0 < extentSum x.axis x.inputs := by
    have hlt := hidx.getD_lt x.axis_lt
    rw [hextent] at hlt
    exact Nat.lt_of_lt_of_le hlt (toUInt64_le _)
  obtain ⟨before, t, after, hsplit, hle, hlt⟩ := exists_split hj
  have hdim : x.axis < idx.length := by
    rw [hidx.length_eq]
    exact x.axis_lt
  refine ⟨before, t, after,
    idx.set x.axis (idx.getD x.axis 0 - extentSum x.axis before), hsplit, ?_, ?_⟩
  · rw [(fits_of_mem (mem_of_split hsplit)).shape]
    exact hidx.set x.axis (by omega)
  · have hsum : extentSum x.axis before + (idx.getD x.axis 0 - extentSum x.axis before)
        = idx.getD x.axis 0 := by omega
    rw [shifted, getD_set_self hdim, List.set_set]
    change idx.set x.axis (extentSum x.axis before + _) = idx
    rw [hsum, set_getD_self]

/-! ## The result -/

theorem mem_buffer {t : Tensor} {p : Int} :
    p ∈ buffer t ↔ t.data ≤ p ∧ p < t.data + (t.elementSize * t.numel : Nat) := mem_span

variable (x) in
theorem concatenates (mem : Int → UInt8) :
    x.Concatenates mem (x.members.call x.first x.rest x.out mem) := by
  refine ⟨fun idx hidx => exists_shifted hidx, ?_, ?_⟩
  · intro before t after h idx hidx
    refine ⟨shifted_valid h hidx, fun k hk hsource => ?_⟩
    obtain ⟨c, hc, q, hq, hsrc, hdst⟩ := exists_copy h hidx hk
    rw [hsrc, mem_buffer] at hsource
    rw [hsrc, hdst]
    exact x.tiles_copies.moveAll_at hc hq hsource
  · intro p hp
    rw [mem_buffer] at hp
    exact x.tiles_copies.moveAll_frame hp

variable (x) in
theorem count_written (p : Int) :
    (written Copy.dst Copy.size x.copies).count p = if p ∈ buffer x.out then 1 else 0 := by
  rw [x.tiles_copies.count_written p]
  exact if_congr mem_buffer.symm rfl rfl

theorem exists_of_read {p : Int} (h : p ∈ written Copy.src Copy.size x.copies) :
    ∃ t ∈ x.inputs, p ∈ buffer t := by
  obtain ⟨c, hc, hp⟩ := List.mem_flatMap.mp h
  rw [copies_eq, exactCopies, List.mem_flatMap] at hc
  obtain ⟨o, ho, hc⟩ := hc
  obtain ⟨t, ht, hsrc, hsize⟩ := exists_of_mem_exactSlice hc
  have houter : o + 1 ≤ x.outer := (List.mem_range.mp ho).trans_le (toUInt64_le _)
  have hend : (o + 1) * (t.shape.getD x.axis 0 * x.block) ≤ t.elementSize * t.numel := by
    rw [bytes_of_mem ht, Nat.mul_assoc]
    exact Nat.mul_le_mul_right _ houter
  refine ⟨t, ht, mem_buffer.mpr ?_⟩
  rw [hsrc, hsize, mem_span] at hp
  rw [Nat.succ_mul, ← Nat.mul_assoc] at hend
  omega

end CatOperands

/-- `Cat` concatenates contiguous operands, writes every byte of `out` once
and stays inside the operands. -/
theorem cat_correct (x : CatOperands) : x.Correct :=
  ⟨x.concatenates, x.count_written, fun _ hp => CatOperands.exists_of_read hp⟩

/-- The two bytes of `out`, concatenated in the other order. -/
def swappedOperands : CatOperands where
  first := { data := 4097, shape := [1], dtype := .kUInt8, strides := [1] }
  rest := [{ data := 4096, shape := [1], dtype := .kUInt8, strides := [1] }]
  dim := -1
  out := { data := 4096, shape := [2], dtype := .kUInt8, strides := [1] }
  members := { dim := 0, inputCount := 2 }
  accepted := by
    simp [Cat.new, Cat.extend, assertion, toUInt64]
    rfl
  inputs_packed := by decide
  out_packed := by decide
  bytes_lt := by decide

/-- The first copy overwrites what the second one reads. -/
theorem swapped_not_concatenated :
    ¬ ∀ before t after, swappedOperands.inputs = before ++ t :: after → ∀ idx, Valid t.shape idx →
      ∀ k < swappedOperands.out.elementSize, ∀ mem : Int → UInt8,
        swappedOperands.members.call swappedOperands.first swappedOperands.rest
            swappedOperands.out mem
            (byteAddress swappedOperands.out (swappedOperands.shifted before idx) + k)
          = mem (byteAddress t idx + k) := by
  intro h
  have houter : toUInt64 swappedOperands.outer = 1 := toUInt64_eq_self (by decide)
  have hcopies : swappedOperands.copies = [⟨4096, 4097, 1⟩, ⟨4097, 4096, 1⟩] := by
    rw [CatOperands.copies_eq, houter]
    decide
  have hidx : Valid [1] [0] := .cons (by decide) .nil
  have hlast := h [swappedOperands.first] _ [] rfl [0] hidx 0 (by decide)
    fun p => if p = 4096 then 1 else 0
  rw [Cat.call, ← CatOperands.copies, hcopies, byteAddress_eq swappedOperands.out_packed
    (CatOperands.shifted_valid rfl hidx), byteAddress_eq (swappedOperands.inputs_packed _
    (List.mem_cons_of_mem _ List.mem_cons_self)) hidx] at hlast
  exact absurd hlast (by decide)

end InfiniOps.Cpu
