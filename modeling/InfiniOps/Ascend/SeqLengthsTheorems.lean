/-
InfiniOps.Ascend.SeqLengthsTheorems — when the two ways to extract
sequence lengths give what is in the tensor.

Both read `numel` adjacent elements. If all their bytes belong to the
tensor they are its elements (`hostPointer_eq_some`), and both functions
see its values. A result of `extractSeqLengths`, which reads eight bytes
for each element, shows conversely that these bytes belong to the tensor
(`isSome_of_extract`), and the second element then has to be the next
eight: `follows_iff`.
-/
import InfiniOps.Ascend.SeqLengths

namespace InfiniOps.Ascend

open ByteMemory RowMajor

namespace SeqTensor

variable (x : SeqTensor)

/-! ## The tensor -/

theorem of_checkCuSeqlens {name : String} {t : Tensor} (h : checkCuSeqlens name t = .ok ()) :
    t.ndim = 1 ∧ (t.dtype = .kInt32 ∨ t.dtype = .kInt64) := by
  rw [checkCuSeqlens, bind_assertion_eq_ok] at h
  refine ⟨h.1, ?_⟩
  by_contra hnot
  rw [assertion, if_neg hnot] at h
  cases h.2

theorem ndim_eq : x.cu.ndim = 1 := by
  rcases x.accepted with h | h <;> exact (of_checkCuSeqlens h).1

theorem dtype_cases : x.cu.dtype = .kInt32 ∨ x.cu.dtype = .kInt64 := by
  rcases x.accepted with h | h <;> exact (of_checkCuSeqlens h).2

theorem address_eq (i : Nat) :
    x.cu.address [i] = x.cu.data + x.cu.elementSize * (i * x.cu.stride 0) := by
  have hrank : x.cu.strides.length = 1 := x.rank_eq.trans x.ndim_eq
  obtain ⟨s, hs⟩ := List.length_eq_one_iff.mp hrank
  simp [Tensor.address, Tensor.offset, Tensor.stride, Tensor.effectiveIndex, hs]

/-- The bytes of adjacent elements. -/
theorem bytes_of_adjacent (h : x.cu.stride 0 = 1) {j : Nat}
    (hj : j < x.cu.numel * x.cu.elementSize) :
    x.bytes (x.cu.data + j) = some (x.contents (x.cu.data + j)) := by
  have hpos := x.cu.elementSize_pos
  refine if_pos ⟨j / x.cu.elementSize, (Nat.div_lt_iff_lt_mul hpos).mpr hj, j % x.cu.elementSize,
    Nat.mod_lt _ hpos, ?_⟩
  have hsplit : (j : Int) = x.cu.elementSize * (j / x.cu.elementSize : Nat)
      + (j % x.cu.elementSize : Nat) := by
    exact_mod_cast (Nat.div_add_mod j x.cu.elementSize).symm
  rw [address_eq, h, Int.mul_one, Int.add_assoc, ← hsplit]

/-! ## What is read -/

variable {x} {rt : AclRuntime}

/-- A host pointer to the bytes of the tensor. -/
theorem hostPointer_eq_some {size : Nat}
    (h : ∀ j < x.cu.numel * size,
      x.bytes (x.cu.data + (j : Nat)) = some (x.contents (x.cu.data + j))) :
    ∃ src base, hostPointer rt x.memory x.cu size = some (src, base) ∧
      ∀ j < x.cu.numel * size, src (base + (j : Nat)) = some (x.contents (x.cu.data + j)) := by
  by_cases hcpu : x.cu.device.type = .kCpu
  · refine ⟨x.bytes, x.cu.data, ?_, h⟩
    rw [hostPointer, if_pos hcpu, memory, if_pos hcpu]
  · refine ⟨ofBuffer ((List.range (x.cu.numel * size)).map fun (j : Nat) =>
      x.contents (x.cu.data + j)), 0, ?_, fun j hj => ?_⟩
    · rw [hostPointer, if_neg hcpu, memory, if_neg hcpu, rt.memcpyToHost_eq, readBytes_eq_some _ h]
      rfl
    · rw [Int.zero_add]
      exact ofBuffer_map (fun j => x.contents (x.cu.data + j)) hj

section Adjacent

variable (hstride : x.cu.stride 0 = 1) {src : Bytes} {base : Int}
  (hsrc : ∀ j < x.cu.numel * x.cu.elementSize,
    src (base + (j : Nat)) = some (x.contents (x.cu.data + j)))

include hstride hsrc

theorem readBytes_element {i : Nat} (hi : i < x.cu.numel) :
    readBytes src (base + x.cu.elementSize * i) x.cu.elementSize
      = some ((List.range x.cu.elementSize).map fun (k : Nat) =>
          x.contents (x.cu.address [i] + k)) := by
  refine readBytes_eq_some _ fun k hk => ?_
  have hlt : x.cu.elementSize * i + k < x.cu.numel * x.cu.elementSize := by
    calc x.cu.elementSize * i + k < x.cu.elementSize * i + x.cu.elementSize := by omega
      _ = x.cu.elementSize * (i + 1) := rfl
      _ ≤ x.cu.elementSize * x.cu.numel := Nat.mul_le_mul_left _ hi
      _ = x.cu.numel * x.cu.elementSize := Nat.mul_comm _ _
  have hbyte := hsrc _ hlt
  push_cast at hbyte
  rw [Int.add_assoc, hbyte, address_eq, hstride, Int.mul_one, Int.add_assoc]

theorem loadInt64_eq (hdtype : x.cu.dtype = .kInt64) {i : Nat} (hi : i < x.cu.numel) :
    loadInt64 src base i = some (x.value i) := by
  have hsize : x.cu.elementSize = 8 := by rw [Tensor.elementSize, hdtype]; rfl
  have hne : ¬ x.cu.dtype = .kInt32 := by rw [hdtype]; decide
  have hread := readBytes_element hstride hsrc hi
  rw [hsize] at hread
  rw [loadInt64, Nat.cast_ofNat.symm, hread, value, hsize, if_neg hne]
  rfl

end Adjacent

theorem hostPointer_adjacent (rt : AclRuntime) (hstride : x.cu.stride 0 = 1) :
    ∃ src base, hostPointer rt x.memory x.cu x.cu.elementSize = some (src, base) ∧
      ∀ j < x.cu.numel * x.cu.elementSize,
        src (base + (j : Nat)) = some (x.contents (x.cu.data + j)) :=
  hostPointer_eq_some fun _ hj => x.bytes_of_adjacent hstride hj

/-! ## Adjacent `int64` elements -/

section Int64

variable (rt) (hdtype : x.cu.dtype = .kInt64) (hstride : x.cu.stride 0 = 1)

include hdtype hstride

/-- Every element can be loaded. -/
theorem exists_load :
    ∃ src base, hostPointer rt x.memory x.cu 8 = some (src, base) ∧
      ∀ i < x.cu.numel, loadInt64 src base i = some (x.value i) := by
  have hsize : x.cu.elementSize = 8 := by rw [Tensor.elementSize, hdtype]; rfl
  obtain ⟨src, base, hptr, hsrc⟩ := x.hostPointer_adjacent rt hstride
  rw [hsize] at hptr
  exact ⟨src, base, hptr, fun i hi => loadInt64_eq hstride hsrc hdtype hi⟩

theorem extractSeqLengths_eq :
    extractSeqLengths rt x.memory x.cu = some (x.lengths.map toInt64) := by
  obtain ⟨src, base, hptr, hload⟩ := exists_load rt hdtype hstride
  rw [extractSeqLengths, hptr, lengths, List.map_map]
  refine mapM_eq_some _ fun i hi => ?_
  have hlt : i < x.cu.numel - 1 := List.mem_range.mp hi
  rw [hload (i + 1) (by omega), hload i (by omega)]
  rfl

theorem cumSeqLengths_eq : cumSeqLengths rt x.memory x.cu = some x.ends := by
  obtain ⟨src, base, hptr, hload⟩ := exists_load rt hdtype hstride
  rw [cumSeqLengths, hptr, ends]
  refine mapM_eq_some _ fun i hi => ?_
  have hlt : i < x.cu.numel - 1 := List.mem_range.mp hi
  exact hload (i + 1) (by omega)

theorem readIntTensor_eq :
    readIntTensor rt x.memory x.cu = .ok (some ((List.range x.cu.numel).map x.value)) := by
  obtain ⟨src, base, hptr, hload⟩ := exists_load rt hdtype hstride
  have hread : ((List.range x.cu.numel).mapM fun i => loadInt64 src base i)
      = some ((List.range x.cu.numel).map x.value) :=
    mapM_eq_some _ fun i hi => hload i (List.mem_range.mp hi)
  have hne : ¬ x.cu.dtype = .kInt32 := by rw [hdtype]; decide
  rw [readIntTensor, bind_assertion_eq_ok]
  refine ⟨x.ndim_eq, ?_⟩
  rw [if_neg hne, if_pos hdtype, hptr]
  exact congrArg Except.ok hread

theorem createCumSeqLengths_eq : createCumSeqLengths rt x.memory x.cu = .ok (some x.ends) := by
  have htwo := x.two_le
  rw [createCumSeqLengths, readIntTensor_eq rt hdtype hstride]
  refine bind_assertion_eq_ok.mpr ⟨by simp; omega, ?_⟩
  have htail : ((List.range x.cu.numel).map x.value).drop 1 = x.ends := by
    apply List.ext_getElem <;> simp [ends]
  rw [htail]
  rfl

theorem createDiffSeqLengths_eq :
    createDiffSeqLengths rt x.memory x.cu = .ok (some (x.lengths.map toInt64)) := by
  have htwo := x.two_le
  rw [createDiffSeqLengths, readIntTensor_eq rt hdtype hstride]
  refine bind_assertion_eq_ok.mpr ⟨by simp; omega, ?_⟩
  congr 2
  rw [lengths, List.map_map, List.length_map, List.length_range]
  refine List.map_congr_left fun i hi => ?_
  have hlt : i < x.cu.numel - 1 := List.mem_range.mp hi
  have hi1 : i < x.cu.numel := by omega
  have hi2 : i + 1 < x.cu.numel := by omega
  simp [List.getD_eq_getElem?_getD, hi1, hi2]

end Int64

/-! ## What a result of `extractSeqLengths` shows -/

theorem isSome_of_hostPointer {size : Nat} {src : Bytes} {base : Int}
    (h : hostPointer rt x.memory x.cu size = some (src, base)) {j : Nat}
    (hj : j < x.cu.numel * size) (hsome : (src (base + j)).isSome) :
    (x.bytes (x.cu.data + j)).isSome := by
  by_cases hcpu : x.cu.device.type = .kCpu
  · rw [hostPointer, if_pos hcpu, memory, if_pos hcpu] at h
    cases h
    exact hsome
  · rw [hostPointer, if_neg hcpu, memory, if_neg hcpu, rt.memcpyToHost_eq] at h
    cases hread : readBytes x.bytes x.cu.data (x.cu.numel * size) with
    | none =>
      rw [hread] at h
      cases h
    | some buf => exact isSome_of_readBytes (by rw [hread]; rfl) j hj

theorem isSome_of_loadInt64 {src : Bytes} {base : Int} {i : Nat} (h : (loadInt64 src base i).isSome)
    {k : Nat} (hk : k < 8) : (src (base + 8 * i + k)).isSome := by
  rw [loadInt64, Option.isSome_map] at h
  exact isSome_of_readBytes h k hk

/-- Every element is loaded: all but the last as the start of a length, and
the last as the end of one. -/
theorem isSome_load_of_loop {src : Bytes} {base : Int} {n : Nat} (htwo : 2 ≤ n)
    (h : ((List.range (n - 1)).mapM fun i => do
      let next ← loadInt64 src base (i + 1)
      let this ← loadInt64 src base i
      return toInt64 (next - this)).isSome) {e : Nat} (he : e < n) :
    (loadInt64 src base e).isSome := by
  have hboth : ∀ i < n - 1,
      (loadInt64 src base (i + 1)).isSome ∧ (loadInt64 src base i).isSome := by
    intro i hi
    have hstep := isSome_of_mapM h i (List.mem_range.mpr hi)
    cases hnext : loadInt64 src base (i + 1) with
    | none => simp [hnext] at hstep
    | some next =>
      cases hthis : loadInt64 src base i with
      | none => simp [hnext, hthis] at hstep
      | some this => exact ⟨rfl, rfl⟩
  by_cases hlast : e < n - 1
  · exact (hboth e hlast).2
  · have hend : e = n - 2 + 1 := by omega
    rw [hend]
    exact (hboth (n - 2) (by omega)).1

/-- All the bytes that the loop reads are bytes of the tensor. -/
theorem isSome_of_extract {r : List Int} (h : extractSeqLengths rt x.memory x.cu = some r) {j : Nat}
    (hj : j < x.cu.numel * 8) : IsByteOf x.cu (x.cu.data + j) := by
  have hsome : (x.bytes (x.cu.data + j)).isSome := by
    cases hptr : hostPointer rt x.memory x.cu 8 with
    | none =>
      rw [extractSeqLengths, hptr] at h
      cases h
    | some p =>
      obtain ⟨src, base⟩ := p
      rw [extractSeqLengths, hptr] at h
      have hload := isSome_load_of_loop x.two_le (Option.isSome_of_mem h)
        ((Nat.div_lt_iff_lt_mul (by decide)).mpr hj)
      have hbyte := isSome_of_loadInt64 hload (Nat.mod_lt j (by decide))
      have hsplit : (8 : Int) * (j / 8 : Nat) + (j % 8 : Nat) = j := by omega
      rw [Int.add_assoc, hsplit] at hbyte
      exact isSome_of_hostPointer hptr hj hbyte
  by_contra hnot
  rw [bytes, if_neg hnot] at hsome
  cases hsome

/-- The byte after the first element is the first of another. -/
theorem stride_eq_one {r : List Int} (h : extractSeqLengths rt x.memory x.cu = some r) :
    x.cu.stride 0 = 1 := by
  have htwo := x.two_le
  have hsize : x.cu.elementSize = 4 ∨ x.cu.elementSize = 8 := by
    rcases x.dtype_cases with hdtype | hdtype <;> rw [Tensor.elementSize, hdtype]
    · exact .inl rfl
    · exact .inr rfl
  obtain ⟨i, hi, k, hk, heq⟩ := isSome_of_extract h (j := x.cu.elementSize) (by omega)
  rw [address_eq] at heq
  refine eq_one_of_mul_eq_one (j := i) ?_
  generalize (i : Int) * x.cu.stride 0 = offset at heq ⊢
  rcases hsize with hsize | hsize <;> rw [hsize] at heq hk <;> omega

theorem dtype_eq {r : List Int} (h : extractSeqLengths rt x.memory x.cu = some r) :
    x.cu.dtype = .kInt64 := by
  refine x.dtype_cases.resolve_left fun hdtype => ?_
  have htwo := x.two_le
  have hsize : x.cu.elementSize = 4 := by rw [Tensor.elementSize, hdtype]; rfl
  obtain ⟨i, hi, k, hk, heq⟩ := isSome_of_extract h (j := x.cu.numel * 8 - 1) (by omega)
  rw [address_eq, stride_eq_one h, hsize] at heq
  omega

/-! ## The condition -/

theorem map_toInt64_lengths :
    x.lengths.map toInt64 = x.lengths ↔ ∀ i < x.cu.numel - 1,
      -2 ^ 63 ≤ x.value (i + 1) - x.value i ∧ x.value (i + 1) - x.value i < 2 ^ 63 := by
  rw [lengths, List.map_map, List.map_inj_left]
  simp only [List.mem_range, Function.comp_apply, toInt64_eq_self_iff]

/-- The functions of `FlashAttention` give the lengths and the ends of a
tensor, read only the tensor, and agree with those of `fia_common_.h`,
exactly on adjacent `int64` elements whose differences are of that type. -/
theorem follows_iff (x : SeqTensor) (rt : AclRuntime) : x.Follows rt ↔ x.Fits := by
  constructor
  · intro h
    have hdtype := dtype_eq h.extract
    have hstride := stride_eq_one h.extract
    refine ⟨hdtype, hstride, map_toInt64_lengths.mp ?_⟩
    exact Option.some.inj ((extractSeqLengths_eq rt hdtype hstride).symm.trans h.extract)
  · rintro ⟨hdtype, hstride, hdiff⟩
    have hlengths := map_toInt64_lengths.mpr hdiff
    have hextract := extractSeqLengths_eq rt hdtype hstride
    have hcreate := createDiffSeqLengths_eq rt hdtype hstride
    rw [hlengths] at hextract hcreate
    exact ⟨hextract, cumSeqLengths_eq rt hdtype hstride, hcreate,
      createCumSeqLengths_eq rt hdtype hstride⟩

/-! ## Two sequences -/

/-- A runtime that copies what can be read. -/
def copyingRuntime : AclRuntime := ⟨readBytes, fun _ _ _ => rfl⟩

/-- `[0, 5, 12]`, from address 64 on. -/
def ofDtype (dtype : DataType) (h : dtype = .kInt32 ∨ dtype = .kInt64) : SeqTensor where
  cu := { data := 64, shape := [3], dtype := dtype, device := { type := .kAscend }, strides := [1] }
  rank_eq := rfl
  accepted := .inl (by rcases h with rfl | rfl <;> rfl)
  two_le := Nat.le_succ 2
  contents addr :=
    if addr = 64 + kDataTypeToSize dtype then 5
    else if addr = 64 + 2 * kDataTypeToSize dtype then 12
    else 0

example : (ofDtype .kInt64 (.inr rfl)).Fits := ⟨rfl, rfl, by decide +kernel⟩

/-- Of `int32` elements, twice as many bytes are copied as there are; the
functions of `fia_common_.h` read the lengths. -/
theorem int32_reads_outside :
    ¬ (ofDtype .kInt32 (.inl rfl)).Follows copyingRuntime ∧
      createDiffSeqLengths copyingRuntime (ofDtype .kInt32 (.inl rfl)).memory
        (ofDtype .kInt32 (.inl rfl)).cu = .ok (some [5, 7]) := by
  refine ⟨fun h => ?_, by decide +kernel⟩
  have hdtype := dtype_eq h.extract
  cases hdtype

end SeqTensor

end InfiniOps.Ascend
