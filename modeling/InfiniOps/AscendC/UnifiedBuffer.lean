/-
InfiniOps.AscendC.UnifiedBuffer — the unified buffer that the kernels
`RmsNorm` and `AddRmsNorm` reserve, against what their hosts admit.

`Init` reserves a double-buffered queue for each operand, the weight, two
more rows for a type of 2 bytes, and the buffers of the reduction. The
lengths are products in `int32_t`; where one overflows there is no total.
In closed form the total is a coefficient for each element of the row plus
the reduction (`reserved_le_iff`).

The torch hosts compare the row with the capacity. Their coefficients are
those of the tensors' own type, and the kilobyte that they set aside covers
the reduction (`torch_fits`). But the kernel that runs is the `float` one,
also for `float16`, and the custom launchers compare nothing. So there the
row has to be short enough by itself (`reservation_fits_iff`).
-/
import InfiniOps.AscendC.CustomLauncher
import InfiniOps.AscendC.NormComputeTheorems
import InfiniOps.Lib.Except
import Mathlib.Algebra.Order.BigOperators.Group.List

namespace InfiniOps.AscendC

/-! ## `Init` -/

/-- One `InitBuffer`: how many buffers, of which length in bytes. -/
structure InitBuffer where
  num : Nat
  len : Int
  deriving DecidableEq, Repr

def kBufferNum : Nat := 2

/-- `reduce_tmp_size`. -/
def reduceTmpSize (dimLenAlign : Int) : Int :=
  let elemsPerRepeat : Int := 256 / 4
  let elemsPerBlock : Int := 32 / 4
  let firstMaxRepeat := (dimLenAlign + elemsPerRepeat - 1).tdiv elemsPerRepeat
  (firstMaxRepeat + elemsPerBlock - 1).tdiv elemsPerBlock * elemsPerBlock

/-- The reservations of `Init`, in order. -/
def NormKernel.initBuffers (k : NormKernel) (T : ElemType) (dimLengthAlign : Int) :
    List InitBuffer :=
  let dimLenAlign := toInt32 dimLengthAlign
  (k.ins ++ k.outs).map (fun _ => ⟨kBufferNum, dimLenAlign * T.size⟩) ++
    ⟨1, dimLenAlign * ElemType.float.size⟩ ::
    (if T.size = 2 then
      [⟨1, dimLenAlign * ElemType.float.size⟩, ⟨1, dimLenAlign * ElemType.float.size⟩]
    else []) ++
    [⟨1, reduceTmpSize dimLenAlign * ElemType.float.size⟩, ⟨1, 32⟩]

/-- The bytes of a list of reservations. A length is computed in `int32_t`
and taken as `uint32_t`. -/
def totalReserved (buffers : List InitBuffer) : Option Nat :=
  if ∀ b ∈ buffers, -2 ^ 31 ≤ b.len ∧ b.len < 2 ^ 31 then
    some (buffers.map fun b => b.num * toUInt32 b.len).sum
  else none

/-- The bytes that a kernel reserves. -/
def NormKernel.reserved (k : NormKernel) (T : ElemType) (dimLengthAlign : Int) : Option Nat :=
  totalReserved (k.initBuffers T dimLengthAlign)

/-- The reservations fit into a unified buffer of `ubSize` bytes. -/
def NormKernel.FitsUnifiedBuffer (k : NormKernel) (T : ElemType) (dimLengthAlign : Int)
    (ubSize : Nat) : Prop :=
  ∃ total, k.reserved T dimLengthAlign = some total ∧ total ≤ ubSize

/-! ## The total -/

/-- The bytes for each element of the row. -/
def NormKernel.coefficient (k : NormKernel) (T : ElemType) : Nat :=
  (k.ins ++ k.outs).length * kBufferNum * T.size + if T.size = 2 then 12 else 4

/-- A row of `n` elements is short enough for `ubSize` bytes. -/
def NormKernel.ShortEnough (k : NormKernel) (T : ElemType) (n : Int) (ubSize : Nat) : Prop :=
  0 ≤ n ∧ k.coefficient T * n + 32 * ((n + 511) / 512) + 32 ≤ ubSize

instance (k : NormKernel) (T : ElemType) (n : Int) (ubSize : Nat) :
    Decidable (k.ShortEnough T n ubSize) := inferInstanceAs (Decidable (_ ∧ _))

theorem reduceTmpSize_mul {n : Int} (h : 0 ≤ n) :
    reduceTmpSize n * 4 = 32 * ((n + 511) / 512) := by
  have hrepeat : (n + 256 / 4 - 1).tdiv (256 / 4) = (n + 63) / 64 :=
    (Int.tdiv_eq_ediv_of_nonneg (by omega)).trans (by omega)
  show ((n + 256 / 4 - 1).tdiv (256 / 4) + 32 / 4 - 1).tdiv (32 / 4) * (32 / 4) * 4 = _
  rw [hrepeat, Int.tdiv_eq_ediv_of_nonneg (by omega)]
  omega

theorem ElemType.size_le (T : ElemType) : T.size ≤ 4 := by cases T <;> decide

theorem toUInt32_natCast {n : Nat} (h : n < 2 ^ 31) : toUInt32 n = n :=
  toUInt32_eq_self (Nat.lt_trans h (by decide))

/-- Lengths that are no negative number and fit. -/
theorem totalReserved_natCast {buffers : List (Nat × Nat)} (h : ∀ b ∈ buffers, b.2 < 2 ^ 31) :
    totalReserved (buffers.map fun b => ⟨b.1, b.2⟩) = some (buffers.map fun b => b.1 * b.2).sum := by
  rw [totalReserved, if_pos]
  · rw [List.map_map]
    congr 2
    refine List.map_congr_left ?_
    intro b hb
    show b.1 * toUInt32 (b.2 : Int) = b.1 * b.2
    rw [toUInt32_natCast (h b hb)]
  · simp only [List.mem_map, forall_exists_index, and_imp, forall_apply_eq_imp_iff₂]
    intro b hb
    have hlt := h b hb
    omega

section Total

variable (k : NormKernel) (T : ElemType)

/-- Number and length of the reservations for a row of `n` elements. -/
def NormKernel.rowBuffers (n : Nat) : List (Nat × Nat) :=
  (k.ins ++ k.outs).map (fun _ => (kBufferNum, n * T.size)) ++
    (1, n * 4) :: (if T.size = 2 then [(1, n * 4), (1, n * 4)] else []) ++
    [(1, 32 * ((n + 511) / 512)), (1, 32)]

theorem NormKernel.initBuffers_eq {a : Int} {n : Nat} (h : toInt32 a = n) :
    k.initBuffers T a = (k.rowBuffers T n).map fun b => ⟨b.1, b.2⟩ := by
  have hreduce : reduceTmpSize n * (ElemType.float.size : Nat)
      = ((32 * ((n + 511) / 512) : Nat) : Int) := by
    exact_mod_cast reduceTmpSize_mul (Int.natCast_nonneg n)
  have hfloat : (n : Int) * (ElemType.float.size : Nat) = ((n * 4 : Nat) : Int) := by
    simp [ElemType.size]
  simp only [initBuffers, rowBuffers, h, hreduce, hfloat]
  split <;> simp

theorem NormKernel.sum_rowBuffers (n : Nat) :
    ((k.rowBuffers T n).map fun b => b.1 * b.2).sum
      = k.coefficient T * n + 32 * ((n + 511) / 512) + 32 := by
  rw [rowBuffers, coefficient]
  generalize k.ins ++ k.outs = operands
  have hqueues : (operands.map fun _ => kBufferNum * (n * T.size)).sum
      = operands.length * kBufferNum * T.size * n := by
    rw [List.map_const', List.sum_replicate_nat, Nat.mul_comm n, ← Nat.mul_assoc, ← Nat.mul_assoc]
  simp only [List.map_append, List.map_cons, List.map_map, List.sum_append, List.sum_cons,
    Function.comp_def, hqueues, Nat.add_mul]
  split <;> simp <;> omega

theorem NormKernel.rowBuffers_lt {n : Nat} (h : n * 4 < 2 ^ 31) :
    ∀ b ∈ k.rowBuffers T n, b.2 < 2 ^ 31 := by
  have hqueue : n * T.size < 2 ^ 31 := Nat.lt_of_le_of_lt (Nat.mul_le_mul_left n T.size_le) h
  intro b hb
  simp only [rowBuffers, List.mem_append, List.mem_cons, List.mem_map, List.not_mem_nil,
    or_false] at hb
  obtain (⟨_, -, rfl⟩ | rfl | hcompute) | rfl | rfl := hb
  · exact hqueue
  · exact h
  · split at hcompute
    · simp only [List.mem_cons, List.not_mem_nil, or_false, or_self] at hcompute
      exact hcompute ▸ h
    · cases hcompute
  · show 32 * ((n + 511) / 512) < 2 ^ 31
    omega
  · decide

/-- A total is the sum of lengths that all fit. -/
theorem totalReserved_eq_some {buffers : List InitBuffer} {total : Nat}
    (h : totalReserved buffers = some total) :
    (∀ b ∈ buffers, -2 ^ 31 ≤ b.len ∧ b.len < 2 ^ 31) ∧
      total = (buffers.map fun b => b.num * toUInt32 b.len).sum := by
  unfold totalReserved at h
  split at h
  · rename_i hfits
    exact ⟨hfits, (Option.some.inj h).symm⟩
  · cases h

/-- The weight bounds the row, and a row of a negative number of elements is
taken for a huge one. -/
theorem NormKernel.reserved_bounds {a : Int} {total : Nat} (h : k.reserved T a = some total) :
    toInt32 a * 4 < 2 ^ 31 ∧ (toInt32 a < 0 → 2 ^ 31 ≤ total) := by
  obtain ⟨hfits, rfl⟩ := totalReserved_eq_some h
  have hmem : (⟨1, toInt32 a * 4⟩ : InitBuffer) ∈ k.initBuffers T a := by
    simp [initBuffers, ElemType.size]
  obtain ⟨hlow, hhigh⟩ := hfits _ hmem
  refine ⟨hhigh, ?_⟩
  intro hneg
  have hlen : 2 ^ 31 ≤ 1 * toUInt32 (toInt32 a * 4) := by
    simp only at hlow
    unfold toUInt32
    omega
  exact Nat.le_trans hlen (List.le_sum_of_mem (List.mem_map_of_mem hmem))

/-- Which rows a kernel finds room for. -/
theorem NormKernel.fitsUnifiedBuffer_iff {a : Int} {ubSize : Nat} (hU : ubSize ≤ 262144) :
    k.FitsUnifiedBuffer T a ubSize ↔ k.ShortEnough T (toInt32 a) ubSize := by
  have hnonneg : k.FitsUnifiedBuffer T a ubSize → 0 ≤ toInt32 a := by
    intro ⟨total, htotal, hle⟩
    by_contra hneg
    have hhuge := (k.reserved_bounds T htotal).2 (Int.not_le.mp hneg)
    omega
  by_cases h : 0 ≤ toInt32 a
  · obtain ⟨n, hn⟩ := Int.eq_ofNat_of_zero_le h
    have hreserved (hlt : n * 4 < 2 ^ 31) : k.reserved T a
        = some (k.coefficient T * n + 32 * ((n + 511) / 512) + 32) := by
      rw [reserved, k.initBuffers_eq T hn, totalReserved_natCast (k.rowBuffers_lt T hlt),
        k.sum_rowBuffers]
    have hshort : k.ShortEnough T (toInt32 a) ubSize ↔
        k.coefficient T * n + 32 * ((n + 511) / 512) + 32 ≤ ubSize := by
      rw [ShortEnough, hn]
      norm_cast
      simp
    rw [hshort]
    constructor
    · intro ⟨total, htotal, hle⟩
      have hlt := (k.reserved_bounds T htotal).1
      rw [hn] at hlt
      rw [hreserved (by omega)] at htotal
      exact Option.some.inj htotal ▸ hle
    · intro hle
      have hcoefficient : 4 * n ≤ k.coefficient T * n := by
        refine Nat.mul_le_mul_right n ?_
        unfold coefficient
        split <;> omega
      exact ⟨_, hreserved (by omega), hle⟩
  · exact ⟨fun hfits => absurd (hnonneg hfits) h, fun hshort => absurd hshort.1 h⟩

end Total

/-! ## The torch hosts -/

/-- The reserve of 1024 bytes is left by every row that the check admits. -/
theorem capacity_leaves_reserve {ubSize coefficient row : Nat} (hU : ubSize ≤ 262144)
    (hcoefficient : 0 < coefficient) (hrow : 0 < row)
    (h : row ≤ maxDimLength ubSize coefficient) : coefficient * row + 1024 ≤ ubSize := by
  have hub : toInt64 ubSize = ubSize := toInt64_eq_self (by omega) (by omega)
  have hmax : (row : Int) ≤ (((ubSize : Int) - 1024).tdiv coefficient).tdiv 8 * 8 := by
    rw [← hub]
    exact h
  have hlimit : (0 : Int) ≤ (ubSize : Int) - 1024 := by
    by_contra hneg
    have hquot : ((ubSize : Int) - 1024).tdiv coefficient ≤ (0 : Int).tdiv coefficient :=
      Int.tdiv_le_tdiv (by omega) (by omega)
    have hblocks := Int.tdiv_le_tdiv (c := 8) (by decide) hquot
    simp only [Int.zero_tdiv] at hblocks
    omega
  rw [Int.tdiv_eq_ediv_of_nonneg hlimit] at hmax
  have hquot : (row : Int) ≤ ((ubSize : Int) - 1024) / coefficient := by
    have hnonneg : 0 ≤ ((ubSize : Int) - 1024) / coefficient := Int.ediv_nonneg hlimit (by omega)
    rw [Int.tdiv_eq_ediv_of_nonneg hnonneg] at hmax
    omega
  have hmul : (row : Int) * coefficient ≤ (ubSize : Int) - 1024 :=
    (Int.le_ediv_iff_mul_le (by omega)).mp hquot
  have hcomm : ((coefficient * row : Nat) : Int) = row * coefficient := by
    rw [Nat.cast_mul, Int.mul_comm]
  omega

/-- The reserve covers the buffers of the reduction. -/
theorem NormKernel.shortEnough_of_reserve {k : NormKernel} {T : ElemType} {row ubSize : Nat}
    (hU : ubSize ≤ 262144) (hcoefficient : 20 ≤ k.coefficient T)
    (h : k.coefficient T * row + 1024 ≤ ubSize) : k.ShortEnough T (toInt32 row) ubSize := by
  have hmul : 20 * row ≤ k.coefficient T * row := Nat.mul_le_mul_right row hcoefficient
  have hself : toInt32 row = row := toInt32_natCast (by omega)
  have htotal : k.coefficient T * row + 32 * ((row + 511) / 512) + 32 ≤ ubSize := by omega
  rw [hself]
  exact ⟨Int.natCast_nonneg row, by exact_mod_cast htotal⟩

/-- What a host function tells by launching. -/
theorem hostLaunch_launched {op : String} {kernel : NormKernel} {coefficient : Nat → Nat}
    {p : Platform} {x : AtTensor} {l : Launch}
    (h : hostLaunch op kernel coefficient p x = .ok (some l)) :
    0 < x.size (-1) ∧ l.kernel = kernel ∧ l.args.dtypeCode = x.elementSize ∧
      alignedLength (x.size (-1)) x.elementSize = .ok l.args.dimLengthAlign ∧
      l.args.dimLengthAlign ≤ maxDimLength p.ubSize (coefficient x.elementSize) := by
  simp only [hostLaunch, bind_eq_ok] at h
  obtain ⟨rows, -, h⟩ := h
  split at h
  · cases h
  · rename_i hnonempty
    simp only [bind_eq_ok] at h
    obtain ⟨aligned, haligned, _, hfits, tiling, -, hl⟩ := h
    obtain rfl := Option.some.inj (Except.ok.inj hl)
    refine ⟨by omega, rfl, rfl, haligned, ?_⟩
    unfold checkCapacity torchCheck at hfits
    split at hfits
    · assumption
    · cases hfits

/-! ## Both hosts -/

inductive HostPath where
  | torch | custom
  deriving DecidableEq, Repr

/-- A launch of a kernel: by which host, for tensors of which type and last
extent, with which length and dtype code. -/
structure KernelLaunch where
  host : HostPath
  kernel : NormKernel
  type : ElemType
  dim : Nat
  dimLengthAlign : Nat
  dtypeCode : Int

/-- The launches of the two hosts on a device with `ubSize` bytes of unified
buffer. -/
inductive Launched (ubSize : Nat) : KernelLaunch → Prop where
  | torchRmsNorm {coreNumAiv : Nat} {input weight : AtTensor} {T : ElemType} {l : Launch}
      (type : input.scalarType.elemType = some T)
      (launch : rmsNorm ⟨coreNumAiv, ubSize⟩ input weight = .ok (some l)) :
      Launched ubSize
        ⟨.torch, l.kernel, T, input.size (-1), l.args.dimLengthAlign, l.args.dtypeCode⟩
  | torchAddRmsNorm {coreNumAiv : Nat} {x1 x2 weight : AtTensor} {T : ElemType} {l : Launch}
      (type : x1.scalarType.elemType = some T)
      (launch : addRmsNorm ⟨coreNumAiv, ubSize⟩ x1 x2 weight = .ok (some l)) :
      Launched ubSize
        ⟨.torch, l.kernel, T, x1.size (-1), l.args.dimLengthAlign, l.args.dtypeCode⟩
  | customRmsNorm {input out : Tensor} {T : ElemType} {dim : Nat} {l : CustomLaunch}
      (type : input.dtype = T.dataType) (length : out.size? (-1) = some dim)
      (launch : customRmsNorm input out = .ok l) :
      Launched ubSize ⟨.custom, l.kernel, T, dim, l.args.dimLengthAlign, l.args.dtypeCode⟩
  | customAddRmsNorm {input residual out residualOut : Tensor} {T : ElemType} {dim : Nat}
      {l : CustomLaunch} (type : input.dtype = T.dataType)
      (length : input.size? (-1) = some dim)
      (launch : customAddRmsNorm input residual out residualOut = .ok l) :
      Launched ubSize ⟨.custom, l.kernel, T, dim, l.args.dimLengthAlign, l.args.dtypeCode⟩

namespace KernelLaunch

variable (k : KernelLaunch)

/-- The instantiation that the dtype code selects: the torch hosts pass the
element size. -/
def selected : ElemType :=
  match k.host with
  | .torch => .float
  | .custom => k.type

/-- The row as the kernel gets it. -/
def row : Nat := alignedRow k.type k.dim

/-- What the two hosts share, and what the torch hosts check. -/
structure Checked (ubSize : Nat) : Prop where
  kernel : k.kernel = kernelRmsNorm ∨ k.kernel = kernelAddRmsNorm
  dimLengthAlign : k.dimLengthAlign = k.row
  selected : instantiation k.dtypeCode = k.selected
  capacity : k.host = .torch →
    0 < k.row ∧ k.row ≤ maxDimLength ubSize (k.kernel.coefficient k.type)

end KernelLaunch

theorem ScalarType.elemType_eq {s : ScalarType} {T : ElemType} (h : s.elemType = some T) :
    s.elementSize = T.size ∧ instantiation T.size = .float ∧ (s = .half ∨ s = .float) := by
  cases s with
  | half =>
    obtain rfl := Option.some.inj h
    decide
  | float =>
    obtain rfl := Option.some.inj h
    decide
  | other => cases h

theorem alignedRow_pos (T : ElemType) {dim : Nat} (h : 0 < dim) : 0 < alignedRow T dim := by
  cases T <;> simp only [alignedRow, ElemType.size] <;> omega

/-- The launch of a torch host. -/
theorem checked_of_hostLaunch {op : String} {kernel : NormKernel} {coefficient : Nat → Nat}
    {p : Platform} {x : AtTensor} {l : Launch} {T : ElemType}
    (htype : x.scalarType.elemType = some T)
    (hkernel : kernel = kernelRmsNorm ∨ kernel = kernelAddRmsNorm)
    (hcoefficient : coefficient T.size = kernel.coefficient T)
    (h : hostLaunch op kernel coefficient p x = .ok (some l)) :
    KernelLaunch.Checked
      ⟨.torch, l.kernel, T, x.size (-1), l.args.dimLengthAlign, l.args.dtypeCode⟩ p.ubSize := by
  obtain ⟨hdim, rfl, hcode, haligned, hfits⟩ := hostLaunch_launched h
  obtain ⟨hsize, hfloat, -⟩ := ScalarType.elemType_eq htype
  have helement : x.elementSize = T.size := hsize
  rw [helement, alignedLength_eq] at haligned
  have hrow : l.args.dimLengthAlign = alignedRow T (x.size (-1)) := (Except.ok.inj haligned).symm
  rw [helement, hcoefficient, hrow] at hfits
  exact
    { kernel := hkernel
      dimLengthAlign := hrow
      selected := by rw [hcode, helement]; exact hfloat
      capacity := fun _ => ⟨alignedRow_pos T hdim, hfits⟩ }

/-- The launch of a custom operator. -/
theorem CustomLaunch.For.checked {kernel : NormKernel} {dtype : DataType} {t : Tensor}
    {l : CustomLaunch} (h : l.For kernel dtype t) {T : ElemType} {dim ubSize : Nat}
    (hkernel : kernel = kernelRmsNorm ∨ kernel = kernelAddRmsNorm) (htype : dtype = T.dataType)
    (hlength : t.size? (-1) = some dim) :
    KernelLaunch.Checked
      ⟨.custom, l.kernel, T, dim, l.args.dimLengthAlign, l.args.dtypeCode⟩ ubSize := by
  subst htype
  obtain rfl := Option.some.inj (hlength.symm.trans h.length)
  have haligned := h.aligned
  rw [T.kDataTypeToSize_dataType, alignedLength_eq] at haligned
  exact
    { kernel := h.kernel ▸ hkernel
      dimLengthAlign := (Except.ok.inj haligned).symm
      selected := (congrArg instantiation h.dtypeCode).trans (instantiation_code T)
      capacity := fun hhost => nomatch hhost }

theorem Launched.checked {ubSize : Nat} {k : KernelLaunch} (h : Launched ubSize k) :
    k.Checked ubSize := by
  cases h with
  | torchRmsNorm type launch =>
    obtain ⟨-, -, heq⟩ := rmsNorm_accepted (Accepted.of_isOk (by rw [launch]; rfl))
    rw [heq] at launch
    exact checked_of_hostLaunch type (.inl rfl) (by rename_i T _; cases T <;> rfl) launch
  | torchAddRmsNorm type launch =>
    obtain ⟨-, -, heq⟩ := addRmsNorm_accepted (Accepted.of_isOk (by rw [launch]; rfl))
    rw [heq] at launch
    exact checked_of_hostLaunch type (.inr rfl) (by rename_i T _; cases T <;> rfl) launch
  | customRmsNorm type length launch =>
    exact (customRmsNorm_launch launch).checked (.inl rfl) type length
  | customAddRmsNorm type length launch =>
    exact (customAddRmsNorm_launch launch).checked (.inr rfl) type length

/-- A launched kernel of the tensors' own type fits exactly when a torch host
launched it or the row is short enough. The kernel that the dtype code
selects is another one for `float16` from the torch hosts, and there the
larger kernel needs a short row too. -/
theorem reservation_fits_iff {ubSize : Nat} (hU : ubSize ≤ 262144) {k : KernelLaunch}
    (h : Launched ubSize k) :
    (k.kernel.FitsUnifiedBuffer k.type k.dimLengthAlign ubSize ↔
      k.host = .torch ∨ k.kernel.ShortEnough k.type (toInt32 k.row) ubSize) ∧
    (k.kernel.FitsUnifiedBuffer (instantiation k.dtypeCode) k.dimLengthAlign ubSize ↔
      k.host = .torch ∧ (k.kernel = kernelRmsNorm ∨ k.type = .float) ∨
        k.kernel.ShortEnough k.selected (toInt32 k.row) ubSize) := by
  have hk := h.checked
  rw [hk.dimLengthAlign, hk.selected, k.kernel.fitsUnifiedBuffer_iff _ hU,
    k.kernel.fitsUnifiedBuffer_iff _ hU]
  have htorch (hhost : k.host = .torch) {T : ElemType}
      (hT : k.kernel.coefficient T = k.kernel.coefficient k.type) :
      k.kernel.ShortEnough T (toInt32 k.row) ubSize := by
    obtain ⟨hrow, hfits⟩ := hk.capacity hhost
    have hcoefficient : 20 ≤ k.kernel.coefficient k.type := by
      obtain hkernel | hkernel := hk.kernel <;> rw [hkernel] <;> cases k.type <;> decide
    have hreserve := capacity_leaves_reserve hU (by omega) hrow hfits
    rw [← hT] at hreserve hcoefficient
    exact NormKernel.shortEnough_of_reserve hU hcoefficient hreserve
  constructor
  · exact ⟨.inr, fun hor => hor.elim (fun hhost => htorch hhost rfl) id⟩
  · refine ⟨.inr, fun hor => hor.elim ?_ id⟩
    intro ⟨hhost, hor⟩
    have hselected : k.selected = .float := by rw [KernelLaunch.selected, hhost]
    rw [hselected]
    refine htorch hhost ?_
    obtain hkernel | htype := hor
    · rw [hkernel]
      cases k.type <;> rfl
    · rw [htype]

/-- Two `float16` rows of 4096 elements take 82208 bytes. -/
theorem reservation_fits_float16 :
    ∃ l, customRmsNorm ⟨0, [2, 4096], .kFloat16, {}, [4096, 1]⟩
        ⟨0, [2, 4096], .kFloat16, {}, [4096, 1]⟩ = .ok l ∧
      l.kernel.FitsUnifiedBuffer .half l.args.dimLengthAlign 196608 := by
  have hlaunch : customRmsNorm ⟨0, [2, 4096], .kFloat16, {}, [4096, 1]⟩
      ⟨0, [2, 4096], .kFloat16, {}, [4096, 1]⟩
        = .ok ⟨kernelRmsNorm, 2, ⟨2, 4096, 4096, 2, 1, 0, 8⟩⟩ := by decide +kernel
  have hlaunched : Launched 196608 ⟨.custom, kernelRmsNorm, .half, 4096, 4096, 8⟩ :=
    .customRmsNorm rfl rfl hlaunch
  exact ⟨_, hlaunch, (reservation_fits_iff (by decide) hlaunched).1.mpr (.inr (by decide +kernel))⟩

/-- One `float32` row of 16384 elements takes 328736 bytes. -/
theorem custom_reservation_exceeds :
    ∃ l, customRmsNorm ⟨0, [1, 16384], .kFloat32, {}, [16384, 1]⟩
        ⟨0, [1, 16384], .kFloat32, {}, [16384, 1]⟩ = .ok l ∧
      l.args.dtypeCode = DataType.kFloat32.code ∧ l.args.dimLengthAlign = 16384 ∧
      ¬ l.kernel.FitsUnifiedBuffer .float l.args.dimLengthAlign 196608 := by
  refine ⟨⟨kernelRmsNorm, 1, ⟨1, 16384, 16384, 1, 1, 0, 10⟩⟩, by decide +kernel, rfl, rfl, ?_⟩
  rw [NormKernel.fitsUnifiedBuffer_iff _ _ (by decide)]
  decide +kernel

end InfiniOps.AscendC
