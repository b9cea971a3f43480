/-
InfiniOps.AscendC.LaunchTheorems — the torch host functions and the
AscendC kernels, which meet only in the integers of a launch.

The tiling agrees: with the element type of the padded input, every block
stays inside the buffers (`accesses_fit`). The dtype code does not. The
host passes the element size where the kernel expects a `DataType`, and 2
and 4 both fall to the `float` instantiation. So a `float32` launch is
right for the wrong reason (`launch_agrees_iff`), and a `float16` launch
reads and writes past its buffers (`half_leaves_buffers`).
-/
import InfiniOps.AscendC.TorchHost
import InfiniOps.Lib.Except
import InfiniOps.Lib.RowSplit
import Mathlib.Algebra.BigOperators.Group.List.Lemmas
import Mathlib.Data.List.GetD

namespace InfiniOps.AscendC

open RowSplit

/-! ## Row ranges -/

/-- The tiling arguments split the rows over `cores` blocks. -/
structure LaunchArgs.Splits (a : LaunchArgs) (cores : Nat) : Prop where
  pos : 0 < cores
  le : cores ≤ a.totalRows
  formerLength : a.formerLength = former a.totalRows cores
  tailLength : a.tailLength = tail a.totalRows cores
  formerNum : a.formerNum = RowSplit.formerNum a.totalRows cores

namespace LaunchArgs.Splits

variable {a : LaunchArgs} {cores : Nat} (h : a.Splits cores)
include h

theorem blockRows_eq (b : Nat) : a.blockRows b = rows a.totalRows cores b := by
  rw [blockRows, rows, h.formerLength, h.tailLength, h.formerNum]

theorem rowOffset_eq (b : Nat) : a.rowOffset b = offset a.totalRows cores b := by
  rw [rowOffset, offset, h.formerLength, h.tailLength, h.formerNum]

theorem row_lt {b row : Nat} (hb : b < cores) (hrow : row < a.blockRows b) :
    a.rowOffset b + row < a.totalRows := by
  have hend := offset_add_rows_le h.pos h.le hb
  rw [h.rowOffset_eq]
  rw [h.blockRows_eq] at hrow
  omega

/-- The last block has a row, and it is the last row of all. -/
theorem last_row : 0 < a.blockRows (cores - 1) ∧
    a.rowOffset (cores - 1) + (a.blockRows (cores - 1) - 1) + 1 = a.totalRows := by
  have hcores := h.pos
  have hpos := rows_pos h.pos h.le (Nat.sub_lt hcores Nat.one_pos)
  have hend : offset a.totalRows cores (cores - 1 + 1) = a.totalRows := by
    rw [Nat.sub_add_cancel hcores]
    exact offset_last h.pos h.le
  rw [offset_succ] at hend
  rw [h.blockRows_eq, h.rowOffset_eq]
  omega

end LaunchArgs.Splits

/-! ## Accesses -/

theorem LaunchArgs.gmOffset_eq (a : LaunchArgs) (T : ElemType) (b row : Nat) :
    a.gmOffset T b row = (a.rowOffset b + row) * (a.dimLengthAlign * T.size) := by
  rw [gmOffset, ← Nat.add_mul, Nat.mul_assoc]

theorem LaunchArgs.rowBytes_le (a : LaunchArgs) (T : ElemType) :
    a.rowBytes T ≤ a.dimLengthAlign * T.size := by
  unfold rowBytes
  exact_mod_cast toUInt32_le (a.dimLengthAlign * T.size)

theorem LaunchArgs.weightAccess_bytes_le (a : LaunchArgs) :
    a.weightAccess.bytes ≤ a.dimLengthAlign * ElemType.float.size := by
  show toUInt32 (toInt32 a.dimLengthAlign * (ElemType.float.size : Nat)) ≤ _
  rw [toUInt32_toInt32_mul]
  exact_mod_cast toUInt32_le (a.dimLengthAlign * ElemType.float.size)

/-- Row `row` of block `b` ends inside a buffer of `totalRows` padded rows. -/
theorem LaunchArgs.Splits.row_fits {a : LaunchArgs} {cores : Nat} (h : a.Splits cores)
    (T : ElemType) {b row : Nat} (hb : b < cores) (hrow : row < a.blockRows b) :
    a.gmOffset T b row + a.rowBytes T ≤ a.totalRows * (a.dimLengthAlign * T.size) := by
  have hlt := h.row_lt hb hrow
  rw [a.gmOffset_eq]
  calc (a.rowOffset b + row) * (a.dimLengthAlign * T.size) + a.rowBytes T
      ≤ (a.rowOffset b + row) * (a.dimLengthAlign * T.size) + a.dimLengthAlign * T.size :=
        Nat.add_le_add_left (a.rowBytes_le T) _
    _ = (a.rowOffset b + row + 1) * (a.dimLengthAlign * T.size) := by rw [Nat.succ_mul]
    _ ≤ a.totalRows * (a.dimLengthAlign * T.size) := Nat.mul_le_mul_right _ hlt

/-- The accesses of the kernel entry point in block `b`. -/
def Launch.accesses (l : Launch) (b : Nat) : List GmAccess :=
  l.kernel.accesses (instantiation l.args.dtypeCode) l.args b

/-- The access lies inside the operand's buffer. -/
def GmAccess.Fits (l : Launch) (x : GmAccess) : Prop :=
  x.offset + x.bytes ≤ (l.buffer x.operand).nbytes

instance (l : Launch) (x : GmAccess) : Decidable (x.Fits l) :=
  inferInstanceAs (Decidable (_ ≤ _))

/-- The instantiation for a tensor type. -/
def ScalarType.elemType : ScalarType → Option ElemType
  | .half => some .half
  | .float => some .float
  | .other _ _ => none

/-- A launch agrees with its kernel on tensors of type `s`. -/
def Launch.Agrees (l : Launch) (s : ScalarType) : Prop :=
  s.elemType = some (instantiation l.args.dtypeCode) ∧
    ∀ b < l.blockDim, ∀ access ∈ l.accesses b, access.Fits l

instance (l : Launch) (s : ScalarType) : Decidable (l.Agrees s) :=
  inferInstanceAs (Decidable (_ ∧ _))

/-! ## Launches of the host functions -/

/-- What the host functions hand over for a tensor `x`. -/
structure Launch.For (p : Platform) (kernel : NormKernel) (x : AtTensor) (l : Launch) :
    Prop where
  kernel : l.kernel = kernel
  dim_pos : 0 < l.args.dimLengthAlign
  splits : l.args.Splits (min l.args.totalRows p.coreNumAiv)
  blockDim : l.blockDim = toUInt32 (min l.args.totalRows p.coreNumAiv : Nat)
  dtypeCode : l.args.dtypeCode = x.elementSize
  kernelInput : l.kernelInput = ⟨[l.args.totalRows, l.args.dimLengthAlign], x.scalarType⟩
  weightFloat : l.weightFloat = ⟨[l.args.dimLengthAlign], .float⟩

namespace Launch.For

variable {p : Platform} {kernel : NormKernel} {x : AtTensor} {l : Launch}
variable (h : Launch.For p kernel x l)
include h

theorem nbytes_weight : (l.buffer .weight).nbytes = l.args.dimLengthAlign * 4 := by
  show l.weightFloat.nbytes = _
  rw [h.weightFloat]
  simp [AtTensor.nbytes, AtTensor.numel, AtTensor.elementSize, ScalarType.elementSize]

theorem nbytes_row {g : Operand} (hg : g ≠ .weight) :
    (l.buffer g).nbytes = l.args.totalRows * (l.args.dimLengthAlign * x.elementSize) := by
  have hbuffer : l.buffer g = l.kernelInput := by
    cases g <;> first | rfl | exact absurd rfl hg
  rw [hbuffer, h.kernelInput]
  simp [AtTensor.nbytes, AtTensor.numel, AtTensor.elementSize, Nat.mul_assoc]

/-- With the element type of `x`, no block leaves the buffers. -/
theorem accesses_fit (hk : .weight ∉ kernel.ins ++ kernel.outs) {T : ElemType}
    (hT : T.size = x.elementSize) {b : Nat} (hb : b < l.blockDim) :
    ∀ access ∈ l.kernel.accesses T l.args b, access.Fits l := by
  intro access hmem
  rw [NormKernel.mem_accesses, h.kernel] at hmem
  obtain rfl | ⟨row, hrow, hcopy⟩ := hmem
  · show 0 + l.args.weightAccess.bytes ≤ (l.buffer .weight).nbytes
    rw [h.nbytes_weight, Nat.zero_add]
    exact l.args.weightAccess_bytes_le
  · obtain ⟨hop, hoff, hbytes⟩ := kernel.row_access T l.args b hcopy
    have hcore : b < min l.args.totalRows p.coreNumAiv := by
      rw [h.blockDim] at hb
      exact Nat.lt_of_lt_of_le hb (toUInt32_le _)
    have hne : access.operand ≠ .weight := by
      intro heq
      exact hk (heq ▸ hop)
    show access.offset + access.bytes ≤ _
    rw [hoff, hbytes, h.nbytes_row hne, ← hT]
    exact h.splits.row_fits T hcore hrow

/-- Both element sizes select `float`. -/
theorem instantiation_eq (htype : x.scalarType = .half ∨ x.scalarType = .float) :
    instantiation l.args.dtypeCode = .float := by
  rw [h.dtypeCode, AtTensor.elementSize]
  obtain hs | hs := htype <;> rw [hs] <;> decide

theorem agrees_iff_float (hk : .weight ∉ kernel.ins ++ kernel.outs)
    (htype : x.scalarType = .half ∨ x.scalarType = .float) :
    l.Agrees x.scalarType ↔ x.scalarType = .float := by
  have hinst := h.instantiation_eq htype
  constructor
  · intro hagrees
    have hselects := hagrees.1
    rw [hinst] at hselects
    obtain hs | hs := htype
    · rw [hs] at hselects
      cases hselects
    · exact hs
  · intro hs
    refine ⟨by rw [hs, hinst]; rfl, ?_⟩
    intro b hb access hmem
    rw [Launch.accesses, hinst] at hmem
    have hsize : ElemType.float.size = x.elementSize := by
      rw [AtTensor.elementSize, hs]
      rfl
    exact h.accesses_fit hk hsize hb access hmem

/-- The copies of the last row of a `float16` tensor end at twice the size of
its buffer. -/
theorem half_leaves_buffers {g : Operand} (hg : g ∈ kernel.ins) (hweight : g ≠ .weight)
    (hs : x.scalarType = .half) (hcores : p.coreNumAiv < 2 ^ 32)
    (hdim : l.args.dimLengthAlign * 4 < 2 ^ 32) :
    ∃ b < l.blockDim, ∃ access ∈ l.accesses b, ¬ access.Fits l := by
  have hused : min l.args.totalRows p.coreNumAiv < 2 ^ 32 :=
    Nat.lt_of_le_of_lt (Nat.min_le_right _ _) hcores
  have hblocks : l.blockDim = min l.args.totalRows p.coreNumAiv := by
    rw [h.blockDim, toUInt32_eq_self hused]
  have hpos := h.splits.pos
  obtain ⟨hrow, hlast⟩ := h.splits.last_row
  rw [← hblocks] at hrow hlast hpos
  have hinst := h.instantiation_eq (.inl hs)
  let row := l.args.blockRows (l.blockDim - 1) - 1
  refine ⟨l.blockDim - 1, Nat.sub_lt hpos Nat.one_pos,
    ⟨g, false, l.args.gmOffset .float (l.blockDim - 1) row, l.args.rowBytes .float⟩, ?_, ?_⟩
  · rw [Launch.accesses, hinst, NormKernel.mem_accesses, h.kernel]
    exact .inr ⟨row, Nat.sub_lt hrow Nat.one_pos, .inl (List.mem_map_of_mem hg)⟩
  · have hbytes : l.args.rowBytes .float = l.args.dimLengthAlign * 4 := toUInt32_eq_self hdim
    have hend : l.args.gmOffset .float (l.blockDim - 1) row + l.args.rowBytes .float
        = l.args.totalRows * (l.args.dimLengthAlign * 4) := by
      rw [hbytes, LaunchArgs.gmOffset_eq, ← hlast, Nat.succ_mul]
      rfl
    have hsize : x.elementSize = 2 := by
      rw [AtTensor.elementSize, hs]
      rfl
    have hrows : 0 < l.args.totalRows * l.args.dimLengthAlign :=
      Nat.mul_pos (Nat.lt_of_lt_of_le h.splits.pos h.splits.le) h.dim_pos
    show ¬ _ + _ ≤ (l.buffer g).nbytes
    rw [hend, h.nbytes_row hweight, hsize, ← Nat.mul_assoc, ← Nat.mul_assoc]
    omega

end Launch.For

/-! ## The host functions -/

theorem divide_of_pos {a b : Nat} (h : 0 < b) : divide a b = .ok (a / b) := by
  rw [divide, if_neg (by omega)]

theorem torchCheck_true {c : Prop} [Decidable c] (h : c) (m : String) :
    torchCheck c m = .ok () := if_pos h

theorem torchCheck_false {c : Prop} [Decidable c] (h : ¬ c) (m : String) :
    torchCheck c m = .error (.torchCheck m) := if_neg h

theorem AtTensor.size_dvd_numel {t : AtTensor} (h : 0 < t.dim) : t.size (-1) ∣ t.numel := by
  have hlt : t.sizes.length - 1 < t.sizes.length := Nat.sub_lt h Nat.one_pos
  have hindex : (Tensor.effectiveIndex (-1) t.sizes.length).toNat = t.sizes.length - 1 := by
    unfold Tensor.effectiveIndex
    omega
  rw [AtTensor.size, AtTensor.numel, hindex, List.getD_eq_getElem _ _ hlt,
    ← List.prod_eq_foldl]
  exact List.dvd_prod (List.getElem_mem hlt)

/-- The padding never cuts a row off. -/
theorem alignedLength_ok (dimLength : Nat) {dtypeSize : Nat} (hpos : 0 < dtypeSize)
    (hle : dtypeSize ≤ 32) :
    ∃ aligned, alignedLength dimLength dtypeSize = .ok aligned ∧ dimLength ≤ aligned := by
  have halign : 0 < 32 / dtypeSize := Nat.div_pos hle hpos
  refine ⟨(dimLength + 32 / dtypeSize - 1) / (32 / dtypeSize) * (32 / dtypeSize), ?_, ?_⟩
  · simp only [alignedLength, divide_of_pos hpos, divide_of_pos halign, bind, Except.bind]
    rfl
  · have hlt := Nat.lt_div_mul_add (a := dimLength + 32 / dtypeSize - 1) halign
    omega

theorem paddedLength_eq {d aligned : Nat} (h : d ≤ aligned) :
    paddedLength d aligned = aligned := by
  unfold paddedLength
  split
  · omega
  · rfl

theorem blockTiling_ok {totalRows coreNum : Nat} (hrows : 0 < totalRows) (hcores : 0 < coreNum) :
    blockTiling totalRows coreNum = .ok
      { usedCoreNum := min totalRows coreNum
        formerLength := former totalRows (min totalRows coreNum)
        tailLength := tail totalRows (min totalRows coreNum)
        formerNum := formerNum totalRows (min totalRows coreNum) } := by
  have hused : 0 < min totalRows coreNum := Nat.lt_min.mpr ⟨hrows, hcores⟩
  simp only [blockTiling, divide_of_pos hused, bind, Except.bind]
  rfl

/-- A nonempty tensor of an accepted type is rejected for its size or
launched. -/
theorem hostLaunch_cases (op : String) (kernel : NormKernel) (coefficient : Nat → Nat)
    {p : Platform} {x : AtTensor} (hcores : 0 < p.coreNumAiv) (hdim : 0 < x.dim)
    (hnumel : 0 < x.numel) (htype : x.scalarType = .half ∨ x.scalarType = .float) :
    (∃ m, hostLaunch op kernel coefficient p x = .error (.torchCheck m)) ∨
      ∃ l, hostLaunch op kernel coefficient p x = .ok (some l) ∧ l.For p kernel x := by
  have hdvd := AtTensor.size_dvd_numel hdim
  have hlast : 0 < x.size (-1) := Nat.pos_of_dvd_of_pos hdvd hnumel
  have hrows : 0 < x.numel / x.size (-1) := Nat.div_pos (Nat.le_of_dvd hnumel hdvd) hlast
  have hsize : 0 < x.elementSize ∧ x.elementSize ≤ 32 := by
    unfold AtTensor.elementSize
    obtain h | h := htype <;> rw [h] <;> decide
  obtain ⟨aligned, haligned, hle⟩ := alignedLength_ok (x.size (-1)) hsize.1 hsize.2
  have hnonempty : ¬ (x.numel / x.size (-1) = 0 ∨ x.size (-1) = 0) := by omega
  rw [hostLaunch, divide_of_pos hlast, ok_bind, if_neg hnonempty, haligned, ok_bind]
  by_cases hfits : (aligned : Int) ≤ maxDimLength p.ubSize (coefficient x.elementSize)
  · right
    rw [checkCapacity, torchCheck_true hfits, ok_bind, blockTiling_ok hrows hcores, ok_bind]
    refine ⟨_, rfl, ?_⟩
    exact
      { kernel := rfl
        dim_pos := Nat.lt_of_lt_of_le hlast hle
        splits :=
          { pos := Nat.lt_min.mpr ⟨hrows, hcores⟩
            le := Nat.min_le_left _ _
            formerLength := rfl
            tailLength := rfl
            formerNum := rfl }
        blockDim := rfl
        dtypeCode := rfl
        kernelInput := by simp [execKernelCmd, paddedLength_eq hle]
        weightFloat := by simp [execKernelCmd, paddedLength_eq hle] }
  · left
    rw [checkCapacity, torchCheck_false hfits, error_bind]
    exact ⟨_, rfl⟩

/-- No `TORCH_CHECK` fails. -/
def Accepted (r : HostResult) : Prop := ∀ m, r ≠ .error (.torchCheck m)

theorem Accepted.check {c : Prop} [Decidable c] {m : String} {f : Unit → HostResult}
    (h : Accepted (torchCheck c m >>= f)) : c ∧ (torchCheck c m >>= f) = f () := by
  by_cases hc : c
  · exact ⟨hc, by rw [torchCheck_true hc, ok_bind]⟩
  · rw [torchCheck_false hc, error_bind] at h
    exact absurd rfl (h m)

theorem rmsNorm_accepted {p : Platform} {input weight : AtTensor}
    (h : Accepted (rmsNorm p input weight)) :
    0 < input.dim ∧ (input.scalarType = .half ∨ input.scalarType = .float) ∧
      rmsNorm p input weight = hostLaunch "RmsNorm" kernelRmsNorm (fun _ => 20) p input := by
  unfold rmsNorm at h ⊢
  obtain ⟨hdim, heq⟩ := h.check
  rw [heq] at h ⊢
  obtain ⟨htype, heq⟩ := h.check
  rw [heq] at h ⊢
  obtain ⟨-, heq⟩ := h.check
  rw [heq] at h ⊢
  obtain ⟨-, heq⟩ := h.check
  exact ⟨hdim, htype, heq⟩

theorem addRmsNorm_accepted {p : Platform} {x1 x2 weight : AtTensor}
    (h : Accepted (addRmsNorm p x1 x2 weight)) :
    0 < x1.dim ∧ (x1.scalarType = .half ∨ x1.scalarType = .float) ∧
      addRmsNorm p x1 x2 weight = hostLaunch "AddRmsNorm" kernelAddRmsNorm
        (fun dtypeSize => if dtypeSize = 2 then 28 else 36) p x1 := by
  unfold addRmsNorm at h ⊢
  obtain ⟨hdim, heq⟩ := h.check
  rw [heq] at h ⊢
  obtain ⟨-, heq⟩ := h.check
  rw [heq] at h ⊢
  obtain ⟨-, heq⟩ := h.check
  rw [heq] at h ⊢
  obtain ⟨htype, heq⟩ := h.check
  rw [heq] at h ⊢
  obtain ⟨-, heq⟩ := h.check
  rw [heq] at h ⊢
  obtain ⟨-, heq⟩ := h.check
  exact ⟨hdim, htype, heq⟩

theorem hostLaunch_agrees_iff {op : String} {kernel : NormKernel} {coefficient : Nat → Nat}
    {p : Platform} {x : AtTensor} (hk : .weight ∉ kernel.ins ++ kernel.outs)
    (hcores : 0 < p.coreNumAiv) (hdim : 0 < x.dim) (hnumel : 0 < x.numel)
    (htype : x.scalarType = .half ∨ x.scalarType = .float)
    (h : Accepted (hostLaunch op kernel coefficient p x)) :
    ∃ l, hostLaunch op kernel coefficient p x = .ok (some l) ∧
      (l.Agrees x.scalarType ↔ x.scalarType = .float) := by
  obtain ⟨m, hm⟩ | ⟨l, hl, hfor⟩ := hostLaunch_cases op kernel coefficient hcores hdim hnumel htype
  · exact absurd hm (h m)
  · exact ⟨l, hl, hfor.agrees_iff_float hk htype⟩

/-- Every accepted nonempty input is launched, and the launch agrees with its
kernel exactly for `float32`. -/
theorem launch_agrees_iff (p : Platform) (hcores : 0 < p.coreNumAiv) :
    (∀ input weight : AtTensor, 0 < input.numel → Accepted (rmsNorm p input weight) →
      ∃ l, rmsNorm p input weight = .ok (some l) ∧
        (l.Agrees input.scalarType ↔ input.scalarType = .float)) ∧
    (∀ x1 x2 weight : AtTensor, 0 < x1.numel → Accepted (addRmsNorm p x1 x2 weight) →
      ∃ l, addRmsNorm p x1 x2 weight = .ok (some l) ∧
        (l.Agrees x1.scalarType ↔ x1.scalarType = .float)) := by
  constructor
  · intro input weight hnumel haccepted
    obtain ⟨hdim, htype, heq⟩ := rmsNorm_accepted haccepted
    rw [heq] at haccepted ⊢
    exact hostLaunch_agrees_iff (by decide) hcores hdim hnumel htype haccepted
  · intro x1 x2 weight hnumel haccepted
    obtain ⟨hdim, htype, heq⟩ := addRmsNorm_accepted haccepted
    rw [heq] at haccepted ⊢
    exact hostLaunch_agrees_iff (by decide) hcores hdim hnumel htype haccepted

theorem Accepted.of_isOk {r : HostResult} (h : r.isOk) : Accepted r := by
  intro m hm
  rw [hm] at h
  cases h

theorem launch_agrees_iff_float32 :
    (∃ l, rmsNorm ⟨40, 196608⟩ ⟨[3, 12], .float⟩ ⟨[12], .float⟩ = .ok (some l) ∧
      l.Agrees .float) ∧
    ∃ l, addRmsNorm ⟨40, 196608⟩ ⟨[3, 12], .float⟩ ⟨[3, 12], .float⟩ ⟨[12], .float⟩
      = .ok (some l) ∧ l.Agrees .float := by
  obtain ⟨hrms, hadd⟩ := launch_agrees_iff ⟨40, 196608⟩ (by decide)
  constructor
  · obtain ⟨l, hl, hagrees⟩ := hrms ⟨[3, 12], .float⟩ ⟨[12], .float⟩ (by decide)
      (Accepted.of_isOk (by decide +kernel))
    exact ⟨l, hl, hagrees.mpr rfl⟩
  · obtain ⟨l, hl, hagrees⟩ := hadd ⟨[3, 12], .float⟩ ⟨[3, 12], .float⟩ ⟨[12], .float⟩ (by decide)
      (Accepted.of_isOk (by decide +kernel))
    exact ⟨l, hl, hagrees.mpr rfl⟩

/-- One `float16` row of 16 elements: the `float` kernel reads 64 bytes of a
buffer of 32. -/
theorem float16_launch_disagrees :
    ∃ l, rmsNorm ⟨40, 196608⟩ ⟨[1, 16], .half⟩ ⟨[16], .half⟩ = .ok (some l) ∧
      ScalarType.half.elemType ≠ some (instantiation l.args.dtypeCode) ∧
      ∃ b < l.blockDim, ∃ access ∈ l.accesses b, ¬ access.Fits l := by
  refine ⟨⟨kernelRmsNorm, 1, ⟨1, 16, 16, 1, 1, 0, 2⟩, ⟨[1, 16], .half⟩, ⟨[16], .float⟩⟩,
    by decide +kernel, by decide, 0, by decide, ⟨.input, false, 0, 64⟩, by decide +kernel,
    by decide⟩

end InfiniOps.AscendC
