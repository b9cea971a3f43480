/-
InfiniOps.Softmax.CausalSoftmaxTheorems — when the CPU and the CUDA
`CausalSoftmax` agree.

A row is the unit of both proofs: `cpuRow` and `kernelBlock` write one row
each, `softmaxRow` of the keys that they address, and nothing else.
`foldl_rows` extends that to all rows in any order. The CPU addresses the
elements by their strides. The kernel takes the elements of a row to be
adjacent, which `Agree` then also implies: a covered `out` is a sum of the
rows' starts and their columns, from which the starts cancel, and for the
input a key that only one side reads tells the two apart.
-/
import InfiniOps.Lib.Sumset
import InfiniOps.Softmax.CausalSoftmax
import Mathlib.Algebra.Order.BigOperators.Group.Finset
import Mathlib.Algebra.Order.Field.Basic
import Mathlib.Tactic.Linarith
import Mathlib.Tactic.Positivity

namespace InfiniOps.Softmax

open RowMajor StridedLoop StridedStore Sumset

/-! ## Maxima -/

/-- `m` is the greatest of the first `n` values. -/
def IsMax (x : Nat → ℚ) (n : Nat) (m : ℚ) : Prop := (∀ i < n, x i ≤ m) ∧ ∃ i < n, x i = m

theorem IsMax.unique {x : Nat → ℚ} {n : Nat} {m m' : ℚ} (h : IsMax x n m) (h' : IsMax x n m') :
    m = m' := by
  obtain ⟨i, hi, rfl⟩ := h.2
  obtain ⟨j, hj, rfl⟩ := h'.2
  exact le_antisymm (h'.1 i hi) (h.1 j hj)

theorem isMax_sup' (x : Nat → ℚ) (n : Nat) :
    IsMax x (n + 1) ((Finset.range (n + 1)).sup' Finset.nonempty_range_add_one x) := by
  refine ⟨fun i hi => Finset.le_sup' x (Finset.mem_range.mpr hi), ?_⟩
  obtain ⟨i, hi, heq⟩ := Finset.exists_mem_eq_sup' Finset.nonempty_range_add_one x
  exact ⟨i, Finset.mem_range.mp hi, heq.symm⟩

theorem foldl_ite_eq {α : Type} [LinearOrder α] (x : Nat → α) (is : List Nat) (init : α) :
    is.foldl (fun m i => if x i > m then x i else m) init = (is.map x).foldl max init := by
  rw [List.foldl_map]
  congr 1
  funext m i
  split
  · rename_i hgt
    exact (max_eq_right_of_lt hgt).symm
  · rename_i hle
    exact (max_eq_left (not_lt.mp hle)).symm

theorem blockMaxOp_eq : blockMaxOp = max := by
  funext a b
  rw [blockMaxOp]
  split
  · rename_i hgt
    exact (max_eq_left_of_lt hgt).symm
  · rename_i hle
    exact (max_eq_right (not_lt.mp hle)).symm

/-- The maximum that the CPU finds. -/
theorem isMax_foldl_range' (x : Nat → ℚ) {n : Nat} (hn : 0 < n) :
    IsMax x n ((List.range' 1 (n - 1)).foldl (fun m i => if x i > m then x i else m) (x 0)) := by
  rw [foldl_ite_eq]
  obtain ⟨hmem, hle⟩ := foldl_max ((List.range' 1 (n - 1)).map x) (x 0)
  refine ⟨fun i hi => hle _ ?_, ?_⟩
  · rcases Nat.eq_zero_or_pos i with rfl | hpos
    · exact List.mem_cons_self
    · refine List.mem_cons_of_mem _ (List.mem_map_of_mem (List.mem_range'_1.mpr ⟨hpos, ?_⟩))
      omega
  · rcases List.mem_cons.mp hmem with heq | hrest
    · exact ⟨0, hn, heq.symm⟩
    · obtain ⟨i, hi, heq⟩ := List.mem_map.mp hrest
      have hbounds := List.mem_range'_1.mp hi
      exact ⟨i, by omega, heq⟩

/-- The greatest of what the threads of a block hold, which is the greatest
of the first value and those of their loop. -/
theorem isMax_of_threads {blockSize : Nat} (hblock : 0 < blockSize) (x : Nat → ℚ) {n : Nat}
    (hn : 0 < n) {m : ℚ}
    (hmem : m ∈ (List.range blockSize).map fun thread =>
      ((stridedLoop thread blockSize n).map x).foldl max (x 0))
    (hle : ∀ v ∈ (List.range blockSize).map fun thread =>
      ((stridedLoop thread blockSize n).map x).foldl max (x 0), v ≤ m) : IsMax x n m := by
  refine ⟨fun i hi => ?_, ?_⟩
  · have ht := Nat.mod_lt i hblock
    have hloop : x i ∈ (stridedLoop (i % blockSize) blockSize n).map x :=
      List.mem_map_of_mem ((mem_stridedLoop hblock ht).mpr ⟨hi, rfl⟩)
    exact le_trans ((foldl_max _ (x 0)).2 _ (List.mem_cons_of_mem _ hloop))
      (hle _ (List.mem_map_of_mem (List.mem_range.mpr ht)))
  · obtain ⟨thread, ht, rfl⟩ := List.mem_map.mp hmem
    rcases List.mem_cons.mp (foldl_max ((stridedLoop thread blockSize n).map x) (x 0)).1
      with heq | hrest
    · exact ⟨0, hn, heq.symm⟩
    · obtain ⟨i, hi, heq⟩ := List.mem_map.mp hrest
      exact ⟨i, ((mem_stridedLoop hblock (List.mem_range.mp ht)).mp hi).1, heq⟩

/-- The maximum that the threads of a block find. -/
theorem isMax_blockMax {blockSize : Nat} (hblock : 0 < blockSize) (x : Nat → ℚ) {n : Nat}
    (hn : 0 < n) :
    IsMax x n (blockMax blockSize x n) := by
  let threadMax (thread : Nat) : ℚ := ((stridedLoop thread blockSize n).map x).foldl max (x 0)
  have hreduce : blockMax blockSize x n ∈ (List.range blockSize).map threadMax ∧
      ∀ v ∈ (List.range blockSize).map threadMax, v ≤ blockMax blockSize x n := by
    have hmax : blockMax blockSize x n = blockReduce max
        ((List.range blockSize).map threadMax) := by
      simp only [blockMax, blockMaxOp_eq, foldl_ite_eq, if_pos hn, threadMax, gt_iff_lt]
    rw [hmax]
    cases hvalues : (List.range blockSize).map threadMax with
    | nil =>
      have hlen := congrArg List.length hvalues
      rw [List.length_map, List.length_range] at hlen
      exact absurd hlen (Nat.ne_of_gt hblock)
    | cons value values => exact foldl_max values value
  exact isMax_of_threads hblock x hn hreduce.1 hreduce.2

theorem blockSum_eq {blockSize : Nat} (hblock : 0 < blockSize) (x : Nat → ℚ) (n : Nat) :
    blockSum blockSize x n = ((List.range n).map x).sum := by
  have hthread : ∀ thread, (stridedLoop thread blockSize n).foldl (fun s i => s + x i) 0
      = ((stridedLoop thread blockSize n).map x).sum := fun thread => by
    rw [List.sum_eq_foldl, List.foldl_map]
  rw [← sum_stridedLoop hblock n x]
  simp only [blockSum, hthread]

/-! ## Rows -/

/-- Causal softmax of a row of keys, of which `valid` are not masked and
`m` is the greatest. -/
def softmaxRow (exp : ℚ → ℚ) (x : Nat → ℚ) (m : ℚ) (valid j : Nat) : ℚ :=
  if j < valid then exp (x j - m) / ((List.range valid).map fun k => exp (x k - m)).sum else 0

theorem foldl_store_sum {K : Type} [AddMonoid K] (cell : Nat → Int) (e : Nat → K) (js : List Nat)
    (out : Int → K) (sum : K) :
    js.foldl (fun (p : (Int → K) × K) j => (Function.update p.1 (cell j) (e j), p.2 + e j))
        (out, sum)
      = (storeAll cell (fun j _ => e j) out js, sum + (js.map e).sum) := by
  induction js generalizing out sum with
  | nil => simp [storeAll]
  | cons j js ih => simp [ih, storeAll_cons, add_assoc]

/-- Masked columns count nothing. -/
theorem sum_masked (e : Nat → ℚ) {valid total : Nat} (h : valid ≤ total) :
    ((List.range total).map fun j => if j < valid then e j else 0).sum
      = ((List.range valid).map e).sum := by
  obtain ⟨rest, rfl⟩ := Nat.exists_eq_add_of_le h
  have hvalid : (List.range valid).map (fun j => if j < valid then e j else 0)
      = (List.range valid).map e :=
    List.map_congr_left fun j hj => if_pos (List.mem_range.mp hj)
  have hmasked : (List.range rest).map ((fun j => if j < valid then e j else 0) ∘ (valid + ·))
      = (List.range rest).map fun _ => 0 :=
    List.map_congr_left fun j _ => if_neg (Nat.not_lt.mpr (Nat.le_add_right _ _))
  rw [List.range_add, List.map_append, List.sum_append, List.map_map, hvalid, hmasked]
  simp

namespace CausalSoftmax

variable (g : CausalSoftmax) (exp : ℚ → ℚ) (A out : Data)

section Cpu

/-- Where the CPU writes column `j` of row `v`. -/
def outCell (v : Nat × Nat) (j : Nat) : Int :=
  g.rowOffset g.outStrides v.1 v.2 + j * g.strideJ g.outStrides

/-- The keys that the CPU reads. -/
def inputKey (v : Nat × Nat) (j : Nat) : ℚ :=
  A (g.rowOffset g.inputStrides v.1 v.2 + j * g.strideJ g.inputStrides)

variable {g} {v : Nat × Nat}

/-- The three loops over a row that write: zeros, exponentials, quotients. -/
theorem cpuRow_eq {m : ℚ} (hm : IsMax (g.inputKey A v) (g.validLen v.2) m) :
    g.cpuRow exp A out v =
      storeAll (g.outCell v)
        (fun _ y => y / ((List.range (g.validLen v.2)).map fun k => exp (g.inputKey A v k - m)).sum)
        (storeAll (g.outCell v) (fun j _ => exp (g.inputKey A v j - m))
          (storeAll (g.outCell v) (fun _ _ => 0) out
            (List.range' (g.validLen v.2) (g.totalSeqLen - g.validLen v.2)))
          (List.range (g.validLen v.2)))
        (List.range (g.validLen v.2)) := by
  have hmax := (isMax_foldl_range' (g.inputKey A v) (Nat.succ_pos _)).unique hm
  have hloop := foldl_store_sum (g.outCell v) (fun j => exp (g.inputKey A v j - m))
    (List.range (g.validLen v.2)) (storeAll (g.outCell v) (fun _ _ => 0) out
      (List.range' (g.validLen v.2) (g.totalSeqLen - g.validLen v.2))) 0
  rw [zero_add, ← hmax] at hloop
  rw [← hmax]
  exact congrArg (fun p : Data × ℚ => storeAll (g.outCell v) (fun _ y => y / p.2) p.1
    (List.range (g.validLen v.2))) hloop

variable (hvalid : g.validLen v.2 ≤ g.totalSeqLen)

include hvalid in
theorem cpuRow_cell {m : ℚ} (hm : IsMax (g.inputKey A v) (g.validLen v.2) m)
    (hinj : ∀ j < g.totalSeqLen, ∀ j' < g.totalSeqLen, g.outCell v j = g.outCell v j' → j = j')
    {j : Nat} (hj : j < g.totalSeqLen) :
    g.cpuRow exp A out v (g.outCell v j) = softmaxRow exp (g.inputKey A v) m
        (g.validLen v.2) j := by
  have hnodup : ((List.range (g.validLen v.2)).map (g.outCell v)).Nodup := by
    refine List.nodup_range.map_on fun k hk k' hk' heq => ?_
    exact hinj k (Nat.lt_of_lt_of_le (List.mem_range.mp hk) hvalid) k'
      (Nat.lt_of_lt_of_le (List.mem_range.mp hk') hvalid) heq
  rw [cpuRow_eq exp A out hm, softmaxRow]
  by_cases hlt : j < g.validLen v.2
  · have hmem := List.mem_range.mpr hlt
    rw [storeAll_at_of_nodup _ _ _ hnodup hmem, storeAll_at_of_nodup _ _ _ hnodup hmem, if_pos hlt]
  · have hmasked : g.outCell v j ∉ (List.range (g.validLen v.2)).map (g.outCell v) := by
      intro hmem
      obtain ⟨k, hk, heq⟩ := List.mem_map.mp hmem
      have hk := List.mem_range.mp hk
      exact hlt (hinj k (Nat.lt_of_lt_of_le hk hvalid) j hj heq ▸ hk)
    have hnodup' : ((List.range' (g.validLen v.2) (g.totalSeqLen - g.validLen v.2)).map
        (g.outCell v)).Nodup := by
      refine List.Nodup.map_on (fun k hk k' hk' heq => ?_) List.nodup_range'
      have hk := List.mem_range'_1.mp hk
      have hk' := List.mem_range'_1.mp hk'
      exact hinj k (by omega) k' (by omega) heq
    have hmem : j ∈ List.range' (g.validLen v.2) (g.totalSeqLen - g.validLen v.2) :=
      List.mem_range'_1.mpr (by omega)
    rw [storeAll_of_notMem _ _ _ hmasked, storeAll_of_notMem _ _ _ hmasked,
      storeAll_at_of_nodup _ _ _ hnodup' hmem, if_neg hlt]

include hvalid in
theorem cpuRow_frame {o : Int} (ho : ∀ j < g.totalSeqLen, o ≠ g.outCell v j) :
    g.cpuRow exp A out v o = out o := by
  have hnotMem : ∀ js : List Nat, (∀ j ∈ js, j < g.totalSeqLen) → o ∉ js.map (g.outCell v) := by
    intro js hjs hmem
    obtain ⟨j, hj, heq⟩ := List.mem_map.mp hmem
    exact ho j (hjs j hj) heq.symm
  have hrange : ∀ j ∈ List.range (g.validLen v.2), j < g.totalSeqLen := fun j hj =>
    Nat.lt_of_lt_of_le (List.mem_range.mp hj) hvalid
  have hmasked : ∀ j ∈ List.range' (g.validLen v.2) (g.totalSeqLen - g.validLen v.2),
      j < g.totalSeqLen := by
    intro j hj
    have hj := List.mem_range'_1.mp hj
    omega
  rw [cpuRow_eq exp A out (isMax_sup' (g.inputKey A v) (g.totalSeqLen - g.seqLen + v.2)),
    storeAll_of_notMem _ _ _ (hnotMem _ hrange), storeAll_of_notMem _ _ _ (hnotMem _ hrange),
    storeAll_of_notMem _ _ _ (hnotMem _ hmasked)]

end Cpu

section Kernel

/-- Where the kernel writes column `col` of the row of a block. -/
def blockCell (block : Nat × Nat) (col : Nat) : Int :=
  g.rowOffset g.outStrides block.2 block.1 + col

/-- The keys that the kernel reads. -/
def blockKey (block : Nat × Nat) (col : Nat) : ℚ :=
  A (g.rowOffset g.inputStrides block.2 block.1 + col)

variable {g} {blockSize : Nat} (hblock : 0 < blockSize) (s : Schedule) {block : Nat × Nat}

/-- The first loop of the kernel over the columns. -/
def exponentials (blockSize : Nat) (m : ℚ) (block : Nat × Nat) : Data :=
  storeAll (g.blockCell block)
    (fun col _ => if col < g.validLen block.1 then exp (g.blockKey A block col - m) else 0) out
    (s.columns block false blockSize g.totalSeqLen)

theorem blockCell_inj {col col' : Nat} (h : g.blockCell block col = g.blockCell block col') :
    col = col' :=
  Int.ofNat.inj (Int.add_left_cancel h)

theorem nodup_columns (hblock : 0 < blockSize) (second : Bool) :
    ((s.columns block second blockSize g.totalSeqLen).map (g.blockCell block)).Nodup := by
  have hperm := (s.columns_perm block second blockSize g.totalSeqLen).trans
    (perm_stridedLoop hblock g.totalSeqLen)
  exact (hperm.nodup_iff.mpr List.nodup_range).map_on fun _ _ _ _ heq => blockCell_inj heq

theorem mem_columns (hblock : 0 < blockSize) (second : Bool) {col : Nat} :
    col ∈ s.columns block second blockSize g.totalSeqLen ↔ col < g.totalSeqLen := by
  rw [((s.columns_perm block second blockSize g.totalSeqLen).trans
    (perm_stridedLoop hblock g.totalSeqLen)).mem_iff, List.mem_range]

variable (hvalid : g.validLen block.1 ≤ g.totalSeqLen)

include hblock in
theorem exponentials_cell (m : ℚ) {col : Nat} (hcol : col < g.totalSeqLen) :
    g.exponentials exp A out s blockSize m block (g.blockCell block col)
      = if col < g.validLen block.1 then exp (g.blockKey A block col - m) else 0 :=
  storeAll_at_of_nodup _ _ out (nodup_columns s hblock false)
      ((mem_columns s hblock false).mpr hcol)

include hblock hvalid in
/-- The two loops over the columns. -/
theorem kernelBlock_eq {m : ℚ} (hm : IsMax (g.blockKey A block) (g.validLen block.1) m) :
    g.kernelBlock blockSize s exp A out block =
      storeAll (g.blockCell block)
        (fun _ y => y / ((List.range (g.validLen block.1)).map fun k =>
          exp (g.blockKey A block k - m)).sum)
        (g.exponentials exp A out s blockSize m block)
        (s.columns block true blockSize g.totalSeqLen) := by
  have hmax := (isMax_blockMax hblock (g.blockKey A block) (Nat.succ_pos _)).unique hm
  have hsum : blockSum blockSize
      (fun i => g.exponentials exp A out s blockSize m block (g.blockCell block i)) g.totalSeqLen
        = ((List.range (g.validLen block.1)).map fun k => exp (g.blockKey A block k - m)).sum := by
    rw [blockSum_eq hblock, ← sum_masked _ hvalid]
    congr 1
    exact List.map_congr_left fun col hcol =>
      exponentials_cell exp A out hblock s m (List.mem_range.mp hcol)
  rw [← hsum, ← hmax]
  rfl

include hblock hvalid in
theorem kernelBlock_cell {m : ℚ} (hm : IsMax (g.blockKey A block) (g.validLen block.1) m)
    {col : Nat}
    (hcol : col < g.totalSeqLen) :
    g.kernelBlock blockSize s exp A out block (g.blockCell block col)
      = softmaxRow exp (g.blockKey A block) m (g.validLen block.1) col := by
  rw [kernelBlock_eq exp A out hblock s hvalid hm,
    storeAll_at_of_nodup _ _ _ (nodup_columns s hblock true) ((mem_columns s hblock true).mpr hcol),
    exponentials_cell exp A out hblock s m hcol, softmaxRow]
  split
  · rfl
  · exact zero_div _

include hblock hvalid in
theorem kernelBlock_frame {o : Int} (ho : ∀ col < g.totalSeqLen, o ≠ g.blockCell block col) :
    g.kernelBlock blockSize s exp A out block o = out o := by
  have hnotMem : ∀ second, o ∉ (s.columns block second blockSize g.totalSeqLen).map
      (g.blockCell block) := by
    intro second hmem
    obtain ⟨col, hcol, heq⟩ := List.mem_map.mp hmem
    exact ho col ((mem_columns s hblock second).mp hcol) heq.symm
  rw [kernelBlock_eq exp A out hblock s hvalid
      (isMax_sup' (g.blockKey A block) (g.totalSeqLen - g.seqLen + block.1)),
    storeAll_of_notMem _ _ _ (hnotMem true), exponentials, storeAll_of_notMem _ _ _ (hnotMem false)]

end Kernel

end CausalSoftmax

/-! ## A call -/

namespace SoftmaxProblem

variable (x : SoftmaxProblem)

/-- The members of the call. -/
def members : CausalSoftmax := CausalSoftmax.ofTensors x.input.toTensor x.out.toTensor

/-- What the constructor checks. -/
structure Checked : Prop where
  new_eq : CausalSoftmax.new x.input.toTensor x.out.toTensor = .ok x.members
  shape_eq : x.input.shape = x.out.shape
  dtype_eq : x.input.dtype = x.out.dtype
  ndim : x.out.ndim = 2 ∨ x.out.ndim = 3
  seq_le : x.seq ≤ x.total

theorem checked : x.Checked := by
  obtain ⟨members, h⟩ := x.accepted
  have hnew := h
  simp only [CausalSoftmax.new, bind_assertion_eq_ok] at h
  obtain ⟨hshape, hdtype, hndim, hseq, hmembers⟩ := h
  rw [← Except.ok.inj hmembers] at hnew
  exact ⟨hnew, hshape, hdtype, hndim, hseq⟩

/-- A matrix, or a batch of matrices. -/
theorem shape_cases :
    (x.out.ndim = 2 ∧ x.batch = 1 ∧ x.out.shape = [x.seq, x.total]) ∨
      (x.out.ndim = 3 ∧ x.out.shape = [x.batch, x.seq, x.total]) := by
  rcases x.checked.ndim with h2 | h3
  · obtain ⟨d, e, hshape⟩ := List.length_eq_two.mp h2
    exact Or.inl ⟨h2, if_pos h2, by simp [seq, total, Tensor.size, Tensor.effectiveIndex, hshape]⟩
  · have hne : ¬ x.out.ndim = 2 := by omega
    obtain ⟨d, e, f, hshape⟩ := List.length_eq_three.mp h3
    refine Or.inr ⟨h3, ?_⟩
    rw [batch, if_neg hne]
    simp [seq, total, Tensor.size, Tensor.effectiveIndex, hshape]

theorem prod_shape : x.out.shape.prod = x.batch * (x.seq * x.total) := by
  rcases x.shape_cases with ⟨-, hbatch, hshape⟩ | ⟨-, hshape⟩
  · simp [hshape, hbatch]
  · simp [hshape]

theorem elemOffset_eq {t : StoredTensor} (hshape : t.shape = x.out.shape) (bi i j : Nat) :
    elemOffset t.toTensor bi i j
      = x.members.rowOffset t.strides bi i + j * x.members.strideJ t.strides := by
  have hrank := t.rank_eq
  rw [hshape] at hrank
  rcases x.shape_cases with ⟨hndim, hbatch, hout⟩ | ⟨hndim, hout⟩
  · have ht : t.ndim = 2 := by rw [Tensor.ndim, hshape, hout]; rfl
    have hmembers : x.members.ndim = 2 := hndim
    rw [hout] at hrank
    obtain ⟨s, s', hstrides⟩ := List.length_eq_two.mp hrank
    simp [elemOffset, Tensor.offset, CausalSoftmax.rowOffset, CausalSoftmax.strideJ, ht, hmembers,
      hstrides]
  · have ht : t.ndim = 3 := by rw [Tensor.ndim, hshape, hout]; rfl
    have hmembers : x.members.ndim = 3 := hndim
    rw [hout] at hrank
    obtain ⟨s, s', s'', hstrides⟩ := List.length_eq_three.mp hrank
    simp [elemOffset, Tensor.offset, CausalSoftmax.rowOffset, CausalSoftmax.strideJ, ht, hmembers,
      hstrides, Int.add_assoc]

theorem elemOffset_out (bi i j : Nat) :
    elemOffset x.out.toTensor bi i j = x.members.outCell (bi, i) j :=
  x.elemOffset_eq rfl bi i j

theorem key_eq (A : Data) (bi i : Nat) : x.key A bi i = x.members.inputKey A (bi, i) := by
  funext j
  rw [key, x.elemOffset_eq x.checked.shape_eq]
  rfl

/-- Distinct positions are distinct cells. -/
theorem outCell_inj {bi i j bi' i' j' : Nat} (hbi : bi < x.batch) (hi : i < x.seq)
    (hj : j < x.total)
    (hbi' : bi' < x.batch) (hi' : i' < x.seq) (hj' : j' < x.total)
    (h : x.members.outCell (bi, i) j = x.members.outCell (bi', i') j') :
    bi = bi' ∧ i = i' ∧ j = j' := by
  rw [← x.elemOffset_out, ← x.elemOffset_out, elemOffset, elemOffset] at h
  rcases x.shape_cases with ⟨hndim, hbatch, hout⟩ | ⟨hndim, hout⟩
  · rw [if_pos hndim, if_pos hndim] at h
    have hidx := x.injective [i, j] [i', j'] (hout ▸ .cons hi (.cons hj .nil))
      (hout ▸ .cons hi' (.cons hj' .nil)) h
    simp only [List.cons.injEq, and_true] at hidx
    exact ⟨by omega, hidx⟩
  · have hne : ¬ x.out.ndim = 2 := by omega
    rw [if_neg hne, if_neg hne] at h
    have hidx := x.injective [bi, i, j] [bi', i', j'] (hout ▸ .cons hbi (.cons hi (.cons hj .nil)))
      (hout ▸ .cons hbi' (.cons hi' (.cons hj' .nil))) h
    simpa only [List.cons.injEq, and_true] using hidx

theorem validLen_eq (i : Nat) : x.members.validLen i = x.lastKey i + 1 := by
  rw [lastKey, Nat.add_comm i]
  rfl

theorem validLen_le {i : Nat} (hi : i < x.seq) : x.members.validLen i ≤ x.total := by
  have hle := x.checked.seq_le
  rw [validLen_eq, lastKey]
  omega

theorem specAt_eq (exp : ℚ → ℚ) (A : Data) (bi i j : Nat) :
    x.specAt exp A bi i j
      = softmaxRow exp (x.key A bi i) (x.maxKey A bi i) (x.members.validLen i) j := by
  rw [specAt, softmaxRow, validLen_eq]
  simp only [Nat.lt_succ_iff]
  rfl

theorem isMax_maxKey (A : Data) (bi i : Nat) :
    IsMax (x.key A bi i) (x.members.validLen i) (x.maxKey A bi i) := by
  rw [validLen_eq]
  exact isMax_sup' _ _

/-! ## CPU -/

theorem holds_cpuCompute (exp : ℚ → ℚ) (A C : Data) :
    x.Holds exp A (x.members.cpuCompute exp A C) := by
  intro bi i j hbi hi hj
  have hrows : ∀ v ∈ List.range x.batch ×ˢ List.range x.seq, v.1 < x.batch ∧ v.2 < x.seq := by
    rintro ⟨bi', i'⟩ hv
    simpa [List.mem_product] using hv
  have hv : (bi, i) ∈ List.range x.batch ×ˢ List.range x.seq :=
    List.mem_product.mpr ⟨List.mem_range.mpr hbi, List.mem_range.mpr hi⟩
  rw [elemOffset_out, specAt_eq]
  refine foldl_rows (x.members.cpuRow exp A) x.members.outCell
    (fun v => softmaxRow exp (x.key A v.1 v.2) (x.maxKey A v.1 v.2)
        (x.members.validLen v.2)) x.total
    ?_ ?_ ?_ C hv hj
  · rintro m ⟨bi', i'⟩ hv' j' hj'
    obtain ⟨hbi', hi'⟩ := hrows _ hv'
    have hmax := x.isMax_maxKey A bi' i'
    rw [key_eq] at hmax ⊢
    refine CausalSoftmax.cpuRow_cell exp A m (x.validLen_le hi') hmax ?_ hj'
    intro k hk k' hk' heq
    exact (x.outCell_inj hbi' hi' hk hbi' hi' hk' heq).2.2
  · rintro m ⟨bi', i'⟩ hv' o ho
    exact CausalSoftmax.cpuRow_frame exp A m (x.validLen_le (hrows _ hv').2) ho
  · rintro ⟨b, r⟩ hv' ⟨b', r'⟩ hw' k hk k' hk' heq
    obtain ⟨hb, hr⟩ := hrows _ hv'
    obtain ⟨hb', hr'⟩ := hrows _ hw'
    obtain ⟨rfl, rfl, -⟩ := x.outCell_inj hb hr hk hb' hr' hk' heq
    rfl

theorem cpuCompute_frame (exp : ℚ → ℚ) (A C : Data) {o : Int}
    (ho : ∀ bi i j, bi < x.batch → i < x.seq → j < x.total → o ≠ x.members.outCell (bi, i) j) :
    x.members.cpuCompute exp A C o = C o := by
  refine foldl_rows_frame (fun m v hv => ?_) C
  obtain ⟨bi, i⟩ := v
  obtain ⟨hbi, hi⟩ := List.mem_product.mp hv
  have hi := List.mem_range.mp hi
  exact CausalSoftmax.cpuRow_frame exp A m (x.validLen_le hi) fun j hj =>
    ho bi i j (List.mem_range.mp hbi) hi hj

theorem cpu_eq (exp : ℚ → ℚ) (A C : Data) (hdtype : x.out.dtype ∈ allFloatTypes) :
    cpuCausalSoftmax exp x.input.toTensor x.out.toTensor A C
      = .ok (x.members.cpuCompute exp A C) := by
  rw [cpuCausalSoftmax, x.checked.new_eq]
  exact congrArg Run.ending (dispatchFunc_of_mem _ _ _ _ hdtype rfl)

/-! ## CUDA -/

variable (d : CudaDevice)

theorem blockSize_mem : d.blockSize ∈ supportedCudaBlockSizes d.maxBlockSize := by
  have hmax := d.maxBlockSize_mem
  have hoptimal : getOptimalBlockSize d.maxThreads ∈ Cuda.allCudaBlockSizes := by
    unfold getOptimalBlockSize
    split_ifs <;> decide
  refine List.mem_filter.mpr ⟨?_, by simp [CudaDevice.blockSize]⟩
  rw [CudaDevice.blockSize]
  rcases Nat.le_total (getOptimalBlockSize d.maxThreads) d.maxBlockSize with h | h
  · rwa [Nat.min_eq_left h]
  · rwa [Nat.min_eq_right h]

theorem blockSize_pos : 0 < d.blockSize := by
  have hall : ∀ size ∈ Cuda.allCudaBlockSizes, 0 < size := by decide
  exact hall _ (List.mem_filter.mp (blockSize_mem d)).1

variable {x d}

/-- The two keys are dispatched as they are. -/
theorem dispatchKeys_eq {R : Type} (f : Functor R) (hf : ∀ items v, f.isInvocable items v)
    (context : String)
    (dtype : DataType) :
    (dtype ∈ cudaTypes → dispatchKeys f context d.dispatchLists [dtype.code, d.blockSize]
      = ⟨[[dtype.code, d.blockSize]], .ok (f.call [dtype.code, d.blockSize])⟩) ∧
    (dtype ∉ cudaTypes → ∃ message,
      dispatchKeys f context d.dispatchLists [dtype.code, d.blockSize] = .abort message) := by
  have hblock : (d.blockSize : Int) ∈ d.blockSizes.values := List.mem_map_of_mem (blockSize_mem d)
  have hcast : castKeys d.dispatchLists [dtype.code, d.blockSize] = [dtype.code, d.blockSize] := by
    simp only [castKeys, CudaDevice.dispatchLists, List.zipWith_cons_cons, List.zipWith_nil_left,
      cast_ofDataTypes, d.blockSizes.typed _ hblock]
  obtain ⟨hsupported, hnot⟩ :=
    dispatchFuncMulti_spec f context [dtype.code, d.blockSize] d.dispatchLists 0 [] rfl
  rw [List.drop_zero, hcast] at hsupported hnot
  refine ⟨fun hmem => hsupported ⟨⟨mem_ofDataTypes.mpr hmem, hf _ _⟩, ⟨hblock, hf _ _⟩, trivial⟩,
    fun hmem => hnot ?_⟩
  rintro ⟨⟨hcode, -⟩, -⟩
  exact hmem (mem_ofDataTypes.mp hcode)

theorem cuda_cases (s : Schedule) (exp : ℚ → ℚ) (A C : Data) :
    (x.out.dtype ∈ cudaTypes → cudaCausalSoftmax d s exp x.input.toTensor x.out.toTensor A C
      = .ok (d.launch x.members d.blockSize s exp A C)) ∧
    (x.out.dtype ∉ cudaTypes → ∃ message,
      cudaCausalSoftmax d s exp x.input.toTensor x.out.toTensor A C
        = .error (.aborted message)) := by
  obtain ⟨hsupported, hnot⟩ := dispatchKeys_eq (d := d)
    (Functor.total fun listTag => d.launch x.members (listTag.getD 1 0).toNat s exp A C)
    (fun _ _ => rfl) "CudaCausalSoftmax::operator()" x.out.dtype
  have hdtype : x.out.dtype = x.input.dtype := x.checked.dtype_eq.symm
  rw [cudaCausalSoftmax, x.checked.new_eq, assertion, if_pos hdtype]
  refine ⟨fun hmem => congrArg Run.ending (hsupported hmem), fun hmem => ?_⟩
  obtain ⟨message, habort⟩ := hnot hmem
  exact ⟨message, congrArg Run.ending habort⟩

/-! ## Rows of adjacent elements -/

theorem softmaxRow_congr {exp : ℚ → ℚ} {y z : Nat → ℚ} {m : ℚ} {valid : Nat}
    (h : ∀ k < valid, y k = z k) (j : Nat) :
    softmaxRow exp y m valid j = softmaxRow exp z m valid j := by
  have hsum : (List.range valid).map (fun k => exp (y k - m))
      = (List.range valid).map fun k => exp (z k - m) :=
    List.map_congr_left fun k hk => by rw [h k (List.mem_range.mp hk)]
  rw [softmaxRow, softmaxRow, hsum]
  split
  · rename_i hj
    rw [h j hj]
  · rfl

theorem isMax_congr {y z : Nat → ℚ} {m : ℚ} {n : Nat} (h : ∀ k < n, y k = z k) (hy : IsMax y n m) :
    IsMax z n m := by
  obtain ⟨hle, i, hi, heq⟩ := hy
  refine ⟨fun k hk => ?_, i, hi, ?_⟩
  · rw [← h k hk]
    exact hle k hk
  · rw [← h i hi]
    exact heq

/-- Columns are where the kernel takes them to be. -/
def Adjacent (x : SoftmaxProblem) (strides : List Int) : Prop :=
  ∀ j < x.total, (j : Int) = j * x.members.strideJ strides

theorem blockCell_eq (h : x.Adjacent x.out.strides) {bi i j : Nat} (hj : j < x.total) :
    x.members.blockCell (i, bi) j = x.members.outCell (bi, i) j :=
  congrArg _ (h j hj)

theorem blockKey_eq (h : x.Adjacent x.input.strides) (A : Data) {bi i j : Nat} (hj : j < x.total) :
    x.members.blockKey A (i, bi) j = x.key A bi i j := by
  rw [key_eq, CausalSoftmax.blockKey, h j hj]
  rfl

/-- A grid with a block for every row writes the softmax of the keys that
the kernel reads. -/
theorem blocks_cell (hout : x.Adjacent x.out.strides) (s : Schedule) (exp : ℚ → ℚ) (A C : Data)
    {bi i j : Nat} (hbi : bi < x.batch) (hi : i < x.seq) (hj : j < x.total) {m : ℚ}
    (hm : IsMax (x.members.blockKey A (i, bi)) (x.members.validLen i) m) :
    (s.blocks x.seq x.batch).foldl (x.members.kernelBlock d.blockSize s exp A) C
        (elemOffset x.out.toTensor bi i j)
      = softmaxRow exp (x.members.blockKey A (i, bi)) m (x.members.validLen i) j := by
  have hblocks : ∀ b, b ∈ s.blocks x.seq x.batch ↔ b.1 < x.seq ∧ b.2 < x.batch := fun (r, b) => by
    rw [(s.blocks_perm x.seq x.batch).mem_iff, List.mem_product, List.mem_range, List.mem_range]
  have hblock := blockSize_pos d
  have hmax : ∀ b : Nat × Nat, IsMax (x.members.blockKey A b) (x.members.validLen b.1)
      ((Finset.range (x.members.validLen b.1)).sup' Finset.nonempty_range_add_one
        (x.members.blockKey A b)) := fun b => isMax_sup' _ _
  rw [elemOffset_out, ← blockCell_eq hout hj, hm.unique (hmax (i, bi))]
  refine foldl_rows (x.members.kernelBlock d.blockSize s exp A) x.members.blockCell
    (fun b => softmaxRow exp (x.members.blockKey A b)
      ((Finset.range (x.members.validLen b.1)).sup' Finset.nonempty_range_add_one
        (x.members.blockKey A b)) (x.members.validLen b.1)) x.total
    ?_ ?_ ?_ C ((hblocks (i, bi)).mpr ⟨hi, hbi⟩) hj
  · intro mem b hb j' hj'
    exact CausalSoftmax.kernelBlock_cell exp A mem hblock s (x.validLen_le ((hblocks b).mp hb).1)
      (hmax b) hj'
  · intro mem b hb o ho
    exact CausalSoftmax.kernelBlock_frame exp A mem hblock s
        (x.validLen_le ((hblocks b).mp hb).1) ho
  · rintro ⟨r, b⟩ hb ⟨r', b'⟩ hb' k hk k' hk' heq
    obtain ⟨hr, hbatch⟩ := (hblocks _).mp hb
    obtain ⟨hr', hbatch'⟩ := (hblocks _).mp hb'
    rw [blockCell_eq hout hk, blockCell_eq hout hk'] at heq
    obtain ⟨rfl, rfl, -⟩ := x.outCell_inj hbatch hr hk hbatch' hr' hk' heq
    rfl

theorem holds_blocks (hin : x.Adjacent x.input.strides) (hout : x.Adjacent x.out.strides)
    (s : Schedule) (exp : ℚ → ℚ) (A C : Data) :
    x.Holds exp A ((s.blocks x.seq x.batch).foldl
        (x.members.kernelBlock d.blockSize s exp A) C) := by
  intro bi i j hbi hi hj
  have hkeys : ∀ k < x.members.validLen i, x.key A bi i k = x.members.blockKey A (i, bi) k :=
    fun k hk => (blockKey_eq hin A (Nat.lt_of_lt_of_le hk (x.validLen_le hi))).symm
  rw [blocks_cell hout s exp A C hbi hi hj (isMax_congr hkeys (x.isMax_maxKey A bi i)), specAt_eq,
    softmaxRow_congr hkeys]

theorem adjacent_iff (h : 0 < x.total) (strides : List Int) :
    x.Adjacent strides ↔ x.total = 1 ∨ x.members.strideJ strides = 1 := by
  constructor
  · intro hadj
    by_cases hone : x.total = 1
    · exact Or.inl hone
    · have hstride := hadj 1 (by omega)
      exact Or.inr (by omega)
  · rintro (hone | hstride) j hj
    · have hzero : j = 0 := by omega
      simp [hzero]
    · rw [hstride, Int.mul_one]

theorem stride_neg_one_eq {t : StoredTensor} (hshape : t.shape = x.out.shape) :
    t.stride (-1) = x.members.strideJ t.strides := by
  have hrank : t.strides.length = x.out.ndim := by rw [t.rank_eq, hshape, Tensor.ndim]
  have htwo : 2 ≤ t.strides.length := by
    have hndim := x.checked.ndim
    omega
  rw [Tensor.stride_neg_one _ htwo, hrank]
  rfl

theorem numel_eq_zero_iff : x.out.numel = 0 ↔ x.batch = 0 ∨ x.seq = 0 := by
  have hle := x.checked.seq_le
  rw [Tensor.numel_eq, prod_shape, Nat.mul_eq_zero, Nat.mul_eq_zero]
  omega

theorem Fits.holds_launch (h : x.Fits d) (s : Schedule) (exp : ℚ → ℚ) (A C : Data) :
    x.Holds exp A (d.launch x.members d.blockSize s exp A C) := by
  obtain ⟨-, hempty | ⟨hseq, hbatch, hstrides⟩⟩ := h
  · intro bi i j hbi hi _
    rcases numel_eq_zero_iff.mp hempty with hzero | hzero <;> omega
  · intro bi i j hbi hi hj
    have hgridX : toUInt32 x.members.seqLen = x.seq :=
      toUInt32_eq_self (Nat.lt_of_le_of_lt hseq d.maxGridX_lt)
    have hgridY : toUInt32 x.members.batchSize = x.batch :=
      toUInt32_eq_self (Nat.lt_of_le_of_lt hbatch d.maxGridY_lt)
    have hpos : 0 < x.seq ∧ x.seq ≤ d.maxGridX ∧ 0 < x.batch ∧ x.batch ≤ d.maxGridY :=
      ⟨Nat.zero_lt_of_lt hi, hseq, Nat.zero_lt_of_lt hbi, hbatch⟩
    have htotal := Nat.zero_lt_of_lt hj
    rw [stride_neg_one_eq x.checked.shape_eq, stride_neg_one_eq rfl] at hstrides
    have hin : x.Adjacent x.input.strides :=
      (adjacent_iff htotal _).mpr (hstrides.imp_right And.left)
    have hout : x.Adjacent x.out.strides :=
      (adjacent_iff htotal _).mpr (hstrides.imp_right And.right)
    rw [CudaDevice.launch, hgridX, hgridY, if_pos hpos]
    exact holds_blocks hin hout s exp A C bi i j hbi hi hj

theorem Fits.agree (h : x.Fits d) : x.Agree d := by
  intro exp A C s _
  have hfloat : ∀ dtype ∈ cudaTypes, dtype ∈ allFloatTypes := by decide
  exact ⟨⟨_, x.cpu_eq exp A C (hfloat _ h.1), x.holds_cpuCompute exp A C⟩,
    _, (cuda_cases s exp A C).1 h.1, h.holds_launch s exp A C⟩

/-! ## What agreement tells -/

theorem specAt_nonneg (exp : ℚ → ℚ) (hexp : ∀ y, 0 < exp y) (A : Data) (bi i j : Nat) :
    0 ≤ x.specAt exp A bi i j := by
  rw [specAt]
  split
  · exact div_nonneg (le_of_lt (hexp _)) (Finset.sum_nonneg fun k _ => le_of_lt (hexp _))
  · exact le_rfl

theorem Agree.dtype (h : x.Agree d) : x.out.dtype ∈ cudaTypes := by
  by_contra hnot
  obtain ⟨-, C', hcuda, -⟩ := h (fun _ => 1) (fun _ => 0) (fun _ => 0) .inOrder fun _ => one_pos
  obtain ⟨message, habort⟩ := (cuda_cases .inOrder (fun _ => 1) (fun _ => 0) (fun _ => 0)).2 hnot
  rw [habort] at hcuda
  cases hcuda

theorem Agree.holds_launch (h : x.Agree d) (exp : ℚ → ℚ) (hexp : ∀ y, 0 < exp y) (A C : Data) :
    x.Holds exp A (d.launch x.members d.blockSize .inOrder exp A C) := by
  obtain ⟨-, C', hcuda, hholds⟩ := h exp A C .inOrder hexp
  rw [(cuda_cases _ _ _ _).1 h.dtype] at hcuda
  rwa [Except.ok.inj hcuda]

/-- Where row `row.1` of batch `row.2` starts. -/
def rowStart (x : SoftmaxProblem) (row : Nat × Nat) : Int :=
  x.members.rowOffset x.out.strides row.2 row.1

/-- The cells of some rows, with their columns a stride apart. -/
def cells (x : SoftmaxProblem) (rows : List (Nat × Nat)) (stride : Int) : List Int :=
  sums (rows.map x.rowStart) ((List.range x.total).map fun (j : Nat) => j * stride)

theorem mem_cells {rows : List (Nat × Nat)} {stride o : Int} :
    o ∈ x.cells rows stride ↔ ∃ row ∈ rows, ∃ j < x.total, x.rowStart row + j * stride = o := by
  simp [cells, mem_sums]

theorem nodup_cells :
    (x.cells (List.range x.seq ×ˢ List.range x.batch) (x.members.strideJ x.out.strides)).Nodup := by
  rw [cells, sums_map]
  refine ((List.nodup_range.product List.nodup_range).product List.nodup_range).map_on ?_
  rintro ⟨⟨i, bi⟩, j⟩ hp ⟨⟨i', bi'⟩, j'⟩ hp' heq
  simp only [List.mem_product, List.mem_range] at hp hp'
  obtain ⟨rfl, rfl, rfl⟩ := x.outCell_inj hp.1.2 hp.1.1 hp.2 hp'.1.2 hp'.1.1 hp'.2 heq
  rfl

/-- The rows that the launch has blocks for. -/
def launchedRows (x : SoftmaxProblem) : List (Nat × Nat) :=
  List.range (toUInt32 x.seq) ×ˢ List.range (toUInt32 x.batch)

/-- A launch writes the cells of its rows, adjacent columns. -/
theorem launch_frame {exp : ℚ → ℚ} {A C : Data} {o : Int} (ho : o ∉ x.cells x.launchedRows 1) :
    d.launch x.members d.blockSize .inOrder exp A C o = C o := by
  rw [CudaDevice.launch]
  split
  · refine foldl_rows_frame (fun m row hrow => ?_) C
    have hrow' : row ∈ x.launchedRows := hrow
    have hseq : row.1 < x.seq := by
      obtain ⟨i, bi⟩ := row
      rw [launchedRows, List.mem_product, List.mem_range] at hrow'
      exact Nat.lt_of_lt_of_le hrow'.1 (toUInt32_le _)
    refine CausalSoftmax.kernelBlock_frame exp A m (blockSize_pos d) .inOrder
        (x.validLen_le hseq) ?_
    rintro j hj rfl
    refine ho (mem_cells.mpr ⟨row, hrow', j, hj, ?_⟩)
    rw [Int.mul_one]
    rfl
  · rfl

/-- A cell that keeps a value below 0 is none of `out`. -/
theorem Agree.launch_ne (h : x.Agree d) {bi i j : Nat} (hbi : bi < x.batch) (hi : i < x.seq)
    (hj : j < x.total) :
    d.launch x.members d.blockSize .inOrder (fun _ => 1) (fun _ => 0) (fun _ => -1)
      (elemOffset x.out.toTensor bi i j) ≠ -1 := by
  intro hkept
  have hvalue := h.holds_launch (fun _ => 1) (fun _ => one_pos) (fun _ => 0) (fun _ => -1) bi i j
    hbi hi hj
  have hnonneg := x.specAt_nonneg (fun _ => 1) (fun _ => one_pos) (fun _ => 0) bi i j
  rw [← hvalue, hkept] at hnonneg
  exact absurd hnonneg (by decide)

theorem Agree.covered (h : x.Agree d) :
    x.cells (List.range x.seq ×ˢ List.range x.batch) (x.members.strideJ x.out.strides)
      ⊆ x.cells x.launchedRows 1 := by
  intro o ho
  obtain ⟨⟨i, bi⟩, hrow, j, hj, rfl⟩ := mem_cells.mp ho
  rw [List.mem_product, List.mem_range, List.mem_range] at hrow
  by_contra hnotMem
  have hcell : elemOffset x.out.toTensor bi i j
      = x.rowStart (i, bi) + j * x.members.strideJ x.out.strides := x.elemOffset_out bi i j
  refine h.launch_ne hrow.2 hrow.1 hj ?_
  rw [hcell, launch_frame hnotMem]

/-- The launch happens. -/
theorem Agree.launched (h : x.Agree d) (hbatch : 0 < x.batch) (hseq : 0 < x.seq) :
    toUInt32 x.seq ≤ d.maxGridX ∧ toUInt32 x.batch ≤ d.maxGridY := by
  by_contra hnot
  have htotal := Nat.lt_of_lt_of_le hseq x.checked.seq_le
  refine h.launch_ne hbatch hseq htotal ?_
  rw [CudaDevice.launch, if_neg fun hgrid => hnot ⟨hgrid.2.1, hgrid.2.2.2⟩]

/-- There are as many blocks as rows, so none is lost in a conversion. -/
theorem Agree.grid (h : x.Agree d) (hbatch : 0 < x.batch) (hseq : 0 < x.seq) :
    toUInt32 x.seq = x.seq ∧ toUInt32 x.batch = x.batch := by
  have htotal := Nat.lt_of_lt_of_le hseq x.checked.seq_le
  have hlen := (nodup_cells.subperm h.covered).length_le
  simp only [cells, length_sums, List.length_map, launchedRows, List.length_product,
    List.length_range] at hlen
  have hrows := Nat.le_of_mul_le_mul_right hlen htotal
  have hx := toUInt32_le x.seq
  have hy := toUInt32_le x.batch
  refine ⟨le_antisymm hx ?_, le_antisymm hy ?_⟩
  · exact Nat.le_of_mul_le_mul_right (le_trans hrows (Nat.mul_le_mul_left _ hy)) hbatch
  · exact Nat.le_of_mul_le_mul_left (le_trans hrows (Nat.mul_le_mul_right _ hx)) hseq

/-- The starts of the rows cancel, and the columns are the numbers below
`total` in some order. -/
theorem Agree.adjacent_out (h : x.Agree d) (hbatch : 0 < x.batch) (hseq : 0 < x.seq) :
    x.Adjacent x.out.strides := by
  have htotal := Nat.lt_of_lt_of_le hseq x.checked.seq_le
  obtain ⟨hx, hy⟩ := h.grid hbatch hseq
  have hcovered := h.covered
  rw [launchedRows, hx, hy] at hcovered
  have hperm := (nodup_cells.subperm hcovered).perm_of_length_le (by simp [cells, length_sums])
  have hne : (List.range x.seq ×ˢ List.range x.batch).map x.rowStart ≠ [] := by
    refine List.ne_nil_of_mem (List.mem_map_of_mem (a := (0, 0)) ?_)
    rw [List.mem_product, List.mem_range, List.mem_range]
    exact ⟨hseq, hbatch⟩
  have hcolumns := perm_of_perm_sums hne (.refl _) hperm
  rw [adjacent_iff htotal]
  by_cases hone : x.total = 1
  · exact Or.inl hone
  · have hmem : (1 : Int) ∈ (List.range x.total).map fun (j : Nat) => (j : Int) * 1 :=
      List.mem_map.mpr ⟨1, List.mem_range.mpr (by omega), rfl⟩
    obtain ⟨j, -, heq⟩ := List.mem_map.mp (hcolumns.mem_iff.mpr hmem)
    exact Or.inr (eq_one_of_mul_eq_one heq)

/-- The launch has a block for every row. -/
theorem Agree.launch_eq (h : x.Agree d) (hbatch : 0 < x.batch) (hseq : 0 < x.seq) (exp : ℚ → ℚ)
    (A C : Data) :
    d.launch x.members d.blockSize .inOrder exp A C
      = (List.range x.seq ×ˢ List.range x.batch).foldl
          (x.members.kernelBlock d.blockSize .inOrder exp A) C := by
  obtain ⟨hx, hy⟩ := h.grid hbatch hseq
  obtain ⟨hmaxX, hmaxY⟩ := h.launched hbatch hseq
  have hmembers : x.members.seqLen = x.seq ∧ x.members.batchSize = x.batch := ⟨rfl, rfl⟩
  rw [CudaDevice.launch, hmembers.1, hmembers.2,
    if_pos ⟨hx.symm ▸ hseq, hmaxX, hy.symm ▸ hbatch, hmaxY⟩, hx, hy]
  rfl

/-- The values of a row tell the exponentials apart. -/
theorem exp_eq_of_softmaxRow_eq {exp : ℚ → ℚ} (hexp : ∀ y, 0 < exp y) {f : Nat → ℚ} {m : ℚ}
    {valid j j' : Nat} (hj : j < valid) (hj' : j' < valid)
    (h : softmaxRow exp f m valid j = softmaxRow exp f m valid j') :
    exp (f j - m) = exp (f j' - m) := by
  have hsum : ((List.range valid).map fun k => exp (f k - m)).sum ≠ 0 := by
    refine ne_of_gt (List.sum_pos _ (fun y hy => ?_)
        (by simp [Nat.ne_of_gt (Nat.zero_lt_of_lt hj)]))
    obtain ⟨k, -, rfl⟩ := List.mem_map.mp hy
    exact hexp _
  rw [softmaxRow, softmaxRow, if_pos hj, if_pos hj'] at h
  exact (div_left_inj' hsum).mp h

/-- Zero but for the element after `start`. -/
def secondElement (start : Int) : Data := fun o => if o = start + (1 : Nat) then 1 else 0

theorem secondElement_natCast (start : Int) (j : Nat) :
    secondElement start (start + j) = if j = 1 then 1 else 0 := by
  by_cases hj : j = 1
  · rw [if_pos hj, hj]
    exact if_pos rfl
  · rw [if_neg hj]
    exact if_neg fun heq => hj (Int.ofNat.inj (Int.add_left_cancel heq))

theorem secondElement_mul {stride : Int} (h : stride ≠ 1) (start : Int) (j : Nat) :
    secondElement start (start + j * stride) = 0 :=
  if_neg fun heq => h (eq_one_of_mul_eq_one (Int.add_left_cancel heq))

/-- The one key that differs is at the second column of the kernel. If the
strides do not lead there, all keys of the row are equal. -/
theorem Agree.adjacent_input (h : x.Agree d) (hbatch : 0 < x.batch) (hseq : 0 < x.seq) :
    x.Adjacent x.input.strides := by
  have htotal := Nat.lt_of_lt_of_le hseq x.checked.seq_le
  rw [adjacent_iff htotal]
  by_contra hnot
  rw [not_or] at hnot
  have hone : 1 < x.total := by omega
  -- The last row masks nothing.
  have hi : x.seq - 1 < x.seq := by omega
  have hvalid : x.members.validLen (x.seq - 1) = x.total := by
    have hle := x.checked.seq_le
    rw [validLen_eq, lastKey]
    omega
  let exp : ℚ → ℚ := fun y => if y = 0 then 1 else 2
  have hexp : ∀ y, 0 < exp y := by
    intro y
    simp only [exp]
    split <;> norm_num
  let A := secondElement (x.members.rowOffset x.input.strides 0 (x.seq - 1))
  have hkey : ∀ j, x.key A 0 (x.seq - 1) j = 0 := by
    intro j
    rw [key_eq]
    exact secondElement_mul hnot.2 _ j
  have hblockKey : ∀ j, x.members.blockKey A (x.seq - 1, 0) j = if j = 1 then 1 else 0 :=
    secondElement_natCast _
  have hmax : IsMax (x.members.blockKey A (x.seq - 1, 0)) x.total 1 := by
    refine ⟨fun j _ => ?_, 1, hone, (hblockKey 1).trans (if_pos rfl)⟩
    rw [hblockKey]
    split <;> norm_num
  have hlaunch : ∀ j < x.total, x.specAt exp A 0 (x.seq - 1) j
      = softmaxRow exp (x.members.blockKey A (x.seq - 1, 0)) 1 x.total j := by
    intro j hj
    rw [← h.holds_launch exp hexp A (fun _ => 0) 0 (x.seq - 1) j hbatch hi hj,
      h.launch_eq hbatch hseq, ← hvalid]
    exact blocks_cell (h.adjacent_out hbatch hseq) .inOrder exp A _ hbatch hi hj
        (hvalid.symm ▸ hmax)
  have hequal : x.specAt exp A 0 (x.seq - 1) 0 = x.specAt exp A 0 (x.seq - 1) 1 := by
    rw [specAt_eq, specAt_eq, softmaxRow, softmaxRow, hvalid, if_pos htotal, if_pos hone, hkey,
        hkey]
  rw [hlaunch 0 htotal, hlaunch 1 hone] at hequal
  have hexponentials := exp_eq_of_softmaxRow_eq hexp htotal hone hequal
  rw [hblockKey, hblockKey] at hexponentials
  norm_num [exp] at hexponentials

variable (x d) in
/-- CPU and CUDA agree on the causal softmax exactly under the condition
on the type, the grid and the strides along a row. -/
theorem agree_iff : x.Agree d ↔ x.Fits d := by
  refine ⟨fun h => ⟨h.dtype, ?_⟩, Fits.agree⟩
  by_cases hempty : x.out.numel = 0
  · exact Or.inl hempty
  · have hne := mt numel_eq_zero_iff.mpr hempty
    rw [not_or] at hne
    have hbatch := Nat.pos_of_ne_zero hne.1
    have hseq := Nat.pos_of_ne_zero hne.2
    have htotal := Nat.lt_of_lt_of_le hseq x.checked.seq_le
    obtain ⟨hx, hy⟩ := h.grid hbatch hseq
    obtain ⟨hmaxX, hmaxY⟩ := h.launched hbatch hseq
    rw [hx] at hmaxX
    rw [hy] at hmaxY
    refine Or.inr ⟨hmaxX, hmaxY, ?_⟩
    rw [stride_neg_one_eq x.checked.shape_eq, stride_neg_one_eq rfl]
    have hin := (adjacent_iff htotal _).mp (h.adjacent_input hbatch hseq)
    have hout := (adjacent_iff htotal _).mp (h.adjacent_out hbatch hseq)
    omega

/-- A device with the usual limits. -/
def device : CudaDevice where
  maxThreads := 1024
  maxThreads_ge := by decide
  maxBlockSize := 2048
  maxBlockSize_mem := by decide
  maxGridX := 2 ^ 31 - 1
  maxGridY := 65535
  maxGridX_lt := by decide
  maxGridY_lt := by decide

/-- Two tokens, contiguous. -/
def contiguous : SoftmaxProblem where
  input :=
    { data := 0, shape := [2, 2], strides := [2, 1], rank_eq := by decide
      addressable := forall_valid_iff.mpr (by decide) }
  out :=
    { data := 0, shape := [2, 2], strides := [2, 1], rank_eq := by decide
      addressable := forall_valid_iff.mpr (by decide) }
  accepted := ⟨_, rfl⟩
  injective := by decide

theorem agree_contiguous : contiguous.Agree device := (agree_iff _ _).mpr (by decide)

/-- The same with the transpose of a contiguous tensor as input. -/
def transposed : SoftmaxProblem where
  input :=
    { data := 0, shape := [2, 2], strides := [1, 2], rank_eq := by decide
      addressable := forall_valid_iff.mpr (by decide) }
  out :=
    { data := 0, shape := [2, 2], strides := [2, 1], rank_eq := by decide
      addressable := forall_valid_iff.mpr (by decide) }
  accepted := ⟨_, rfl⟩
  injective := by decide

theorem not_agree_transposed : ¬ transposed.Agree device := by
  intro h
  have hadjacent := h.adjacent_input (by decide) (by decide) 1 (by decide)
  exact absurd hadjacent (by decide)

end SoftmaxProblem

end InfiniOps.Softmax
