/-
InfiniOps.Cuda.CausalSoftmaxKernelTheorems — the threads of
`CausalSoftmaxKernel` do what the loops of the CPU do.

From the last loop to the first: what a block leaves, given what it finds
at a barrier. Its threads need nothing of one another's columns in
between, and where the rows of `out` are of adjacent elements no two
blocks share a cell (`causalSoftmaxGrid_ends`).
-/
import InfiniOps.Cuda.CausalSoftmaxKernel
import InfiniOps.Softmax.CausalSoftmaxTheorems

namespace InfiniOps.Cuda

open Grid Softmax StridedLoop StridedStore

/-! ## The maximum of a block -/

theorem reduces_blockMaxOp {xs : List ℚ} {r : ℚ} (h : Reduces blockMaxOp xs r) :
    r ∈ xs ∧ ∀ v ∈ xs, v ≤ r := by
  rw [blockMaxOp_eq] at h
  refine h.invariant (P := fun xs r => r ∈ xs ∧ ∀ v ∈ xs, v ≤ r) (fun x => by simp)
    (fun xs ys x y hx hy => ⟨?_, fun v hv => ?_⟩) (fun xs ys x hperm hx => ⟨?_, fun v hv => ?_⟩)
  · rcases max_choice x y with hmax | hmax
    · rw [hmax]
      exact List.mem_append_left ys hx.1
    · rw [hmax]
      exact List.mem_append_right xs hy.1
  · rcases List.mem_append.mp hv with hv | hv
    · exact le_max_of_le_left (hx.2 v hv)
    · exact le_max_of_le_right (hy.2 v hv)
  · exact hperm.mem_iff.mp hx.1
  · exact hx.2 v (hperm.mem_iff.mpr hv)

/-- What the first thread gets from the greatest keys of the threads. -/
theorem blockReduce_max {n : Nat} (hn : 0 < n) {count : Nat} (hcount : 0 < count) (key : Nat → ℚ)
    {r : ℚ}
    (h : Reduces blockMaxOp (List.ofFn fun t : Fin n =>
      ((stridedLoop t n count).map key).foldl max (key 0)) r) : IsMax key count r := by
  rw [ofFn_val n fun t => ((stridedLoop t n count).map key).foldl max (key 0)] at h
  obtain ⟨hmem, hle⟩ := reduces_blockMaxOp h
  exact isMax_of_threads hn key hcount hmem hle

/-! ## One block -/

section Block

variable {g : CausalSoftmax} (exp : ℚ → ℚ) {A : Data} {blockSize : Nat}

theorem outColumn_inj {b : Nat × Nat} {col col' : Nat}
    (h : outColumn g b col = outColumn g b col') : col = col' := by
  have hcell := SoftmaxCell.out.inj h
  omega

/-- What a block writes, and all that it needs. -/
def softmaxWrites (g : CausalSoftmax) (b : Nat × Nat) : Set SoftmaxCell :=
  {a | a = .maxVal b ∨ a = .sumVal b ∨ ∃ col < g.totalSeqLen, a = outColumn g b col}

def softmaxCells (g : CausalSoftmax) (b : Nat × Nat) : Set SoftmaxCell :=
  {a | (∃ o, a = .input o) ∨ a ∈ softmaxWrites g b}

/-- The keys that a block reads are there. -/
def KeysRead (g : CausalSoftmax) (A : Data) (b : Nat × Nat) (mem : Mem SoftmaxCell ℚ) : Prop :=
  ∀ col < g.validLen b.1, mem (inputColumn g b col) = some (g.blockKey A b col)

/-- The row of a block holds the values. -/
def RowHolds (g : CausalSoftmax) (b : Nat × Nat) (value : Nat → ℚ) (mem : Mem SoftmaxCell ℚ) :
    Prop :=
  ∀ col < g.totalSeqLen, mem (outColumn g b col) = some (value col)

variable (hpos : 0 < blockSize) (b : Nat × Nat)

include hpos in
/-- Behind the last barrier. -/
theorem ends_divideColumns : ∃ k, ∀ (mem : Mem SoftmaxCell ℚ) (value : Nat → ℚ) (sumVal : ℚ),
    RowHolds g b value mem → mem (.sumVal b) = some sumVal →
    Block.Ends collective (softmaxCells g b) (softmaxWrites g b)
      (RowHolds g b fun col => value col / sumVal) k
      (fun t : Fin blockSize => divideColumns g blockSize b t) mem := by
  refine ⟨_, fun mem value sumVal hrow hsum => ends_columns hpos
    (fun i _ j _ heq => outColumn_inj heq) (fun col => value col / sumVal) (fun _ => 3) (S := {.sumVal b})
    (fun i _ hmem => by cases hmem)
    (fun a ha => .inr (.inr (.inl ha)))
    (fun i hi => ⟨.inr (.inr (.inr ⟨i, hi, rfl⟩)), .inr (.inr ⟨i, hi, rfl⟩)⟩)
    (fun i hi mem₁ hagree R W hR hread hwrite rest q m mem' hrest => ?_) (fun _ _ _ _ => .stop _)
    (.stop (fun _ => rfl) fun mem₁ hagree col hcol => ?_)⟩
  · have hvalue : mem₁ (outColumn g b i) = some (value i) :=
      (hagree _ fun j _ hne heq => hne (outColumn_inj heq).symm).symm.trans (hrow i hi)
    have hsum₁ : mem₁ (.sumVal b) = some sumVal :=
      (hagree _ fun j _ _ heq => by cases heq).symm.trans hsum
    exact .read hread hvalue (.read (hR rfl) hsum₁
      (.write hwrite (Option.isSome_iff_exists.mpr ⟨_, hvalue⟩) hrest))
  · rw [← hagree _ (.inr (.inr (.inr ⟨col, hcol, rfl⟩)))]
    exact storeAll_column (fun i _ j _ heq => outColumn_inj heq) hcol

include hpos in
/-- A thread of `BlockSum` reads its columns. -/
theorem solo_sumColumns {mem : Mem SoftmaxCell ℚ} {value : Nat → ℚ} (hrow : RowHolds g b value mem)
    {t : Nat} (ht : t < blockSize) :
    Solo {a | ∃ col < g.totalSeqLen, a = outColumn g b col} ∅ mem (sumColumns g blockSize b t)
      (0 + (stridedLoop t blockSize g.totalSeqLen).length) mem
      (.meet (.blockReduce (· + ·)) ((stridedLoop t blockSize g.totalSeqLen).map value).sum
        fun blockSum => storeShared (.sumVal b) t blockSum (divideColumns g blockSize b t)) := by
  rw [List.sum_eq_foldl, List.foldl_map]
  refine .fold (x := value) (fun col hcol => ?_) (.meet _ _ _ _)
  have hlt := ((mem_stridedLoop hpos ht).mp hcol).1
  exact ⟨⟨col, hlt, rfl⟩, hrow col hlt⟩

include hpos in
/-- Behind the exponentials. -/
theorem ends_sumColumns : ∃ k, ∀ (mem : Mem SoftmaxCell ℚ) (value : Nat → ℚ),
    RowHolds g b value mem → (mem (.sumVal b)).isSome →
    Block.Ends collective (softmaxCells g b) (softmaxWrites g b)
      (RowHolds g b fun col => value col / ((List.range g.totalSeqLen).map value).sum) k
      (fun t : Fin blockSize => sumColumns g blockSize b t) mem := by
  obtain ⟨k, hdivide⟩ := ends_divideColumns (g := g) hpos b
  refine ⟨_, fun mem value hrow hsum => ends_reads hpos (fun a ha => .inr (.inr (.inr ha)))
    (fun t => solo_sumColumns hpos b hrow t.isLt)
    (ends_collective hpos fun r hr => ends_storeShared hpos (.inr (.inr (.inl rfl)))
      (.inr (.inl rfl)) hsum (fun t ht => ?_)
      (hdivide _ value _ (fun col hcol => ?_) (Function.update_self _ _ _)))⟩
  · exact blockReduce_sum hpos _ value (hr t ht)
  · rw [Function.update_of_ne fun heq => by cases heq]
    exact hrow col hcol

include hpos in
/-- Behind the maximum. -/
theorem ends_exponentiateColumns : ∃ k, ∀ (mem : Mem SoftmaxCell ℚ) (maxVal : ℚ),
    KeysRead g A b mem → mem (.maxVal b) = some maxVal →
    (mem (.sumVal b)).isSome → (∀ col < g.totalSeqLen, (mem (outColumn g b col)).isSome) →
    Block.Ends collective (softmaxCells g b) (softmaxWrites g b)
      (RowHolds g b fun col =>
        (if col < g.validLen b.1 then exp (g.blockKey A b col - maxVal) else 0)
          / ((List.range g.totalSeqLen).map fun col =>
              if col < g.validLen b.1 then exp (g.blockKey A b col - maxVal) else 0).sum) k
      (fun t : Fin blockSize => exponentiateColumns g exp blockSize b t) mem := by
  obtain ⟨k, hsumColumns⟩ := ends_sumColumns (g := g) hpos b
  have hinj : ∀ i < g.totalSeqLen, ∀ j < g.totalSeqLen, outColumn g b i = outColumn g b j → i = j :=
    fun i _ j _ heq => outColumn_inj heq
  refine ⟨_, fun mem maxVal hinput hmax hsum hout => ends_columns hpos hinj
    (fun col => if col < g.validLen b.1 then exp (g.blockKey A b col - maxVal) else 0)
    (fun col => if col < g.validLen b.1 then 3 else 1)
    (S := {a | (∃ o, a = .input o) ∨ a = .maxVal b}) (fun i _ hmem => ?_)
    (fun a ha => ha.imp id .inl)
    (fun i hi => ⟨.inr (.inr (.inr ⟨i, hi, rfl⟩)), .inr (.inr ⟨i, hi, rfl⟩)⟩)
    (fun i hi mem₁ hagree R W hR hread hwrite rest q m mem' hrest => ?_)
    (fun _ _ _ _ => .meet _ _ _ _)
    (ends_collective hpos fun _ _ => hsumColumns _ _ (fun col hcol => ?_) ?_)⟩
  · rcases hmem with ⟨o, heq⟩ | heq
    · cases heq
    · cases heq
  · have hexists : (mem₁ (outColumn g b i)).isSome :=
      (hagree _ fun j _ hne heq => hne (outColumn_inj heq).symm) ▸ hout i hi
    by_cases hvalid : i < g.validLen b.1
    · have hkey : mem₁ (inputColumn g b i) = some (g.blockKey A b i) :=
        (hagree _ fun j _ _ heq => by cases heq).symm.trans (hinput i hvalid)
      have hmax₁ : mem₁ (.maxVal b) = some maxVal :=
        (hagree _ fun j _ _ heq => by cases heq).symm.trans hmax
      rw [if_pos hvalid] at hrest
      rw [if_pos hvalid, if_pos hvalid]
      exact .read (hR (.inl ⟨_, rfl⟩)) hkey (.read (hR (.inr rfl)) hmax₁
        (.write hwrite hexists hrest))
    · rw [if_neg hvalid] at hrest
      rw [if_neg hvalid, if_neg hvalid]
      exact .write hwrite hexists hrest
  · exact storeAll_column hinj hcol
  · rw [storeAll_other fun i _ heq => by cases heq]
    exact hsum

/-- A thread of `BlockMax` reads the first key and its columns. -/
theorem solo_causalSoftmaxKernel {mem : Mem SoftmaxCell ℚ}
    (hinput : KeysRead g A b mem) {t : Nat} (ht : t < blockSize) :
    Solo {a | ∃ o, a = .input o} ∅ mem (causalSoftmaxKernel g exp blockSize b t)
      (0 + (stridedLoop t blockSize (g.validLen b.1)).length + 1) mem
      (.meet (.blockReduce blockMaxOp)
        (((stridedLoop t blockSize (g.validLen b.1)).map (g.blockKey A b)).foldl max
          (g.blockKey A b 0))
        fun blockMax => storeShared (.maxVal b) t blockMax
          (exponentiateColumns g exp blockSize b t)) := by
  have hvalid : g.validLen b.1 > 0 := Nat.succ_pos _
  have hfirst : mem (inputColumn g b 0) = some (g.blockKey A b 0) := hinput 0 hvalid
  rw [causalSoftmaxKernel, blockMaxThread, if_pos hvalid, ← foldl_ite_eq]
  exact .read ⟨_, rfl⟩ hfirst
    (.fold (x := g.blockKey A b) (fun col hcol => ⟨⟨_, rfl⟩, hinput col
      ((mem_stridedLoop (Nat.zero_lt_of_lt ht) ht).mp hcol).1⟩) (.meet _ _ _ _))

include hpos in
/-- From barrier to barrier, a block computes the causal softmax of the
keys that it reads. -/
theorem ends_causalSoftmaxKernel (hvalid : g.validLen b.1 ≤ g.totalSeqLen) :
    ∃ k, ∀ (mem : Mem SoftmaxCell ℚ) (m : ℚ), IsMax (g.blockKey A b) (g.validLen b.1) m →
    KeysRead g A b mem → (mem (.maxVal b)).isSome →
    (mem (.sumVal b)).isSome → (∀ col < g.totalSeqLen, (mem (outColumn g b col)).isSome) →
    Block.Ends collective (softmaxCells g b) (softmaxWrites g b)
      (RowHolds g b (softmaxRow exp (g.blockKey A b) m (g.validLen b.1))) k
      (fun t : Fin blockSize => causalSoftmaxKernel g exp blockSize b t) mem := by
  obtain ⟨k, hexponentiate⟩ := ends_exponentiateColumns (g := g) exp (A := A) hpos b
  have hrow : ∀ m, (fun col => (if col < g.validLen b.1 then exp (g.blockKey A b col - m) else 0)
      / ((List.range g.totalSeqLen).map fun col =>
          if col < g.validLen b.1 then exp (g.blockKey A b col - m) else 0).sum)
      = softmaxRow exp (g.blockKey A b) m (g.validLen b.1) := by
    intro m
    funext col
    rw [sum_masked (fun col => exp (g.blockKey A b col - m)) hvalid, softmaxRow]
    split
    · rfl
    · exact zero_div _
  refine ⟨_, fun mem m hm hinput hmax hsum hout => ends_reads hpos (fun a ha => .inl ha)
    (fun t => solo_causalSoftmaxKernel exp b hinput t.isLt)
    (ends_collective hpos fun r hr => ends_storeShared hpos (.inr (.inl rfl)) (.inl rfl) hmax
      (x := m) (fun t ht => ?_) (hrow m ▸ hexponentiate _ m (fun col hcol => ?_)
        (Function.update_self _ _ _) ?_ fun col hcol => ?_))⟩
  · exact (blockReduce_max hpos (Nat.succ_pos _) (g.blockKey A b) (hr t ht)).unique hm
  · rw [Function.update_of_ne fun heq => by cases heq]
    exact hinput col hcol
  · rw [Function.update_of_ne fun heq => by cases heq]
    exact hsum
  · rw [Function.update_of_ne fun heq => by cases heq]
    exact hout col hcol

end Block

/-! ## The launch -/

section Grid

variable {x : SoftmaxProblem} (exp : ℚ → ℚ) (A C : Data) (blockSize : Nat)

/-- Memory at the launch: the elements of the tensors, and the shared
variables. -/
def softmaxMemory (x : SoftmaxProblem) (A C : Data) (maxVal sumVal : Nat × Nat → ℚ) :
    Mem SoftmaxCell ℚ
  | .input o => elementOf x.input.toTensor A o
  | .out o => elementOf x.out.toTensor C o
  | .maxVal b => some (maxVal b)
  | .sumVal b => some (sumVal b)

theorem outColumn_eq (hout : x.Adjacent x.out.strides) {bi i j : Nat} (hj : j < x.total) :
    outColumn x.members (i, bi) j = .out (x.members.outCell (bi, i) j) :=
  congrArg SoftmaxCell.out (SoftmaxProblem.blockCell_eq hout hj)

/-- A position of a tensor of the problem. -/
theorem elementOf_elemOffset {t : StoredTensor} (hshape : t.shape = x.out.shape) (data : Data)
    {bi i j : Nat} (hbi : bi < x.batch) (hi : i < x.seq) (hj : j < x.total) :
    elementOf t.toTensor data (SoftmaxProblem.elemOffset t.toTensor bi i j)
      = some (data (SoftmaxProblem.elemOffset t.toTensor bi i j)) := by
  have hrank : t.toTensor.ndim = x.out.ndim := congrArg List.length hshape
  refine elementOf_offset data ?_
  rw [hrank, hshape]
  rcases x.shape_cases with ⟨hndim, -, hout⟩ | ⟨hndim, hout⟩
  · rw [if_pos hndim, hout]
    exact .cons hi (.cons hj .nil)
  · have hne : x.out.ndim ≠ 2 := by omega
    rw [if_neg hne, hout]
    exact .cons hbi (.cons hi (.cons hj .nil))

theorem keysRead_softmaxMemory (hin : x.Adjacent x.input.strides) {bi i : Nat} (hbi : bi < x.batch)
    (hi : i < x.seq) (maxVal sumVal : Nat × Nat → ℚ) :
    KeysRead x.members A (i, bi) (softmaxMemory x A C maxVal sumVal) := by
  intro j hj
  have hj := Nat.lt_of_lt_of_le hj (x.validLen_le hi)
  have hcolumn : inputColumn x.members (i, bi) j
      = .input (SoftmaxProblem.elemOffset x.input.toTensor bi i j) := by
    rw [x.elemOffset_eq x.checked.shape_eq]
    exact congrArg (fun c => SoftmaxCell.input (x.members.rowOffset x.input.strides bi i + c))
      (hin j hj)
  rw [hcolumn, SoftmaxProblem.blockKey_eq hin A hj]
  exact elementOf_elemOffset x.checked.shape_eq A hbi hi hj

/-- The maximum of a row is that of the keys that its block reads. -/
theorem isMax_blockKey (hin : x.Adjacent x.input.strides) {bi i : Nat} (hi : i < x.seq) :
    IsMax (x.members.blockKey A (i, bi)) (x.members.validLen i) (x.maxKey A bi i) :=
  SoftmaxProblem.isMax_congr (fun _ hk => (SoftmaxProblem.blockKey_eq hin A
    (Nat.lt_of_lt_of_le hk (x.validLen_le hi))).symm) (x.isMax_maxKey A bi i)

/-- No block needs what another one writes. -/
theorem softmaxWrites_apart (hout : x.Adjacent x.out.strides) {bi i bi' i' : Nat}
    (hbi : bi < x.batch) (hi : i < x.seq) (hbi' : bi' < x.batch) (hi' : i' < x.seq)
    {a : SoftmaxCell} (ha : a ∈ softmaxWrites x.members (i, bi))
    (ha' : a ∈ softmaxCells x.members (i', bi')) : i = i' ∧ bi = bi' := by
  rcases ha with rfl | rfl | ⟨j, hj, rfl⟩
  · rcases ha' with ⟨o, heq⟩ | heq | heq | ⟨j', -, heq⟩
    · cases heq
    · exact Prod.mk.inj (SoftmaxCell.maxVal.inj heq)
    · cases heq
    · cases heq
  · rcases ha' with ⟨o, heq⟩ | heq | heq | ⟨j', -, heq⟩
    · cases heq
    · cases heq
    · exact Prod.mk.inj (SoftmaxCell.sumVal.inj heq)
    · cases heq
  · rcases ha' with ⟨o, heq⟩ | heq | heq | ⟨j', hj', heq⟩
    · cases heq
    · cases heq
    · cases heq
    · rw [outColumn_eq hout hj, outColumn_eq hout hj'] at heq
      obtain ⟨hbatch, hrow, -⟩ := x.outCell_inj hbi hi hj hbi' hi' hj' (SoftmaxCell.out.inj heq)
      exact ⟨hrow, hbatch⟩

/-- In any order, the threads leave in `out` what the loops of the CPU do. -/
theorem causalSoftmaxGrid_ends (hpos : 0 < blockSize) (hseq : x.seq < 2 ^ 32)
    (hbatch : x.batch < 2 ^ 32) (hin : x.Adjacent x.input.strides)
    (hout : x.Adjacent x.out.strides) (maxVal sumVal : Nat × Nat → ℚ) :
    (causalSoftmaxGrid x.members exp blockSize).Ends (softmaxMemory x A C maxVal sumVal)
      (fun final => ∀ o, final (.out o)
        = elementOf x.out.toTensor (x.members.cpuCompute exp A C) o) := by
  have hgridX : (causalSoftmaxGrid x.members exp blockSize).gridX = x.seq := toUInt32_eq_self hseq
  have hgridY : (causalSoftmaxGrid x.members exp blockSize).gridY = x.batch :=
    toUInt32_eq_self hbatch
  have hrow : ∀ b : (causalSoftmaxGrid x.members exp blockSize).Block,
      b.1.val < x.seq ∧ b.2.val < x.batch := fun b => ⟨hgridX ▸ b.1.isLt, hgridY ▸ b.2.isLt⟩
  have houtColumn : ∀ {bi i j : Nat}, bi < x.batch → i < x.seq → j < x.total →
      (softmaxMemory x A C maxVal sumVal (outColumn x.members (i, bi) j)).isSome := by
    intro bi i j hbi hi hj
    rw [outColumn_eq hout hj, softmaxMemory, ← x.elemOffset_out, elementOf_elemOffset rfl C hbi hi hj]
    rfl
  choose k hblock using fun b : (causalSoftmaxGrid x.members exp blockSize).Block =>
    ends_causalSoftmaxKernel (g := x.members) exp (A := A) hpos (b.1, b.2)
      (x.validLen_le (hrow b).1)
  refine Launch.ends_of_blocks hpos (F := fun b => softmaxCells x.members (b.1, b.2))
    (W := fun b => softmaxWrites x.members (b.1, b.2))
    (P := fun b => RowHolds x.members (b.1, b.2) (softmaxRow exp (x.members.blockKey A (b.1, b.2))
      (x.maxKey A b.2 b.1) (x.members.validLen b.1)))
    (fun b b' hne a ha ha' => hne ?_)
    (fun b => hblock b _ _ (isMax_blockKey A hin (hrow b).1)
      (keysRead_softmaxMemory A C hin (hrow b).2 (hrow b).1 maxVal sumVal) rfl rfl
      fun j hj => houtColumn (hrow b).2 (hrow b).1 hj)
    (fun final hrows hframe o => ?_)
  · obtain ⟨hi, hbi⟩ := softmaxWrites_apart hout (hrow b).2 (hrow b).1 (hrow b').2 (hrow b').1 ha ha'
    exact Prod.ext (Fin.ext hi) (Fin.ext hbi)
  · by_cases ho : ∃ bi i j, (bi < x.batch ∧ i < x.seq ∧ j < x.total) ∧
        o = x.members.outCell (bi, i) j
    · obtain ⟨bi, i, j, ⟨hbi, hi, hj⟩, rfl⟩ := ho
      have hdone := hrows (⟨i, hgridX.symm ▸ hi⟩, ⟨bi, hgridY.symm ▸ hbi⟩) j hj
      rw [outColumn_eq hout hj] at hdone
      have hcpu := x.holds_cpuCompute exp A C bi i j hbi hi hj
      rw [x.specAt_eq] at hcpu
      rw [hdone, ← x.elemOffset_out, elementOf_elemOffset rfl _ hbi hi hj, hcpu]
      exact congrArg some (SoftmaxProblem.softmaxRow_congr (fun k hk =>
        SoftmaxProblem.blockKey_eq hin A (Nat.lt_of_lt_of_le hk (x.validLen_le hi))) j)
    · rw [elementOf_congr (x.cpuCompute_frame exp A C fun bi i j hbi hi hj heq =>
        ho ⟨bi, i, j, ⟨hbi, hi, hj⟩, heq⟩)]
      refine hframe _ fun b hb => ?_
      rcases hb with heq | heq | ⟨j, hj, heq⟩
      · cases heq
      · cases heq
      · rw [outColumn_eq hout hj] at heq
        exact ho ⟨b.2, b.1, j, ⟨(hrow b).2, (hrow b).1, hj⟩, SoftmaxCell.out.inj heq⟩

end Grid

/-! ## The call -/

/-- Where the CUDA launcher agrees with the CPU and there is something to
write, `CudaCausalSoftmax` launches a grid that leaves in `out` what the
CPU operator does, in whatever order its threads run. -/
theorem cuda_causalSoftmax_agrees (x : SoftmaxProblem) (exp : ℚ → ℚ) (d : CudaDevice)
    (A C C' : Data) (hfits : x.Fits d) (hnumel : 0 < x.out.numel)
    (hcpu : cpuCausalSoftmax exp x.input.toTensor x.out.toTensor A C = .ok C') :
    ∃ l, launchCausalSoftmax exp d x.input.toTensor x.out.toTensor = .ok l ∧ l.Accepted d ∧
      ∀ maxVal sumVal, l.Ends (softmaxMemory x A C maxVal sumVal)
        (fun final => ∀ o, final (.out o) = elementOf x.out.toTensor C' o) := by
  obtain ⟨htype, hempty | ⟨hseq, hbatch, hstrides⟩⟩ := hfits
  · exact absurd hempty (Nat.ne_of_gt hnumel)
  have hfloat : ∀ dtype ∈ cudaTypes, dtype ∈ allFloatTypes := by decide
  obtain rfl := Except.ok.inj ((x.cpu_eq exp A C (hfloat _ htype)).symm.trans hcpu)
  have hnonzero : ¬ (x.batch = 0 ∨ x.seq = 0) := fun hzero =>
    Nat.ne_of_gt hnumel (SoftmaxProblem.numel_eq_zero_iff.mpr hzero)
  have htotal : 0 < x.total := by
    have hle := x.checked.seq_le
    omega
  rw [SoftmaxProblem.stride_neg_one_eq x.checked.shape_eq,
    SoftmaxProblem.stride_neg_one_eq rfl] at hstrides
  have hin : x.Adjacent x.input.strides :=
    (SoftmaxProblem.adjacent_iff htotal _).mpr (hstrides.imp_right And.left)
  have hout : x.Adjacent x.out.strides :=
    (SoftmaxProblem.adjacent_iff htotal _).mpr (hstrides.imp_right And.right)
  have hseq' : x.seq < 2 ^ 32 := Nat.lt_of_le_of_lt hseq d.maxGridX_lt
  have hbatch' : x.batch < 2 ^ 32 := Nat.lt_of_le_of_lt hbatch d.maxGridY_lt
  have hblock := SoftmaxProblem.blockSize_pos d
  refine ⟨causalSoftmaxGrid x.members exp d.blockSize, ?_, ⟨?_, ?_, hblock, ?_⟩,
    causalSoftmaxGrid_ends exp A C d.blockSize hblock hseq' hbatch' hin hout⟩
  · obtain ⟨hdispatch, -⟩ := SoftmaxProblem.dispatchKeys_eq (d := d)
      (Functor.total fun listTag => causalSoftmaxGrid x.members exp (listTag.getD 1 0).toNat)
      (fun _ _ => rfl) "CudaCausalSoftmax::operator()" x.out.dtype
    rw [launchCausalSoftmax, x.checked.new_eq, assertion, if_pos x.checked.dtype_eq.symm]
    exact congrArg Run.ending (hdispatch htype)
  · have hgridX : (causalSoftmaxGrid x.members exp d.blockSize).gridX = x.seq :=
      toUInt32_eq_self hseq'
    rw [hgridX]
    exact ⟨by omega, hseq⟩
  · have hgridY : (causalSoftmaxGrid x.members exp d.blockSize).gridY = x.batch :=
      toUInt32_eq_self hbatch'
    rw [hgridY]
    exact ⟨by omega, hbatch⟩
  · exact Nat.le_trans (Nat.min_le_left _ _) (getOptimalBlockSize_le d)

theorem cuda_causalSoftmax_agrees_contiguous : ∃ (C' : Data) (l : Launch SoftmaxCell ℚ),
    launchCausalSoftmax (fun y => 1 + y ^ 2) SoftmaxProblem.device
        SoftmaxProblem.contiguous.input.toTensor SoftmaxProblem.contiguous.out.toTensor = .ok l ∧
      ∀ maxVal sumVal,
        l.Ends (softmaxMemory SoftmaxProblem.contiguous (fun o => o) (fun _ => 0) maxVal sumVal)
          (fun final => ∀ o, final (.out o)
            = elementOf SoftmaxProblem.contiguous.out.toTensor C' o) := by
  obtain ⟨l, hlaunch, -, hends⟩ := cuda_causalSoftmax_agrees SoftmaxProblem.contiguous
    (fun y => 1 + y ^ 2) SoftmaxProblem.device (fun o => o) (fun _ => 0) _ (by decide) (by decide)
    (SoftmaxProblem.contiguous.cpu_eq _ _ _ (by decide))
  exact ⟨_, l, hlaunch, hends⟩

end InfiniOps.Cuda
