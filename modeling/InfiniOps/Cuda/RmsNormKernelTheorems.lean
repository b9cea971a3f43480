/-
InfiniOps.Cuda.RmsNormKernelTheorems — the threads of `RmsNormKernel` do
what the loops of the CPU do.

A block goes from barrier to barrier: its threads read the row, the first
one stores the factor, and then each thread writes columns of its own. No
two threads need the same cell in between, and no two blocks the same row,
so that the order of their steps makes no difference (`rmsNormGrid_ends`).
-/
import InfiniOps.Cpu.RmsNormTheorems
import InfiniOps.Cuda.RmsNormKernel

namespace InfiniOps.Cuda

open Cpu Grid RowMajor StridedLoop StridedStore

/-! ## One thread -/

/-- What the threads of a block read. -/
def rowCells (block : Nat) : Set NormCell :=
  {a | (∃ o, a = .input o) ∨ (∃ o, a = .weight o) ∨ a = .rms block}

section Threads

variable {K : Type} [Field K] (x : RmsNormProblem) (sqrt : K → K) (eps : K) (inputData : Int → K)
  (weight : Int → K) (blockSize : Nat)

/-- Memory at the launch: the elements of the tensors, and the shared
variables. -/
def normMemory (out : Int → K) (rms : Nat → K) : Mem NormCell K
  | .input o => x.inputOf inputData o
  | .weight o => elementOf x.weight.toTensor weight o
  | .out o => elementOf x.out.toTensor out o
  | .rms b => some (rms b)

/-- All that an iteration writes of `out` is inside. -/
def WritesInside (v : Nat × Nat) : Prop := ∀ i < x.dim, x.cell (v, i) ∈ elements x.out.toTensor

/-- The sum of the squares that a thread reads. -/
def threadSum (v : Nat × Nat) (t : Nat) : K :=
  ((stridedLoop t blockSize x.dim).map fun (i : Nat) =>
    inputData (RmsNorm.row x.members.inputStrides v + i) ^ 2).sum

variable {x}

theorem mem_stridedLoop_lt {t : Nat} (ht : t < blockSize) {i : Nat}
    (hi : i ∈ stridedLoop t blockSize x.dim) : i < x.dim :=
  ((mem_stridedLoop (Nat.zero_lt_of_lt ht) ht).mp hi).1

/-- Up to the block's sum a thread reads its columns. -/
theorem solo_squares {b t : Nat} (ht : t < blockSize)
    (hreads : x.ReadsInside (blockRow x.members b)) (out : Int → K) (rms : Nat → K) :
    Solo (rowCells b) ∅ (normMemory x inputData weight out rms)
      (rmsNormKernel x.members sqrt eps blockSize b t)
      (stridedLoop t blockSize x.dim).length (normMemory x inputData weight out rms)
      (.meet (.blockReduce (· + ·)) (threadSum x inputData blockSize (blockRow x.members b) t)
        (storeRms x.members sqrt eps blockSize b t)) := by
  have hsum : (stridedLoop t blockSize x.dim).foldl (fun ss (i : Nat) =>
      ss + inputData (RmsNorm.row x.members.inputStrides (blockRow x.members b) + i)
        * inputData (RmsNorm.row x.members.inputStrides (blockRow x.members b) + i)) 0
      = threadSum x inputData blockSize (blockRow x.members b) t := by
    rw [threadSum, List.sum_eq_foldl, List.foldl_map]
    simp only [pow_two]
  rw [← Nat.zero_add (List.length _)]
  refine .fold (x := fun i =>
    inputData (RmsNorm.row x.members.inputStrides (blockRow x.members b) + (i : Nat)))
    (fun i hi => ⟨.inl ⟨_, rfl⟩, ?_⟩) ?_
  · exact RmsNormProblem.inputOf_of_mem inputData (hreads i (mem_stridedLoop_lt blockSize ht hi))
  · exact hsum ▸ .meet _ _ _ _

/-! ## One block -/

/-- The row that a block writes. -/
def rowOut (x : RmsNormProblem) (b : Nat) : Set NormCell :=
  {a | ∃ i < x.dim, a = .out (x.cell (blockRow x.members b, i))}

/-- What a block leaves in its row. -/
def NormalizedRow (x : RmsNormProblem) (sqrt : K → K) (eps : K) (inputData weight : Int → K)
    (b : Nat) (final : Mem NormCell K) : Prop :=
  ∀ i < x.dim, final (.out (x.cell (blockRow x.members b, i)))
    = some (x.stored sqrt eps inputData weight (blockRow x.members b, i))

/-- The cells that a block reads or writes, and those that it writes. -/
def blockCells (x : RmsNormProblem) (b : Nat) : Set NormCell := rowCells b ∪ rowOut x b

def blockWrites (x : RmsNormProblem) (b : Nat) : Set NormCell := {.rms b} ∪ rowOut x b

theorem columnCell_inj {v : Nat × Nat} {i j : Nat}
    (h : NormCell.out (x.cell (v, i)) = .out (x.cell (v, j))) : i = j := by
  have hcell := NormCell.out.inj h
  simp only [RmsNormProblem.cell] at hcell
  omega

omit [Field K] in
theorem elementOf_weight {i : Nat} (hi : i < x.dim) :
    elementOf x.weight.toTensor weight i = some (weight i) := by
  have hvalid : Valid x.weight.shape [i] := x.weight_shape ▸ .cons hi .nil
  rw [← x.weight_offset i]
  exact elementOf_offset weight hvalid

variable {b : Nat} (hpos : 0 < blockSize) (hreads : x.ReadsInside (blockRow x.members b))
  (hwrites : WritesInside x (blockRow x.members b))

include hpos hreads hwrites in
/-- Behind the second barrier. -/
theorem ends_normalize : ∃ k, ∀ (out : Int → K) (rms : Nat → K),
    rms b = 1 / sqrt (x.squares inputData (blockRow x.members b) / x.dim + eps) →
    Block.Ends collective (blockCells x b) (blockWrites x b)
      (NormalizedRow x sqrt eps inputData weight b) k
      (fun t : Fin blockSize => normalizeColumns x.members blockSize b t)
      (normMemory x inputData weight out rms) := by
  have hinj : ∀ i < x.dim, ∀ j < x.dim, NormCell.out (x.cell (blockRow x.members b, i))
      = .out (x.cell (blockRow x.members b, j)) → i = j := fun i _ j _ heq => columnCell_inj heq
  refine ⟨_, fun out rms hrms => ends_columns hpos hinj
    (fun i => x.stored sqrt eps inputData weight (blockRow x.members b, i)) (fun _ => 4)
    (S := rowCells b) (fun i _ hmem => ?_) (fun a ha => .inl ha)
    (fun i hi => ⟨.inr ⟨i, hi, rfl⟩, .inr ⟨i, hi, rfl⟩⟩)
    (fun i hi mem₁ hagree R W hR _ hwrite rest q m mem' hrest => ?_) (fun _ _ _ _ => .stop _)
    (.stop (fun _ => rfl) fun mem₁ hagree i hi => ?_)⟩
  · rcases hmem with ⟨o, ho⟩ | ⟨o, ho⟩ | ho
    · cases ho
    · cases ho
    · cases ho
  · have hother : ∀ a, (∀ o, a ≠ .out o) → normMemory x inputData weight out rms a = mem₁ a :=
      fun a ha => hagree a fun j _ _ => ha _
    have hinput : mem₁ (.input (RmsNorm.row x.members.inputStrides (blockRow x.members b) + i))
        = some (inputData (RmsNorm.row x.members.inputStrides (blockRow x.members b) + i)) :=
      (hother _ fun o h => by cases h).symm.trans
        (RmsNormProblem.inputOf_of_mem inputData (hreads i hi))
    have hweight : mem₁ (.weight i) = some (weight i) :=
      (hother _ fun o h => by cases h).symm.trans (elementOf_weight weight hi)
    have hfactor : mem₁ (.rms b) = some (rms b) := (hother _ fun o h => by cases h).symm
    have hout : mem₁ (.out (x.cell (blockRow x.members b, i)))
        = some (out (x.cell (blockRow x.members b, i))) :=
      (hagree _ fun j _ hne heq => hne (columnCell_inj heq).symm).symm.trans
        (elementOf_of_mem out (hwrites i hi))
    refine .read (hR (.inl ⟨_, rfl⟩)) hinput (.read (hR (.inr (.inl ⟨_, rfl⟩))) hweight
      (.read (hR (.inr (.inr rfl))) hfactor (.write hwrite ?_ ?_)))
    · exact Option.isSome_iff_exists.mpr ⟨_, hout⟩
    · rw [hrms]
      exact hrest
  · rw [← hagree _ (.inr ⟨i, hi, rfl⟩)]
    exact storeAll_column hinj hi

omit [Field K] in
theorem update_rms (out : Int → K) (rms : Nat → K) (factor : K) :
    Function.update (normMemory x inputData weight out rms) (.rms b) (some factor)
      = normMemory x inputData weight out (Function.update rms b factor) := by
  funext a
  by_cases ha : a = .rms b
  · subst ha
    rw [Function.update_self]
    exact congrArg some (Function.update_self b factor rms).symm
  · rw [Function.update_of_ne ha]
    cases a with
    | rms b' =>
      have hne : b' ≠ b := fun heq => ha (congrArg NormCell.rms heq)
      exact congrArg some (Function.update_of_ne hne factor rms).symm
    | input o => rfl
    | weight o => rfl
    | out o => rfl

include hpos hreads hwrites in
/-- Behind the sum, of which only the first thread needs to know. -/
theorem ends_storeRms : ∃ k, ∀ (out : Int → K) (rms : Nat → K) (ss : Fin blockSize → K),
    (∀ t, t.val = 0 → ss t = x.squares inputData (blockRow x.members b)) →
    Block.Ends collective (blockCells x b) (blockWrites x b)
      (NormalizedRow x sqrt eps inputData weight b) k
      (fun t : Fin blockSize => storeRms x.members sqrt eps blockSize b t (ss t))
      (normMemory x inputData weight out rms) := by
  obtain ⟨k, hnormalize⟩ := ends_normalize sqrt eps inputData weight blockSize hpos hreads hwrites
  refine ⟨_, fun out rms ss hss => ends_storeShared hpos (.inl (.inr (.inr rfl)))
    (.inl rfl) rfl (fun t ht => congrArg (fun s => 1 / sqrt (s / x.dim + eps)) (hss t ht))
    (update_rms inputData weight out rms _ ▸ hnormalize out _ (Function.update_self _ _ _))⟩

include hpos hreads hwrites in
/-- From barrier to barrier, a block normalizes its row. -/
theorem ends_rmsNormKernel : ∃ k, ∀ (out : Int → K) (rms : Nat → K),
    Block.Ends collective (blockCells x b) (blockWrites x b)
      (NormalizedRow x sqrt eps inputData weight b) k
      (fun t : Fin blockSize => rmsNormKernel x.members sqrt eps blockSize b t)
      (normMemory x inputData weight out rms) := by
  obtain ⟨k, hstore⟩ := ends_storeRms sqrt eps inputData weight blockSize hpos hreads hwrites
  exact ⟨_, fun out rms => ends_reads hpos (fun a ha => .inl ha)
    (fun t => solo_squares sqrt eps inputData weight blockSize t.isLt hreads out rms)
    (ends_collective hpos fun ss hss => hstore out rms ss fun t ht =>
      blockReduce_sum hpos x.dim _ (hss t ht))⟩

/-! ## The launch -/

/-- A block for each iteration of the two outer loops of the CPU. -/
theorem blockRow_mem (hb : b < x.batchSize * x.nhead) :
    blockRow x.members b ∈ x.members.iterations := by
  have hnhead : 0 < x.nhead := Nat.pos_of_ne_zero fun hzero => by simp [hzero] at hb
  exact RmsNormProblem.mem_iterations x |>.mpr
    ⟨Nat.div_lt_of_lt_mul (Nat.mul_comm _ _ ▸ hb), Nat.mod_lt _ hnhead⟩

theorem blockRow_inj {b b' : Nat} (h : blockRow x.members b = blockRow x.members b') : b = b' := by
  obtain ⟨hdiv, hmod⟩ := Prod.mk.inj h
  rw [← Nat.div_add_mod b x.members.nhead, hdiv, hmod, Nat.div_add_mod]

theorem blockRow_block {v : Nat × Nat} (hv : v ∈ x.members.iterations) :
    v.1 * x.nhead + v.2 < x.batchSize * x.nhead ∧
      blockRow x.members (v.1 * x.nhead + v.2) = v := by
  obtain ⟨hbatch, hhead⟩ := (RmsNormProblem.mem_iterations x).mp hv
  have hpos := Nat.zero_lt_of_lt hhead
  refine ⟨?_, Prod.ext ?_ ?_⟩
  · calc v.1 * x.nhead + v.2 < v.1 * x.nhead + x.nhead := Nat.add_lt_add_left hhead _
      _ = (v.1 + 1) * x.nhead := (Nat.succ_mul _ _).symm
      _ ≤ x.batchSize * x.nhead := Nat.mul_le_mul_right _ hbatch
  · show (v.1 * x.nhead + v.2) / x.nhead = v.1
    rw [Nat.mul_comm, Nat.mul_add_div hpos, Nat.div_eq_of_lt hhead, Nat.add_zero]
  · show (v.1 * x.nhead + v.2) % x.nhead = v.2
    rw [Nat.mul_comm, Nat.mul_add_mod, Nat.mod_eq_of_lt hhead]

/-- Every step of the loops writes an element of its own. -/
def StepsApart (x : RmsNormProblem) : Prop := (x.steps.map x.cell).Nodup

theorem StepsApart.inj (h : StepsApart x) {v v' : Nat × Nat} (hv : v ∈ x.members.iterations)
    (hv' : v' ∈ x.members.iterations) {i j : Nat} (hi : i < x.dim) (hj : j < x.dim)
    (heq : x.cell (v, i) = x.cell (v', j)) : v = v' ∧ i = j :=
  Prod.mk.inj (List.inj_on_of_nodup_map h (x.mem_steps.mpr ⟨hv, hi⟩) (x.mem_steps.mpr ⟨hv', hj⟩) heq)

theorem gridX_rmsNormGrid (hgrid : x.batchSize * x.nhead < 2 ^ 32) :
    (rmsNormGrid x.members sqrt eps blockSize).gridX = x.batchSize * x.nhead := by
  show toUInt32 (toUInt64 ((x.batchSize : Int) * (x.nhead : Int))) = x.batchSize * x.nhead
  rw [← Nat.cast_mul, toUInt64_eq_self (by omega), toUInt32_eq_self hgrid]

include hpos in
/-- In any order, the threads leave in `out` what the loops of the CPU do. -/
theorem rmsNormGrid_ends (hgrid : x.batchSize * x.nhead < 2 ^ 32)
    (hreads : ∀ v ∈ x.members.iterations, x.ReadsInside v)
    (hwrites : ∀ v ∈ x.members.iterations, WritesInside x v) (hapart : StepsApart x)
    {out out' : Int → K} (rms : Nat → K)
    (hcpu : x.members.compute sqrt eps (x.inputOf inputData) weight out = some out') :
    (rmsNormGrid x.members sqrt eps blockSize).Ends (normMemory x inputData weight out rms)
      (fun final => ∀ o, final (.out o) = elementOf x.out.toTensor out' o) := by
  have hgridX := gridX_rmsNormGrid (x := x) sqrt eps blockSize hgrid
  rw [RmsNormProblem.compute_eq_storeAll sqrt eps inputData weight hreads] at hcpu
  obtain rfl := Option.some.inj hcpu
  have hrow : ∀ b : (rmsNormGrid x.members sqrt eps blockSize).Block,
      blockRow x.members b.1 ∈ x.members.iterations := fun b => blockRow_mem (hgridX ▸ b.1.isLt)
  choose k hblock using fun b => ends_rmsNormKernel sqrt eps inputData weight blockSize hpos
    (hreads _ (hrow b)) (hwrites _ (hrow b))
  refine Launch.ends_of_blocks hpos (F := fun b => blockCells x b.1)
    (W := fun b => blockWrites x b.1)
    (P := fun b => NormalizedRow x sqrt eps inputData weight b.1)
    (fun b b' hne a ha ha' => hne (Prod.ext (Fin.ext ?_) (@Subsingleton.elim (Fin 1) _ _ _)))
    (fun b => hblock b out rms)
    (fun final hrows hframe o => ?_)
  · rcases ha with rfl | ⟨i, hi, rfl⟩
    · rcases ha' with (⟨o, ho⟩ | ⟨o, ho⟩ | ho) | ⟨i, -, ho⟩
      · cases ho
      · cases ho
      · exact NormCell.rms.inj ho
      · cases ho
    · rcases ha' with (⟨o, ho⟩ | ⟨o, ho⟩ | ho) | ⟨j, hj, ho⟩
      · cases ho
      · cases ho
      · cases ho
      · exact blockRow_inj (hapart.inj (hrow b) (hrow b') hi hj (NormCell.out.inj ho)).1
  · by_cases ho : ∃ s ∈ x.steps, x.cell s = o
    · obtain ⟨⟨v, i⟩, hs, rfl⟩ := ho
      obtain ⟨hv, hi⟩ := x.mem_steps.mp hs
      obtain ⟨hlt, hblock⟩ := blockRow_block hv
      have hdone := hrows (⟨v.1 * x.nhead + v.2, hgridX.symm ▸ hlt⟩, (0 : Fin 1)) i hi
      rw [elementOf_of_mem _ (hwrites v hv i hi), storeAll_at_of_nodup x.cell _ _ hapart hs]
      simpa only [hblock] using hdone
    · have hnot : o ∉ x.steps.map x.cell := fun h => ho (List.mem_map.mp h)
      rw [elementOf_congr (storeAll_of_notMem x.cell _ _ hnot)]
      refine hframe _ fun b hb => ?_
      rcases hb with hb | ⟨i, hi, hb⟩
      · cases hb
      · exact ho ⟨_, x.mem_steps.mpr ⟨hrow b, hi⟩, (NormCell.out.inj hb).symm⟩

end Threads

/-! ## The call -/

instance (x : RmsNormProblem) : Decidable (StepsApart x) :=
  inferInstanceAs (Decidable (List.Nodup _))

instance (x : RmsNormProblem) (v : Nat × Nat) : Decidable (WritesInside x v) :=
  inferInstanceAs (Decidable (∀ i < x.dim, _))

/-- Where the CPU operator returns and its loops write elements of `out`,
none of them twice, `CudaRmsNorm` launches a grid that leaves the same in
`out`, in whatever order its threads run. The tensors are of one type of the
dispatch, and there is a row for every block of a grid that the device
takes. -/
theorem cuda_rmsNorm_agrees {K : Type} [Field K] (x : RmsNormProblem) (sqrt : K → K) (eps : K)
    (d : Softmax.CudaDevice) (inputData : Int → K) (weightData : DataType → Int → K)
    (outData out' : Int → K) (htype : x.out.dtype ∈ Softmax.cudaTypes)
    (hweight : x.weight.dtype = x.out.dtype) (hpos : 0 < x.batchSize * x.nhead)
    (hgrid : x.batchSize * x.nhead ≤ d.maxGridX) (hgridY : 0 < d.maxGridY)
    (hwrites : ∀ v ∈ x.members.iterations, WritesInside x v) (hapart : StepsApart x)
    (hcpu : rmsNorm sqrt eps x.input.toTensor x.out.toTensor (x.inputOf inputData) weightData outData
      = .ok (some out')) :
    ∃ l, cudaRmsNorm sqrt eps d x.input.toTensor x.weight.toTensor x.out.toTensor
        = .ok (some (x.out.dtype, l)) ∧ l.Accepted d ∧
      ∀ rms, l.Ends (normMemory x inputData (weightData x.out.dtype) outData rms)
        (fun final => ∀ o, final (.out o) = elementOf x.out.toTensor out' o) := by
  have hrank := RmsNormProblem.rank_of_result hcpu
  have hdtype := RmsNormProblem.dtype_of_result hcpu
  have hcompute : x.members.compute sqrt eps (x.inputOf inputData) (weightData x.out.dtype) outData
      = some out' :=
    Except.ok.inj ((RmsNormProblem.result_eq sqrt eps inputData weightData outData hrank
      hdtype).symm.trans hcpu)
  have hreads := RmsNormProblem.readsInside_of_compute sqrt eps inputData _ hcompute
  have hlt : x.batchSize * x.nhead < 2 ^ 32 := Nat.lt_of_le_of_lt hgrid d.maxGridX_lt
  have hblock : 0 < Softmax.getOptimalBlockSize d.maxThreads := by
    have hall : ∀ size ∈ allCudaBlockSizes, 0 < size := by decide
    exact hall _ (getOptimalBlockSize_mem d.maxThreads)
  refine ⟨rmsNormGrid x.members sqrt eps (Softmax.getOptimalBlockSize d.maxThreads), ?_, ?_,
    fun rms => rmsNormGrid_ends sqrt eps inputData _ _ hblock hlt hreads hwrites hapart rms
      hcompute⟩
  · have hdispatch := dispatchKeys_types (d := d) (f := normFunctor x.members sqrt eps)
      (fun _ _ => rfl) "CudaRmsNorm::operator()" (List.cons_ne_nil _ _) htype
    have hfunctor : (normFunctor x.members sqrt eps).call
        [x.out.dtype.code, Softmax.getOptimalBlockSize d.maxThreads]
        = some (x.out.dtype,
            rmsNormGrid x.members sqrt eps (Softmax.getOptimalBlockSize d.maxThreads)) := by
      simp only [normFunctor, Functor.total, List.getD_cons_zero, List.getD_cons_succ,
        find_code htype, Int.toNat_natCast]
      rfl
    rw [cudaRmsNorm, RmsNormProblem.ofTensors_eq, if_pos hrank]
    simp only [assertion, x.accepted, hweight, and_self, if_true]
    exact (congrArg Run.ending hdispatch).trans (congrArg Except.ok hfunctor)
  · refine ⟨?_, ⟨Nat.one_pos, hgridY⟩, hblock, getOptimalBlockSize_le d⟩
    rw [gridX_rmsNormGrid sqrt eps _ hlt]
    exact ⟨hpos, hgrid⟩

/-- A matrix of two rows. -/
def twoRows : RmsNormProblem where
  input :=
    { data := 0, shape := [2, 9], strides := [9, 1], rank_eq := by decide
      addressable := forall_valid_iff.mpr (by decide) }
  weight :=
    { data := 0, shape := [9], strides := [1], rank_eq := by decide
      addressable := forall_valid_iff.mpr (by decide) }
  out :=
    { data := 64, shape := [2, 9], strides := [11, 1], rank_eq := by decide
      addressable := forall_valid_iff.mpr (by decide) }
  rank_pos := by decide
  input_shape := rfl
  weight_shape := rfl
  weight_contiguous := by decide
  accepted := rfl
  injective := by decide

theorem cuda_rmsNorm_agrees_twoRows : ∃ (out' : Int → ℚ) (l : Launch NormCell ℚ),
    cudaRmsNorm id 1 smallDevice twoRows.input.toTensor twoRows.weight.toTensor
        twoRows.out.toTensor = .ok (some (.kFloat32, l)) ∧
      ∀ rms, l.Ends (normMemory twoRows (fun o => o) (fun _ => 2) (fun _ => 0) rms)
        (fun final => ∀ o, final (.out o) = elementOf twoRows.out.toTensor out' o) := by
  have hreads : ∀ v ∈ twoRows.members.iterations, twoRows.ReadsInside v := by
    show ∀ v ∈ twoRows.members.iterations, ∀ k < twoRows.dim, _ ∈ _
    decide
  have hcpu := (RmsNormProblem.result_eq (x := twoRows) id 1 (fun o => (o : ℚ)) (fun _ _ => 2)
    (fun _ => 0) (by decide) (by decide)).trans
    (congrArg Except.ok (RmsNormProblem.compute_eq_storeAll id 1 _ _ hreads _))
  obtain ⟨l, hlaunch, -, hends⟩ := cuda_rmsNorm_agrees twoRows id 1 smallDevice (fun o => (o : ℚ))
    (fun _ _ => 2) (fun _ => 0) _ (by decide) rfl (by decide) (by decide) (by decide) (by decide)
    (by decide) hcpu
  exact ⟨_, l, hlaunch, hends⟩

end InfiniOps.Cuda
