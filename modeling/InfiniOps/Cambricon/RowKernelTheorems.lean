/-
InfiniOps.Cambricon.RowKernelTheorems — which elements of a row the Cambricon
kernel `RmsNorm` adds up.

A batch of fewer than 128 elements is summed one by one. A larger one is
summed in groups of 32, and what is left over is not read. Every batch but
the last is a multiple of 64, so that only the last one can lose elements
(`sumLoop_eq`), and the outputs are written in order, each once
(`normalizeLoop_eq`). `rowNormalized_iff` puts both together.
-/
import InfiniOps.Cambricon.RowKernel
import Mathlib.Algebra.Order.BigOperators.Group.Finset
import Mathlib.Algebra.Order.Field.Rat
import Mathlib.Algebra.Order.Ring.Defs
import Mathlib.Tactic.Ring

namespace InfiniOps.Cambricon

variable {K : Type*} [Field K]

/-! ## Scalar sums -/

theorem scalarSum_zero (f : Nat → K) : scalarSum f 0 = 0 := rfl

theorem scalarSum_succ (f : Nat → K) (n : Nat) : scalarSum f (n + 1) = scalarSum f n + f n := by
  simp [scalarSum, List.range_succ]

theorem scalarSum_eq_sum_range (f : Nat → K) (n : Nat) :
    scalarSum f n = ∑ i ∈ Finset.range n, f i := by
  induction n with
  | zero => rfl
  | succ n ih => rw [scalarSum_succ, Finset.sum_range_succ, ih]

theorem scalarSum_eq_sum (f : Nat → K) (n : Nat) :
    scalarSum f n = ((List.range n).map f).sum := by
  induction n with
  | zero => rfl
  | succ n ih => rw [scalarSum_succ, ih, List.sum_range_succ]

theorem scalarSum_congr {f g : Nat → K} {n : Nat} (h : ∀ i < n, f i = g i) :
    scalarSum f n = scalarSum g n := by
  simpa only [scalarSum_eq_sum_range] using
    Finset.sum_congr rfl fun i hi => h i (Finset.mem_range.mp hi)

/-- The elements before the `m`-th, and those from it on. -/
theorem scalarSum_add (f : Nat → K) (m n : Nat) :
    scalarSum f (m + n) = scalarSum f m + scalarSum (fun i => f (m + i)) n := by
  simp only [scalarSum_eq_sum_range, Finset.sum_range_add]

/-- Channel by channel, the groups are added up whole. -/
theorem scalarSum_channels (f : Nat → K) (channel width : Nat) :
    scalarSum (fun c => scalarSum (fun k => f (k * channel + c)) width) channel
      = scalarSum f (width * channel) := by
  induction width with
  | zero => simp [scalarSum_eq_sum_range]
  | succ width ih =>
    rw [Nat.succ_mul, scalarSum_add, ← ih]
    simp only [scalarSum_eq_sum_range, Finset.sum_range_succ, Finset.sum_add_distrib]

theorem scalarSum_eq_zero_iff [LinearOrder K] [IsStrictOrderedRing K] {f : Nat → K}
    (h : ∀ i, 0 ≤ f i) {n : Nat} : scalarSum f n = 0 ↔ ∀ i < n, f i = 0 := by
  rw [scalarSum_eq_sum_range, Finset.sum_eq_zero_iff_of_nonneg fun i _ => h i]
  simp

/-! ## One batch -/

/-- The elements of a batch that are summed. -/
def summed (count : Nat) : Nat := if 128 ≤ count then count / 32 * 32 else count

theorem sumpool_eq (dst src : Nat → K) (width : Nat) {c : Nat} (hc : c < 32) :
    bangSumpool dst src 32 1 width 1 width 1 1 c = scalarSum (fun k => src (k * 32 + c)) width := by
  have hgroup : c / 32 = 0 := Nat.div_eq_of_lt hc
  have hmod : c % 32 = c := Nat.mod_eq_of_lt hc
  simp [bangSumpool, hc, hgroup, hmod, scalarSum_succ, scalarSum_zero]

/-- From 4 groups on, the groups of 32. -/
theorem sumInternalValues_zero (dst src : Nat → K) {count : Nat} (h : 128 ≤ count) :
    sumInternalValues dst src count 0 = scalarSum src (count / 32 * 32) := by
  have hgroups : 4 ≤ count / 32 := by omega
  have hpool : ∀ c < 32, bangSumpool dst src 32 1 (count / 32) 1 (count / 32) 1 1 (0 + c)
      = scalarSum (fun k => src (k * 32 + c)) (count / 32) := by
    intro c hc
    rw [Nat.zero_add, sumpool_eq dst src _ hc]
  rw [← scalarSum_channels, ← scalarSum_congr hpool]
  simp [sumInternalValues, FloatType.size, hgroups, bangReduceSum]

section Row

variable {T TW : FloatType} {vectorSize : Nat} {x w : Nat → K}

theorem squareValues_floatBuffer (nram : Nram K) (processed : Nat) {count i : Nat} (hi : i < count) :
    (squareValues x nram processed count).floatBuffer i
      = x (processed + i) * x (processed + i) := by
  simp [squareValues, bangMul, copy, hi]

theorem batchSum_fst (nram : Nram K) (processed count : Nat) :
    (batchSum (squareValues x nram processed count) count).1
      = scalarSum (fun i => x (processed + i) * x (processed + i)) (summed count) := by
  unfold batchSum summed
  by_cases hlarge : 128 ≤ count
  · rw [if_pos hlarge, if_pos hlarge]
    refine (sumInternalValues_zero _ _ hlarge).trans ?_
    refine scalarSum_congr fun i hi => squareValues_floatBuffer nram processed ?_
    omega
  · rw [if_neg hlarge, if_neg hlarge]
    exact scalarSum_congr fun i hi => squareValues_floatBuffer nram processed hi

/-! ## The loops -/

variable (T TW) in
/-- The batch size is a multiple of 64, and no larger than the vector. -/
theorem maxBatchSize_spec (hn : 64 < vectorSize) :
    0 < maxBatchSize T TW vectorSize ∧ 64 ∣ maxBatchSize T TW vectorSize ∧
      maxBatchSize T TW vectorSize ≤ vectorSize := by
  rw [maxBatchSize, if_neg (by omega)]
  refine ⟨?_, Dvd.intro_left _ rfl, ?_⟩
  · cases T <;> cases TW <;> simp only [nramMaxSize, FloatType.size] <;> omega
  · exact Nat.le_trans (Nat.div_mul_le_self _ _) (Nat.min_le_right _ _)

variable (T TW vectorSize) in
/-- The end of what is summed: the last batch is the rest of the vector. -/
def summedEnd : Nat :=
  vectorSize - if 128 ≤ vectorSize % maxBatchSize T TW vectorSize then vectorSize % 32 else 0

variable (T TW vectorSize) in
theorem summedEnd_le : summedEnd T TW vectorSize ≤ vectorSize := Nat.sub_le _ _

theorem mod_eq_of_dvd {n m p : Nat} (hdvd : m ∣ p) (hle : p ≤ n) : (n - p) % m = n % m := by
  obtain ⟨k, rfl⟩ := hdvd
  exact Nat.sub_mul_mod hle

/-- A batch that is not the last one ends before the sum does. -/
theorem le_summedEnd (hn : 64 < vectorSize) {processed : Nat}
    (hdvd : maxBatchSize T TW vectorSize ∣ processed) (hle : processed ≤ vectorSize) :
    processed ≤ summedEnd T TW vectorSize := by
  obtain ⟨-, h64, -⟩ := maxBatchSize_spec T TW hn
  have hmod : vectorSize % maxBatchSize T TW vectorSize % 32 = vectorSize % 32 :=
    Nat.mod_mod_of_dvd _ (Nat.dvd_trans (by decide) h64)
  have hlast : processed ≤ vectorSize - vectorSize % maxBatchSize T TW vectorSize := by
    have hrest := mod_eq_of_dvd hdvd hle
    have hmod := Nat.mod_le (vectorSize - processed) (maxBatchSize T TW vectorSize)
    omega
  unfold summedEnd
  split <;> omega

/-- The last batch is what is left over. -/
theorem summed_last (hn : 64 < vectorSize) {processed : Nat}
    (hdvd : maxBatchSize T TW vectorSize ∣ processed) (hle : processed ≤ vectorSize)
    (hlast : vectorSize - processed < maxBatchSize T TW vectorSize) :
    summed (vectorSize - processed) = summedEnd T TW vectorSize - processed := by
  obtain ⟨-, h64, -⟩ := maxBatchSize_spec T TW hn
  have h32 : 32 ∣ processed := Nat.dvd_trans (by decide) (Nat.dvd_trans h64 hdvd)
  have hrest : vectorSize % maxBatchSize T TW vectorSize = vectorSize - processed := by
    rw [← mod_eq_of_dvd hdvd hle, Nat.mod_eq_of_lt hlast]
  unfold summed summedEnd
  rw [hrest]
  split <;> omega

theorem sumLoop_done {processed : Nat} (h : vectorSize ≤ processed) (fuel : Nat) (sum : K)
    (nram : Nram K) :
    sumLoop T TW vectorSize x fuel processed sum nram = some (sum, nram) := by
  cases fuel <;> rw [sumLoop, if_neg (by omega)]

variable (T TW x) in
/-- From the start of a batch on, everything up to the end is summed. -/
theorem sumLoop_eq (hn : 64 < vectorSize) (remaining : Nat) {processed : Nat} (sum : K)
    (nram : Nram K) (hdvd : maxBatchSize T TW vectorSize ∣ processed)
    (hle : processed ≤ vectorSize) (hremaining : vectorSize ≤ processed + remaining) :
    ∃ nram', ∀ fuel, vectorSize ≤ processed + fuel →
      sumLoop T TW vectorSize x fuel processed sum nram
        = some (sum + scalarSum (fun i => x (processed + i) * x (processed + i))
            (summedEnd T TW vectorSize - processed), nram') := by
  obtain ⟨hpos, h64, -⟩ := maxBatchSize_spec T TW hn
  have hle' := summedEnd_le T TW vectorSize
  induction remaining generalizing processed sum nram with
  | zero =>
    have hnone : summedEnd T TW vectorSize - processed = 0 := by omega
    refine ⟨nram, fun fuel _ => ?_⟩
    rw [sumLoop_done (by omega), hnone, scalarSum_zero, add_zero]
  | succ remaining ih =>
    rcases Nat.eq_or_lt_of_le hle with hdone | hmore
    · have hnone : summedEnd T TW vectorSize - processed = 0 := by omega
      refine ⟨nram, fun fuel _ => ?_⟩
      rw [sumLoop_done (by omega), hnone, scalarSum_zero, add_zero]
    · let currentBatch := min (maxBatchSize T TW vectorSize) (vectorSize - processed)
      let next := batchSum (squareValues x nram processed currentBatch) currentBatch
      have hnext : next.1
          = scalarSum (fun i => x (processed + i) * x (processed + i)) (summed currentBatch) :=
        batchSum_fst nram processed currentBatch
      have hstep : ∀ fuel, sumLoop T TW vectorSize x (fuel + 1) processed sum nram
          = sumLoop T TW vectorSize x fuel (processed + currentBatch) (sum + next.1) next.2 := by
        intro fuel
        rw [sumLoop, if_pos hmore]
      rcases Nat.lt_or_ge (vectorSize - processed) (maxBatchSize T TW vectorSize) with hlast | hfull
      · -- the last batch: what is left over after the groups is not read
        have hbatch : currentBatch = vectorSize - processed := Nat.min_eq_right hlast.le
        refine ⟨next.2, fun fuel hfuel => ?_⟩
        obtain ⟨fuel, rfl⟩ := Nat.exists_eq_add_one_of_ne_zero (show fuel ≠ 0 by omega)
        rw [hstep, sumLoop_done (by omega), hnext, hbatch, summed_last hn hdvd hle hlast]
      · have hbatch : currentBatch = maxBatchSize T TW vectorSize := Nat.min_eq_left hfull
        have hdvd' : maxBatchSize T TW vectorSize ∣ processed + currentBatch := by
          rw [hbatch]
          exact (Nat.dvd_add_right hdvd).mpr (Nat.dvd_refl _)
        have hend := le_summedEnd hn hdvd' (by omega)
        obtain ⟨nram', hrest⟩ := ih (sum + next.1) next.2 hdvd' (by omega) (by omega)
        refine ⟨nram', fun fuel hfuel => ?_⟩
        obtain ⟨fuel, rfl⟩ := Nat.exists_eq_add_one_of_ne_zero (show fuel ≠ 0 by omega)
        have hsplit : summedEnd T TW vectorSize - processed
            = currentBatch + (summedEnd T TW vectorSize - (processed + currentBatch)) := by omega
        have hwhole : summed currentBatch = currentBatch := by
          unfold summed
          split <;> omega
        rw [hstep, hrest fuel (by omega), hnext, hwhole, hsplit, scalarSum_add, add_assoc]
        simp only [Nat.add_assoc]

/-! ### Normalisation -/

theorem normalizeValues_fst (invRms : K) (nram : Nram K) (processed count : Nat) :
    (normalizeValues x w invRms nram processed count).1
      = (List.range count).map fun i =>
          (processed + i, x (processed + i) * w (processed + i) * invRms) := by
  refine List.map_congr_left fun i hi => ?_
  simp [copy, bangMul, bangMulScalar, List.mem_range.mp hi]

theorem normalizeLoop_done {invRms : K} {processed : Nat} (h : vectorSize ≤ processed) (fuel : Nat)
    (nram : Nram K) :
    normalizeLoop T TW vectorSize x w invRms fuel processed nram = some ([], nram) := by
  cases fuel <;> rw [normalizeLoop, if_neg (by omega)]

/-- From any position on, every output is written once, in order. -/
theorem normalizeLoop_eq (hpos : 0 < maxBatchSize T TW vectorSize) (invRms : K) (remaining : Nat)
    {processed : Nat} (nram : Nram K) (hremaining : vectorSize ≤ processed + remaining) :
    ∃ nram', ∀ fuel, vectorSize ≤ processed + fuel →
      normalizeLoop T TW vectorSize x w invRms fuel processed nram
        = some ((List.range (vectorSize - processed)).map fun i =>
            (processed + i, x (processed + i) * w (processed + i) * invRms), nram') := by
  induction remaining generalizing processed nram with
  | zero =>
    have hnone : vectorSize - processed = 0 := by omega
    refine ⟨nram, fun fuel _ => ?_⟩
    rw [normalizeLoop_done (by omega), hnone]
    rfl
  | succ remaining ih =>
    rcases Nat.lt_or_ge processed vectorSize with hmore | hdone
    · let currentBatch := min (maxBatchSize T TW vectorSize) (vectorSize - processed)
      let next := normalizeValues x w invRms nram processed currentBatch
      have hbatch : 0 < currentBatch := Nat.lt_min.mpr ⟨hpos, by omega⟩
      obtain ⟨nram', hrest⟩ := ih next.2
        (show vectorSize ≤ processed + currentBatch + remaining by omega)
      refine ⟨nram', fun fuel hfuel => ?_⟩
      obtain ⟨fuel, rfl⟩ := Nat.exists_eq_add_one_of_ne_zero (show fuel ≠ 0 by omega)
      have hsplit : vectorSize - processed
          = currentBatch + (vectorSize - (processed + currentBatch)) := by omega
      have hstep : normalizeLoop T TW vectorSize x w invRms (fuel + 1) processed nram
          = (normalizeLoop T TW vectorSize x w invRms fuel (processed + currentBatch) next.2).map
              fun rest => (next.1 ++ rest.1, rest.2) := by
        rw [normalizeLoop, if_pos hmore]
        change (normalizeLoop T TW vectorSize x w invRms fuel (processed + currentBatch) next.2).bind
          _ = _
        cases normalizeLoop T TW vectorSize x w invRms fuel (processed + currentBatch) next.2 <;> rfl
      rw [hstep, hrest fuel (by omega), Option.map_some, normalizeValues_fst, hsplit, List.range_add,
        List.map_append, List.map_map]
      simp only [Function.comp_def, Nat.add_assoc]
    · have hnone : vectorSize - processed = 0 := by omega
      refine ⟨nram, fun fuel _ => ?_⟩
      rw [normalizeLoop_done hdone, hnone]
      rfl

/-! ## The row -/

/-- A vector that is summed whole. -/
theorem summedEnd_of_le (hpos : 0 < vectorSize) (h : vectorSize ≤ 128) :
    summedEnd T TW vectorSize = vectorSize := by
  have hrest : vectorSize % maxBatchSize T TW vectorSize < 128 := by
    rcases Nat.lt_or_ge 64 vectorSize with hn | hsmall
    · obtain ⟨hbatch, -, hle⟩ := maxBatchSize_spec T TW hn
      have hlt := Nat.mod_lt vectorSize hbatch
      omega
    · rw [maxBatchSize, if_pos hsmall, Nat.mod_self]
      decide
  rw [summedEnd, if_neg (by omega), Nat.sub_zero]

variable (T TW x) in
theorem sumSquares_eq (hpos : 0 < vectorSize) (nram : Nram K) :
    ∃ nram', ∀ fuel, vectorSize ≤ fuel → sumSquares T TW vectorSize x fuel nram
      = some (scalarSum (fun j => x j * x j) (summedEnd T TW vectorSize), nram') := by
  unfold sumSquares
  by_cases hsmall : vectorSize ≤ 128
  · refine ⟨squareValues x nram 0 vectorSize, fun fuel _ => ?_⟩
    have hsum : scalarSum (squareValues x nram 0 vectorSize).floatBuffer vectorSize
        = scalarSum (fun j => x j * x j) vectorSize := by
      refine scalarSum_congr fun j hj => ?_
      rw [squareValues_floatBuffer nram 0 hj, Nat.zero_add]
    rw [if_pos hsmall, summedEnd_of_le hpos hsmall, ← hsum]
  · obtain ⟨nram', hloop⟩ := sumLoop_eq T TW x (by omega : 64 < vectorSize)
      vectorSize 0
      { nram with reductionBuffer := bangWriteValue nram.reductionBuffer reduceBufferSize 0 }
      (Nat.dvd_zero _) (Nat.zero_le _) (by omega)
    refine ⟨nram', fun fuel hfuel => ?_⟩
    rw [if_neg hsmall, hloop fuel (by omega)]
    simp

variable (T TW x w) in
theorem normalizeRow_eq (hpos : 0 < vectorSize) (invRms : K) (nram : Nram K) :
    ∃ nram', ∀ fuel, vectorSize ≤ fuel → normalizeRow T TW vectorSize x w invRms fuel nram
      = some ((List.range vectorSize).map fun j => (j, x j * w j * invRms), nram') := by
  unfold normalizeRow
  by_cases hwhole : vectorSize ≤ maxBatchSize T TW vectorSize
  · refine ⟨(normalizeValues x w invRms nram 0 vectorSize).2, fun fuel _ => ?_⟩
    have hfst := normalizeValues_fst (x := x) (w := w) invRms nram 0 vectorSize
    simp only [Nat.zero_add] at hfst
    rw [if_pos hwhole, ← hfst]
  · have hbatch : 0 < maxBatchSize T TW vectorSize := by
      rcases Nat.lt_or_ge 64 vectorSize with hn | hsmall
      · exact (maxBatchSize_spec T TW hn).1
      · rwa [maxBatchSize, if_pos hsmall]
    obtain ⟨nram', hloop⟩ := normalizeLoop_eq (x := x) (w := w) hbatch invRms vectorSize
      nram (show vectorSize ≤ 0 + vectorSize by omega)
    refine ⟨nram', fun fuel hfuel => ?_⟩
    rw [if_neg hwhole, hloop fuel (by omega)]
    simp

variable (T TW x w) in
/-- The kernel ends, writes every output once, and has summed the elements
before `summedEnd`. -/
theorem processRow_eq (hpos : 0 < vectorSize) (sqrtf : K → K) (epsilon : K) (nram : Nram K) :
    ∃ nram', ∀ fuel, vectorSize ≤ fuel →
      processRow T TW vectorSize x w sqrtf epsilon fuel nram
        = some (scalarSum (fun j => x j * x j) (summedEnd T TW vectorSize),
            (List.range vectorSize).map fun j => (j, x j * w j / sqrtf
              (scalarSum (fun j => x j * x j) (summedEnd T TW vectorSize) / vectorSize + epsilon)),
            nram') := by
  obtain ⟨nram₁, hsum⟩ := sumSquares_eq T TW x hpos nram
  generalize scalarSum (fun j => x j * x j) (summedEnd T TW vectorSize) = sumSquared at hsum ⊢
  obtain ⟨nram₂, hwrites⟩ := normalizeRow_eq T TW x w hpos
    (1 / sqrtf (sumSquared / vectorSize + epsilon)) nram₁
  refine ⟨nram₂, fun fuel hfuel => ?_⟩
  simp only [mul_one_div] at hwrites
  rw [processRow, hsum fuel hfuel]
  simp only [Option.bind_eq_bind, Option.bind_some]
  rw [hwrites fuel hfuel]
  rfl

end Row

section Exact

variable [LinearOrder K] [IsStrictOrderedRing K] (T TW : FloatType) {vectorSize : Nat}
  (x w : Nat → K)

/-- What is summed is all of it exactly if nothing that is dropped counts. -/
theorem scalarSum_summedEnd_iff :
    scalarSum (fun j => x j * x j) (summedEnd T TW vectorSize)
        = scalarSum (fun j => x j * x j) vectorSize ↔
      ∀ j, Dropped T TW vectorSize j → x j = 0 := by
  have hle := summedEnd_le T TW vectorSize
  have hsplit := scalarSum_add (fun j => x j * x j) (summedEnd T TW vectorSize)
    (vectorSize - summedEnd T TW vectorSize)
  rw [Nat.add_sub_cancel' hle] at hsplit
  rw [hsplit, left_eq_add, scalarSum_eq_zero_iff fun i => mul_self_nonneg _]
  simp only [mul_self_eq_zero]
  have hdropped : ∀ j, Dropped T TW vectorSize j ↔
      summedEnd T TW vectorSize ≤ j ∧ j < vectorSize := by
    intro j
    unfold Dropped summedEnd
    split <;> omega
  constructor
  · intro h j hj
    obtain ⟨hlo, hhi⟩ := (hdropped j).mp hj
    have hzero := h (j - summedEnd T TW vectorSize) (by omega)
    rwa [Nat.add_sub_cancel' hlo] at hzero
  · intro h i hi
    exact h _ ((hdropped _).mpr ⟨Nat.le_add_right _ _, by omega⟩)

omit [LinearOrder K] [IsStrictOrderedRing K] in
theorem rowNormalized_iff_sum (hpos : 0 < vectorSize) (sqrtf : K → K) (epsilon : K)
    (nram : Nram K) :
    RowNormalized T TW vectorSize x w sqrtf epsilon nram ↔
      scalarSum (fun j => x j * x j) (summedEnd T TW vectorSize)
        = scalarSum (fun j => x j * x j) vectorSize := by
  obtain ⟨nram', hrow⟩ := processRow_eq T TW x w hpos sqrtf epsilon nram
  constructor
  · rintro ⟨sumSquared, writes, nram'', hrun, hsum, -⟩
    have heq := (hrow vectorSize (Nat.le_refl _)).symm.trans (hrun vectorSize (Nat.le_refl _))
    have hfst := congrArg Prod.fst (Option.some.inj heq)
    rw [scalarSum_eq_sum (fun j => x j * x j) vectorSize, ← hsum]
    exact hfst
  · intro h
    exact ⟨_, _, nram', hrow, h.trans (scalarSum_eq_sum _ _), rfl⟩

/-- The row is normalised by the sum of all its squares exactly if the
elements that the last batch drops are zero. -/
theorem rowNormalized_iff (hpos : 0 < vectorSize) (sqrtf : K → K) (epsilon : K) (nram : Nram K) :
    RowNormalized T TW vectorSize x w sqrtf epsilon nram ↔
      ∀ j, Dropped T TW vectorSize j → x j = 0 := by
  rw [rowNormalized_iff_sum T TW x w hpos, scalarSum_summedEnd_iff]

end Exact

theorem dropped_15425 (j : Nat) : Dropped .float .float 15425 j ↔ j = 15424 := by
  have hbatch : maxBatchSize .float .float 15425 = 15296 := by decide
  rw [Dropped, hbatch]
  omega

/-- A `float` row of 15425 elements is normalised rightly if its last element
is 0: the batches are of 15296 and 129 elements. -/
theorem rowNormalized_last_zero :
    RowNormalized .float .float 15425 (fun j => if j = 15424 then (0 : ℚ) else 1) (fun _ => 1)
      (fun y => y) 1 ⟨fun _ => 0, fun _ => 0, fun _ => 0, fun _ => 0, fun _ => 0⟩ :=
  (rowNormalized_iff .float .float _ _ (by decide) _ _ _).mpr fun j hj =>
    if_pos ((dropped_15425 j).mp hj)

/-- The last element of a row of ones is not counted. -/
theorem ones_not_normalized :
    ¬ RowNormalized .float .float 15425 (fun _ => (1 : ℚ)) (fun _ => 1) (fun y => y) 1
      ⟨fun _ => 0, fun _ => 0, fun _ => 0, fun _ => 0, fun _ => 0⟩ := by
  rw [rowNormalized_iff_sum _ _ _ _ (by decide), scalarSum_summedEnd_iff]
  intro h
  exact one_ne_zero (h 15424 ((dropped_15425 15424).mpr rfl))

end InfiniOps.Cambricon
