/-
InfiniOps.Cambricon.RmsNormTheorems — when the on-chip memory of the
Cambricon kernel `RmsNorm` is used within its bounds (`nramSafe_iff`).

Two slips keep it from being always. The batch size is computed for two
buffers of the input type and one `float` buffer, while one and two are
carved out, so with a two-byte input type the last buffer ends beyond
NRAM for large vectors (`inside_iff`). And the batch size is rounded down
to a multiple of 64 while vectors of up to 128 elements are loaded whole,
so those between 64 and 128 overrun their buffers (`le_maxBatchSize_iff`).
-/
import InfiniOps.Cambricon.RmsNorm
import Mathlib.Tactic.Ring

namespace InfiniOps.Cambricon

variable (T TW : FloatType) (vectorSize : Nat)

/-! ## The property -/

/-- The instruction stays inside the buffers that it addresses. -/
def NramOp.Fits (op : NramOp) : Prop :=
  ∀ access ∈ op.accesses, access.2 ≤ bufferBytes T TW vectorSize access.1

/-- The buffers lie apart and inside NRAM, and on every core, for every
number of vectors, every instruction stays inside its buffers. -/
structure NramSafe : Prop where
  inside : ∀ b, (bufferRegion T TW vectorSize b).endAddr ≤ nramMaxSize
  disjoint : ∀ b b', b ≠ b' →
    (bufferRegion T TW vectorSize b).Disjoint (bufferRegion T TW vectorSize b')
  fits : ∀ batchVolume taskDim taskId, taskId < taskDim →
    ∃ ops, coreOps T TW vectorSize batchVolume taskDim taskId = some ops ∧
      ∀ op ∈ ops, op.Fits T TW vectorSize

/-! ## The layout -/

/-- The buffers in the order of their addresses. -/
def nramBuffers : List NramBuffer :=
  [.reductionBuffer, .inputCache, .weightCache, .floatBuffer, .weightFloatBuffer]

theorem mem_nramBuffers (b : NramBuffer) : b ∈ nramBuffers := by
  cases b <;> decide

theorem chain_bufferRegion :
    (nramBuffers.map (bufferRegion T TW vectorSize)).IsChain Region.Before := by
  simp [nramBuffers, Region.Before, Region.endAddr, bufferRegion, bufferBase, bufferBytes]

theorem bufferRegion_disjoint {b b' : NramBuffer} (h : b ≠ b') :
    (bufferRegion T TW vectorSize b).Disjoint (bufferRegion T TW vectorSize b') := by
  have hpairs := Region.pairwise_disjoint (chain_bufferRegion T TW vectorSize)
  rw [List.pairwise_map] at hpairs
  have hsymm : Std.Symm fun b b' =>
      (bufferRegion T TW vectorSize b).Disjoint (bufferRegion T TW vectorSize b') :=
    ⟨fun _ _ hdisj => hdisj.symm⟩
  exact hpairs.forall (mem_nramBuffers b) (mem_nramBuffers b') h

theorem inside_iff : (∀ b, (bufferRegion T TW vectorSize b).endAddr ≤ nramMaxSize) ↔
    128 + maxBatchSize T TW vectorSize * (T.size + TW.size + 8) ≤ nramMaxSize := by
  have hlast : (bufferRegion T TW vectorSize .weightFloatBuffer).endAddr
      = 128 + maxBatchSize T TW vectorSize * (T.size + TW.size + 8) := by
    simp only [bufferRegion, Region.endAddr, bufferBase, bufferBytes, reduceBufferSize,
      FloatType.size]
    ring
  constructor
  · intro h
    rw [← hlast]
    exact h _
  · intro h b
    have hend := Region.endAddr_le_getLast (chain_bufferRegion T TW vectorSize)
      (by simp [nramBuffers]) (List.mem_map_of_mem (mem_nramBuffers b))
    rw [← hlast] at h
    exact Nat.le_trans hend h

/-! ## Instructions -/

variable {T TW vectorSize}

theorem loadFloat_fits {t : FloatType} {dst src : NramBuffer} {count : Nat}
    (hdst : count * FloatType.float.size ≤ bufferBytes T TW vectorSize dst)
    (hsrc : count * t.size ≤ bufferBytes T TW vectorSize src) :
    (loadFloat t dst src count).Fits T TW vectorSize := by
  cases t <;> simp [loadFloat, NramOp.Fits, NramOp.accesses, hdst, hsrc]

theorem storeFloat_fits {t : FloatType} {dst src : NramBuffer} {count : Nat}
    (hdst : count * t.size ≤ bufferBytes T TW vectorSize dst)
    (hsrc : count * FloatType.float.size ≤ bufferBytes T TW vectorSize src) :
    (storeFloat t dst src count).Fits T TW vectorSize := by
  cases t <;> simp [storeFloat, NramOp.Fits, NramOp.accesses, hdst, hsrc]

theorem sumInternal_fits {count : Nat} (h : count ≤ maxBatchSize T TW vectorSize) :
    ∀ op ∈ sumInternal .reductionBuffer .floatBuffer count, op.Fits T TW vectorSize := by
  intro op hop
  unfold sumInternal at hop
  dsimp only at hop
  split at hop
  · have hread : 32 * (count / 32) ≤ maxBatchSize T TW vectorSize :=
      Nat.le_trans (Nat.mul_div_le count 32) h
    rw [List.mem_cons, List.mem_singleton] at hop
    obtain rfl | rfl := hop
    · simpa [NramOp.Fits, NramOp.accesses, bufferBytes, reduceBufferSize, FloatType.size]
        using hread
    · simp [NramOp.Fits, NramOp.accesses, bufferBytes, reduceBufferSize, FloatType.size]
  · cases hop

/-- A batch of at most the batch size is squared inside the buffers. -/
theorem squareBatch_fits {count : Nat} (h : count ≤ maxBatchSize T TW vectorSize) :
    ∀ op ∈ squareBatch T count, op.Fits T TW vectorSize := by
  have hbytes : ∀ t : FloatType, count * t.size ≤ maxBatchSize T TW vectorSize * t.size :=
    fun t => Nat.mul_le_mul_right _ h
  intro op hop
  simp only [squareBatch, List.mem_cons, List.not_mem_nil, or_false] at hop
  obtain rfl | rfl | rfl := hop
  · simpa [NramOp.Fits, NramOp.accesses, bufferBytes] using hbytes T
  · exact loadFloat_fits (hbytes _) (hbytes T)
  · simpa [NramOp.Fits, NramOp.accesses, bufferBytes] using hbytes .float

theorem normalizeBatch_fits {count : Nat} (h : count ≤ maxBatchSize T TW vectorSize) :
    ∀ op ∈ normalizeBatch T TW count, op.Fits T TW vectorSize := by
  have hbytes : ∀ t : FloatType, count * t.size ≤ maxBatchSize T TW vectorSize * t.size :=
    fun t => Nat.mul_le_mul_right _ h
  intro op hop
  simp only [normalizeBatch, List.mem_cons, List.not_mem_nil, or_false] at hop
  obtain rfl | rfl | rfl | rfl | rfl | rfl | rfl | rfl := hop
  · simpa [NramOp.Fits, NramOp.accesses, bufferBytes] using hbytes T
  · simpa [NramOp.Fits, NramOp.accesses, bufferBytes] using hbytes TW
  · exact loadFloat_fits (hbytes _) (hbytes T)
  · exact loadFloat_fits (hbytes _) (hbytes TW)
  · simpa [NramOp.Fits, NramOp.accesses, bufferBytes] using hbytes .float
  · simpa [NramOp.Fits, NramOp.accesses, bufferBytes] using hbytes .float
  · exact storeFloat_fits (hbytes T) (hbytes _)
  · simpa [NramOp.Fits, NramOp.accesses, bufferBytes] using hbytes T

/-! ## Loops -/

/-- A `while` loop ends within as many iterations as there are elements,
covers the vector, and no batch exceeds the batch size. -/
theorem batches_eq_some {maxBatch fuel processed : Nat} (hpos : 0 < maxBatch)
    (hfuel : vectorSize ≤ processed + fuel) :
    ∃ counts, batches vectorSize maxBatch fuel processed = some counts ∧
      counts.sum = vectorSize - processed ∧ ∀ count ∈ counts, count ≤ maxBatch := by
  induction fuel generalizing processed with
  | zero =>
    refine ⟨[], ?_, ?_, by simp⟩
    · rw [batches, if_neg (by omega)]
    · rw [List.sum_nil]
      omega
  | succ fuel ih =>
    by_cases hmore : processed < vectorSize
    · let currentBatch := min maxBatch (vectorSize - processed)
      have hbatch : 0 < currentBatch := Nat.lt_min.mpr ⟨hpos, by omega⟩
      have hle : currentBatch ≤ vectorSize - processed := Nat.min_le_right _ _
      have hfuel' : vectorSize ≤ processed + currentBatch + fuel := by omega
      obtain ⟨rest, hrest, hsum, hall⟩ := ih hfuel'
      refine ⟨currentBatch :: rest, ?_, ?_, ?_⟩
      · rw [batches, if_pos hmore]
        show (batches vectorSize maxBatch fuel (processed + currentBatch)).bind _ = _
        rw [hrest]
        rfl
      · rw [List.sum_cons, hsum]
        omega
      · intro count hcount
        rcases List.mem_cons.mp hcount with rfl | hcount
        · exact Nat.min_le_left _ _
        · exact hall count hcount
    · refine ⟨[], ?_, ?_, by simp⟩
      · rw [batches, if_neg hmore]
      · rw [List.sum_nil]
        omega

variable (T TW) in
/-- The whole loop, where it is entered. -/
theorem batches_maxBatchSize (hn : 64 < vectorSize) :
    ∃ counts, batches vectorSize (maxBatchSize T TW vectorSize) vectorSize 0 = some counts ∧
      ∀ count ∈ counts, count ≤ maxBatchSize T TW vectorSize := by
  have hpos : 0 < maxBatchSize T TW vectorSize := by
    rw [maxBatchSize, if_neg (by omega)]
    cases T <;> cases TW <;> simp only [nramMaxSize, FloatType.size] <;> omega
  have hfuel : vectorSize ≤ 0 + vectorSize := by omega
  obtain ⟨counts, hcounts, -, hall⟩ := batches_eq_some hpos hfuel
  exact ⟨counts, hcounts, hall⟩

theorem sumOfSquares_fits (hwhole : vectorSize ≤ 128 → vectorSize ≤ maxBatchSize T TW vectorSize) :
    ∃ ops, sumOfSquares T TW vectorSize = some ops ∧ ∀ op ∈ ops, op.Fits T TW vectorSize := by
  by_cases hsmall : vectorSize ≤ 128
  · exact ⟨_, if_pos hsmall, squareBatch_fits (hwhole hsmall)⟩
  · obtain ⟨counts, hcounts, hall⟩ := batches_maxBatchSize T TW (by omega : 64 < vectorSize)
    refine ⟨_, by rw [sumOfSquares, if_neg hsmall, hcounts]; rfl, ?_⟩
    intro op hop
    rcases List.mem_cons.mp hop with rfl | hop
    · simp [NramOp.Fits, NramOp.accesses, bufferBytes]
    · obtain ⟨count, hcount, hop⟩ := List.mem_flatMap.mp hop
      have hle := hall count hcount
      rcases List.mem_append.mp hop with hop | hop
      · exact squareBatch_fits hle op hop
      · split at hop
        · exact sumInternal_fits hle op hop
        · cases hop

variable (T TW vectorSize) in
theorem normalize_fits :
    ∃ ops, normalize T TW vectorSize = some ops ∧ ∀ op ∈ ops, op.Fits T TW vectorSize := by
  by_cases hsmall : vectorSize ≤ maxBatchSize T TW vectorSize
  · exact ⟨_, if_pos hsmall, normalizeBatch_fits hsmall⟩
  · have hn : 64 < vectorSize := by
      by_contra hle
      rw [maxBatchSize, if_pos (by omega)] at hsmall
      omega
    obtain ⟨counts, hcounts, hall⟩ := batches_maxBatchSize T TW hn
    refine ⟨_, by rw [normalize, if_neg hsmall, hcounts]; rfl, ?_⟩
    intro op hop
    obtain ⟨count, hcount, hop⟩ := List.mem_flatMap.mp hop
    exact normalizeBatch_fits (hall count hcount) op hop

/-- The loop over the vectors repeats one vector's instructions. -/
theorem taskLoop_fits (hwhole : vectorSize ≤ 128 → vectorSize ≤ maxBatchSize T TW vectorSize)
    (tasks : Nat) : ∃ ops, taskLoop T TW vectorSize tasks = some ops ∧
      ∀ op ∈ ops, op.Fits T TW vectorSize := by
  obtain ⟨squares, hsquares, hfits⟩ := sumOfSquares_fits hwhole
  obtain ⟨normalized, hnormalized, hfits'⟩ := normalize_fits T TW vectorSize
  induction tasks with
  | zero => exact ⟨[], rfl, by simp⟩
  | succ tasks ih =>
    obtain ⟨rest, hrest, hall⟩ := ih
    refine ⟨squares ++ normalized ++ rest, ?_, ?_⟩
    · rw [taskLoop, taskOps, hsquares, hnormalized, hrest]
      rfl
    · intro op hop
      rw [List.mem_append, List.mem_append] at hop
      obtain (hop | hop) | hop := hop
      · exact hfits op hop
      · exact hfits' op hop
      · exact hall op hop

/-! ## When the kernel is safe -/

variable (T TW vectorSize) in
/-- A vector that is loaded whole fits its buffers exactly if it is not
rounded down. -/
theorem le_maxBatchSize_iff :
    (vectorSize ≤ 128 → vectorSize ≤ maxBatchSize T TW vectorSize) ↔
      vectorSize ≤ 64 ∨ 128 ≤ vectorSize := by
  unfold maxBatchSize
  split
  · omega
  · cases T <;> cases TW <;> simp only [nramMaxSize, FloatType.size] <;> omega

variable (T TW vectorSize) in
theorem layout_iff :
    128 + maxBatchSize T TW vectorSize * (T.size + TW.size + 8) ≤ nramMaxSize ↔
      T = .float ∨ vectorSize < if TW = .float then 17600 else 20480 := by
  unfold maxBatchSize
  split
  · cases T <;> cases TW <;> simp [nramMaxSize, FloatType.size] <;> omega
  · cases T <;> cases TW <;> simp [nramMaxSize, FloatType.size] <;> omega

/-- On a core with one vector, a safe kernel loads no more than fits. -/
theorem NramSafe.le_maxBatchSize (h : NramSafe T TW vectorSize) (hsmall : vectorSize ≤ 128) :
    vectorSize ≤ maxBatchSize T TW vectorSize := by
  obtain ⟨ops, hops, hfits⟩ := h.fits 1 1 0 (by decide)
  obtain ⟨normalized, hnormalized, -⟩ := normalize_fits T TW vectorSize
  have hrun : coreOps T TW vectorSize 1 1 0
      = some (squareBatch T vectorSize ++ normalized ++ []) := by
    show taskLoop T TW vectorSize 1 = _
    rw [taskLoop, taskOps, sumOfSquares, if_pos hsmall, hnormalized]
    rfl
  obtain rfl : squareBatch T vectorSize ++ normalized ++ [] = ops :=
    Option.some.inj (hrun.symm.trans hops)
  have hload : NramOp.load .inputCache (vectorSize * T.size) ∈
      squareBatch T vectorSize ++ normalized ++ [] := by
    simp [squareBatch]
  have hbytes : vectorSize * T.size ≤ maxBatchSize T TW vectorSize * T.size :=
    hfits _ hload (.inputCache, vectorSize * T.size) (List.mem_singleton_self _)
  have hsize : 0 < T.size := by cases T <;> decide
  exact Nat.le_of_mul_le_mul_right hbytes hsize

/-- The kernel uses its on-chip memory within bounds exactly for vectors that
are not rounded down below their size and, with a two-byte input type, not
too large for the second `float` buffer. -/
theorem nramSafe_iff (T TW : FloatType) (vectorSize : Nat) :
    NramSafe T TW vectorSize ↔
      (vectorSize ≤ 64 ∨ 128 ≤ vectorSize) ∧
        (T = .float ∨ vectorSize < if TW = .float then 17600 else 20480) := by
  constructor
  · intro h
    exact ⟨(le_maxBatchSize_iff T TW vectorSize).mp h.le_maxBatchSize,
      (layout_iff T TW vectorSize).mp ((inside_iff T TW vectorSize).mp h.inside)⟩
  · rintro ⟨hwhole, hlayout⟩
    exact
      { inside := (inside_iff T TW vectorSize).mpr ((layout_iff T TW vectorSize).mpr hlayout)
        disjoint := fun _ _ hne => bufferRegion_disjoint T TW vectorSize hne
        fits := fun batchVolume taskDim taskId _ =>
          taskLoop_fits ((le_maxBatchSize_iff T TW vectorSize).mpr hwhole) _ }

/-- A `half` vector of 100 elements is loaded into a cache of 64, one of 20480
elements ends the last buffer 128 bytes beyond NRAM, and with a `float` weight
17600 elements are too many. -/
theorem half_vectors_leave_nram :
    ¬ NramSafe .half .half 100 ∧ ¬ NramSafe .half .half 20480 ∧ ¬ NramSafe .half .float 17600 := by
  refine ⟨?_, ?_, ?_⟩
  · intro h
    exact absurd (h.le_maxBatchSize (by decide)) (by decide)
  · intro h
    exact absurd (h.inside .weightFloatBuffer) (by decide)
  · intro h
    exact absurd (h.inside .weightFloatBuffer) (by decide)

end InfiniOps.Cambricon
