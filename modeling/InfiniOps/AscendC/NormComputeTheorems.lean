/-
InfiniOps.AscendC.NormComputeTheorems — the AscendC kernels `RmsNorm` and
`AddRmsNorm` compute the reference, however the rows are split.

From the instructions up: the end of the four `Compute` paths is one
(`normalise_out`), and each leaves the normalised row in its output tensor
(`computeFp32_out` …), whatever the tensors held before and whatever
`ReduceSum` destroys; one iteration of `Process` writes one row of global
memory (`processRow_spec`); all blocks together write a list of rows
(`runBlocks_eq`), and the host's split makes that list
`0, …, total_rows - 1` (`Splits.flatMap_rowsOf`).
-/
import InfiniOps.AscendC.LaunchTheorems
import InfiniOps.AscendC.NormCompute
import Mathlib.Algebra.BigOperators.Group.Finset.Basic
import Mathlib.Algebra.Field.Rat
import Mathlib.Tactic.FieldSimp
import Mathlib.Tactic.Ring

namespace InfiniOps.AscendC

open RowSplit

/-! ## Instructions -/

section Vector

variable {K : Type}

theorem vector_self {dst : LocalTensor} {n i : Nat} (hi : i < n) (f : Nat → K) (m : LocalMem K) :
    vector dst n f m dst i = f i := by
  simp [vector, hi]

theorem vector_of_ne {dst t : LocalTensor} (h : t ≠ dst) (n : Nat) (f : Nat → K)
    (m : LocalMem K) : vector dst n f m t = m t := by
  simp [vector, h]

variable [Field K] (v : VectorUnit K)

theorem reduceSum_of_ne {src tmp t : LocalTensor} (hsum : t ≠ .sumBuf) (hsrc : t ≠ src)
    (htmp : t ≠ tmp) (n : Nat) (m : LocalMem K) : reduceSum v .sumBuf src tmp n m t = m t := by
  simp [reduceSum, hsum, hsrc, htmp]

variable (eps : K) (len : Lengths)

/-- The factor that both kernels apply to the row `x`. -/
def scale (x : Nat → K) : K :=
  1 / v.sqrt ((∑ i ∈ Finset.range len.dimLenAlign, x i * x i) / len.dimLen + eps)

theorem scale_congr {x y : Nat → K} (h : ∀ i < len.dimLenAlign, x i = y i) :
    scale v eps len x = scale v eps len y := by
  have hsum : ∑ i ∈ Finset.range len.dimLenAlign, x i * x i
      = ∑ i ∈ Finset.range len.dimLenAlign, y i * y i := by
    refine Finset.sum_congr rfl ?_
    intro i hi
    rw [h i (Finset.mem_range.mp hi)]
  rw [scale, scale, hsum]

theorem scaleFromSum_of_ne (m : LocalMem K) {t : LocalTensor} (h : t ≠ .sumBuf) :
    (scaleFromSum v eps len m).2 t = m t := by
  simp [scaleFromSum, sqrt, setValue, vector, h]

/-- Reducing the squares of `x` gives the scale of `x`, wherever they lie. -/
theorem scaleFromSum_reduceSum {src tmp : LocalTensor} {x : Nat → K} {m : LocalMem K}
    (h : ∀ i < len.dimLenAlign, m src i = x i * x i) :
    (scaleFromSum v eps len (reduceSum v .sumBuf src tmp len.dimLenAlign m)).1
      = scale v eps len x := by
  have hsum : ∑ i ∈ Finset.range len.dimLenAlign, m src i
      = ∑ i ∈ Finset.range len.dimLenAlign, x i * x i :=
    Finset.sum_congr rfl fun i hi => h i (Finset.mem_range.mp hi)
  simp [scaleFromSum, scale, reduceSum, sqrt, setValue, vector, hsum]

/-- The row that both kernels leave in `out`. -/
def normRow (x w : Nat → K) (c : Nat) : K := x c * scale v eps len x * w c

theorem normRow_congr {x y w w' : Nat → K} (hx : ∀ i < len.dimLenAlign, x i = y i)
    (hw : ∀ i < len.dimLenAlign, w i = w' i) {c : Nat} (hc : c < len.dimLenAlign) :
    normRow v eps len x w c = normRow v eps len y w' c := by
  rw [normRow, normRow, hx c hc, hw c hc, scale_congr v eps len hx]

/-- The end of every path: `dst` has the squares of the row in `src`, and
becomes the normalised row. -/
theorem normalise_out {dst src : LocalTensor} {x w : Nat → K} {m : LocalMem K}
    (hdst : dst ∉ [.weightBuf, .reduceTmpBuf, .sumBuf]) (hsrc : src ∉ [dst, .reduceTmpBuf, .sumBuf])
    (hsquares : ∀ i < len.dimLenAlign, m dst i = x i * x i)
    (hrow : ∀ i < len.dimLenAlign, m src i = x i) (hweight : m .weightBuf = w) {c : Nat}
    (hc : c < len.dimLenAlign) :
    let scaled := scaleFromSum v eps len (reduceSum v .sumBuf dst .reduceTmpBuf len.dimLenAlign m)
    mul dst dst .weightBuf len.dimLenAlign (muls dst src scaled.1 len.dimLenAlign scaled.2) dst c
      = normRow v eps len x w c := by
  simp only [List.mem_cons, List.not_mem_nil, or_false, not_or] at hdst hsrc
  have hkept : ∀ t : LocalTensor, t ≠ .sumBuf → t ≠ dst → t ≠ .reduceTmpBuf →
      (scaleFromSum v eps len
        (reduceSum v .sumBuf dst .reduceTmpBuf len.dimLenAlign m)).2 t = m t := by
    intro t hsum ht htmp
    rw [scaleFromSum_of_ne v eps len _ hsum, reduceSum_of_ne v hsum ht htmp]
  dsimp only
  rw [mul, vector_self hc, muls, vector_self hc, vector_of_ne (Ne.symm hdst.1),
    scaleFromSum_reduceSum v eps len hsquares, hkept src hsrc.2.2 hsrc.1 hsrc.2.1, hrow c hc,
    hkept .weightBuf (by decide) (Ne.symm hdst.1) (by decide), hweight]
  rfl

end Vector

/-! ## The four paths of `Compute` -/

section Compute

variable {K : Type} [Field K] (v : VectorUnit K) (eps : K) (len : Lengths) (m : LocalMem K)
variable (i i' j j' : Nat) {c : Nat}

namespace KernelRmsNorm

theorem computeFp32_out (hc : c < len.dimLenAlign) :
    computeFp32 v eps len (.que .input i) (.que .out j) m (.que .out j) c
      = normRow v eps len (m (.que .input i)) (m .weightBuf) c := by
  refine normalise_out v eps len (by simp) (by simp) ?_ ?_ ?_ hc
  · intro k hk
    exact vector_self hk _ m
  · intro k _
    rw [mul, vector_of_ne (by simp)]
  · rw [mul, vector_of_ne (by simp)]

theorem computeFp16_out (hc : c < len.dimLenAlign) :
    computeFp16 v eps len (.que .input i) (.que .out j) m (.que .out j) c
      = normRow v eps len (m (.que .input i)) (m .weightBuf) c := by
  refine (vector_self hc _ _).trans
    (normalise_out v eps len (by decide) (by decide) ?_ ?_ ?_ hc)
  · intro k hk
    rw [mul, vector_self hk, cast, vector_self hk]
  · intro k hk
    rw [mul, vector_of_ne (by decide), cast, vector_self hk]
  · rw [mul, vector_of_ne (by decide), cast, vector_of_ne (by decide)]

variable (T : ElemType)

/-- Both paths leave the normalised row in the output tensor. -/
theorem computeLocal_out (hc : c < len.dimLenAlign) :
    computeLocal v eps len T (.que .input i) (.que .out j) m (.que .out j) c
      = normRow v eps len (m (.que .input i)) (m .weightBuf) c := by
  unfold computeLocal
  split
  · exact computeFp32_out v eps len m i j hc
  · exact computeFp16_out v eps len m i j hc

/-- Neither path touches the weight. -/
theorem computeLocal_weight :
    computeLocal v eps len T (.que .input i) (.que .out j) m .weightBuf = m .weightBuf := by
  unfold computeLocal
  split
  · simp [computeFp32, mul, muls, vector_of_ne, scaleFromSum_of_ne, reduceSum_of_ne]
  · simp [computeFp16, mul, muls, cast, vector_of_ne, scaleFromSum_of_ne, reduceSum_of_ne]

end KernelRmsNorm

namespace KernelAddRmsNorm

theorem computeFp32_out (hc : c < len.dimLenAlign) :
    computeFp32 v eps len (.que .input i) (.que .residual i') (.que .out j) (.que .residualOut j')
        m (.que .out j) c
      = normRow v eps len (fun k => m (.que .input i) k + m (.que .residual i') k)
          (m .weightBuf) c := by
  refine normalise_out v eps len (by simp) (by simp) ?_ ?_ ?_ hc
  · intro k hk
    rw [mul, vector_self hk, add, vector_self hk]
  · intro k hk
    rw [mul, vector_of_ne (by simp), add, vector_self hk]
  · rw [mul, vector_of_ne (by simp), add, vector_of_ne (by simp)]

theorem computeFp32_residualOut (hc : c < len.dimLenAlign) :
    computeFp32 v eps len (.que .input i) (.que .residual i') (.que .out j) (.que .residualOut j')
        m (.que .residualOut j') c
      = m (.que .input i) c + m (.que .residual i') c := by
  simp [computeFp32, mul, muls, add, vector_of_ne, scaleFromSum_of_ne, reduceSum_of_ne,
    vector_self hc]

theorem computeFp16_out (hc : c < len.dimLenAlign) :
    computeFp16 v eps len (.que .input i) (.que .residual i') (.que .out j) (.que .residualOut j')
        m (.que .out j) c
      = normRow v eps len (fun k => m (.que .input i) k + m (.que .residual i') k)
          (m .weightBuf) c := by
  refine (vector_self hc _ _).trans
    (normalise_out v eps len (by decide) (by decide) ?_ ?_ ?_ hc)
  · intro k hk
    simp [mul, add, cast, vector_of_ne, vector_self hk]
  · intro k hk
    simp [mul, add, cast, vector_of_ne, vector_self hk]
  · simp [mul, add, cast, vector_of_ne]

theorem computeFp16_residualOut (hc : c < len.dimLenAlign) :
    computeFp16 v eps len (.que .input i) (.que .residual i') (.que .out j) (.que .residualOut j')
        m (.que .residualOut j') c
      = m (.que .input i) c + m (.que .residual i') c := by
  simp [computeFp16, mul, muls, add, cast, vector_of_ne, scaleFromSum_of_ne, reduceSum_of_ne,
    vector_self hc]

variable (T : ElemType)

theorem computeLocal_out (hc : c < len.dimLenAlign) :
    computeLocal v eps len T (.que .input i) (.que .residual i') (.que .out j)
        (.que .residualOut j') m (.que .out j) c
      = normRow v eps len (fun k => m (.que .input i) k + m (.que .residual i') k)
          (m .weightBuf) c := by
  unfold computeLocal
  split
  · exact computeFp32_out v eps len m i i' j j' hc
  · exact computeFp16_out v eps len m i i' j j' hc

theorem computeLocal_residualOut (hc : c < len.dimLenAlign) :
    computeLocal v eps len T (.que .input i) (.que .residual i') (.que .out j)
        (.que .residualOut j') m (.que .residualOut j') c
      = m (.que .input i) c + m (.que .residual i') c := by
  unfold computeLocal
  split
  · exact computeFp32_residualOut v eps len m i i' j j' hc
  · exact computeFp16_residualOut v eps len m i i' j j' hc

theorem computeLocal_weight :
    computeLocal v eps len T (.que .input i) (.que .residual i') (.que .out j)
        (.que .residualOut j') m .weightBuf = m .weightBuf := by
  unfold computeLocal
  split
  · simp [computeFp32, mul, muls, add, vector_of_ne, scaleFromSum_of_ne, reduceSum_of_ne]
  · simp [computeFp16, mul, muls, add, cast, vector_of_ne, scaleFromSum_of_ne, reduceSum_of_ne]

end KernelAddRmsNorm

end Compute

/-! ## One row -/

section Row

variable {K : Type}

/-- Between two rows a queue has nothing enqueued and a buffer to give. -/
def TQue.Idle (q : TQue) : Prop := q.queued = [] ∧ q.free ≠ []

theorem TQue.Idle.cases {q : TQue} (h : q.Idle) : ∃ i free, q = ⟨i :: free, []⟩ := by
  obtain ⟨free, queued⟩ := q
  obtain ⟨rfl, hfree⟩ := h
  obtain ⟨i, free, rfl⟩ := List.exists_cons_of_ne_nil hfree
  exact ⟨i, free, rfl⟩

/-- The state between two rows: idle queues, and the weight in its buffer. -/
structure BlockState.Ready (n : Nat) (w : Nat → K) (s : BlockState K) : Prop where
  idle : ∀ g, (s.que g).Idle
  weight : ∀ c < n, s.mem .weightBuf c = w c

/-- The elements of each operand from `offset` on. -/
def valuesAt (gm : Gm K) (offset : Nat) (g : Operand) (c : Nat) : K := (gm g (offset + c)).value

/-- Write a row of the operands `outs`. -/
def storeRow (outs : List Operand) (offset n : Nat) (f : Operand → Nat → K) (gm : Gm K) : Gm K :=
  fun g => if g ∈ outs then writeCells offset n (f g) (gm g) else gm g

theorem writeCells_congr {offset n : Nat} {f f' : Nat → K} (h : ∀ c < n, f c = f' c)
    (cells : Nat → Cell K) : writeCells offset n f cells = writeCells offset n f' cells := by
  funext j
  unfold writeCells
  split
  · rw [h _ (by omega)]
  · rfl

/-- What an iteration of `Process` has to do: write the row that `result`
gives for the operands' rows, and be ready for the next one. -/
def RowStep (kernel : NormKernel) (n : Nat) (w : Nat → K)
    (result : (Operand → Nat → K) → Operand → Nat → K)
    (processRow : Nat → BlockState K → Option (BlockState K)) : Prop :=
  ∀ offset s, s.Ready n w → ∃ s', processRow offset s = some s' ∧ s'.Ready n w ∧
    s'.gm = storeRow kernel.outs offset n (result (valuesAt s.gm offset)) s.gm

variable [Field K] (v : VectorUnit K) (eps : K) (len : Lengths) (T : ElemType)

namespace KernelRmsNorm

/-- One iteration, with the buffers that the queues hand out. -/
theorem processRow_run (offset : Nat) {s : BlockState K} (h : ∀ g, (s.que g).Idle) :
    ∃ i j que, (∀ g, (que g).Idle) ∧
      let m := vector (.que .input i) len.rowLen (valuesAt s.gm offset .input) s.mem
      let m' := computeLocal v eps len T (.que .input i) (.que .out j) m
      processRow v eps len T offset s = some ⟨que, m', Function.update s.gm .out
        (writeCells offset len.rowLen (m' (.que .out j)) (s.gm .out))⟩ := by
  obtain ⟨i, free, hin⟩ := (h .input).cases
  obtain ⟨j, outFree, hout⟩ := (h .out).cases
  refine ⟨i, j, ?_⟩
  simp only [processRow, copyIn, compute, copyOut, BlockState.allocTensor, BlockState.deQue,
    BlockState.enQue, BlockState.freeTensor, BlockState.copyFromGm, BlockState.copyToGm]
  simp only [hin, hout, Function.update_self, Function.update_idem, ne_eq, reduceCtorEq,
    not_false_eq_true, Function.update_of_ne, List.nil_append, Option.bind_eq_bind,
    Option.bind_some, Option.pure_def]
  refine ⟨_, ?_, rfl⟩
  intro g
  cases g with
  | input => simp [TQue.Idle]
  | out => simp [TQue.Idle]
  | residual => simpa using h .residual
  | weight => simpa using h .weight
  | residualOut => simpa using h .residualOut

/-- The row that the kernel writes. -/
def result (w : Nat → K) (x : Operand → Nat → K) (_ : Operand) : Nat → K :=
  normRow v eps len (x .input) w

theorem processRow_spec (hlen : len.rowLen = len.dimLenAlign) (w : Nat → K) :
    RowStep kernelRmsNorm len.dimLenAlign w (result v eps len w) (processRow v eps len T) := by
  intro offset s hs
  obtain ⟨i, j, que, hidle, hrun⟩ := processRow_run v eps len T offset hs.idle
  rw [hlen] at hrun
  let m := vector (.que .input i) len.dimLenAlign (valuesAt s.gm offset .input) s.mem
  have hweight : ∀ c < len.dimLenAlign, m .weightBuf c = w c := by
    intro c hc
    rw [← hs.weight c hc]
    simp [m, vector_of_ne]
  refine ⟨_, hrun, ⟨hidle, ?_⟩, ?_⟩
  · have hkept := computeLocal_weight v eps len m i j T
    intro c hc
    exact (congrFun hkept c).trans (hweight c hc)
  · have hout : ∀ c < len.dimLenAlign,
        computeLocal v eps len T (.que .input i) (.que .out j) m (.que .out j) c
          = result v eps len w (valuesAt s.gm offset) .out c := by
      intro c hc
      rw [computeLocal_out v eps len m i j T hc]
      exact normRow_congr v eps len (fun k hk => vector_self hk _ _) hweight hc
    funext g
    show Function.update _ _ _ _ = _
    rw [storeRow]
    by_cases hg : g = .out
    · rw [hg, Function.update_self, if_pos (by decide), writeCells_congr hout]
    · have hnot : g ∉ kernelRmsNorm.outs := by simpa [kernelRmsNorm] using hg
      rw [Function.update_of_ne hg, if_neg hnot]

end KernelRmsNorm

namespace KernelAddRmsNorm

/-- One iteration, with the buffers that the queues hand out. -/
theorem processRow_run (offset : Nat) {s : BlockState K} (h : ∀ g, (s.que g).Idle) :
    ∃ i i' j j' que, (∀ g, (que g).Idle) ∧
      let m := vector (.que .residual i') len.rowLen (valuesAt s.gm offset .residual)
        (vector (.que .input i) len.rowLen (valuesAt s.gm offset .input) s.mem)
      let m' := computeLocal v eps len T (.que .input i) (.que .residual i') (.que .out j)
        (.que .residualOut j') m
      processRow v eps len T offset s = some ⟨que, m', Function.update (Function.update s.gm .out
          (writeCells offset len.rowLen (m' (.que .out j)) (s.gm .out))) .residualOut
        (writeCells offset len.rowLen (m' (.que .residualOut j')) (s.gm .residualOut))⟩ := by
  obtain ⟨i, free, hin⟩ := (h .input).cases
  obtain ⟨i', residualFree, hresidual⟩ := (h .residual).cases
  obtain ⟨j, outFree, hout⟩ := (h .out).cases
  obtain ⟨j', residualOutFree, hresidualOut⟩ := (h .residualOut).cases
  refine ⟨i, i', j, j', ?_⟩
  simp only [processRow, copyIn, compute, copyOut, BlockState.allocTensor, BlockState.deQue,
    BlockState.enQue, BlockState.freeTensor, BlockState.copyFromGm, BlockState.copyToGm]
  simp only [hin, hresidual, hout, hresidualOut, Function.update_self, ne_eq, reduceCtorEq,
    not_false_eq_true, Function.update_of_ne, List.nil_append, Option.bind_eq_bind,
    Option.bind_some, Option.pure_def]
  refine ⟨_, ?_, rfl⟩
  intro g
  cases g with
  | input => simp [TQue.Idle]
  | residual => simp [TQue.Idle]
  | weight => simpa using h .weight
  | out => simp [TQue.Idle]
  | residualOut => simp [TQue.Idle]

/-- The rows that the kernel writes. -/
def result (w : Nat → K) (x : Operand → Nat → K) (g : Operand) : Nat → K :=
  if g = .residualOut then fun c => x .input c + x .residual c
  else normRow v eps len (fun c => x .input c + x .residual c) w

theorem processRow_spec (hlen : len.rowLen = len.dimLenAlign) (w : Nat → K) :
    RowStep kernelAddRmsNorm len.dimLenAlign w (result v eps len w) (processRow v eps len T) := by
  intro offset s hs
  obtain ⟨i, i', j, j', que, hidle, hrun⟩ := processRow_run v eps len T offset hs.idle
  rw [hlen] at hrun
  let m := vector (.que .residual i') len.dimLenAlign (valuesAt s.gm offset .residual)
    (vector (.que .input i) len.dimLenAlign (valuesAt s.gm offset .input) s.mem)
  have hweight : ∀ c < len.dimLenAlign, m .weightBuf c = w c := by
    intro c hc
    rw [← hs.weight c hc]
    simp [m, vector_of_ne]
  have hinput : ∀ c < len.dimLenAlign,
      m (.que .input i) c + m (.que .residual i') c
        = valuesAt s.gm offset .input c + valuesAt s.gm offset .residual c := by
    intro c hc
    simp [m, vector_of_ne, vector_self hc]
  refine ⟨_, hrun, ⟨hidle, ?_⟩, ?_⟩
  · have hkept := computeLocal_weight v eps len m i i' j j' T
    intro c hc
    exact (congrFun hkept c).trans (hweight c hc)
  · have hout : ∀ c < len.dimLenAlign,
        computeLocal v eps len T (.que .input i) (.que .residual i') (.que .out j)
            (.que .residualOut j') m (.que .out j) c
          = result v eps len w (valuesAt s.gm offset) .out c := by
      intro c hc
      rw [computeLocal_out v eps len m i i' j j' T hc]
      exact normRow_congr v eps len hinput hweight hc
    have hresidualOut : ∀ c < len.dimLenAlign,
        computeLocal v eps len T (.que .input i) (.que .residual i') (.que .out j)
            (.que .residualOut j') m (.que .residualOut j') c
          = result v eps len w (valuesAt s.gm offset) .residualOut c := by
      intro c hc
      rw [computeLocal_residualOut v eps len m i i' j j' T hc]
      exact hinput c hc
    funext g
    show Function.update _ _ _ _ = _
    rw [storeRow]
    by_cases hg : g = .residualOut
    · rw [hg, Function.update_self, if_pos (by decide), writeCells_congr hresidualOut]
    · rw [Function.update_of_ne hg]
      by_cases hg' : g = .out
      · rw [hg', Function.update_self, if_pos (by decide), writeCells_congr hout]
      · have hnot : g ∉ kernelAddRmsNorm.outs := by simp [kernelAddRmsNorm, hg, hg']
        rw [Function.update_of_ne hg', if_neg hnot]

end KernelAddRmsNorm

end Row

/-! ## All rows -/

section Rows

variable {K : Type} {kernel : NormKernel} {n : Nat} {w : Nat → K}
  {result : (Operand → Nat → K) → Operand → Nat → K}
  {processRow : Nat → BlockState K → Option (BlockState K)}

/-- Write some rows of `n` elements, each from the operands as they are then. -/
def storeRows (outs : List Operand) (n : Nat) (result : (Operand → Nat → K) → Operand → Nat → K)
    (rows : List Nat) (gm : Gm K) : Gm K :=
  rows.foldl (fun gm r => storeRow outs (r * n) n (result (valuesAt gm (r * n))) gm) gm

theorem storeRow_of_notMem {outs : List Operand} {g : Operand} (h : g ∉ outs) (offset : Nat)
    (f : Operand → Nat → K) (gm : Gm K) : storeRow outs offset n f gm g = gm g :=
  if_neg h

theorem storeRows_of_notMem {outs : List Operand} {g : Operand} (h : g ∉ outs) (rows : List Nat)
    (gm : Gm K) : storeRows outs n result rows gm g = gm g := by
  induction rows generalizing gm with
  | nil => rfl
  | cons r rows ih =>
    rw [storeRows, List.foldl_cons]
    exact (ih _).trans (storeRow_of_notMem h _ _ _)

/-- `Process` writes the rows of the block. -/
theorem RowStep.process_eq (h : RowStep kernel n w result processRow) {a : LaunchArgs}
    (hn : a.dimLengthAlign = n) (b : Nat) {s : BlockState K} (hs : s.Ready n w) :
    ∃ s', process processRow a b s = some s' ∧ s'.Ready n w ∧
      s'.gm = storeRows kernel.outs n result (a.rowsOf b) s.gm := by
  rw [process, LaunchArgs.rowsOf]
  generalize List.range (a.blockRows b) = rows
  induction rows generalizing s with
  | nil => exact ⟨s, rfl, hs, rfl⟩
  | cons row rows ih =>
    obtain ⟨t, hstep, ht, hgm⟩ := h (a.gmElement b row) s hs
    obtain ⟨s', hrun, hs', hgm'⟩ := ih ht
    have hoffset : a.gmElement b row = (a.rowOffset b + row) * n := by
      rw [LaunchArgs.gmElement, hn, Nat.add_mul]
    refine ⟨s', ?_, hs', ?_⟩
    · rw [List.foldlM_cons, hstep]
      exact hrun
    · rw [hgm', hgm, hoffset]
      rfl

theorem initBlock_ready {len : Lengths} (hn : len.weightLen = n) {mem : LocalMem K} {gm : Gm K}
    (hw : ∀ c < n, (gm .weight c).value = w c) : (initBlock len mem gm).Ready n w := by
  constructor
  · intro g
    exact ⟨rfl, List.cons_ne_nil _ _⟩
  · intro c hc
    have hcopy : (initBlock len mem gm).mem
        = vector .weightBuf len.weightLen (fun i => (gm .weight (0 + i)).value) mem := rfl
    rw [hcopy, vector_self (hn ▸ hc), Nat.zero_add, hw c hc]

/-- The blocks write their rows one block after the other. -/
theorem RowStep.runBlocks_eq (h : RowStep kernel n w result processRow) {a : LaunchArgs}
    {len : Lengths} (hn : a.dimLengthAlign = n) (hlen : len.weightLen = n)
    (hweight : .weight ∉ kernel.outs) (mem : Nat → LocalMem K) (order : List Nat) {gm : Gm K}
    (hw : ∀ c < n, (gm .weight c).value = w c) :
    runBlocks processRow len a mem order gm
      = some (storeRows kernel.outs n result (order.flatMap a.rowsOf) gm) := by
  induction order generalizing gm with
  | nil => rfl
  | cons b order ih =>
    have hready : (initBlock len (mem b) gm).Ready n w := initBlock_ready hlen hw
    obtain ⟨s, hrun, -, hgm⟩ := h.process_eq hn b hready
    have hblock : runBlock processRow len a (mem b) b gm
        = some (storeRows kernel.outs n result (a.rowsOf b) gm) := by
      rw [runBlock, hrun]
      exact congrArg some hgm
    have hw' : ∀ c < n,
        (storeRows kernel.outs n result (a.rowsOf b) gm .weight c).value = w c := by
      intro c hc
      rw [storeRows_of_notMem hweight]
      exact hw c hc
    rw [runBlocks, List.foldlM_cons, hblock]
    refine (ih hw').trans ?_
    rw [List.flatMap_cons, storeRows, storeRows, storeRows, List.foldl_append]

/-- Writing row `r` of `n` elements, by element. -/
theorem writeCells_row (hn : 0 < n) (r : Nat) (f : Nat → K) (cells : Nat → Cell K) (j : Nat) :
    writeCells (r * n) n f cells j
      = if j / n = r then ⟨f (j % n), (cells j).writes + 1⟩ else cells j := by
  have hdiv : (r * n ≤ j ∧ j < r * n + n) ↔ j / n = r := by
    rw [Nat.div_eq_iff hn]
    omega
  unfold writeCells
  by_cases h : j / n = r
  · have hmod : j - r * n = j % n := by
      rw [← h, Nat.mod_eq_sub_div_mul]
    rw [if_pos (hdiv.mpr h), if_pos h, hmod]
  · rw [if_neg (mt hdiv.mp h), if_neg h]

/-- Distinct rows: each is written once, from the operands as they were. -/
theorem storeRows_apply (hn : 0 < n) {outs ins : List Operand}
    (hresult : ∀ x y, (∀ g ∈ ins, x g = y g) → result x = result y)
    (hdisj : ∀ g ∈ ins, g ∉ outs) {rows : List Nat} (hnodup : rows.Nodup) (gm : Gm K)
    {g : Operand} (hg : g ∈ outs) (j : Nat) :
    storeRows outs n result rows gm g j
      = if j / n ∈ rows then
          ⟨result (valuesAt gm (j / n * n)) g (j % n), (gm g j).writes + 1⟩
        else gm g j := by
  induction rows generalizing gm with
  | nil => simp [storeRows]
  | cons r rows ih =>
    rw [List.nodup_cons] at hnodup
    let gm' := storeRow outs (r * n) n (result (valuesAt gm (r * n))) gm
    have hsame : result (valuesAt gm' (j / n * n)) = result (valuesAt gm (j / n * n)) := by
      refine hresult _ _ ?_
      intro g' hg'
      have hkept : gm' g' = gm g' := storeRow_of_notMem (hdisj g' hg') _ _ _
      funext c
      rw [valuesAt, valuesAt, hkept]
    have hcell : gm' g j = if j / n = r then
        ⟨result (valuesAt gm (r * n)) g (j % n), (gm g j).writes + 1⟩ else gm g j := by
      show storeRow _ _ _ _ _ _ _ = _
      rw [storeRow, if_pos hg, writeCells_row hn]
    have hfold : storeRows outs n result (r :: rows) gm = storeRows outs n result rows gm' := rfl
    rw [hfold, ih hnodup.2 gm', hsame, hcell]
    by_cases hr : j / n = r
    · have hout : j / n ∉ rows := hr ▸ hnodup.1
      rw [if_neg hout, if_pos hr, if_pos (hr ▸ List.mem_cons_self), hr]
    · by_cases hmem : j / n ∈ rows
      · rw [if_pos hmem, if_neg hr, if_pos (List.mem_cons_of_mem _ hmem)]
      · have hnot : j / n ∉ r :: rows := by simp [hr, hmem]
        rw [if_neg hmem, if_neg hr, if_neg hnot]

end Rows

/-! ## The split -/

/-- The blocks' rows, one block after the other, are all rows in order. -/
theorem LaunchArgs.Splits.flatMap_rowsOf {a : LaunchArgs} {cores : Nat} (h : a.Splits cores) :
    (List.range cores).flatMap a.rowsOf = List.range a.totalRows := by
  have hblocks : ∀ k, (List.range k).flatMap a.rowsOf
      = List.range (offset a.totalRows cores k) := by
    intro k
    induction k with
    | zero =>
      have hzero : offset a.totalRows cores 0 = 0 := by
        by_cases hnone : 0 < RowSplit.formerNum a.totalRows cores
        · rw [offset, if_pos hnone, Nat.mul_zero]
        · rw [offset, if_neg hnone, Nat.eq_zero_of_not_pos hnone, Nat.mul_zero, Nat.mul_zero]
      rw [hzero]
      rfl
    | succ k ih =>
      rw [List.range_succ, List.flatMap_append, ih, offset_succ, List.range_add,
        List.flatMap_singleton, LaunchArgs.rowsOf, h.blockRows_eq, h.rowOffset_eq]
  rw [hblocks, offset_last h.pos h.le]

/-- In whatever order the blocks run, their rows are all rows. -/
theorem LaunchArgs.Splits.perm_rowsOf {a : LaunchArgs} {cores : Nat} (h : a.Splits cores)
    {order : List Nat} (horder : order.Perm (List.range cores)) :
    (order.flatMap a.rowsOf).Perm (List.range a.totalRows) := by
  rw [← h.flatMap_rowsOf]
  exact horder.flatMap_right _

theorem ElemType.size_pos (T : ElemType) : 0 < T.size ∧ T.size ≤ 32 := by
  cases T <;> decide

theorem instantiation_code (T : ElemType) : instantiation T.dataType.code = T := by
  cases T <;> decide

/-- The host's tiling gives arguments that split the rows. -/
theorem blockTiling_splits {totalRows coreNum : Nat} (hrows : 0 < totalRows)
    (hcores : 0 < coreNum) : ∃ t, blockTiling totalRows coreNum = .ok t ∧
      ∀ dimLength dimLengthAlign T,
        (t.launchArgs totalRows dimLength dimLengthAlign T).Splits t.usedCoreNum := by
  refine ⟨_, blockTiling_ok hrows hcores, ?_⟩
  intro dimLength dimLengthAlign T
  exact
    { pos := Nat.lt_min.mpr ⟨hrows, hcores⟩
      le := Nat.min_le_left _ _
      formerLength := rfl
      tailLength := rfl
      formerNum := rfl }

/-! ## The reference -/

section Reference

variable {K : Type} [Field K] (v : VectorUnit K) (eps : K) (dimLength : Nat)

/-- `x * w / sqrt(mean(x^2) + eps)` over the unpadded row. -/
def rmsNormReference (x w : Nat → K) (c : Nat) : K :=
  x c * w c / v.sqrt ((∑ i ∈ Finset.range dimLength, x i ^ 2) / dimLength + eps)

/-- `constant_pad_nd` of a row with zeros. -/
def padRow (x : Nat → K) (c : Nat) : K := if c < dimLength then x c else 0

theorem padRow_add (x y : Nat → K) (c : Nat) :
    padRow dimLength x c + padRow dimLength y c = padRow dimLength (fun c => x c + y c) c := by
  unfold padRow
  split
  · rfl
  · exact add_zero 0

/-- The padding does not change the sum of squares. -/
theorem sum_padRow {dimLengthAlign : Nat} (h : dimLength ≤ dimLengthAlign) (x : Nat → K) :
    ∑ i ∈ Finset.range dimLengthAlign, padRow dimLength x i * padRow dimLength x i
      = ∑ i ∈ Finset.range dimLength, x i ^ 2 := by
  have hpad : ∀ i ∈ Finset.range dimLengthAlign, i ∉ Finset.range dimLength →
      padRow dimLength x i * padRow dimLength x i = 0 := by
    intro i _ hi
    rw [padRow, if_neg (by simpa using hi), mul_zero]
  rw [← Finset.sum_subset (Finset.range_mono h) hpad]
  refine Finset.sum_congr rfl ?_
  intro i hi
  rw [padRow, if_pos (Finset.mem_range.mp hi), pow_two]

/-- On padded rows the kernels' row is the reference. -/
theorem normRow_padRow {a : LaunchArgs} (h : a.dimLength ≤ a.dimLengthAlign) (x w : Nat → K)
    {c : Nat} (hc : c < a.dimLength) :
    normRow v eps a.exactLengths (padRow a.dimLength x) (padRow a.dimLength w) c
      = rmsNormReference v eps a.dimLength x w c := by
  have hdim : ((a.exactLengths.dimLen : Int) : K) = (a.dimLength : K) := by
    simp [LaunchArgs.exactLengths]
  have hsum : ∑ i ∈ Finset.range a.exactLengths.dimLenAlign,
      padRow a.dimLength x i * padRow a.dimLength x i
      = ∑ i ∈ Finset.range a.dimLength, x i ^ 2 := sum_padRow a.dimLength h x
  rw [normRow, scale, rmsNormReference, hdim, hsum, padRow, padRow, if_pos hc, if_pos hc]
  ring

end Reference

/-! ## The launch -/

section Launch

variable {K : Type} [Field K]

/-- Global memory before a launch: the rows `x` and the weight `w`, padded. -/
structure LaunchArgs.Padded (a : LaunchArgs) (x : Operand → Nat → Nat → K) (w : Nat → K)
    (gm : Gm K) : Prop where
  rows : ∀ g ∈ kernelAddRmsNorm.ins, ∀ r < a.totalRows, ∀ c < a.dimLengthAlign,
    (gm g (r * a.dimLengthAlign + c)).value = padRow a.dimLength (x g r) c
  weight : ∀ c < a.dimLengthAlign, (gm .weight c).value = padRow a.dimLength w c

/-- Fresh global memory with these rows and this weight. -/
def LaunchArgs.paddedGm (a : LaunchArgs) (x : Operand → Nat → Nat → K) (w : Nat → K) : Gm K
  | .weight, j => ⟨padRow a.dimLength w j, 0⟩
  | g, j => ⟨padRow a.dimLength (x g (j / a.dimLengthAlign)) (j % a.dimLengthAlign), 0⟩

theorem LaunchArgs.paddedGm_padded {a : LaunchArgs} (hn : 0 < a.dimLengthAlign)
    (x : Operand → Nat → Nat → K) (w : Nat → K) : a.Padded x w (a.paddedGm x w) := by
  constructor
  · intro g hg r _ c hc
    have hdiv : (r * a.dimLengthAlign + c) / a.dimLengthAlign = r := by
      rw [Nat.mul_comm, Nat.mul_add_div hn, Nat.div_eq_of_lt hc, Nat.add_zero]
    have hmod : (r * a.dimLengthAlign + c) % a.dimLengthAlign = c := by
      rw [Nat.mul_comm, Nat.mul_add_mod, Nat.mod_eq_of_lt hc]
    simp only [kernelAddRmsNorm, List.mem_cons, List.not_mem_nil, or_false] at hg
    obtain rfl | rfl := hg <;> simp only [paddedGm, hdiv, hmod]
  · intro c _
    rfl

/-- A launch wrote every element of the rows of an operand once and nothing
else of it, and without the padding row `r` is `f r`. -/
structure LaunchArgs.Wrote (a : LaunchArgs) (f : Nat → Nat → K) (before after : Nat → Cell K) :
    Prop where
  once : ∀ j < a.totalRows * a.dimLengthAlign, (after j).writes = (before j).writes + 1
  rest : ∀ j, a.totalRows * a.dimLengthAlign ≤ j → after j = before j
  value : ∀ r < a.totalRows, ∀ c < a.dimLength, (after (r * a.dimLengthAlign + c)).value = f r c

omit [Field K] in
theorem LaunchArgs.wrote_storeRows {a : LaunchArgs} (hn : 0 < a.dimLengthAlign)
    (hle : a.dimLength ≤ a.dimLengthAlign) {outs ins : List Operand}
    {result : (Operand → Nat → K) → Operand → Nat → K}
    (hresult : ∀ x y, (∀ g ∈ ins, x g = y g) → result x = result y)
    (hdisj : ∀ g ∈ ins, g ∉ outs) {rows : List Nat} (hrows : rows.Perm (List.range a.totalRows))
    {gm : Gm K} {g : Operand} (hg : g ∈ outs) {f : Nat → Nat → K}
    (hf : ∀ r < a.totalRows, ∀ c < a.dimLength,
      result (valuesAt gm (r * a.dimLengthAlign)) g c = f r c) :
    a.Wrote f (gm g) (storeRows outs a.dimLengthAlign result rows gm g) := by
  have hnodup : rows.Nodup := hrows.nodup_iff.mpr List.nodup_range
  have hmem : ∀ j, j / a.dimLengthAlign ∈ rows ↔ j < a.totalRows * a.dimLengthAlign := by
    intro j
    rw [hrows.mem_iff, List.mem_range, Nat.div_lt_iff_lt_mul hn]
  have hcell := storeRows_apply hn hresult hdisj hnodup gm hg
  constructor
  · intro j hj
    rw [hcell, if_pos ((hmem j).mpr hj)]
  · intro j hj
    rw [hcell, if_neg (mt (hmem j).mp (Nat.not_lt.mpr hj))]
  · intro r hr c hc
    have hcn : c < a.dimLengthAlign := Nat.lt_of_lt_of_le hc hle
    have hdiv : (r * a.dimLengthAlign + c) / a.dimLengthAlign = r := by
      rw [Nat.mul_comm, Nat.mul_add_div hn, Nat.div_eq_of_lt hcn, Nat.add_zero]
    have hmod : (r * a.dimLengthAlign + c) % a.dimLengthAlign = c := by
      rw [Nat.mul_comm, Nat.mul_add_mod, Nat.mod_eq_of_lt hcn]
    have hrow : r ∈ rows := hrows.mem_iff.mpr (List.mem_range.mpr hr)
    rw [hcell, hdiv, hmod, if_pos hrow]
    exact hf r hr c hc

variable (v : VectorUnit K) (eps : K) (T : ElemType) {a : LaunchArgs} {cores : Nat}
  {x : Operand → Nat → Nat → K} {w : Nat → K} {gm : Gm K} {order : List Nat}

theorem rmsNorm_computes (hs : a.Splits cores) (hn : 0 < a.dimLengthAlign)
    (hle : a.dimLength ≤ a.dimLengthAlign) (hpad : a.Padded x w gm)
    (horder : order.Perm (List.range cores)) (mem : Nat → LocalMem K) :
    ∃ gm', runBlocks (KernelRmsNorm.processRow v eps a.exactLengths T) a.exactLengths a mem
        order gm = some gm' ∧
      a.Wrote (fun r => rmsNormReference v eps a.dimLength (x .input r) w) (gm .out)
        (gm' .out) := by
  have hrows := hs.perm_rowsOf horder
  have hstep := KernelRmsNorm.processRow_spec v eps a.exactLengths T rfl (padRow a.dimLength w)
  refine ⟨_, hstep.runBlocks_eq rfl rfl (by decide) mem order hpad.weight, ?_⟩
  have hresult : ∀ y z : Operand → Nat → K, (∀ g ∈ kernelRmsNorm.ins, y g = z g) →
      KernelRmsNorm.result v eps a.exactLengths (padRow a.dimLength w) y
        = KernelRmsNorm.result v eps a.exactLengths (padRow a.dimLength w) z := by
    intro y z hyz
    funext g
    rw [KernelRmsNorm.result, KernelRmsNorm.result, hyz .input (by decide)]
  refine LaunchArgs.wrote_storeRows hn hle hresult (by decide) hrows (by decide) ?_
  intro r hr c hc
  have hrow : ∀ i < a.dimLengthAlign, valuesAt gm (r * a.dimLengthAlign) .input i
      = padRow a.dimLength (x .input r) i := hpad.rows .input (by decide) r hr
  rw [← normRow_padRow v eps hle _ _ hc]
  exact normRow_congr v eps a.exactLengths hrow (fun _ _ => rfl) (Nat.lt_of_lt_of_le hc hle)

theorem addRmsNorm_computes (hs : a.Splits cores) (hn : 0 < a.dimLengthAlign)
    (hle : a.dimLength ≤ a.dimLengthAlign) (hpad : a.Padded x w gm)
    (horder : order.Perm (List.range cores)) (mem : Nat → LocalMem K) :
    ∃ gm', runBlocks (KernelAddRmsNorm.processRow v eps a.exactLengths T) a.exactLengths a mem
        order gm = some gm' ∧
      a.Wrote (fun r => rmsNormReference v eps a.dimLength
        (fun c => x .input r c + x .residual r c) w) (gm .out) (gm' .out) ∧
      a.Wrote (fun r c => x .input r c + x .residual r c) (gm .residualOut)
        (gm' .residualOut) := by
  have hrows := hs.perm_rowsOf horder
  have hstep :=
    KernelAddRmsNorm.processRow_spec v eps a.exactLengths T rfl (padRow a.dimLength w)
  have hresult : ∀ y z : Operand → Nat → K, (∀ g ∈ kernelAddRmsNorm.ins, y g = z g) →
      KernelAddRmsNorm.result v eps a.exactLengths (padRow a.dimLength w) y
        = KernelAddRmsNorm.result v eps a.exactLengths (padRow a.dimLength w) z := by
    intro y z hyz
    funext g
    rw [KernelAddRmsNorm.result, KernelAddRmsNorm.result, hyz .input (by decide),
      hyz .residual (by decide)]
  have hsum : ∀ r < a.totalRows, ∀ i < a.dimLengthAlign,
      valuesAt gm (r * a.dimLengthAlign) .input i + valuesAt gm (r * a.dimLengthAlign) .residual i
        = padRow a.dimLength (fun c => x .input r c + x .residual r c) i := by
    intro r hr i hi
    rw [valuesAt, valuesAt, hpad.rows .input (by decide) r hr i hi,
      hpad.rows .residual (by decide) r hr i hi, padRow_add]
  refine ⟨_, hstep.runBlocks_eq rfl rfl (by decide) mem order hpad.weight, ?_, ?_⟩
  · refine LaunchArgs.wrote_storeRows hn hle hresult (by decide) hrows (by decide) ?_
    intro r hr c hc
    rw [← normRow_padRow v eps hle _ _ hc]
    exact normRow_congr v eps a.exactLengths (hsum r hr) (fun _ _ => rfl)
      (Nat.lt_of_lt_of_le hc hle)
  · refine LaunchArgs.wrote_storeRows hn hle hresult (by decide) hrows (by decide) ?_
    intro r hr c hc
    have hrow := hsum r hr c (Nat.lt_of_lt_of_le hc hle)
    rw [padRow, if_pos hc] at hrow
    exact hrow

/-- The kernels compute the reference for every number of rows, cores and
elements. Whichever host splits the rows, the blocks' ranges are all rows in
order; and in whatever order the blocks run, and whatever they find in local
memory, each writes its rows once. -/
theorem norm_kernels_compute_reference {totalRows coreNum dimLength : Nat}
    (hrows : 0 < totalRows) (hcores : 0 < coreNum) (hdim : 0 < dimLength) :
    ∃ align, alignedLength dimLength T.size = .ok align ∧
      ∀ tiling ∈ [blockTiling totalRows coreNum, customTiling totalRows],
        ∃ t, tiling = .ok t ∧
          let a := t.launchArgs totalRows dimLength align T
          instantiation a.dtypeCode = T ∧
          (List.range t.usedCoreNum).flatMap a.rowsOf = List.range totalRows ∧
          ∀ (x : Operand → Nat → Nat → K) (w : Nat → K) (gm : Gm K), a.Padded x w gm →
            ∀ (mem : Nat → LocalMem K) (order : List Nat),
              order.Perm (List.range t.usedCoreNum) →
              (∃ gm', runBlocks
                  (KernelRmsNorm.processRow v eps a.exactLengths (instantiation a.dtypeCode))
                  a.exactLengths a mem order gm = some gm' ∧
                a.Wrote (fun r => rmsNormReference v eps dimLength (x .input r) w)
                  (gm .out) (gm' .out)) ∧
              (∃ gm', runBlocks
                  (KernelAddRmsNorm.processRow v eps a.exactLengths (instantiation a.dtypeCode))
                  a.exactLengths a mem order gm = some gm' ∧
                a.Wrote (fun r => rmsNormReference v eps dimLength
                  (fun c => x .input r c + x .residual r c) w) (gm .out) (gm' .out) ∧
                a.Wrote (fun r c => x .input r c + x .residual r c)
                  (gm .residualOut) (gm' .residualOut)) := by
  obtain ⟨align, halign, hle⟩ := alignedLength_ok dimLength T.size_pos.1 T.size_pos.2
  have hn : 0 < align := Nat.lt_of_lt_of_le hdim hle
  refine ⟨align, halign, ?_⟩
  have hsplits : ∀ tiling ∈ [blockTiling totalRows coreNum, customTiling totalRows],
      ∃ t, tiling = .ok t ∧
        (t.launchArgs totalRows dimLength align T).Splits t.usedCoreNum := by
    intro tiling htiling
    rw [List.mem_cons, List.mem_singleton] at htiling
    obtain rfl | rfl := htiling
    · obtain ⟨t, ht, h⟩ := blockTiling_splits hrows hcores
      exact ⟨t, ht, h dimLength align T⟩
    · have hmax : 0 < kMaxBlockDim := by decide
      obtain ⟨t, ht, h⟩ := blockTiling_splits hrows hmax
      exact ⟨t, ht, h dimLength align T⟩
  intro tiling htiling
  obtain ⟨t, ht, hs⟩ := hsplits tiling htiling
  refine ⟨t, ht, instantiation_code T, hs.flatMap_rowsOf, ?_⟩
  intro x w gm hpad mem order horder
  exact ⟨rmsNorm_computes v eps _ hs hn hle hpad horder mem,
    addRmsNorm_computes v eps _ hs hn hle hpad horder mem⟩

/-- Five `half` rows of three elements on two cores, the second block first. -/
theorem five_rows_on_two_cores :
    ∃ t, blockTiling 5 2 = .ok t ∧
      let a := t.launchArgs 5 3 16 .half
      let x : Operand → Nat → Nat → ℚ := fun _ r c => r + c
      let v : VectorUnit ℚ := ⟨id, fun _ _ _ => 7⟩
      (List.range t.usedCoreNum).flatMap a.rowsOf = [0, 1, 2, 3, 4] ∧
      ∃ gm', runBlocks (KernelRmsNorm.processRow v 1 a.exactLengths .half) a.exactLengths a
          (fun _ _ _ => 9) [1, 0] (a.paddedGm x fun _ => 2) = some gm' ∧
        a.Wrote (fun r => rmsNormReference v 1 3 (x .input r) fun _ => 2)
          (a.paddedGm x (fun _ => 2) .out) (gm' .out) := by
  let x : Operand → Nat → Nat → ℚ := fun _ r c => r + c
  let v : VectorUnit ℚ := ⟨id, fun _ _ _ => 7⟩
  obtain ⟨align, halign, hlaunch⟩ := norm_kernels_compute_reference v 1 .half
    (by decide : 0 < 5) (by decide : 0 < 2) (by decide : 0 < 3)
  obtain rfl : 16 = align := Except.ok.inj halign
  obtain ⟨t, ht, -, hrows, hcompute⟩ := hlaunch (blockTiling 5 2) (by decide)
  obtain rfl : (⟨2, 3, 2, 1⟩ : Tiling) = t := Except.ok.inj ht
  refine ⟨_, ht, hrows, ?_⟩
  exact (hcompute x (fun _ => 2) _ (LaunchArgs.paddedGm_padded (by decide) x _) (fun _ _ _ => 9)
    [1, 0] (by decide)).1

end Launch

/-! ## The narrowed lengths -/

/-- As long as a padded row in `float` has less than 2^31 bytes, the
conversions of the kernels change no length. -/
theorem LaunchArgs.lengths_eq_exactLengths {a : LaunchArgs} (T : ElemType)
    (hle : a.dimLength ≤ a.dimLengthAlign) (hlt : a.dimLengthAlign * 4 < 2 ^ 31) :
    a.lengths T = a.exactLengths := by
  have hsize : T.size ≤ 4 := by cases T <;> decide
  have hdim : toInt32 a.dimLength = a.dimLength := toInt32_natCast (by omega)
  have halign : toInt32 a.dimLengthAlign = a.dimLengthAlign := toInt32_natCast (by omega)
  have hbytes : a.dimLengthAlign * T.size < 2 ^ 32 := by
    have := Nat.mul_le_mul_left a.dimLengthAlign hsize
    omega
  have hrow : a.rowBytes T = a.dimLengthAlign * T.size := by
    unfold LaunchArgs.rowBytes
    exact_mod_cast toUInt32_eq_self hbytes
  have hweight : a.weightAccess.bytes = a.dimLengthAlign * ElemType.float.size := by
    have hfloat : a.dimLengthAlign * 4 < 2 ^ 32 := by omega
    show toUInt32 (toInt32 a.dimLengthAlign * (ElemType.float.size : Nat)) = _
    rw [toUInt32_toInt32_mul]
    exact_mod_cast toUInt32_eq_self hfloat
  rw [LaunchArgs.lengths, LaunchArgs.exactLengths, hdim, halign, hrow, hweight, Int.toNat_natCast,
    Nat.mul_div_cancel _ T.size_pos.1, Nat.mul_div_cancel _ (by decide : 0 < ElemType.float.size)]

/-- The capacity check of the torch host functions leaves room for that on
any core with less than 8 GiB of unified buffer. -/
theorem capacity_bounds_length {ubSize bufferCoefficient dimLengthAlign : Nat}
    (hub : ubSize < 2 ^ 33) (hcoefficient : 20 ≤ bufferCoefficient)
    (h : dimLengthAlign ≤ maxDimLength ubSize bufferCoefficient) :
    dimLengthAlign * 4 < 2 ^ 31 := by
  have hub' : toInt64 ubSize = ubSize := toInt64_eq_self (by omega) (by omega)
  have hquot : ((ubSize : Int) - 1024).tdiv bufferCoefficient ≤ 2 ^ 29 - 1 := by
    have hmono : ((ubSize : Int) - 1024).tdiv bufferCoefficient
        ≤ (2 ^ 33 : Int).tdiv bufferCoefficient := Int.tdiv_le_tdiv (by omega) (by omega)
    rw [Int.tdiv_eq_ediv_of_nonneg (by decide : (0 : Int) ≤ 2 ^ 33)] at hmono
    have hlt : (2 ^ 33 : Int) / bufferCoefficient < 2 ^ 29 :=
      Int.ediv_lt_of_lt_mul (by omega) (by omega)
    omega
  have hblocks : (((ubSize : Int) - 1024).tdiv bufferCoefficient).tdiv 8
      ≤ (2 ^ 29 - 1 : Int).tdiv 8 := Int.tdiv_le_tdiv (by decide) hquot
  have hvalue : (2 ^ 29 - 1 : Int).tdiv 8 = 2 ^ 26 - 1 := by decide
  have hmax : (dimLengthAlign : Int)
      ≤ (((ubSize : Int) - 1024).tdiv bufferCoefficient).tdiv 8 * 8 := by
    rw [← hub']
    exact h
  omega

end InfiniOps.AscendC
