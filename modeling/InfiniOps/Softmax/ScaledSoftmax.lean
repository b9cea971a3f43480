/-
InfiniOps.Softmax.ScaledSoftmax — the CPU implementation of `ScaledSoftmax`
(`src/base/scaled_softmax.h`,
`src/native/cpu/ops/scaled_softmax/scaled_softmax.h`), and that it computes
the softmax of its scaled input.

Values are of an ordered field, so that `std::isfinite` holds of the scale
and a `Cast` is the identity. `std::exp` is a parameter, of which nothing
is known above 0, where it may overflow: the first loop over a row finds
its maximum, and no exponential is taken of more than 0. The maximum then
cancels in the quotient.

* `cpuRow_cell`, `cpuRow_frame` — what one row computes and where.
* `cpu_scaledSoftmax_eq_ok_iff` — what a call computes, and when.
-/
import InfiniOps.Core.Dispatcher
import InfiniOps.Softmax.CausalSoftmaxTheorems
import Mathlib.Analysis.Complex.Exponential

namespace InfiniOps.Softmax

open RowMajor StridedLoop StridedStore

/-! ## The base class -/

/-- The members of `ScaledSoftmax`. -/
structure ScaledSoftmax (K : Type) where
  scale : K
  batchSize : Nat
  vocabSize : Nat
  dtype : DataType
  inputStrides : List Int
  outStrides : List Int

namespace ScaledSoftmax

/-- The members that the constructor initializes. -/
def ofTensors {K : Type} (input : Tensor) (scale : K) (out : Tensor) : ScaledSoftmax K where
  scale := scale
  batchSize := input.size 0
  vocabSize := input.size 1
  dtype := input.dtype
  inputStrides := input.strides
  outStrides := out.strides

/-- The constructor. -/
def new {K : Type} (input : Tensor) (scale : K) (out : Tensor) :
    Except Failure (ScaledSoftmax K) := do
  let members := ofTensors input scale out
  assertion (input.ndim = 2) "`ScaledSoftmax` currently supports 2D `[batch, vocab]` input."
  assertion (input.shape = out.shape)
    "`ScaledSoftmax` requires `input` and `out` to have the same shape."
  assertion (input.dtype = out.dtype)
    "`ScaledSoftmax` requires `input` and `out` to have the same dtype."
  assertion (members.dtype = .kFloat16 ∨ members.dtype = .kBFloat16 ∨ members.dtype = .kFloat32 ∨
    members.dtype = .kFloat64) "`ScaledSoftmax` requires a floating point dtype."
  -- `std::isfinite(scale_)` holds of every value of `K`.
  return members

/-- Where `out_row[j * out_strides_[1]]` lies. -/
def outCell {K : Type} (g : ScaledSoftmax K) (i j : Nat) : Int :=
  i * g.outStrides.getD 0 0 + j * g.outStrides.getD 1 0

end ScaledSoftmax

/-! ## CPU -/

section Cpu

variable {K : Type} [Field K] [LinearOrder K]

namespace ScaledSoftmax

variable (g : ScaledSoftmax K)

/-- `Cast<float>(input_row[j * input_strides_[1]]) * static_cast<float>(scale_)`. -/
def inputKey (A : Int → K) (i j : Nat) : K :=
  A (i * g.inputStrides.getD 0 0 + j * g.inputStrides.getD 1 0) * g.scale

/-- `max_val` after the first loop; `⊥` is minus infinity. -/
def maxVal (A : Int → K) (i : Nat) : WithBot K :=
  (List.range g.vocabSize).foldl (fun maxVal j =>
    if (g.inputKey A i j : WithBot K) > maxVal then (g.inputKey A i j : WithBot K) else maxVal) ⊥

/-- The body of the loop over the batch. Without columns `max_val` stays at
minus infinity, and nothing is subtracted from. -/
def cpuRow (exp : K → K) (A out : Int → K) (i : Nat) : Int → K :=
  let maxVal := (g.maxVal A i).unbotD 0
  let (out, sum) := (List.range g.vocabSize).foldl (fun (out, sum) j =>
    let v := exp (g.inputKey A i j - maxVal)
    (Function.update out (g.outCell i j) v, sum + v)) (out, 0)
  (List.range g.vocabSize).foldl (fun out j =>
    Function.update out (g.outCell i j) (out (g.outCell i j) / sum)) out

/-- `Compute<T>`. -/
def cpuCompute (exp : K → K) (A out : Int → K) : Int → K :=
  (List.range g.batchSize).foldl (g.cpuRow exp A) out

/-- `operator()`. -/
def cpuCall (exp : K → K) (scale : K) (out : Tensor) (A C : Int → K) :
    Except Failure (Int → K) := do
  assertion (scale = g.scale) "`ScaledSoftmax` scale changed after descriptor creation."
  let dispatched : Run DataType (Int → K) :=
    dispatchFunc DataType.code true (fun _ => true) allFloatTypes out.dtype
      (fun dtype => ⟨[dtype], .ok (g.cpuCompute exp A C)⟩)
      "`Operator<ScaledSoftmax, Device::Type::kCpu>::operator()`"
  dispatched.ending

end ScaledSoftmax

/-- Construct the CPU operator with one scale and call it with another. -/
def cpuScaledSoftmax (exp : K → K) (input : Tensor) (scale : K) (out : Tensor) (scale' : K)
    (A C : Int → K) : Except Failure (Int → K) := do
  let g ← ScaledSoftmax.new input scale out
  g.cpuCall exp scale' out A C

end Cpu

/-! ## Softmax -/

/-- An exponential function. -/
structure Exponential (K : Type) [Field K] [LinearOrder K] where
  exp : K → K
  exp_pos : ∀ y, 0 < exp y
  exp_add : ∀ y z, exp (y + z) = exp y * exp z

section Softmax

variable {K : Type} [Field K] [LinearOrder K]

/-- Softmax of the first `n` keys. -/
def Exponential.softmax (E : Exponential K) (x : Nat → K) (n j : Nat) : K :=
  E.exp (x j) / ∑ k ∈ Finset.range n, E.exp (x k)

/-- A shift of all the keys cancels. -/
theorem Exponential.softmax_sub (E : Exponential K) (x : Nat → K) (m : K) (n j : Nat) :
    E.softmax (fun k => x k - m) n j = E.softmax x n j := by
  have hshift : ∀ k, E.exp (x k - m) = E.exp (x k) * E.exp (-m) := by
    intro k
    rw [sub_eq_add_neg, E.exp_add]
  have hne : E.exp (-m) ≠ 0 := (E.exp_pos (-m)).ne'
  simp only [Exponential.softmax, hshift, ← Finset.sum_mul]
  exact mul_div_mul_right _ _ hne

end Softmax

/-! ## A row -/

section Row

variable {K : Type} [Field K] [LinearOrder K]

namespace ScaledSoftmax

variable {g : ScaledSoftmax K} {A : Int → K} {i : Nat}

/-- Where a row has columns, the first loop finds a bound of its keys. -/
theorem inputKey_le_maxVal {j : Nat} (hj : j < g.vocabSize) :
    g.inputKey A i j ≤ (g.maxVal A i).unbotD 0 := by
  have hmax : g.maxVal A i
      = ((List.range g.vocabSize).map fun j => (g.inputKey A i j : WithBot K)).foldl max ⊥ := by
    rw [maxVal, foldl_ite_eq]
  have hle : (g.inputKey A i j : WithBot K) ≤ g.maxVal A i := by
    rw [hmax]
    refine (foldl_max _ _).2 _ (List.mem_cons_of_mem _ ?_)
    exact List.mem_map_of_mem (f := fun j => (g.inputKey A i j : WithBot K)) (List.mem_range.mpr hj)
  cases hval : g.maxVal A i with
  | bot =>
    rw [hval] at hle
    exact absurd hle (WithBot.not_coe_le_bot _)
  | coe m =>
    rw [hval] at hle
    exact WithBot.coe_le_coe.mp hle

variable {std : K → K} {E : Exponential K} (out : Int → K)

/-- The two loops over a row that write: exponentials, quotients. -/
theorem cpuRow_eq :
    g.cpuRow std A out i =
      storeAll (g.outCell i)
        (fun _ y => y / ((List.range g.vocabSize).map fun k =>
          std (g.inputKey A i k - (g.maxVal A i).unbotD 0)).sum)
        (storeAll (g.outCell i) (fun j _ => std (g.inputKey A i j - (g.maxVal A i).unbotD 0)) out
          (List.range g.vocabSize))
        (List.range g.vocabSize) := by
  have hloop := foldl_store_sum (g.outCell i)
    (fun j => std (g.inputKey A i j - (g.maxVal A i).unbotD 0)) (List.range g.vocabSize) out 0
  rw [zero_add] at hloop
  exact congrArg (fun p : (Int → K) × K => storeAll (g.outCell i) (fun _ y => y / p.2) p.1
    (List.range g.vocabSize)) hloop

theorem cpuRow_frame {o : Int} (ho : ∀ j < g.vocabSize, o ≠ g.outCell i j) :
    g.cpuRow std A out i o = out o := by
  have hnotMem : o ∉ (List.range g.vocabSize).map (g.outCell i) := by
    intro hmem
    obtain ⟨j, hj, heq⟩ := List.mem_map.mp hmem
    exact ho j (List.mem_range.mp hj) heq.symm
  rw [cpuRow_eq, storeAll_of_notMem _ _ _ hnotMem, storeAll_of_notMem _ _ _ hnotMem]

variable [IsStrictOrderedRing K]

/-- A row holds the softmax of its keys. -/
theorem cpuRow_cell (hstd : ∀ y ≤ 0, std y = E.exp y)
    (hinj : ∀ j < g.vocabSize, ∀ j' < g.vocabSize, g.outCell i j = g.outCell i j' → j = j')
    {j : Nat} (hj : j < g.vocabSize) :
    g.cpuRow std A out i (g.outCell i j) = E.softmax (g.inputKey A i) g.vocabSize j := by
  have hnodup : ((List.range g.vocabSize).map (g.outCell i)).Nodup := by
    refine List.nodup_range.map_on fun k hk k' hk' heq => ?_
    exact hinj k (List.mem_range.mp hk) k' (List.mem_range.mp hk') heq
  have hmem : j ∈ List.range g.vocabSize := List.mem_range.mpr hj
  -- No argument of `std` is above 0.
  have hexp : ∀ k < g.vocabSize, std (g.inputKey A i k - (g.maxVal A i).unbotD 0)
      = E.exp (g.inputKey A i k - (g.maxVal A i).unbotD 0) := fun k hk =>
    hstd _ (sub_nonpos.mpr (inputKey_le_maxVal hk))
  have hsum : ((List.range g.vocabSize).map fun k =>
      std (g.inputKey A i k - (g.maxVal A i).unbotD 0)).sum
        = ∑ k ∈ Finset.range g.vocabSize, E.exp (g.inputKey A i k - (g.maxVal A i).unbotD 0) := by
    rw [← List.sum_toFinset _ List.nodup_range, List.toFinset_range]
    exact Finset.sum_congr rfl fun k hk => hexp k (Finset.mem_range.mp hk)
  rw [cpuRow_eq, storeAll_at_of_nodup _ _ _ hnodup hmem, storeAll_at_of_nodup _ _ _ hnodup hmem,
    hexp j hj, hsum]
  exact E.softmax_sub _ _ _ _

end ScaledSoftmax

end Row

/-! ## A call -/

/-- A call that the constructor accepts. -/
structure ScaledSoftmaxProblem (K : Type) where
  input : StoredTensor
  scale : K
  out : StoredTensor
  accepted : ∃ members, ScaledSoftmax.new input.toTensor scale out.toTensor = .ok members
  injective : out.Injective

namespace ScaledSoftmaxProblem

variable {K : Type} (x : ScaledSoftmaxProblem K)

def batch : Nat := x.out.size 0

def vocab : Nat := x.out.size 1

/-- The members of the call. -/
def members : ScaledSoftmax K := .ofTensors x.input.toTensor x.scale x.out.toTensor

/-- What the constructor checks. -/
structure Checked : Prop where
  new_eq : ScaledSoftmax.new x.input.toTensor x.scale x.out.toTensor = .ok x.members
  ndim : x.input.ndim = 2
  shape_eq : x.input.shape = x.out.shape
  dtype_eq : x.input.dtype = x.out.dtype
  dtype_mem : x.out.dtype ∈ allFloatTypes

theorem checked : x.Checked := by
  obtain ⟨members, h⟩ := x.accepted
  have hnew := h
  simp only [ScaledSoftmax.new, bind_assertion_eq_ok] at h
  obtain ⟨hndim, hshape, hdtype, hfloat, hmembers⟩ := h
  rw [← Except.ok.inj hmembers] at hnew
  refine ⟨hnew, hndim, hshape, hdtype, ?_⟩
  have hfloat : x.input.dtype = .kFloat16 ∨ x.input.dtype = .kBFloat16 ∨
    x.input.dtype = .kFloat32 ∨ x.input.dtype = .kFloat64 := hfloat
  rw [hdtype] at hfloat
  rcases hfloat with h | h | h | h <;> rw [h] <;> decide

/-- A matrix. -/
theorem shape_eq : x.out.shape = [x.batch, x.vocab] := by
  have hndim : x.out.shape.length = 2 := by
    rw [← x.checked.shape_eq]
    exact x.checked.ndim
  obtain ⟨d, e, hshape⟩ := List.length_eq_two.mp hndim
  simp [batch, vocab, Tensor.size, Tensor.effectiveIndex, hshape]

theorem offset_eq {t : StoredTensor} (hshape : t.shape = x.out.shape) (i j : Nat) :
    t.offset [i, j] = i * t.strides.getD 0 0 + j * t.strides.getD 1 0 := by
  have hrank := t.rank_eq
  rw [hshape, x.shape_eq] at hrank
  obtain ⟨s, s', hstrides⟩ := List.length_eq_two.mp hrank
  simp [Tensor.offset, hstrides]

theorem outCell_eq (i j : Nat) : x.members.outCell i j = x.out.offset [i, j] :=
  (x.offset_eq rfl i j).symm

theorem sizes_eq : x.members.batchSize = x.batch ∧ x.members.vocabSize = x.vocab := by
  have hshape := x.checked.shape_eq
  constructor
  · simp only [members, ScaledSoftmax.ofTensors, batch, Tensor.size, Tensor.effectiveIndex,
      hshape]
  · simp only [members, ScaledSoftmax.ofTensors, vocab, Tensor.size, Tensor.effectiveIndex,
      hshape]

/-- Distinct positions are distinct cells. -/
theorem offset_inj {i j i' j' : Nat} (hi : i < x.batch) (hj : j < x.vocab) (hi' : i' < x.batch)
    (hj' : j' < x.vocab) (h : x.out.offset [i, j] = x.out.offset [i', j']) : i = i' ∧ j = j' := by
  have hidx := x.injective [i, j] [i', j'] (x.shape_eq ▸ .cons hi (.cons hj .nil))
    (x.shape_eq ▸ .cons hi' (.cons hj' .nil)) h
  simpa only [List.cons.injEq, and_true] using hidx

variable [Field K]

/-- The scaled keys of row `i`. -/
def key (A : Int → K) (i j : Nat) : K := A (x.input.offset [i, j]) * x.scale

theorem inputKey_eq (A : Int → K) (i : Nat) : x.members.inputKey A i = x.key A i := by
  funext j
  rw [key, x.offset_eq x.checked.shape_eq]
  rfl

variable [LinearOrder K]

/-- `C'` is `C` with the softmax in `out`. -/
structure Computed (E : Exponential K) (A C C' : Int → K) : Prop where
  softmax : ∀ i < x.batch, ∀ j < x.vocab,
    C' (x.out.offset [i, j]) = E.softmax (x.key A i) x.vocab j
  frame : ∀ o, (∀ i < x.batch, ∀ j < x.vocab, o ≠ x.out.offset [i, j]) → C' o = C o

variable {x} {std : K → K} {E : Exponential K}

/-- No two results are the softmax. -/
theorem Computed.unique {A C C' C'' : Int → K} (h : x.Computed E A C C')
    (h' : x.Computed E A C C'') : C' = C'' := by
  funext o
  by_cases ho : ∃ i < x.batch, ∃ j < x.vocab, o = x.out.offset [i, j]
  · obtain ⟨i, hi, j, hj, rfl⟩ := ho
    rw [h.softmax i hi j hj, h'.softmax i hi j hj]
  · push Not at ho
    rw [h.frame o ho, h'.frame o ho]

variable [IsStrictOrderedRing K] (hstd : ∀ y ≤ 0, std y = E.exp y) (A C : Int → K)

include hstd in
/-- The rows write the softmax each, and nothing else. -/
theorem computed_cpuCompute : x.Computed E A C (x.members.cpuCompute std A C) := by
  obtain ⟨hbatch, hvocab⟩ := x.sizes_eq
  constructor
  · intro i hi j hj
    rw [← outCell_eq, ScaledSoftmax.cpuCompute, hbatch]
    refine foldl_rows (x.members.cpuRow std A) x.members.outCell
      (fun i => E.softmax (x.key A i) x.vocab) x.vocab ?_ ?_ ?_ C (List.mem_range.mpr hi) hj
    · intro m i' hi' j' hj'
      have hi' := List.mem_range.mp hi'
      rw [← inputKey_eq, ← hvocab]
      refine ScaledSoftmax.cpuRow_cell m hstd ?_ (hvocab.symm ▸ hj')
      intro k hk k' hk' heq
      rw [outCell_eq, outCell_eq] at heq
      exact (x.offset_inj hi' (hvocab ▸ hk) hi' (hvocab ▸ hk') heq).2
    · intro m i' _ o ho
      exact ScaledSoftmax.cpuRow_frame m fun j hj => ho j (hvocab ▸ hj)
    · intro v hv w hw k hk k' hk' heq
      rw [outCell_eq, outCell_eq] at heq
      exact (x.offset_inj (List.mem_range.mp hv) hk (List.mem_range.mp hw) hk' heq).1
  · intro o ho
    refine foldl_rows_frame (fun m i hi => ScaledSoftmax.cpuRow_frame m fun j hj => ?_) C
    rw [outCell_eq]
    exact ho i (hbatch ▸ List.mem_range.mp hi) j (hvocab ▸ hj)

/-- A call with the scale of the constructor gives the softmax, and one
with another scale fails. -/
theorem cpu_scaledSoftmax_eq_ok_iff (x : ScaledSoftmaxProblem K) (std : K → K) (E : Exponential K)
    (hstd : ∀ y ≤ 0, std y = E.exp y) (scale : K) (A C C' : Int → K) :
    cpuScaledSoftmax std x.input.toTensor x.scale x.out.toTensor scale A C = .ok C'
      ↔ scale = x.scale ∧ x.Computed E A C C' := by
  have hcall : cpuScaledSoftmax std x.input.toTensor x.scale x.out.toTensor scale A C
      = x.members.cpuCall std scale x.out.toTensor A C := by
    rw [cpuScaledSoftmax, x.checked.new_eq]
    rfl
  rw [hcall, ScaledSoftmax.cpuCall, bind_assertion_eq_ok,
    dispatchFunc_of_mem _ _ _ _ x.checked.dtype_mem rfl]
  refine and_congr_right fun _ => ?_
  have hcomputed := computed_cpuCompute (x := x) hstd A C
  constructor
  · intro heq
    exact Except.ok.inj heq ▸ hcomputed
  · intro h
    exact congrArg Except.ok (hcomputed.unique h)

/-- The exponential of the reals. -/
noncomputable def realExponential : Exponential ℝ := ⟨Real.exp, Real.exp_pos, Real.exp_add⟩

/-- Three rows of five columns, from a transposed input. -/
noncomputable def negated : ScaledSoftmaxProblem ℝ where
  input :=
    { data := 0, shape := [3, 5], strides := [1, 3], rank_eq := by decide
      addressable := forall_valid_iff.mpr (by decide) }
  scale := -1
  out :=
    { data := 0, shape := [3, 5], strides := [7, 1], rank_eq := by decide
      addressable := forall_valid_iff.mpr (by decide) }
  accepted := ⟨_, rfl⟩
  injective := by decide

theorem cpu_scaledSoftmax_negated :
    ∃ C', cpuScaledSoftmax Real.exp negated.input.toTensor negated.scale negated.out.toTensor (-1)
        (fun o => o) (fun _ => 0) = .ok C' ∧
      negated.Computed realExponential (fun o => o) (fun _ => 0) C' := by
  have h : negated.Computed realExponential (fun o => o) (fun _ => 0)
      (negated.members.cpuCompute Real.exp (fun o => o) fun _ => 0) :=
    computed_cpuCompute (fun _ _ => rfl) _ _
  exact ⟨_, (cpu_scaledSoftmax_eq_ok_iff negated Real.exp realExponential (fun _ _ => rfl) (-1)
    _ _ _).mpr ⟨rfl, h⟩, h⟩

end ScaledSoftmaxProblem

end InfiniOps.Softmax
