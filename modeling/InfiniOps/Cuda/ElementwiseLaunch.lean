/-
InfiniOps.Cuda.ElementwiseLaunch — the launch of the elementwise CUDA
kernels `Add` and `Swiglu`: block and grid dimensions on the host, the
element index on the device.

The host computes in `size_t` and `dim3` keeps 32 bits; the device
multiplies and adds in `unsigned int` and then widens. Each thread of the
launch handles at most one element, and `covers_iff` says when every
element is handled by exactly one thread: from 1 to 2^32 elements. An
empty tensor divides by a block of no threads, and beyond 2^32 elements no
32-bit index reaches the rest.
-/
import InfiniOps.Core.MachineInt
import Mathlib.Order.Lattice.Nat

namespace InfiniOps.Cuda

/-- `AllCudaBlockSizes`. -/
def allCudaBlockSizes : List Nat := [128, 256, 512, 1024, 2048]

/-- `utils::CeilDiv` of a `size_t` and an `unsigned int`. -/
def ceilDiv (x y : Nat) : Option Nat :=
  if y = 0 then none else some (toUInt64 ((x : Int) + y - 1) / y)

/-- The `x` components of `gridDims` and `blockDims`. -/
structure LaunchDims where
  gridDim : Nat
  blockDim : Nat
  deriving DecidableEq, Repr

/-- The launch configuration of both operators, `none` if it divides by zero. -/
def elementwiseLaunch (blockSize outputSize : Nat) : Option LaunchDims := do
  let blockDim := toUInt32 (min blockSize outputSize : Nat)
  let gridDim ← ceilDiv outputSize blockDim
  return ⟨toUInt32 gridDim, blockDim⟩

/-- `CudaAdd::operator()`. -/
def cudaAddLaunch := elementwiseLaunch

/-- `CudaSwiglu::operator()`. -/
def cudaSwigluLaunch := elementwiseLaunch

/-- A thread, by `blockIdx.x` and `threadIdx.x`. -/
structure Thread where
  blockIdx : Nat
  threadIdx : Nat
  deriving DecidableEq, Repr

namespace LaunchDims

variable (d : LaunchDims)

/-- The threads of the launch. -/
def HasThread (t : Thread) : Prop := t.blockIdx < d.gridDim ∧ t.threadIdx < d.blockDim

/-- `blockIdx.x * blockDim.x + threadIdx.x`. -/
def index (t : Thread) : Nat := toUInt32 ((t.blockIdx * d.blockDim + t.threadIdx : Nat) : Int)

/-- The element that a thread of `AddKernel` or `SwigluKernel` writes. -/
def handled (outputSize : Nat) (t : Thread) : Option Nat :=
  if d.index t < outputSize then some (d.index t) else none

end LaunchDims

/-- The launch happens, every element is handled by exactly one of its
threads, and no thread handles anything else. -/
def Covers (launch : Option LaunchDims) (outputSize : Nat) : Prop :=
  ∃ d, launch = some d ∧
    (∀ i < outputSize, ∃! t, d.HasThread t ∧ d.handled outputSize t = some i) ∧
    ∀ t, d.HasThread t → ∀ i, d.handled outputSize t = some i → i < outputSize

/-! ## What a launch covers -/

theorem LaunchDims.lt_of_handled {d : LaunchDims} {outputSize i : Nat} {t : Thread}
    (h : d.handled outputSize t = some i) : i < outputSize ∧ i < 2 ^ 32 := by
  unfold LaunchDims.handled at h
  split at h
  · obtain rfl := Option.some.inj h
    exact ⟨‹_›, toUInt32_lt _⟩
  · cases h

/-- Beyond 2^32 elements something is left over, however many threads run. -/
theorem Covers.le {launch : Option LaunchDims} {outputSize : Nat} (h : Covers launch outputSize) :
    outputSize ≤ 2 ^ 32 := by
  obtain ⟨d, -, hall, -⟩ := h
  by_contra hlarge
  obtain ⟨t, ⟨-, hindex⟩, -⟩ := hall (2 ^ 32) (by omega)
  exact absurd (LaunchDims.lt_of_handled hindex).2 (Nat.lt_irrefl _)

/-- Enough threads, none of them beyond 2^32, cover every element. -/
theorem covers_of_bounds {d : LaunchDims} {outputSize : Nat} (hblock : 0 < d.blockDim)
    (henough : outputSize ≤ d.gridDim * d.blockDim) (hbound : d.gridDim * d.blockDim ≤ 2 ^ 32) :
    Covers (some d) outputSize := by
  have hindex : ∀ t, d.HasThread t → d.index t = t.blockIdx * d.blockDim + t.threadIdx := by
    intro t ht
    have hlt : t.blockIdx * d.blockDim + t.threadIdx < d.gridDim * d.blockDim := by
      calc t.blockIdx * d.blockDim + t.threadIdx
          < t.blockIdx * d.blockDim + d.blockDim := Nat.add_lt_add_left ht.2 _
        _ = (t.blockIdx + 1) * d.blockDim := (Nat.succ_mul _ _).symm
        _ ≤ d.gridDim * d.blockDim := Nat.mul_le_mul_right _ ht.1
    exact toUInt32_eq_self (Nat.lt_of_lt_of_le hlt hbound)
  refine ⟨d, rfl, ?_, fun _ _ _ hi => (LaunchDims.lt_of_handled hi).1⟩
  intro i hi
  have ht : d.HasThread ⟨i / d.blockDim, i % d.blockDim⟩ :=
    ⟨(Nat.div_lt_iff_lt_mul hblock).mpr (Nat.lt_of_lt_of_le hi henough), Nat.mod_lt _ hblock⟩
  have hself : d.index ⟨i / d.blockDim, i % d.blockDim⟩ = i := by
    rw [hindex _ ht, Nat.mul_comm]
    exact Nat.div_add_mod i d.blockDim
  refine ⟨⟨i / d.blockDim, i % d.blockDim⟩, ⟨ht, ?_⟩, ?_⟩
  · rw [LaunchDims.handled, hself, if_pos hi]
  · -- the thread of `i` is its quotient and remainder by the block
    rintro ⟨b, t⟩ ⟨ht', hhandled⟩
    have hvalue : b * d.blockDim + t = i := by
      unfold LaunchDims.handled at hhandled
      split at hhandled
      · rw [hindex _ ht'] at hhandled
        exact Option.some.inj hhandled
      · cases hhandled
    have hlt : t < d.blockDim := ht'.2
    rw [← hvalue, Nat.mul_comm b, Nat.mul_add_div hblock, Nat.mul_add_mod,
      Nat.div_eq_of_lt hlt, Nat.mod_eq_of_lt hlt, Nat.add_zero]

theorem elementwiseLaunch_zero (blockSize : Nat) : elementwiseLaunch blockSize 0 = none := by
  have hblock : toUInt32 ((0 : Nat) : Int) = 0 := toUInt32_eq_self (by decide)
  rw [elementwiseLaunch, Nat.min_zero, hblock, ceilDiv, if_pos rfl]
  rfl

/-- Up to 2^32 elements the host's arithmetic is exact. -/
theorem elementwiseLaunch_eq {blockSize outputSize : Nat} (hblock : 0 < blockSize)
    (hsmall : blockSize < 2 ^ 32) (hpos : 0 < outputSize) (hle : outputSize ≤ 2 ^ 32) :
    elementwiseLaunch blockSize outputSize = some
      ⟨toUInt32 ((outputSize + min blockSize outputSize - 1) / min blockSize outputSize : Nat),
        min blockSize outputSize⟩ := by
  have hmin : 0 < min blockSize outputSize := Nat.lt_min.mpr ⟨hblock, hpos⟩
  have hmin' : min blockSize outputSize < 2 ^ 32 :=
    Nat.lt_of_le_of_lt (Nat.min_le_left _ _) hsmall
  have hsum : toUInt64 ((outputSize : Int) + (min blockSize outputSize : Nat) - 1)
      = outputSize + min blockSize outputSize - 1 := by
    unfold toUInt64
    omega
  rw [elementwiseLaunch, toUInt32_eq_self hmin', ceilDiv, if_neg (by omega), hsum]
  rfl

theorem elementwiseLaunch_covers_iff {blockSize : Nat} (hblock : blockSize ∈ allCudaBlockSizes)
    (outputSize : Nat) : Covers (elementwiseLaunch blockSize outputSize) outputSize ↔
      0 < outputSize ∧ outputSize ≤ 2 ^ 32 := by
  have hcases : blockSize = 128 ∨ blockSize = 256 ∨ blockSize = 512 ∨ blockSize = 1024 ∨
      blockSize = 2048 := by
    simpa [allCudaBlockSizes] using hblock
  constructor
  · intro h
    refine ⟨?_, h.le⟩
    by_contra hzero
    obtain rfl : outputSize = 0 := by omega
    rw [elementwiseLaunch_zero] at h
    obtain ⟨d, hd, -⟩ := h
    cases hd
  · rintro ⟨hpos, hle⟩
    rw [elementwiseLaunch_eq (by omega) (by omega) hpos hle]
    by_cases hsmall : outputSize ≤ blockSize
    · -- one block with a thread for each element
      have hone : (outputSize + outputSize - 1) / outputSize = 1 := by
        rw [Nat.div_eq_iff hpos]
        omega
      rw [Nat.min_eq_right hsmall, hone]
      have hgrid : toUInt32 ((1 : Nat) : Int) = 1 := toUInt32_eq_self (by decide)
      rw [hgrid]
      exact covers_of_bounds hpos (by simp) (by simpa using hle)
    · -- the block size divides 2^32, so the last block ends there at the latest
      rw [Nat.min_eq_left (by omega)]
      have hgrid : toUInt32 ((outputSize + blockSize - 1) / blockSize : Nat)
          = (outputSize + blockSize - 1) / blockSize := by
        refine toUInt32_eq_self ?_
        obtain rfl | rfl | rfl | rfl | rfl := hcases <;> omega
      rw [hgrid]
      refine covers_of_bounds (by simp only; omega) ?_ ?_
      · obtain rfl | rfl | rfl | rfl | rfl := hcases <;> simp only <;> omega
      · obtain rfl | rfl | rfl | rfl | rfl := hcases <;> simp only <;> omega

/-- For every block size, both launches cover their output exactly from 1 to
2^32 elements. -/
theorem covers_iff (blockSize : Nat) (hblock : blockSize ∈ allCudaBlockSizes) (outputSize : Nat) :
    (Covers (cudaAddLaunch blockSize outputSize) outputSize ↔
      0 < outputSize ∧ outputSize ≤ 2 ^ 32) ∧
    (Covers (cudaSwigluLaunch blockSize outputSize) outputSize ↔
      0 < outputSize ∧ outputSize ≤ 2 ^ 32) :=
  ⟨elementwiseLaunch_covers_iff hblock outputSize, elementwiseLaunch_covers_iff hblock outputSize⟩

theorem covers_iff_thousand :
    Covers (cudaAddLaunch 256 1000) 1000 ∧ Covers (cudaSwigluLaunch 256 1000) 1000 := by
  obtain ⟨hadd, hswiglu⟩ := covers_iff 256 (by decide) 1000
  exact ⟨hadd.mpr (by decide), hswiglu.mpr (by decide)⟩

/-- An empty tensor divides by zero, and element 2^32 is never handled. -/
theorem empty_and_large_not_covered :
    cudaAddLaunch 256 0 = none ∧ cudaSwigluLaunch 256 0 = none ∧
    ¬ Covers (cudaAddLaunch 256 (2 ^ 32 + 1)) (2 ^ 32 + 1) ∧
    ¬ Covers (cudaSwigluLaunch 256 (2 ^ 32 + 1)) (2 ^ 32 + 1) := by
  refine ⟨elementwiseLaunch_zero 256, elementwiseLaunch_zero 256, ?_, ?_⟩
  · intro h
    exact absurd h.le (by decide)
  · intro h
    exact absurd h.le (by decide)

end InfiniOps.Cuda
