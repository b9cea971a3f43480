/-
InfiniOps.Cpu.TopKTopPSampler — `TopKTopPSampler` on the CPU
(`src/base/top_k_top_p_sampler.h`,
`src/native/cpu/ops/top_k_top_p_sampler/top_k_top_p_sampler.h`).

* `sampleRow` — sort the indices of a row, keep the first of them, draw one.
* `keepCount` — how many are kept: top-k, then top-p by `applyTopP`.
* `topKTopPSampler` — the constructor's checks and the loop over the rows.

`std::sort` may leave equal elements in any order, and the distribution may
draw anything that it has weights for, so both are parameters, and
`Documented` says what they promise. So are `Cast<float>` and `std::exp`.
Logits are finite and ordered; `exp` and the sums are exact, in any ordered
field. A row is read by element offset from its first element; a read
outside of `indices` makes the result `none`.
-/
import InfiniOps.Core.Dispatcher
import InfiniOps.Core.Tensor
import Mathlib.Algebra.BigOperators.Group.List.Basic
import Mathlib.Algebra.Order.Field.Basic
import Mathlib.Data.List.Sort

namespace InfiniOps

namespace Cpu

/-- `std::sort` of indices, `Cast<float>`, `std::exp`, and
`std::discrete_distribution` over a generator. -/
structure Numerics (T L K G : Type) where
  sort : (Nat → Nat → Bool) → List Nat → List Nat
  cast : T → L
  exp : L → K
  draw : List K → G → Nat × G

namespace Numerics

variable {T L K G : Type} [Field K] [LinearOrder K]

/-- What the standard library promises, and that `exp` is positive. -/
structure Documented (x : Numerics T L K G) : Prop where
  sort_perm : ∀ comp, IsStrictWeakOrder Nat (fun a b => comp a b = true) → ∀ l,
    (x.sort comp l).Perm l
  sort_ordered : ∀ comp, IsStrictWeakOrder Nat (fun a b => comp a b = true) → ∀ l,
    (x.sort comp l).Pairwise fun a b => comp b a = false
  exp_pos : ∀ v, 0 < x.exp v
  draw_lt : ∀ weights rng, weights ≠ [] → (∀ w ∈ weights, 0 < w) →
    (x.draw weights rng).1 < weights.length

/-! ## One row -/

section Row

variable [LinearOrder L] [Sub L] (x : Numerics T L K G) (row : Int → T) (stride : Int)

/-- `Cast<float>(row[i * stride])`. -/
def logit (i : Nat) : L := x.cast (row (i * stride))

/-- The sorted `indices`. -/
def indices (vocabSize : Nat) : List Nat :=
  x.sort (fun a b => x.logit row stride a > x.logit row stride b) (List.range vocabSize)

/-- What the loops up to `keep_count` read. -/
def entries (indices : List Nat) (keepCount : Nat) : List L :=
  (indices.take keepCount).map (x.logit row stride)

/-- `max_val`, where `none` is the negative infinity it starts from. -/
def maxVal (entries : List L) : Option L :=
  entries.foldl (fun maxVal v => if maxVal.all (v > ·) then some v else maxVal) none

/-- `probs` before the division, and `weights`. -/
def expWeights (entries : List L) : List K :=
  match maxVal entries with
  | none => []
  | some maxVal => entries.map fun v => x.exp (v - maxVal)

/-- The last loop of `ApplyTopP`, from `cumulative` and `i` on. -/
def cutoff (sum topP : K) : (cumulative : K) → (i : Nat) → (probs : List K) → Option Nat
  | _, _, [] => none
  | cumulative, i, prob :: probs =>
    if cumulative + prob / sum ≥ topP then some (i + 1)
    else cutoff sum topP (cumulative + prob / sum) (i + 1) probs

/-- `ApplyTopP`. -/
def applyTopP (topP : K) (indices : List Nat) (keepCount : Nat) : Nat :=
  let probs := x.expWeights (x.entries row stride indices keepCount)
  (cutoff probs.sum topP 0 0 probs).getD keepCount

/-- `NormalizeTopK`. -/
def normalizeTopK (vocabSize : Nat) (topK : Int) : Nat :=
  if topK ≤ 0 ∨ topK.toNat > vocabSize then vocabSize else topK.toNat

/-- `keep_count` when the sampling starts. -/
def keepCount (vocabSize : Nat) (topK : Int) (topP : K) : Nat :=
  let keepCount := normalizeTopK vocabSize topK
  if topP > 0 ∧ topP < 1 then
    x.applyTopP row stride topP (x.indices row stride vocabSize) keepCount
  else keepCount

/-- `SampleRow`, with the generator's state passed on. -/
def sampleRow (vocabSize : Nat) (topK : Int) (topP : K) (rng : G) : Option (Int × G) :=
  let indices := x.indices row stride vocabSize
  let keepCount := x.keepCount row stride vocabSize topK topP
  if keepCount = 1 then (indices[0]?).map fun id : Nat => (toInt32 id, rng)
  else
    let drawn := x.draw (x.expWeights (x.entries row stride indices keepCount)) rng
    (indices[drawn.1]?).map fun id : Nat => (toInt32 id, drawn.2)

end Row

end Numerics

/-! ## The operator -/

/-- The members of `TopKTopPSampler` that the CPU operator uses. -/
structure TopKTopPSampler where
  batchSize : Nat
  vocabSize : Nat
  deriving DecidableEq

namespace TopKTopPSampler

/-- `ValidateK` and `ValidateP`. -/
def validateParameter (batchSize : Nat) (name : String) (dtypes : List DataType)
    (dtypeMessage : String) : Option Tensor → Except Failure Unit
  | none => .ok ()
  | some t => do
    assertion (t.ndim = 1)
      ("`TopKTopPSampler` requires `" ++ name ++ "` to be 1D when provided.")
    assertion (t.size 0 = 1 ∨ t.size 0 = batchSize)
      ("`TopKTopPSampler` requires `" ++ name ++ "` shape [1] or [batch_size].")
    assertion (t.dtype ∈ dtypes) dtypeMessage

/-- `ValidateK`. -/
def validateK (batchSize : Nat) : Option Tensor → Except Failure Unit :=
  validateParameter batchSize "k" [.kInt32, .kInt64]
    "`TopKTopPSampler` requires int32 or int64 `k`."

/-- `ValidateP`. -/
def validateP (batchSize : Nat) : Option Tensor → Except Failure Unit :=
  validateParameter batchSize "p" [.kFloat16, .kBFloat16, .kFloat32, .kFloat64]
    "`TopKTopPSampler` requires floating-point `p`."

/-- The constructor. -/
def new (logits : Tensor) (k p : Option Tensor) (out : Tensor) :
    Except Failure TopKTopPSampler := do
  let batchSize := logits.size 0
  let vocabSize := logits.size 1
  assertion (logits.ndim = 2)
    "`TopKTopPSampler` requires 2D `[batch_size, vocab_size]` logits."
  assertion (logits.dtype ∈ [.kFloat16, .kBFloat16, .kFloat32, .kFloat64])
    "`TopKTopPSampler` requires floating-point logits."
  assertion (out.ndim = 1) "`TopKTopPSampler` requires 1D `[batch_size]` output."
  assertion (out.size 0 = batchSize)
    "`TopKTopPSampler` requires output batch size to match logits."
  assertion (out.dtype = .kInt32) "`TopKTopPSampler` requires int32 output."
  validateK batchSize k
  validateP batchSize p
  return { batchSize, vocabSize }

/-- The contents of the operands, by the type they are read as and by offset. -/
structure Contents (T K : Type) where
  logits : DataType → Int → T
  k : DataType → Int → Int
  p : DataType → Int → K

section Compute

variable {T L K G : Type} [Field K] [LinearOrder K] [LinearOrder L] [Sub L]
variable (m : TopKTopPSampler) (x : Numerics T L K G) (contents : Contents T K)
variable (logits : Tensor) (k p : Option Tensor) (out : Tensor)

/-- Where `GetK` and `GetP` read. -/
def parameterOffset (t : Tensor) (row : Nat) : Int :=
  (if t.size 0 = 1 then 0 else row : Nat) * t.stride 0

/-- `GetK`. -/
def getK (row : Nat) : Int :=
  match k with
  | none => toInt64 m.vocabSize
  | some t => contents.k (if t.dtype = .kInt32 then .kInt32 else .kInt64) (parameterOffset t row)

/-- `GetP`. -/
def getP (row : Nat) : Except Failure K :=
  match p with
  | none => .ok 1
  | some t =>
    match t.dtype with
    | .kFloat16 | .kBFloat16 | .kFloat32 | .kFloat64 =>
      .ok (contents.p t.dtype (parameterOffset t row))
    | _ => .error (.aborted "`TopKTopPSampler` has unsupported `p` dtype.")

/-- The row that starts at `logits_ptr + row * logits.stride(0)`. -/
def rowData (dtype : DataType) (row : Nat) : Int → T :=
  fun o => contents.logits dtype (row * logits.stride 0 + o)

/-- The body of the loop over the rows. -/
def computeRow (dtype : DataType) (state : (Int → Int) × G) (row : Nat) :
    OptionT (Except Failure) ((Int → Int) × G) := do
  let topK := m.getK contents k row
  let topP ← OptionT.lift (getP contents p row)
  let sampled ← OptionT.mk (.ok (x.sampleRow (rowData contents logits dtype row)
    (logits.stride 1) m.vocabSize topK topP state.2))
  return (Function.update state.1 (row * out.stride 0) sampled.1, sampled.2)

/-- `Compute<T>`. -/
def compute (dtype : DataType) (outData : Int → Int) (rng : G) :
    OptionT (Except Failure) ((Int → Int) × G) :=
  (List.range m.batchSize).foldlM (m.computeRow x contents logits k p out dtype) (outData, rng)

end Compute

end TopKTopPSampler

/-- Construct the operator and call it. -/
def topKTopPSampler {T L K G : Type} [Field K] [LinearOrder K] [LinearOrder L] [Sub L]
    (x : Numerics T L K G) (contents : TopKTopPSampler.Contents T K) (logits : Tensor)
    (k p : Option Tensor) (out : Tensor) (outData : Int → Int) (rng : G) :
    Except Failure (Option ((Int → Int) × G)) := do
  let members ← TopKTopPSampler.new logits k p out
  let dispatched : Run DataType (Option ((Int → Int) × G)) :=
    dispatchFunc DataType.code true (fun _ => true) allFloatTypes logits.dtype
      (fun dtype =>
        ⟨[dtype], (members.compute x contents logits k p out dtype outData rng).run⟩)
      "`Operator<TopKTopPSampler, Device::Type::kCpu>::operator()`"
  dispatched.ending

end Cpu

end InfiniOps
