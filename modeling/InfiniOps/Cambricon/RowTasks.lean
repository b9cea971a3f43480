/-
InfiniOps.Cambricon.RowTasks — how the Cambricon kernel `RmsNorm` deals its
rows out to cores (`ops/rms_norm/kernel.mlu`): the range of flat indices of
each task, and the loop that decodes an index into coordinates and offsets.

Everything is an `int` in the source, and is narrowed here where the source
narrows it; extents are `size_t` and strides `ptrdiff_t`, so that a product
with one of them is made in 64 bits first. `FitsInt` says that the numbers
themselves are `int`, and then the narrowing is the identity.

The decoding takes the first dimension fastest: the coordinates are those
of the reversed shape, reversed (`decodeRow_eq`).
-/
import InfiniOps.Core.MachineInt
import InfiniOps.Lib.RowMajor
import InfiniOps.Lib.RowSplit

namespace InfiniOps.Cambricon

open RowMajor RowSplit

/-! ## The kernel -/

/-- `batch_volume`. -/
def batchVolume (shape : List Nat) : Int :=
  shape.dropLast.foldl (fun (volume : Int) (d : Nat) => toInt32 (toUInt64 (volume * d))) 1

section Tasks

variable (volume taskDim taskId : Int)

def remainingTasks : Int := volume.tmod taskDim

def baseTasksPerCore : Int := volume.tdiv taskDim

/-- `actual_tasks`. -/
def actualTaskCount : Int :=
  toInt32 (baseTasksPerCore volume taskDim + if taskId < remainingTasks volume taskDim then 1 else 0)

/-- `task_start_idx`. -/
def taskStartIdx : Int :=
  let remaining := remainingTasks volume taskDim
  let base := baseTasksPerCore volume taskDim
  if taskId < remaining then toInt32 (taskId * toInt32 (base + 1))
  else toInt32 (toInt32 (remaining * toInt32 (base + 1)) + toInt32 (toInt32 (taskId - remaining) * base))

end Tasks

/-- The offsets of a row. The coordinates are the values of `dim_coord`. -/
structure Row where
  coords : List Nat
  inputOffset : Int
  outputOffset : Int
  deriving DecidableEq, Repr

/-- The loop over the outer dimensions. -/
def decodeRow : (shape : List Nat) → (inputStrides outputStrides : List Int) →
    (tempIndex inputOffset outputOffset : Int) → Row
  | d :: ds, si :: sis, so :: sos, tempIndex, inputOffset, outputOffset =>
    let dimCoord := toInt32 (toUInt64 tempIndex % d : Nat)
    let row := decodeRow ds sis sos (toInt32 (toUInt64 tempIndex / d : Nat))
      (toInt32 (inputOffset + toInt64 (dimCoord * si)))
      (toInt32 (outputOffset + toInt64 (dimCoord * so)))
    { row with coords := dimCoord.toNat :: row.coords }
  | _, _, _, _, inputOffset, outputOffset => ⟨[], inputOffset, outputOffset⟩

/-- The rows that one core processes, in order. -/
def taskRows (shape : List Nat) (inputStrides outputStrides : List Int) (taskDim taskId : Nat) :
    List Row :=
  let volume := batchVolume shape
  (List.range (actualTaskCount volume taskDim taskId).toNat).map fun (taskIdx : Nat) =>
    decodeRow shape.dropLast inputStrides outputStrides
      (toInt32 (taskStartIdx volume taskDim taskId + taskIdx)) 0 0

/-- The rows of all cores. -/
def gridRows (shape : List Nat) (inputStrides outputStrides : List Int) (taskDim : Nat) : List Row :=
  (List.range taskDim).flatMap (taskRows shape inputStrides outputStrides taskDim)

/-! ## What they are for -/

/-- The flat indices of the tasks, in order, are those of all rows. -/
def TasksPartition (shape : List Nat) (taskDim : Nat) : Prop :=
  (List.range taskDim).flatMap (fun (taskId : Nat) =>
    (List.range (actualTaskCount (batchVolume shape) taskDim taskId).toNat).map fun (k : Nat) =>
      taskStartIdx (batchVolume shape) taskDim taskId + k)
    = (List.range shape.dropLast.prod).map fun (i : Nat) => (i : Int)

/-- Every outer multi-index is the row of one task, once, and is found at the
offsets that the strides give it. -/
structure RowsOnce (shape : List Nat) (inputStrides outputStrides : List Int) (taskDim : Nat) :
    Prop where
  nodup : ((gridRows shape inputStrides outputStrides taskDim).map Row.coords).Nodup
  mem_iff : ∀ idx, idx ∈ (gridRows shape inputStrides outputStrides taskDim).map Row.coords ↔
    Valid shape.dropLast idx
  offsets : ∀ row ∈ gridRows shape inputStrides outputStrides taskDim,
    row.inputOffset = dot row.coords inputStrides ∧ row.outputOffset = dot row.coords outputStrides

/-- The products of the kernel are `int`. -/
structure FitsInt (shape : List Nat) (inputStrides outputStrides : List Int) (taskDim : Nat) :
    Prop where
  volume_lt : shape.dropLast.prod < 2 ^ 31
  taskDim_lt : taskDim < 2 ^ 31
  offset_fits : ∀ strides ∈ [inputStrides, outputStrides], ∀ idx, Valid shape.dropLast idx →
    -2 ^ 31 ≤ dot idx strides ∧ dot idx strides < 2 ^ 31

/-! ## Tasks -/

theorem batchVolume_eq {shape : List Nat} (h : shape.dropLast.prod < 2 ^ 31) :
    batchVolume shape = shape.dropLast.prod := by
  have hfold : ∀ (ds : List Nat) (volume : Int),
      ds.foldl (fun (volume : Int) (d : Nat) => toInt32 (toUInt64 (volume * d))) (toInt32 volume)
        = toInt32 (volume * ds.prod) := by
    intro ds
    induction ds with
    | nil => simp
    | cons d ds ih =>
      intro volume
      rw [List.foldl_cons, toInt32_toUInt64_mul, ih, List.prod_cons, Nat.cast_mul, Int.mul_assoc]
  have hone : toInt32 1 = 1 := toInt32_eq_self (by decide) (by decide)
  have hall := hfold shape.dropLast 1
  rw [hone, Int.one_mul] at hall
  rw [batchVolume, hall, toInt32_eq_self (by omega) (by omega)]

section Split

variable {n k b : Nat} (hn : n < 2 ^ 31) (hb : b < k)
include hn hb

theorem actualTaskCount_eq : actualTaskCount n k b = share n k b := by
  have hle := shareStart_add_share_le (n := n) (Nat.zero_lt_of_lt hb) hb
  have hcast : baseTasksPerCore n k + (if (b : Int) < remainingTasks n k then 1 else 0)
      = (share n k b : Nat) := by
    rw [baseTasksPerCore, remainingTasks, ← Int.ofNat_tmod, ← Int.ofNat_tdiv, share]
    simp only [Int.ofNat_lt]
    split <;> simp
  rw [actualTaskCount, hcast, toInt32_eq_self (by omega) (by omega)]

/-- Both branches are the rows of the tasks before. -/
theorem taskStartIdx_eq (hk : k < 2 ^ 31) : taskStartIdx n k b = shareStart n k b := by
  have hle := shareStart_add_share_le (n := n) (Nat.zero_lt_of_lt hb) hb
  have hbase : baseTasksPerCore n k = (n / k : Nat) := by
    rw [baseTasksPerCore, ← Int.ofNat_tdiv]
  have hremaining : remainingTasks n k = (n % k : Nat) := by
    rw [remainingTasks, ← Int.ofNat_tmod]
  rw [taskStartIdx, hbase, hremaining]
  rw [shareStart, share] at hle
  rw [shareStart]
  generalize n / k = base at hle ⊢
  generalize n % k = remaining at hle ⊢
  simp only [Int.ofNat_lt]
  by_cases hlt : b < remaining
  · rw [if_pos hlt] at hle ⊢
    rw [Nat.min_eq_left hlt.le] at hle ⊢
    have hsucc : toInt32 (base + 1) = (base + 1 : Nat) := by
      rw [← Nat.cast_succ]
      exact toInt32_natCast (by omega)
    have hprod : b * (base + 1) = b * base + b := Nat.mul_succ b base
    have hbound : b * (base + 1) < 2 ^ 31 := by
      rw [hprod]
      exact Nat.lt_of_le_of_lt (Nat.le_of_add_right_le hle) hn
    rw [hsucc, ← Nat.cast_mul, toInt32_natCast hbound, hprod]
  · have hge : remaining ≤ b := Nat.le_of_not_lt hlt
    rw [if_neg hlt] at hle ⊢
    rw [Nat.min_eq_right hge] at hle ⊢
    have hsplit : remaining * (base + 1) + (b - remaining) * base = b * base + remaining := by
      rw [Nat.mul_succ, Nat.add_right_comm, ← Nat.add_mul, Nat.add_sub_cancel' hge]
    have hstart : b * base + remaining < 2 ^ 31 := Nat.lt_of_le_of_lt (Nat.le_of_add_right_le hle) hn
    rw [← hsplit] at hstart
    have hdiff : toInt32 (b - remaining) = (b - remaining : Nat) := by
      rw [← Int.ofNat_sub hge]
      exact toInt32_natCast (by omega)
    have hhead : toInt32 (remaining * toInt32 (base + 1)) = (remaining * (base + 1) : Nat) := by
      rcases Nat.eq_zero_or_pos remaining with rfl | hpos
      · simpa using toInt32_natCast (m := 0) (by decide)
      · have hself : base + 1 ≤ remaining * (base + 1) := Nat.le_mul_of_pos_left _ hpos
        have hsucc : toInt32 (base + 1) = (base + 1 : Nat) := by
          rw [← Nat.cast_succ]
          exact toInt32_natCast (Nat.lt_of_le_of_lt hself (Nat.lt_of_add_right_lt hstart))
        rw [hsucc, ← Nat.cast_mul, toInt32_natCast (Nat.lt_of_add_right_lt hstart)]
    have htail : toInt32 ((b - remaining : Nat) * base) = ((b - remaining) * base : Nat) := by
      rw [← Nat.cast_mul]
      exact toInt32_natCast (Nat.lt_of_add_left_lt hstart)
    rw [hdiff, hhead, htail, ← Nat.cast_add, toInt32_natCast hstart, hsplit]

end Split

/-! ## Rows -/

/-- The offsets of an index, whatever has been added before. -/
theorem decodeRow_eq {shape : List Nat} {inputStrides outputStrides : List Int}
    (hin : shape.length ≤ inputStrides.length) (hout : shape.length ≤ outputStrides.length)
    {flat : Nat} (hflat : flat < 2 ^ 31) (i o : Int) :
    decodeRow shape inputStrides outputStrides flat (toInt32 i) (toInt32 o)
      = ⟨(unravel shape.reverse flat).reverse,
          toInt32 (i + dot (unravel shape.reverse flat).reverse inputStrides),
          toInt32 (o + dot (unravel shape.reverse flat).reverse outputStrides)⟩ := by
  induction shape generalizing inputStrides outputStrides flat i o with
  | nil => simp [decodeRow]
  | cons d ds ih =>
    obtain ⟨si, sis, rfl⟩ := List.exists_cons_of_length_pos (Nat.zero_lt_of_lt hin)
    obtain ⟨so, sos, rfl⟩ := List.exists_cons_of_length_pos (Nat.zero_lt_of_lt hout)
    have hcoords : (unravel (d :: ds).reverse flat).reverse
        = flat % d :: (unravel ds.reverse (flat / d)).reverse := by
      rw [List.reverse_cons, unravel_append]
      simp [unravel]
    have hcoord : flat % d ≤ flat := Nat.mod_le flat d
    have hrest : flat / d ≤ flat := Nat.div_le_self flat d
    have hword : toUInt64 flat = flat := toUInt64_eq_self (by omega)
    rw [hcoords, decodeRow, hword, toInt32_natCast (by omega), toInt32_natCast (by omega),
      toInt32_add_toInt64, toInt32_add_toInt64,
      ih (Nat.le_of_succ_le_succ hin) (Nat.le_of_succ_le_succ hout) (by omega)]
    simp only [Int.toNat_natCast, dot_cons, Int.add_assoc]

/-- The row with a given number. -/
def rowAt (shape : List Nat) (inputStrides outputStrides : List Int) (flat : Nat) : Row :=
  let coords := (unravel shape.dropLast.reverse flat).reverse
  ⟨coords, dot coords inputStrides, dot coords outputStrides⟩

theorem rowAt_valid {shape : List Nat} (inputStrides outputStrides : List Int) {flat : Nat}
    (hflat : flat < shape.dropLast.prod) :
    Valid shape.dropLast (rowAt shape inputStrides outputStrides flat).coords := by
  have hpos : 0 < shape.dropLast.reverse.prod := by
    rw [List.prod_reverse]
    exact Nat.zero_lt_of_lt hflat
  have hvalid := unravel_valid hpos flat
  rw [Valid, ← List.forall₂_reverse_iff] at hvalid
  rwa [List.reverse_reverse] at hvalid

section Grid

variable {shape : List Nat} {inputStrides outputStrides : List Int} {taskDim : Nat}
  (hin : inputStrides.length = shape.length) (hout : outputStrides.length = shape.length)
  (hfits : FitsInt shape inputStrides outputStrides taskDim)

/-- The ranges of the tasks lie one behind the other. -/
theorem tasksPartition (htaskDim : 1 ≤ taskDim)
    (hfits : FitsInt shape inputStrides outputStrides taskDim) : TasksPartition shape taskDim := by
  have hrange := flatMap_range (shareStart_zero (n := shape.dropLast.prod) (k := taskDim))
    shareStart_succ taskDim
  rw [shareStart_last htaskDim] at hrange
  rw [TasksPartition, ← hrange, List.map_flatMap, batchVolume_eq hfits.volume_lt]
  refine List.flatMap_congr fun b hb => ?_
  rw [List.mem_range] at hb
  rw [actualTaskCount_eq hfits.volume_lt hb, taskStartIdx_eq hfits.volume_lt hb hfits.taskDim_lt,
    Int.toNat_natCast, List.map_map]
  refine List.map_congr_left fun j _ => ?_
  rw [← Nat.cast_add]
  rfl

include hin hout hfits

theorem decodeRow_eq_rowAt {flat : Nat} (hflat : flat < shape.dropLast.prod) :
    decodeRow shape.dropLast inputStrides outputStrides flat 0 0
      = rowAt shape inputStrides outputStrides flat := by
  have hlen : shape.dropLast.length ≤ shape.length := by simp
  have hvolume := hfits.volume_lt
  have hzero : toInt32 0 = 0 := toInt32_eq_self (by decide) (by decide)
  have hdecode := decodeRow_eq (hin ▸ hlen) (hout ▸ hlen) (by omega : flat < 2 ^ 31) 0 0
  have hvalid := rowAt_valid inputStrides outputStrides hflat
  obtain ⟨hlo, hhi⟩ := hfits.offset_fits inputStrides (by simp) _ hvalid
  obtain ⟨hlo', hhi'⟩ := hfits.offset_fits outputStrides (by simp) _ hvalid
  rw [hzero, Int.zero_add, Int.zero_add] at hdecode
  rw [hdecode, rowAt]
  exact congrArg₂ _ (toInt32_eq_self hlo hhi) (toInt32_eq_self hlo' hhi')

/-- The rows of the cores, one core after the other, are the rows in order. -/
theorem gridRows_eq (htaskDim : 1 ≤ taskDim) : gridRows shape inputStrides outputStrides taskDim
    = (List.range shape.dropLast.prod).map (rowAt shape inputStrides outputStrides) := by
  have htask : ∀ b ∈ List.range taskDim, taskRows shape inputStrides outputStrides taskDim b
      = ((List.range (share shape.dropLast.prod taskDim b)).map
          (shareStart shape.dropLast.prod taskDim b + ·)).map
          (rowAt shape inputStrides outputStrides) := by
    intro b hb
    rw [List.mem_range] at hb
    rw [taskRows, batchVolume_eq hfits.volume_lt, actualTaskCount_eq hfits.volume_lt hb,
      taskStartIdx_eq hfits.volume_lt hb hfits.taskDim_lt, Int.toNat_natCast, List.map_map]
    refine List.map_congr_left fun j hj => ?_
    have hlt : shareStart shape.dropLast.prod taskDim b + j < shape.dropLast.prod :=
      Nat.lt_of_lt_of_le (Nat.add_lt_add_left (List.mem_range.mp hj) _)
        (shareStart_add_share_le (Nat.zero_lt_of_lt hb) hb)
    rw [← Nat.cast_add, toInt32_natCast (Nat.lt_trans hlt hfits.volume_lt)]
    exact decodeRow_eq_rowAt hin hout hfits hlt
  rw [gridRows, List.flatMap_congr htask, ← List.map_flatMap,
    flatMap_range shareStart_zero shareStart_succ, shareStart_last htaskDim]

end Grid

/-- The tasks deal out every row once, and every row is found where the
strides put it. -/
theorem rows_distributed_once (shape : List Nat) (inputStrides outputStrides : List Int)
    (taskDim : Nat) (hin : inputStrides.length = shape.length)
    (hout : outputStrides.length = shape.length) (htaskDim : 1 ≤ taskDim)
    (hfits : FitsInt shape inputStrides outputStrides taskDim) :
    TasksPartition shape taskDim ∧ RowsOnce shape inputStrides outputStrides taskDim := by
  have hrows := gridRows_eq hin hout hfits htaskDim
  have hcoords : (gridRows shape inputStrides outputStrides taskDim).map Row.coords
      = (List.range shape.dropLast.prod).map
          fun flat => (unravel shape.dropLast.reverse flat).reverse := by
    rw [hrows, List.map_map]
    rfl
  have hprod : shape.dropLast.reverse.prod = shape.dropLast.prod := List.prod_reverse _
  refine ⟨tasksPartition htaskDim hfits, ?_, ?_, ?_⟩
  · rw [hcoords]
    refine List.Nodup.map_on ?_ List.nodup_range
    intro m hm n hn heq
    rw [List.mem_range, ← hprod] at hm hn
    exact unravel_inj hm hn (List.reverse_injective heq)
  · intro idx
    rw [hcoords, List.mem_map]
    constructor
    · rintro ⟨flat, hflat, rfl⟩
      exact rowAt_valid inputStrides outputStrides (List.mem_range.mp hflat)
    · intro hidx
      have hreverse : Valid shape.dropLast.reverse idx.reverse := List.forall₂_reverse_iff.mpr hidx
      refine ⟨ravel shape.dropLast.reverse idx.reverse, ?_, ?_⟩
      · rw [List.mem_range, ← hprod]
        exact ravel_lt hreverse
      · rw [unravel_ravel hreverse, List.reverse_reverse]
  · intro row hrow
    rw [hrows, List.mem_map] at hrow
    obtain ⟨flat, -, rfl⟩ := hrow
    exact ⟨rfl, rfl⟩

/-- Seven cores and a rank of three, with a reversed and a broadcast
dimension. -/
theorem rows_distributed_once_seven :
    TasksPartition [5, 4, 8] 7 ∧ RowsOnce [5, 4, 8] [-32, 8, 1] [0, 8, 1] 7 :=
  have hoffsets : ∀ strides ∈ [[-32, 8, 1], [0, 8, 1]], ∀ flat < [5, 4].prod,
      -2 ^ 31 ≤ dot (unravel [5, 4] flat) strides ∧ dot (unravel [5, 4] flat) strides < 2 ^ 31 := by
    decide
  rows_distributed_once [5, 4, 8] [-32, 8, 1] [0, 8, 1] 7 rfl rfl (by decide)
    ⟨by decide, by decide, fun strides h => forall_valid_iff.mpr (hoffsets strides h)⟩

end InfiniOps.Cambricon
