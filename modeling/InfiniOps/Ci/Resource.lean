/-
InfiniOps.Ci.Resource — the GPU pool of the CI runner agent and the
parsers of a job's resource requirements (`.ci/ci_resource.py`).

`ResourcePool.allocate` detects GPUs and memory first and then decides
under the pool's lock. The decision is `allocateLocked`, so that a model of
concurrent callers can run it as one step. What the detection tools return
is up to the environment: a `Detection` says what each of the two calls
would do, raise or return.
-/
import InfiniOps.Ci.PyValue
import InfiniOps.Lib.Ownership
import Mathlib.Data.List.Sort

namespace InfiniOps.Ci

structure GpuInfo where
  index : Int
  memoryUsedMb : PyFloat := .fin 0
  memoryTotalMb : PyFloat := .fin 0
  utilizationPct : PyFloat
  deriving DecidableEq

structure SystemResources where
  totalMemoryMb : PyFloat := .fin 0
  availableMemoryMb : PyFloat
  cpuCount : Nat := 1
  deriving DecidableEq

/-- What `detect_gpus` and `detect_system_resources` do when called. -/
structure Detection where
  gpus : Except PyExc (List GpuInfo)
  system : Except PyExc SystemResources

/-- `ResourcePool`: the GPUs handed out and the utilization limit. -/
structure ResourcePool where
  allocated : Finset Int := ∅
  utilizationThreshold : PyFloat := .fin 10
  deriving DecidableEq

namespace ResourcePool

/-- The part of `allocate` that runs under the pool's lock. -/
def allocateLocked (pool : ResourcePool) (gpus : List GpuInfo) (sysRes : Option SystemResources)
    (gpuCount : Int) (memoryMb : PyFloat) : ResourcePool × List Int × Bool :=
  let available := gpus.filter fun g =>
    g.index ∉ pool.allocated && g.utilizationPct.lt pool.utilizationThreshold
  if available.length < gpuCount then (pool, [], false)
  else if sysRes.any fun r => r.availableMemoryMb.lt memoryMb then (pool, [], false)
  else
    -- a stable sort by utilization: `a` stays before `b` unless `b` is less
    let sorted := available.mergeSort fun a b => !b.utilizationPct.lt a.utilizationPct
    let selected := (sorted.take gpuCount.toNat).map GpuInfo.index
    ({ pool with allocated := pool.allocated ∪ selected.toFinset }, selected, true)

/-- `memory_mb > 0`. -/
def wantsMemory (memoryMb : PyFloat) : Bool := (PyFloat.fin 0).lt memoryMb

/-- `allocate`. -/
def allocate (pool : ResourcePool) (d : Detection) (gpuCount : Int) (memoryMb : PyFloat) :
    Except PyExc (ResourcePool × List Int × Bool) := do
  if gpuCount ≤ 0 then
    if wantsMemory memoryMb then
      let sysRes ← d.system
      if sysRes.availableMemoryMb.lt memoryMb then
        return (pool, [], false)
    return (pool, [], true)
  let gpus ← d.gpus
  let sysRes ← if wantsMemory memoryMb then some <$> d.system else pure none
  return pool.allocateLocked gpus sysRes gpuCount memoryMb

/-- `release`. -/
def release (pool : ResourcePool) (gpuIds : List Int) : ResourcePool :=
  { pool with allocated := pool.allocated \ gpuIds.toFinset }

end ResourcePool

/-! ## Resource requirements -/

/-- `job_config["resources"]`; a missing key is `none`. -/
structure Resources where
  gpuIds : Option PyVal := none
  ngpus : Option PyVal := none
  memory : Option PyVal := none
  deriving DecidableEq

/-- The count of a static pinning. `ngpus` is converted for the comparison
that guards a warning. -/
def staticGpuCount (ngpus : Option PyVal) (count : Nat) : Except PyExc Int := do
  if let some v := ngpus then
    let _ ← pyInt v
  return count

/-- `parse_gpu_requirement`. The text of a number is a single id. -/
def parseGpuRequirement (r : Resources) : Except PyExc Int :=
  match r.gpuIds.getD (.str "auto") with
  | .str s =>
    let gpuIds := stripBy pyIsSpace s.toList
    if gpuIds = "all".toList then .ok 0
    else if gpuIds = "auto".toList ∨ gpuIds = [] then
      match r.ngpus with
      | some v => pyInt v
      | none => .ok 1
    else staticGpuCount r.ngpus (gpuIds.count ',' + 1)
  | .int _ => staticGpuCount r.ngpus 1
  | .float _ => staticGpuCount r.ngpus 1

/-- `s.endswith(suffix)`, giving what stands before it. -/
def beforeSuffix (suffix s : List Char) : Option (List Char) :=
  if suffix.isSuffixOf s then some (s.take (s.length - suffix.length)) else none

/-- `parse_memory_requirement` of a text, in MB, with `lower` for `str.lower`.
A suffix commits to the number before it; without one an unreadable text
counts as 0. -/
def parseMemoryText (lower : List Char → List Char) (s : List Char) : Except PyExc PyFloat :=
  if s = [] then .ok (.fin 0)
  else
    let memory := stripBy pyIsSpace (lower s)
    match beforeSuffix "gb".toList memory, beforeSuffix "g".toList memory,
        beforeSuffix "mb".toList memory, beforeSuffix "m".toList memory with
    | some n, _, _, _ => (pyFloatOfString n).map (·.scale 1024)
    | none, some n, _, _ => (pyFloatOfString n).map (·.scale 1024)
    | none, none, some n, _ => pyFloatOfString n
    | none, none, none, some n => pyFloatOfString n
    | none, none, none, none =>
      match pyFloatOfString memory with
      | .ok x => .ok (x.scale 1024)
      | .error _ => .ok (.fin 0)

/-- `parse_memory_requirement`. A number is read back from its text and
counts as GB. -/
def parseMemoryRequirement (lower : List Char → List Char) (r : Resources) :
    Except PyExc PyFloat :=
  match r.memory with
  | none => .ok (.fin 0)
  | some (.str s) => parseMemoryText lower s.toList
  | some (.int n) => .ok ((PyFloat.ofRat n).scale 1024)
  | some (.float x) => .ok (x.scale 1024)

/-! ## What `allocate` does -/

namespace ResourcePool

/-- The decision only ever adds what it returns, which was free. -/
theorem allocateLocked_spec {pool pool' : ResourcePool} {gpus : List GpuInfo}
    {sysRes : Option SystemResources} {gpuCount : Int} {memoryMb : PyFloat} {ids : List Int}
    {ok : Bool} (h : pool.allocateLocked gpus sysRes gpuCount memoryMb = (pool', ids, ok)) :
    pool'.allocated = pool.allocated ∪ ids.toFinset ∧ (∀ g ∈ ids, g ∉ pool.allocated) ∧
      (ok = false → ids = []) := by
  simp only [allocateLocked] at h
  split at h
  · cases h
    simp
  · split at h
    · cases h
      simp
    · cases h
      refine ⟨rfl, ?_, by simp⟩
      intro g hg
      obtain ⟨info, hinfo, rfl⟩ := List.mem_map.mp hg
      have hmem := List.mem_mergeSort.mp (List.mem_of_mem_take hinfo)
      have hfree := (List.mem_filter.mp hmem).2
      simp only [Bool.and_eq_true, decide_eq_true_eq] at hfree
      exact hfree.1

set_option linter.unusedSimpArgs false in
/-- Without a GPU to allocate, nothing is reserved. -/
theorem allocate_of_nonpos {pool pool' : ResourcePool} {d : Detection} {gpuCount : Int}
    {memoryMb : PyFloat} {ids : List Int} {ok : Bool} (hcount : gpuCount ≤ 0)
    (h : pool.allocate d gpuCount memoryMb = .ok (pool', ids, ok)) : pool' = pool ∧ ids = [] := by
  rw [allocate, if_pos hcount] at h
  cases hmem : wantsMemory memoryMb <;> cases hsys : d.system <;>
    simp [hmem, hsys, pure, bind, Except.pure, Except.bind] at h
  · exact ⟨h.1.symm, h.2.1⟩
  · exact ⟨h.1.symm, h.2.1⟩
  · split at h <;> cases h <;> exact ⟨rfl, rfl⟩

set_option linter.unusedSimpArgs false in
/-- The same for the whole call. -/
theorem allocate_spec {pool pool' : ResourcePool} {d : Detection} {gpuCount : Int}
    {memoryMb : PyFloat} {ids : List Int} {ok : Bool}
    (h : pool.allocate d gpuCount memoryMb = .ok (pool', ids, ok)) :
    pool'.allocated = pool.allocated ∪ ids.toFinset ∧ (∀ g ∈ ids, g ∉ pool.allocated) ∧
      (ok = false → ids = []) := by
  by_cases hcount : gpuCount ≤ 0
  · obtain ⟨rfl, rfl⟩ := allocate_of_nonpos hcount h
    simp
  · rw [allocate, if_neg hcount] at h
    cases hgpus : d.gpus with
    | error e => simp [hgpus, bind, Except.bind] at h
    | ok gpus =>
      cases hmem : wantsMemory memoryMb <;> cases hsys : d.system <;>
        simp [hgpus, hmem, hsys, pure, bind, Except.pure, Except.bind] at h
      · exact allocateLocked_spec h
      · exact allocateLocked_spec h
      · exact allocateLocked_spec h

set_option linter.unusedSimpArgs false in
/-- `allocate` raises exactly when a detection that it makes raises. -/
theorem allocate_isOk_iff (pool : ResourcePool) (d : Detection) (gpuCount : Int)
    (memoryMb : PyFloat) :
    (∃ r, pool.allocate d gpuCount memoryMb = .ok r) ↔
      (0 < gpuCount → ∃ gpus, d.gpus = .ok gpus) ∧
        (wantsMemory memoryMb = true → ∃ sysRes, d.system = .ok sysRes) := by
  unfold allocate
  by_cases hcount : gpuCount ≤ 0
  · have hpos : ¬ 0 < gpuCount := by omega
    cases hmem : wantsMemory memoryMb <;> cases hsys : d.system <;>
      simp [hcount, hpos, hmem, hsys, pure, bind, Except.pure, Except.bind]
    split <;> simp
  · have hpos : 0 < gpuCount := by omega
    cases hgpus : d.gpus <;> cases hmem : wantsMemory memoryMb <;> cases hsys : d.system <;>
      simp [hcount, hpos, hgpus, hmem, hsys, pure, bind, Except.pure, Except.bind]

end ResourcePool

end InfiniOps.Ci
