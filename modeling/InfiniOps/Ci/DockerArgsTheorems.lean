/-
InfiniOps.Ci.DockerArgsTheorems — when a static GPU pinning is honoured.

Texts first: a joined list of ids splits into the same ids again
(`deviceIds_joinIds`), and the requirement parser counts the ids of a
pinned list (`Pinned.gpuCount_eq`). The selection is therefore of as many
GPUs as the list has ids, but of the least loaded ones
(`mem_selected_iff`), and an override wins over the list.

`pinning_honoured_iff` says when these are the same devices.
-/
import InfiniOps.Ci.DockerArgs
import InfiniOps.Ci.PyValueTheorems
import InfiniOps.Lib.Decimal
import InfiniOps.Lib.Except

namespace InfiniOps.Ci

open Decimal

/-! ## Texts of ids -/

theorem comma_notMem_toString (n : Int) : ',' ∉ (toString n).toList := by
  intro h
  exact ne_of_mem_toString h (by decide) (by decide) rfl

/-- Neither a digit nor a minus is skipped. -/
theorem strip_toString (n : Int) :
    String.ofList (stripBy pyIsSpace (toString n).toList) = toString n := by
  rw [stripBy_eq_self, String.ofList_toList]
  intro c hc
  rcases mem_toString hc with rfl | h
  · decide
  · exact not_space_of_isDigit h

theorem length_splitOn (c : Char) (s : List Char) : (s.splitOn c).length = s.count c + 1 := by
  induction s with
  | nil => rfl
  | cons d s ih =>
    rw [List.splitOn_cons_eq_if_modifyHead, List.count_cons]
    split <;> simp_all

theorem length_deviceIds (s : String) : (deviceIds s).length = s.toList.count ',' + 1 := by
  rw [deviceIds, List.length_map, length_splitOn]

theorem deviceIds_joinIds {gpuIds : List Int} (h : gpuIds ≠ []) :
    deviceIds (joinIds gpuIds) = gpuIds.map toString := by
  have hsplit : (joinIds gpuIds).toList.splitOn ','
      = (gpuIds.map toString).map String.toList := by
    rw [joinIds, String.toList_intercalate]
    refine List.splitOn_intercalate ',' ?_ (by simpa using h)
    intro l hl
    simp only [List.map_map, List.mem_map, Function.comp] at hl
    obtain ⟨n, -, rfl⟩ := hl
    exact comma_notMem_toString n
  rw [deviceIds, hsplit, List.map_map, List.map_map]
  refine List.map_congr_left fun n _ => ?_
  exact strip_toString n

/-- A joined list of ids is neither empty nor a keyword. -/
theorem joinIds_ne {gpuIds : List Int} (h : gpuIds ≠ []) :
    joinIds gpuIds ≠ "" ∧ joinIds gpuIds ≠ "all" := by
  obtain ⟨n, ns, rfl⟩ := List.exists_cons_of_ne_nil h
  have hids := deviceIds_joinIds h
  have hempty : deviceIds "" = [""] := by decide
  have hall : deviceIds "all" = ["all"] := by decide
  constructor
  · intro heq
    rw [heq, hempty, List.map_cons] at hids
    exact toString_ne_empty n (List.cons.inj hids).1.symm
  · intro heq
    rw [heq, hall, List.map_cons] at hids
    have htext : "all" = toString n := (List.cons.inj hids).1
    have hmem : 'a' ∈ (toString n).toList := htext ▸ by decide
    rcases mem_toString hmem with h | h <;> exact absurd h (by decide)

/-! ## The selection -/

theorem afterPrefix_append (pre s : String) : afterPrefix pre (pre ++ s) = some s := by
  rw [afterPrefix, String.toList_append, if_pos (by simp), List.drop_left, String.ofList_toList]

/-- The ids that are passed are the ids that are exposed. -/
theorem exposed_gpuArgs {platform gpuId : String}
    (h : platform = "nvidia" ∨ (platformDeviceEnv platform).isSome) (hempty : gpuId ≠ "")
    (hall : gpuId ≠ "all") (rest : List String) :
    exposed platform (gpuArgs platform gpuId ++ rest) = some (deviceIds gpuId) := by
  rw [gpuArgs, if_neg hempty]
  by_cases hnvidia : platform = "nvidia"
  · simp [hnvidia, hall, exposed, afterPrefix_append]
  · rw [if_neg hnvidia, if_neg hall]
    obtain ⟨env, henv⟩ := Option.isSome_iff_exists.mp (h.resolve_left hnvidia)
    simp [hnvidia, exposed, henv, afterPrefix_append]

theorem exposed_eq_none {platform : String}
    (h : ¬ (platform = "nvidia" ∨ (platformDeviceEnv platform).isSome)) (args : List String) :
    exposed platform args = none := by
  rw [not_or, Bool.not_eq_true, Option.isSome_eq_false_iff, Option.isNone_iff_eq_none] at h
  match args with
  | [] => rfl
  | [_] => rfl
  | _ :: _ :: _ => simp [exposed, h.1, h.2]

/-! ## Pinned jobs -/

section Pinned

variable {h : Host} {r : Resources}

theorem Pinned.ne_empty (hp : Pinned h r) : rawGpuIds h r ≠ "" := by
  intro heq
  have hmem : "" ∈ deviceIds (rawGpuIds h r) := by
    rw [heq]
    decide
  exact hp.ids_ne "" hmem rfl

theorem Pinned.gpuIdOf_none (hp : Pinned h r) : gpuIdOf h r none = rawGpuIds h r := by
  rw [gpuIdOf, pyOr, if_neg hp.not_auto]

theorem gpuIdOf_joinIds {gpuIds : List Int} (hne : gpuIds ≠ []) :
    gpuIdOf h r (some (joinIds gpuIds)) = joinIds gpuIds := by
  rw [gpuIdOf, pyOr]
  exact if_neg (joinIds_ne hne).1

theorem Pinned.assignGpus_eq (hp : Pinned h r) (pool : ResourcePool) (d : Detection) :
    assignGpus h none r pool d = .ok (pool, none, true) := by
  rw [assignGpus, if_neg fun hauto => hp.not_auto hauto.2]
  rfl

/-- `ngpus` is parsed, and not counted. -/
theorem eq_of_staticGpuCount {ngpus : Option PyVal} {n : Nat} {count : Int}
    (h : staticGpuCount ngpus n = .ok count) : count = n := by
  cases ngpus with
  | none => exact (Except.ok.inj h).symm
  | some v =>
    obtain ⟨_, -, hok⟩ := bind_eq_ok.mp h
    exact (Except.ok.inj hok).symm

/-- The requirement parser counts the ids of the list. -/
theorem Pinned.gpuCount_eq (hp : Pinned h r) {count : Int}
    (hcount : parseGpuRequirement r = .ok count) :
    count = (deviceIds (rawGpuIds h r)).length := by
  have hauto := hp.not_auto
  have hall := hp.not_all
  have hempty := hp.ne_empty
  cases hids : r.gpuIds with
  | none =>
    rw [rawGpuIds, hids, Option.getD_none, Host.str] at hauto
    exact absurd (by decide) hauto
  | some v =>
    rw [parseGpuRequirement, hids] at hcount
    rw [rawGpuIds, hids, Option.getD_some] at hauto hall hempty ⊢
    cases v with
    | float x => exact absurd hids (hp.isText x)
    | int n =>
      have hcomma : (toString n).toList.count ',' = 0 :=
        List.count_eq_zero.mpr (comma_notMem_toString n)
      rw [Host.str, strip_toString, length_deviceIds, hcomma]
      exact eq_of_staticGpuCount hcount
    | str s =>
      rw [Host.str] at hauto hall hempty ⊢
      simp only [Option.getD_some] at hcount
      generalize stripBy pyIsSpace s.toList = l at *
      have hne : ∀ t : String, String.ofList l ≠ t → l ≠ t.toList := by
        rintro t ht rfl
        exact ht String.ofList_toList
      have hnil : l ≠ [] := by
        rintro rfl
        exact hempty rfl
      rw [if_neg (hne "all" hall), if_neg (not_or.mpr ⟨hne "auto" hauto, hnil⟩)] at hcount
      rw [length_deviceIds, String.toList_ofList]
      exact eq_of_staticGpuCount hcount

end Pinned

/-! ## The least loaded GPUs -/

theorem PyFloat.lt_trans_right {x y z : PyFloat} (hx : x ≠ .nan) (hy : y ≠ .nan) (hz : z ≠ .nan)
    (hyx : y.lt x = false) (hzy : z.lt y = false) : z.lt x = false := by
  cases x <;> cases y <;> cases z <;> simp only [PyFloat.lt] at * <;> grind

theorem PyFloat.lt_asymm {x y : PyFloat} (h : x.lt y = true) : y.lt x = false := by
  cases x <;> cases y <;> simp_all [PyFloat.lt]
  exact h.le

/-- Nothing is less than nan. -/
theorem PyFloat.ne_nan_of_lt {x y : PyFloat} (h : x.lt y = true) : x ≠ .nan := by
  rintro rfl
  cases h

/-- The selection, by rank. -/
theorem mem_selected_iff {pool : ResourcePool} {gpus : List GpuInfo} (n : Nat) (g : GpuInfo) :
    g ∈ ((pool.available gpus).mergeSort GpuInfo.le).take n ↔
      ∃ i, (g, i) ∈ (pool.available gpus).zipIdx ∧
        StableSort.rank GpuInfo.le (pool.available gpus) (g, i) < n := by
  have hnan : ∀ a ∈ pool.available gpus, a.utilizationPct ≠ .nan := by
    intro a ha
    have hcheck := (List.mem_filter.mp ha).2
    rw [Bool.and_eq_true] at hcheck
    exact PyFloat.ne_nan_of_lt hcheck.2
  refine StableSort.mem_take_mergeSort_iff ?_ ?_ n g
  · intro a ha b hb c hc hab hbc
    simp only [GpuInfo.le, Bool.not_eq_true'] at hab hbc ⊢
    exact PyFloat.lt_trans_right (hnan a ha) (hnan b hb) (hnan c hc) hab hbc
  · intro a _ b _
    simp only [GpuInfo.le, Bool.or_eq_true, Bool.not_eq_true']
    by_cases hlt : b.utilizationPct.lt a.utilizationPct = true
    · exact .inr (PyFloat.lt_asymm hlt)
    · exact .inl (by simpa using hlt)

/-- What a successful allocation returns. -/
theorem allocate_eq_ok {pool pool' : ResourcePool} {d : Detection} {count : Int}
    {memoryMb : PyFloat} {gpuIds : List Int} (hpos : 0 < count)
    (h : pool.allocate d count memoryMb = .ok (pool', gpuIds, true)) :
    ∃ gpus, d.gpus = .ok gpus ∧ count ≤ (pool.available gpus).length ∧
      gpuIds = (((pool.available gpus).mergeSort GpuInfo.le).take count.toNat).map
        GpuInfo.index := by
  rw [ResourcePool.allocate, if_neg (by omega)] at h
  obtain ⟨gpus, hgpus, h⟩ := bind_eq_ok.mp h
  have hlocked : ∃ sysRes, pool.allocateLocked gpus sysRes count memoryMb
      = (pool', gpuIds, true) := by
    split at h
    · obtain ⟨sysRes, -, h⟩ := bind_eq_ok.mp h
      exact ⟨sysRes, Except.ok.inj h⟩
    · exact ⟨none, Except.ok.inj h⟩
  obtain ⟨sysRes, hlocked⟩ := hlocked
  refine ⟨gpus, hgpus, ?_⟩
  simp only [ResourcePool.allocateLocked] at hlocked
  split at hlocked
  · cases hlocked
  · rename_i hcount
    split at hlocked
    · cases hlocked
    · refine ⟨by rw [ResourcePool.available]; omega, ?_⟩
      exact (congrArg (fun r => r.2.1) hlocked).symm

/-! ## Both paths -/

namespace Launch

variable (x : Launch)

theorem runArgs_exposes_iff (y : RunArgs) {override : Option String} {gpuId : String}
    (hid : gpuIdOf x.host x.job.resources override = gpuId) (hempty : gpuId ≠ "")
    (hall : gpuId ≠ "all") :
    (∃ args, buildDockerArgs x.host x.config x.req.jobName y override = .ok args ∧
        Exposes x.host x.job y args x.ids) ↔
      x.HasDeviceSelection ∧ ∀ id, id ∈ deviceIds gpuId ↔ id ∈ x.ids := by
  have hargs : buildDockerArgs x.host x.config x.req.jobName y override
      = .ok (leadingArgs x.host x.job y ++ gpuArgs x.job.platformName gpuId
        ++ trailingArgs x.host x.config x.job y) := by
    rw [buildDockerArgs, x.found, ← hid]
  have hdrop : (leadingArgs x.host x.job y ++ gpuArgs x.job.platformName gpuId
        ++ trailingArgs x.host x.config x.job y).drop (leadingArgs x.host x.job y).length
      = gpuArgs x.job.platformName gpuId ++ trailingArgs x.host x.config x.job y := by
    rw [List.append_assoc, List.drop_left]
  rw [hargs]
  constructor
  · rintro ⟨args, hok, got, hgot, hsame⟩
    rw [← Except.ok.inj hok, hdrop] at hgot
    by_cases hhas : x.HasDeviceSelection
    · rw [exposed_gpuArgs hhas hempty hall] at hgot
      rw [← Option.some.inj hgot] at hsame
      exact ⟨hhas, hsame⟩
    · rw [exposed_eq_none hhas] at hgot
      cases hgot
  · rintro ⟨hhas, hsame⟩
    refine ⟨_, rfl, deviceIds gpuId, ?_, hsame⟩
    rw [hdrop, exposed_gpuArgs hhas hempty hall]

theorem static_exposes_iff (y : RunArgs) :
    (∃ args, buildDockerArgs x.host x.config x.req.jobName y none = .ok args ∧
        Exposes x.host x.job y args x.ids) ↔ x.HasDeviceSelection := by
  rw [x.runArgs_exposes_iff y x.pinned.gpuIdOf_none x.pinned.ne_empty x.pinned.not_all]
  exact ⟨And.left, fun h => ⟨h, fun _ => Iff.rfl⟩⟩

theorem localExposes_iff : x.LocalExposes ↔ x.HasDeviceSelection := by
  constructor
  · intro h
    obtain ⟨pool', override, hassign, hargs⟩ :=
      h { repoUrl := "", branch := "", stages := [] } x.pool x.detection
    rw [x.pinned.assignGpus_eq] at hassign
    cases hassign
    exact (x.static_exposes_iff _).mp hargs
  · intro h y pool d
    exact ⟨pool, none, x.pinned.assignGpus_eq pool d, (x.static_exposes_iff y).mpr h⟩

theorem ids_pos : 0 < x.ids.length := by
  rw [ids, length_deviceIds]
  exact Nat.succ_pos _

/-- What the agent is handed by the scheduler. -/
theorem launched_cases {pool' : ResourcePool} {gpuIds : List Int}
    (h : consider (x.config.scheduler x.host x.dryRun) x.detection x.pool x.req.toJobRequest
      = .ok (pool', gpuIds, true)) :
    x.dryRun = true ∧ gpuIds = [] ∨
      x.dryRun = false ∧ ∃ gpus, x.detection.gpus = .ok gpus ∧
        x.ids.length ≤ (x.pool.available gpus).length ∧
        gpuIds = (((x.pool.available gpus).mergeSort GpuInfo.le).take x.ids.length).map
          GpuInfo.index := by
  have hresources : (x.config.scheduler x.host x.dryRun).resources x.req.jobName = x.job.resources := by
    simp [Config.resources, CiConfig.scheduler, x.found]
  obtain ⟨count, hcount, h⟩ := bind_eq_ok.mp h
  obtain ⟨memoryMb, -, h⟩ := bind_eq_ok.mp h
  rw [hresources] at hcount
  have hcount := x.pinned.gpuCount_eq hcount
  change (if x.dryRun = true then .ok (x.pool, [], true)
    else x.pool.allocate x.detection count memoryMb) = .ok (pool', gpuIds, true) at h
  by_cases hdry : x.dryRun = true
  · rw [if_pos hdry] at h
    cases h
    exact .inl ⟨hdry, rfl⟩
  · rw [if_neg hdry] at h
    change count = (x.ids.length : Int) at hcount
    have hpos := x.ids_pos
    obtain ⟨gpus, hgpus, hle, hids⟩ := allocate_eq_ok (by omega) h
    rw [hcount] at hle hids
    rw [Int.toNat_natCast] at hids
    exact .inr ⟨by simpa using hdry, gpus, hgpus, Int.ofNat_le.mp hle, hids⟩

/-- What the agent passes for the GPUs it was handed. -/
theorem agentExposes_iff_of_launched {pool' : ResourcePool} {gpuIds : List Int}
    (h : consider (x.config.scheduler x.host x.dryRun) x.detection x.pool x.req.toJobRequest
      = .ok (pool', gpuIds, true)) :
    x.AgentExposes ↔ ∃ args,
      buildDockerArgs x.host x.config x.req.jobName x.runArgs
        (if gpuIds = [] then none else some (joinIds gpuIds)) = .ok args ∧
      Exposes x.host x.job x.runArgs args x.ids := by
  have hargs : agentDockerArgs x.host x.config x.req gpuIds
      = buildDockerArgs x.host x.config x.req.jobName x.runArgs
        (if gpuIds = [] then none else some (joinIds gpuIds)) := by
    rw [agentDockerArgs, x.found]
    rfl
  rw [← hargs]
  constructor
  · intro hagent
    exact hagent pool' gpuIds h
  · intro hexposes pool'' gpuIds' h'
    rw [h] at h'
    cases h'
    exact hexposes

/-- The ids of the selected GPUs, by rank. -/
theorem mem_deviceIds_selected_iff {gpus : List GpuInfo} {n : Nat} {gpuIds : List Int}
    (hne : gpuIds ≠ [])
    (hids : gpuIds = (((x.pool.available gpus).mergeSort GpuInfo.le).take n).map GpuInfo.index)
    (id : String) :
    id ∈ deviceIds (joinIds gpuIds) ↔
      ∃ g i, (g, i) ∈ (x.pool.available gpus).zipIdx ∧ toString g.index = id ∧
        StableSort.rank GpuInfo.le (x.pool.available gpus) (g, i) < n := by
  rw [deviceIds_joinIds hne, hids, List.map_map]
  simp only [List.mem_map, mem_selected_iff, Function.comp]
  constructor
  · rintro ⟨g, ⟨i, hi, hrank⟩, rfl⟩
    exact ⟨g, i, hi, rfl, hrank⟩
  · rintro ⟨g, i, hi, rfl, hrank⟩
    exact ⟨g, ⟨i, hi, hrank⟩, rfl⟩

theorem agentExposes_iff :
    x.AgentExposes ↔ x.HasDeviceSelection ∧ (x.dryRun = true ∨ x.LeastLoaded) := by
  obtain ⟨pool', gpuIds, hlaunched⟩ := x.launched
  rw [x.agentExposes_iff_of_launched hlaunched]
  rcases x.launched_cases hlaunched with ⟨hdry, rfl⟩ | ⟨hdry, gpus, hgpus, hle, hids⟩
  · rw [if_pos rfl, static_exposes_iff]
    exact ⟨fun h => ⟨h, .inl hdry⟩, And.left⟩
  · have hpos := x.ids_pos
    have hne : gpuIds ≠ [] := by
      refine List.ne_nil_of_length_pos ?_
      rw [hids, List.length_map, List.length_take, List.length_mergeSort]
      omega
    have hselected := x.mem_deviceIds_selected_iff hne hids
    rw [if_neg hne, x.runArgs_exposes_iff x.runArgs (gpuIdOf_joinIds hne) (joinIds_ne hne).1
      (joinIds_ne hne).2]
    refine and_congr_right fun _ => ?_
    constructor
    · intro h
      refine .inr fun gpus' hgpus' id => ?_
      rw [hgpus] at hgpus'
      cases hgpus'
      rw [← h id, hselected id]
    · rintro (hdry' | hleast) id
      · rw [hdry] at hdry'
        cases hdry'
      · rw [hselected id, hleast gpus hgpus id]

/-- Device 0 is wanted and busy, and device 1 is idle. -/
def busyPin : Launch where
  host :=
    { uid := 0, gid := 0, environ := fun _ => none, floatStr := fun _ => ""
      lower := List.map Char.toLower }
  config := { jobs := fun _ => some { resources := { gpuIds := some (.str "0") } } }
  dryRun := false
  req := { jobId := "1", jobName := "nvidia_gpu", branch := "master", resultsDir := "/results" }
  job := { resources := { gpuIds := some (.str "0") } }
  pool := {}
  detection :=
    { gpus := .ok [{ index := 0, utilizationPct := .fin 95 }, { index := 1, utilizationPct := .fin 0 }]
      system := .error (.other "OSError") }
  found := rfl
  pinned := by
    refine ⟨by simp, by decide, by decide, ?_⟩
    decide
  launched := ⟨_, _, rfl⟩

end Launch

end InfiniOps.Ci
