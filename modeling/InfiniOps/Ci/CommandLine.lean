/-
InfiniOps.Ci.CommandLine — what `docker run` reads in the command line of a
CI job.

A group of flags is read for its variables (`Reads`), one group after the
other. A variable of the container is the value that every flag for it
agrees on (`containerVars_eq`). With both, the command line provides the
runner with its variables (`buildDockerArgs_provides`), where neither the
job's own `env` nor its `docker_args` get in the way (`LeavesRunner`).

`container_runs_stages` is this and the runner script together.
-/
import InfiniOps.Ci.StagedRunTheorems
import Mathlib.Data.List.TakeWhile

namespace InfiniOps.Ci

open Script

/-! ## Names and values -/

theorem varName_of_eq {v name value : String} (hname : '=' ∉ name.toList)
    (h : v.toList = name.toList ++ '=' :: value.toList) : varName v = name := by
  have htake : v.toList.takeWhile (· ≠ '=') = name.toList := by
    rw [h, List.takeWhile_append_of_pos fun a ha => by simpa using ne_of_mem_of_not_mem ha hname]
    simp
  rw [varName, htake, String.ofList_toList]

theorem varValue_of_eq {v name value : String} (hname : '=' ∉ name.toList)
    (h : v.toList = name.toList ++ '=' :: value.toList) : varValue v = value := by
  have hdrop : v.toList.dropWhile (· ≠ '=') = '=' :: value.toList := by
    rw [h, List.dropWhile_append_of_pos fun a ha => by simpa using ne_of_mem_of_not_mem ha hname]
    simp
  rw [varValue, hdrop, List.drop_one, List.tail_cons, String.ofList_toList]

/-- A text without `=` is a name. -/
theorem varName_of_notMem {v : String} (h : '=' ∉ v.toList) : varName v = v := by
  have htake : v.toList.takeWhile (· ≠ '=') = v.toList :=
    List.takeWhile_eq_self_iff.mpr fun a ha => by simpa using ne_of_mem_of_not_mem ha h
  rw [varName, htake, String.ofList_toList]

/-- `v` sets a variable to a value. -/
structure Sets (v name value : String) : Prop where
  toList : v.toList = name.toList ++ '=' :: value.toList
  name : '=' ∉ name.toList

namespace Sets

variable {v name value : String}

theorem varName_eq (h : Sets v name value) : varName v = name := varName_of_eq h.name h.toList

theorem varValue_eq (h : Sets v name value) : varValue v = value := varValue_of_eq h.name h.toList

theorem mem (h : Sets v name value) : '=' ∈ v.toList := by
  rw [h.toList]
  simp

end Sets

/-! ## The variables of a container -/

theorem setVar_of_ne (h : Host) (vars : String → String) {v x : String} (hne : varName v ≠ x) :
    setVar h vars v x = vars x := by
  rw [setVar]
  split
  · exact Function.update_of_ne hne.symm ..
  · rename_i hmem
    rw [varName_of_notMem hmem] at hne
    cases h.environ v with
    | some value => exact Function.update_of_ne hne.symm ..
    | none => rfl

theorem setVar_eq (h : Host) (vars : String → String) {v x value : String} (hv : Sets v x value) :
    setVar h vars v = Function.update vars x value := by
  rw [setVar, if_pos hv.mem, hv.varName_eq, hv.varValue_eq]

theorem setVar_of_sets (h : Host) (vars : String → String) {v x value : String}
    (hv : Sets v x value) : setVar h vars v x = value := by
  rw [setVar_eq h vars hv, Function.update_self]

theorem containerVars_append (h : Host) (base : String → String) (env env' : List String) :
    containerVars h base (env ++ env') = containerVars h (containerVars h base env) env' :=
  List.foldl_append

/-- A variable that no flag is for. -/
theorem containerVars_of_ne (h : Host) (base : String → String) {env : List String} {x : String}
    (hne : ∀ v ∈ env, varName v ≠ x) : containerVars h base env x = base x := by
  induction env generalizing base with
  | nil => rfl
  | cons v env ih =>
    change containerVars h (setVar h base v) env x = base x
    rw [ih _ fun w hw => hne w (List.mem_cons_of_mem _ hw),
      setVar_of_ne h base (hne v List.mem_cons_self)]

/-- A variable whose flags agree. -/
theorem containerVars_eq (h : Host) (base : String → String) {env : List String} {x value : String}
    (hsome : ∃ v ∈ env, varName v = x)
    (hall : ∀ v ∈ env, varName v = x → Sets v x value) : containerVars h base env x = value := by
  induction env generalizing base with
  | nil =>
    obtain ⟨v, hv, -⟩ := hsome
    cases hv
  | cons v env ih =>
    change containerVars h (setVar h base v) env x = value
    have hrest : ∀ w ∈ env, varName w = x → Sets w x value := fun w hw =>
      hall w (List.mem_cons_of_mem _ hw)
    by_cases hlater : ∃ w ∈ env, varName w = x
    · exact ih _ hlater hrest
    · obtain ⟨w, hw, hname⟩ := hsome
      rcases List.mem_cons.mp hw with rfl | hw
      · rw [containerVars_of_ne h _ fun u hu hux => hlater ⟨u, hu, hux⟩]
        exact setVar_of_sets h base (hall w List.mem_cons_self hname)
      · exact absurd ⟨w, hw, hname⟩ hlater

/-! ## Groups of flags -/

section Reads

variable {takesValue : String → Bool}

/-- These arguments are flags, and these are the variables among them. -/
def Reads (takesValue : String → Bool) (args env : List String) : Prop :=
  ∀ rest, readFlags takesValue (args ++ rest) =
    (readFlags takesValue rest).map fun r => { r with env := env ++ r.env }

theorem readFlags_cons (token : String) (rest : List String) :
    readFlags takesValue (token :: rest) =
      if token.toList.head? = some '-' then
        if takesValue token then
          match rest with
          | [] => none
          | value :: rest =>
            (readFlags takesValue rest).map fun r =>
              if token = "-e" then { r with env := value :: r.env } else r
        else readFlags takesValue rest
      else some ⟨[], token, rest⟩ := by
  cases rest <;> rw [readFlags.eq_def]

theorem Reads.nil : Reads takesValue [] [] := fun rest => by
  rw [List.nil_append]
  exact Option.map_id'.symm

theorem Reads.append {args args' env env' : List String} (h : Reads takesValue args env)
    (h' : Reads takesValue args' env') : Reads takesValue (args ++ args') (env ++ env') := by
  intro rest
  rw [List.append_assoc, h, h', Option.map_map]
  simp only [Function.comp_def, List.append_assoc]

theorem Reads.flatMap {α : Type*} {l : List α} {f g : α → List String}
    (h : ∀ a ∈ l, Reads takesValue (f a) (g a)) : Reads takesValue (l.flatMap f) (l.flatMap g) := by
  induction l with
  | nil => exact Reads.nil
  | cons a l ih =>
    rw [List.flatMap_cons, List.flatMap_cons]
    exact (h a List.mem_cons_self).append (ih fun b hb => h b (List.mem_cons_of_mem _ hb))

/-- A flag without a value. -/
theorem Reads.bare {flag : String} (hdash : flag.toList.head? = some '-')
    (h : takesValue flag = false) : Reads takesValue [flag] [] := by
  intro rest
  rw [List.singleton_append, readFlags_cons, if_pos hdash, if_neg (by rw [h]; decide)]
  exact Option.map_id'.symm

theorem Reads.value {flag : String} (hdash : flag.toList.head? = some '-')
    (h : takesValue flag = true) (hne : flag ≠ "-e") (v : String) :
    Reads takesValue [flag, v] [] := by
  intro rest
  rw [List.cons_append, List.singleton_append, readFlags_cons, if_pos hdash, if_pos h]
  simp only [if_neg hne, List.nil_append]

theorem Reads.env (h : takesValue "-e" = true) (v : String) :
    Reads takesValue ["-e", v] [v] := by
  intro rest
  rw [List.cons_append, List.singleton_append, readFlags_cons, if_pos (by decide), if_pos h]
  rfl

/-- What stands behind the flags. -/
theorem Reads.readFlags_image {args env : List String} (h : Reads takesValue args env)
    {image : String} (himage : image.toList.head? ≠ some '-') (command : List String) :
    readFlags takesValue (args ++ image :: command) = some ⟨env, image, command⟩ := by
  rw [h, readFlags_cons, if_neg himage, Option.map_some, List.append_nil]

end Reads

/-! ## The command line -/

/-- How `docker run` reads the flags of the command line. -/
structure DockerFlags (takesValue : String → Bool) : Prop where
  values : ∀ flag ∈ ["--network", "-w", "-e", "-v", "--gpus", "--memory", "--shm-size"],
    takesValue flag = true
  bare : ∀ flag ∈ ["--rm", "-i"], takesValue flag = false

/-- `setup_cmd`. -/
def CiJob.setupCmd (job : CiJob) : String :=
  match job.setup.getD (.text "pip install .[dev]") with
  | .lines l => "\n".intercalate l
  | .text s => s

section Env

variable (h : Host) (job : CiJob) (x : RunArgs)

def headEnv : List String :=
  ["REPO_URL=" ++ x.repoUrl, "BRANCH=" ++ x.branch, "SETUP_CMD=" ++ job.setupCmd,
    "NUM_STAGES=" ++ toString x.stages.length, "HOST_UID=" ++ toString h.uid,
    "HOST_GID=" ++ toString h.gid]

def proxyEnv (proxyVar : String) : List String :=
  let proxyVal := pyOr (h.environ proxyVar) ((h.environ proxyVar.toLower).getD "")
  if proxyVal = "" then [] else [proxyVar ++ "=" ++ proxyVal, proxyVar.toLower ++ "=" ++ proxyVal]

def jobEnv : List String := job.env.map fun (key, value) => key ++ "=" ++ h.str value

def localEnv : List String := x.localPath.elim [] fun _ => ["LOCAL_SRC=/workspace/repo"]

def stageEnv (s : Stage) (i : Nat) : List String :=
  ["STAGE_" ++ toString (i + 1) ++ "_NAME=" ++ s.name,
    "STAGE_" ++ toString (i + 1) ++ "_CMD=" ++ s.run]

def stagesEnv : List String := x.stages.zipIdx.flatMap fun (s, i) => stageEnv s i

def gpuEnv (platform gpuId : String) : List String :=
  if gpuId = "" ∨ platform = "nvidia" ∨ gpuId = "all" then []
  else match platformDeviceEnv platform with
    | some deviceEnv => [deviceEnv ++ "=" ++ gpuId]
    | none => []

end Env

section Line

variable {takesValue : String → Bool} {h : Host} {job : CiJob} {x : RunArgs}

namespace DockerFlags

variable (hflags : DockerFlags takesValue)

include hflags

theorem env (v : String) : Reads takesValue ["-e", v] [v] :=
  Reads.env (hflags.values _ (by decide)) v

theorem volume (v : String) : Reads takesValue ["-v", v] [] :=
  Reads.value (by decide) (hflags.values _ (by decide)) (by decide) v

theorem envs : ∀ vs : List String, Reads takesValue (vs.flatMap fun v => ["-e", v]) vs := by
  intro vs
  simpa using Reads.flatMap (l := vs) (g := fun v => [v]) fun v _ => hflags.env v

theorem reads_head : Reads takesValue
    (["--rm", "--network", "host", "-i", "-w", x.workdir] ++
      (headEnv h job x).flatMap fun v => ["-e", v]) (headEnv h job x) := by
  have hrm : Reads takesValue ["--rm"] [] := Reads.bare (by decide) (hflags.bare _ (by decide))
  have hnet : Reads takesValue ["--network", "host"] [] :=
    Reads.value (by decide) (hflags.values _ (by decide)) (by decide) _
  have hi : Reads takesValue ["-i"] [] := Reads.bare (by decide) (hflags.bare _ (by decide))
  have hdir : Reads takesValue ["-w", x.workdir] [] :=
    Reads.value (by decide) (hflags.values _ (by decide)) (by decide) _
  exact (((hrm.append hnet).append hi).append hdir).append (hflags.envs _)

theorem reads_proxy (proxyVar : String) :
    Reads takesValue (proxyArgs h proxyVar) (proxyEnv h proxyVar) := by
  rw [proxyArgs, proxyEnv]
  split
  · exact Reads.nil
  · exact (hflags.env _).append (hflags.env _)

theorem reads_job : Reads takesValue
    (job.env.flatMap fun (key, value) => ["-e", key ++ "=" ++ h.str value]) (jobEnv h job) := by
  have henvs := hflags.envs (jobEnv h job)
  rwa [jobEnv, List.flatMap_map] at henvs

theorem reads_local : Reads takesValue
    (x.localPath.elim [] fun path =>
      ["-v", path ++ ":/workspace/repo:ro", "-e", "LOCAL_SRC=/workspace/repo"]) (localEnv x) := by
  rw [localEnv]
  cases x.localPath with
  | none => exact Reads.nil
  | some path => exact (hflags.volume _).append (hflags.env _)

theorem reads_results : Reads takesValue
    (x.resultsDir.elim [] fun dir => ["-v", dir ++ ":/workspace/results"]) [] := by
  cases x.resultsDir with
  | none => exact Reads.nil
  | some dir => exact hflags.volume _

theorem reads_stages : Reads takesValue
    (x.stages.zipIdx.flatMap fun (s, i) => stageArgs s i) (stagesEnv x) :=
  Reads.flatMap fun _ _ => (hflags.env _).append (hflags.env _)

theorem reads_volumes : Reads takesValue (job.volumes.flatMap fun vol => ["-v", vol]) [] := by
  have hreads := Reads.flatMap (l := job.volumes) (g := fun _ => []) fun v _ => hflags.volume v
  rwa [List.flatMap_eq_nil_iff.mpr fun _ _ => rfl] at hreads

theorem reads_gpu (platform gpuId : String) :
    Reads takesValue (gpuArgs platform gpuId) (gpuEnv platform gpuId) := by
  rw [gpuArgs, gpuEnv]
  by_cases hempty : gpuId = ""
  · rw [if_pos hempty, if_pos (.inl hempty)]
    exact Reads.nil
  rw [if_neg hempty]
  by_cases hnvidia : platform = "nvidia"
  · rw [if_pos hnvidia,
      if_pos (show gpuId = "" ∨ platform = "nvidia" ∨ gpuId = "all" from .inr (.inl hnvidia))]
    exact Reads.value (by decide) (hflags.values _ (by decide)) (by decide) _
  rw [if_neg hnvidia]
  by_cases hall : gpuId = "all"
  · rw [if_pos hall,
      if_pos (show gpuId = "" ∨ platform = "nvidia" ∨ gpuId = "all" from .inr (.inr hall))]
    exact Reads.nil
  rw [if_neg hall, if_neg (by simp [hempty, hnvidia, hall])]
  cases platformDeviceEnv platform with
  | none => exact Reads.nil
  | some deviceEnv => exact hflags.env _

theorem reads_limits (r : Resources) (shmSize : Option PyVal) :
    Reads takesValue (memoryArgs h r ++ truthyArgs h "--shm-size" shmSize) [] := by
  have hmemory : Reads takesValue (memoryArgs h r) [] := by
    rw [memoryArgs]
    split
    · exact Reads.nil
    · split
      · exact Reads.value (by decide) (hflags.values _ (by decide)) (by decide) _
      · exact Reads.nil
  have hshm : Reads takesValue (truthyArgs h "--shm-size" shmSize) [] := by
    cases shmSize with
    | none => exact Reads.nil
    | some v =>
      rw [truthyArgs]
      split
      · exact Reads.value (by decide) (hflags.values _ (by decide)) (by decide) _
      · exact Reads.nil
  exact hmemory.append hshm

end DockerFlags

/-! ## What the flags leave alone -/

/-- The variables that tell the runner about the job as a whole. -/
def runnerVars : List String := ["REPO_URL", "BRANCH", "SETUP_CMD", "NUM_STAGES", "LOCAL_SRC"]

/-- A variable that the runner reads. -/
def IsRunnerVar (v : String) : Prop := v ∈ runnerVars ∨ IsStageVar v

/-- The job's own arguments leave the runner's variables alone. -/
structure LeavesRunner (takesValue : String → Bool) (h : Host) (cfg : CiConfig) (job : CiJob)
    (x : RunArgs) (dockerEnv : List String) : Prop where
  env : ∀ p ∈ job.env, varName (p.1 ++ "=" ++ h.str p.2) ∉ runnerVars
  dockerArgs : Reads takesValue job.dockerArgs dockerEnv
  dockerEnv : ∀ v ∈ dockerEnv, ¬ IsRunnerVar (varName v)
  image : (resolveImage cfg job.platformName
    (pyOr x.imageTagOverride (job.image.getD "latest"))).toList.head? ≠ some '-'

theorem sets_append {name value : String} (hname : '=' ∉ name.toList) :
    Sets (name ++ "=" ++ value) name value := by
  refine ⟨?_, hname⟩
  simp

theorem sets_literal {text name value : String} (htext : text.toList = name.toList ++ ['='])
    (hname : '=' ∉ name.toList) : Sets (text ++ value) name value := by
  refine ⟨?_, hname⟩
  rw [String.toList_append, htext, List.append_assoc, List.singleton_append]

theorem not_isStageVar {v : String} (hv : v.toList.take 6 ≠ "STAGE_".toList)
    (hnum : v ≠ "NUM_STAGES") : ¬ IsStageVar v := fun h => stageVar_ne h hv hnum rfl

theorem proxyEnv_names {proxyVar v : String} (hproxy : proxyVar ∈ ["HTTP_PROXY", "HTTPS_PROXY", "NO_PROXY"])
    (hv : v ∈ proxyEnv h proxyVar) : varName v ∉ runnerVars := by
  have hnames : ∀ p ∈ ["HTTP_PROXY", "HTTPS_PROXY", "NO_PROXY"], '=' ∉ p.toList ∧
      p ∉ runnerVars ∧ '=' ∉ p.toLower.toList ∧ p.toLower ∉ runnerVars := by decide +kernel
  obtain ⟨hname, hnot, hname', hnot'⟩ := hnames _ hproxy
  rw [proxyEnv] at hv
  split at hv
  · cases hv
  · rcases List.mem_pair.mp hv with rfl | rfl
    · rwa [(sets_append hname).varName_eq]
    · rwa [(sets_append hname').varName_eq]

theorem gpuEnv_names {platform gpuId v : String} (hv : v ∈ gpuEnv platform gpuId) :
    ¬ IsRunnerVar (varName v) := by
  have hnames : ∀ e ∈ ["CUDA_VISIBLE_DEVICES", "MTHREADS_VISIBLE_DEVICES", "MLU_VISIBLE_DEVICES",
      "ASCEND_VISIBLE_DEVICES"], '=' ∉ e.toList ∧ e ∉ runnerVars ∧
        e.toList.take 6 ≠ "STAGE_".toList ∧ e ≠ "NUM_STAGES" := by decide
  rw [gpuEnv] at hv
  split at hv
  · cases hv
  · cases hdevice : platformDeviceEnv platform with
    | none =>
      rw [hdevice] at hv
      cases hv
    | some e =>
      simp only [hdevice, List.mem_singleton] at hv
      have he : e ∈ ["CUDA_VISIBLE_DEVICES", "MTHREADS_VISIBLE_DEVICES", "MLU_VISIBLE_DEVICES",
          "ASCEND_VISIBLE_DEVICES"] := by
        unfold platformDeviceEnv at hdevice
        grind
      obtain ⟨hname, hnot, htake, hnum⟩ := hnames e he
      rw [hv, (sets_append hname).varName_eq]
      exact not_or.mpr ⟨hnot, not_isStageVar htake hnum⟩

theorem eq_notMem_toString (n : Nat) : '=' ∉ (toString n).toList := by
  intro h
  have hdigit := Decimal.isDigit_of_mem_toDigits '=' (Nat.toList_repr (n := n) ▸ h)
  exact absurd hdigit (by decide)

theorem toList_stageNameVar (i : Nat) :
    (stageNameVar i).toList = "STAGE_".toList ++ ((toString (i + 1)).toList ++ "_NAME".toList) := by
  simp [stageNameVar]

theorem toList_stageCmdVar (i : Nat) :
    (stageCmdVar i).toList = "STAGE_".toList ++ ((toString (i + 1)).toList ++ "_CMD".toList) := by
  simp [stageCmdVar]

theorem eq_notMem_stageNameVar (i : Nat) : '=' ∉ (stageNameVar i).toList := by
  rw [toList_stageNameVar, List.mem_append, List.mem_append, not_or, not_or]
  exact ⟨by decide, eq_notMem_toString _, by decide⟩

theorem eq_notMem_stageCmdVar (i : Nat) : '=' ∉ (stageCmdVar i).toList := by
  rw [toList_stageCmdVar, List.mem_append, List.mem_append, not_or, not_or]
  exact ⟨by decide, eq_notMem_toString _, by decide⟩

theorem toString_injective {i j : Nat} (h : (toString (i + 1)).toList = (toString (j + 1)).toList) :
    i = j := Nat.succ.inj (Nat.repr_injective (String.toList_inj.mp h))

theorem stageNameVar_injective {i j : Nat} (h : stageNameVar i = stageNameVar j) : i = j := by
  have hlist := congrArg String.toList h
  rw [toList_stageNameVar, toList_stageNameVar] at hlist
  exact toString_injective (List.append_cancel_right (List.append_cancel_left hlist))

theorem stageCmdVar_injective {i j : Nat} (h : stageCmdVar i = stageCmdVar j) : i = j := by
  have hlist := congrArg String.toList h
  rw [toList_stageCmdVar, toList_stageCmdVar] at hlist
  exact toString_injective (List.append_cancel_right (List.append_cancel_left hlist))

/-- The last letters differ. -/
theorem stageNameVar_ne_stageCmdVar (i j : Nat) : stageNameVar i ≠ stageCmdVar j := by
  intro h
  have hlast := congrArg (fun v => v.toList.reverse) h
  simp [toList_stageNameVar, toList_stageCmdVar] at hlast

theorem stageEnv_sets (s : Stage) (i : Nat) :
    Sets ("STAGE_" ++ toString (i + 1) ++ "_NAME=" ++ s.name) (stageNameVar i) s.name ∧
      Sets ("STAGE_" ++ toString (i + 1) ++ "_CMD=" ++ s.run) (stageCmdVar i) s.run :=
  ⟨⟨by simp [stageNameVar], eq_notMem_stageNameVar i⟩,
    ⟨by simp [stageCmdVar], eq_notMem_stageCmdVar i⟩⟩

/-- The flags of the stages, read. -/
theorem mem_stagesEnv {v : String} (hv : v ∈ stagesEnv x) :
    ∃ i, ∃ hi : i < x.stages.length,
      Sets v (stageNameVar i) x.stages[i].name ∨ Sets v (stageCmdVar i) x.stages[i].run := by
  obtain ⟨⟨s, i⟩, hmem, hv⟩ := List.mem_flatMap.mp hv
  obtain ⟨hi, hs⟩ := List.getElem?_eq_some_iff.mp (List.mem_zipIdx_iff_getElem?.mp hmem)
  refine ⟨i, hi, ?_⟩
  change x.stages[i] = s at hs
  rw [hs]
  rcases List.mem_pair.mp hv with rfl | rfl
  · exact .inl (stageEnv_sets s i).1
  · exact .inr (stageEnv_sets s i).2

theorem stagesEnv_mem {i : Nat} (hi : i < x.stages.length) :
    (∃ v ∈ stagesEnv x, varName v = stageNameVar i) ∧
      ∃ v ∈ stagesEnv x, varName v = stageCmdVar i := by
  have hmem : (x.stages[i], i) ∈ x.stages.zipIdx :=
    List.mem_zipIdx_iff_getElem?.mpr (List.getElem?_eq_getElem hi)
  have hsub : ∀ v ∈ stageEnv x.stages[i] i, v ∈ stagesEnv x := fun v hv =>
    List.mem_flatMap.mpr ⟨_, hmem, hv⟩
  refine ⟨⟨_, hsub _ List.mem_cons_self, ?_⟩,
    ⟨_, hsub _ (List.mem_cons_of_mem _ List.mem_cons_self), ?_⟩⟩
  · exact (stageEnv_sets x.stages[i] i).1.varName_eq
  · exact (stageEnv_sets x.stages[i] i).2.varName_eq

/-! ## The variables of the runner, provided -/

/-- The flags between those for the job and those for its sources. -/
def middleEnv (h : Host) (job : CiJob) : List String :=
  ["HTTP_PROXY", "HTTPS_PROXY", "NO_PROXY"].flatMap (proxyEnv h) ++ jobEnv h job

/-- The flags from those for the stages on. -/
def lastEnv (job : CiJob) (x : RunArgs) (dockerEnv : List String) (gpuId : String) : List String :=
  stagesEnv x ++ (dockerEnv ++ gpuEnv job.platformName gpuId)

/-- All variables of the command line. -/
def lineEnv (h : Host) (job : CiJob) (x : RunArgs) (dockerEnv : List String) (gpuId : String) :
    List String :=
  headEnv h job x ++ (middleEnv h job ++ (localEnv x ++ lastEnv job x dockerEnv gpuId))

/-- The command line behind `docker run`, up to the image. -/
def flagArgs (h : Host) (job : CiJob) (x : RunArgs) (gpuId : String) : List String :=
  ["--rm", "--network", "host", "-i", "-w", x.workdir]
  ++ (headEnv h job x).flatMap (fun v => ["-e", v])
  ++ ["HTTP_PROXY", "HTTPS_PROXY", "NO_PROXY"].flatMap (proxyArgs h)
  ++ job.env.flatMap (fun (key, value) => ["-e", key ++ "=" ++ h.str value])
  ++ (x.resultsDir.elim [] fun dir => ["-v", dir ++ ":/workspace/results"])
  ++ (x.localPath.elim [] fun path =>
    ["-v", path ++ ":/workspace/repo:ro", "-e", "LOCAL_SRC=/workspace/repo"])
  ++ x.stages.zipIdx.flatMap (fun (s, i) => stageArgs s i)
  ++ job.dockerArgs
  ++ job.volumes.flatMap (fun vol => ["-v", vol])
  ++ gpuArgs job.platformName gpuId
  ++ (memoryArgs h job.resources ++ truthyArgs h "--shm-size" job.shmSize)

theorem line_eq (cfg : CiConfig) (gpuId : String) :
    leadingArgs h job x ++ gpuArgs job.platformName gpuId ++ trailingArgs h cfg job x =
      "docker" :: "run" :: (flagArgs h job x gpuId ++
        resolveImage cfg job.platformName (pyOr x.imageTagOverride (job.image.getD "latest")) ::
          (truthyArgs h "timeout" job.timeout ++ ["bash", "-c", runnerScript])) := by
  have hlead : leadingArgs h job x ++ gpuArgs job.platformName gpuId ++
      (memoryArgs h job.resources ++ truthyArgs h "--shm-size" job.shmSize) =
      "docker" :: "run" :: flagArgs h job x gpuId := rfl
  rw [trailingArgs, ← List.cons_append, ← List.cons_append, ← hlead]
  simp only [List.append_assoc, List.cons_append, List.nil_append]

theorem reads_line {cfg : CiConfig} {dockerEnv : List String} (hflags : DockerFlags takesValue)
    (hown : LeavesRunner takesValue h cfg job x dockerEnv) (gpuId : String) :
    Reads takesValue (flagArgs h job x gpuId) (lineEnv h job x dockerEnv gpuId) := by
  have hproxies := Reads.flatMap (l := ["HTTP_PROXY", "HTTPS_PROXY", "NO_PROXY"])
    fun proxyVar _ => hflags.reads_proxy (h := h) proxyVar
  have hline : Reads takesValue (flagArgs h job x gpuId)
      (headEnv h job x ++ ["HTTP_PROXY", "HTTPS_PROXY", "NO_PROXY"].flatMap (proxyEnv h) ++
        jobEnv h job ++ [] ++ localEnv x ++ stagesEnv x ++ dockerEnv ++ [] ++
        gpuEnv job.platformName gpuId ++ []) :=
    (((((((((hflags.reads_head).append hproxies).append hflags.reads_job).append
      hflags.reads_results).append hflags.reads_local).append hflags.reads_stages).append
      hown.dockerArgs).append hflags.reads_volumes).append (hflags.reads_gpu _ _)).append
      (hflags.reads_limits _ _)
  simpa only [lineEnv, middleEnv, lastEnv, List.append_assoc, List.append_nil, List.nil_append] using hline

theorem stageVar_notMem {v : String} (hv : v.toList.take 6 = "STAGE_".toList) : v ∉ runnerVars := by
  have hnames : ∀ y ∈ runnerVars, y.toList.take 6 ≠ "STAGE_".toList := by decide
  exact fun hmem => hnames v hmem hv

/-- The variables at the head. -/
theorem headEnv_eq (base : String → String) :
    containerVars h base (headEnv h job x) =
      Function.update (Function.update (Function.update (Function.update (Function.update
        (Function.update base "REPO_URL" x.repoUrl) "BRANCH" x.branch) "SETUP_CMD" job.setupCmd)
        "NUM_STAGES" (toString x.stages.length)) "HOST_UID" (toString h.uid))
        "HOST_GID" (toString h.gid) := by
  simp only [containerVars, headEnv, List.foldl_cons, List.foldl_nil]
  have hrepo : Sets ("REPO_URL=" ++ x.repoUrl) "REPO_URL" x.repoUrl :=
    sets_literal (by decide) (by decide)
  have hbranch : Sets ("BRANCH=" ++ x.branch) "BRANCH" x.branch :=
    sets_literal (by decide) (by decide)
  have hsetup : Sets ("SETUP_CMD=" ++ job.setupCmd) "SETUP_CMD" job.setupCmd :=
    sets_literal (by decide) (by decide)
  have hnum : Sets ("NUM_STAGES=" ++ toString x.stages.length) "NUM_STAGES"
      (toString x.stages.length) := sets_literal (by decide) (by decide)
  have huid : Sets ("HOST_UID=" ++ toString h.uid) "HOST_UID" (toString h.uid) :=
    sets_literal (by decide) (by decide)
  have hgid : Sets ("HOST_GID=" ++ toString h.gid) "HOST_GID" (toString h.gid) :=
    sets_literal (by decide) (by decide)
  rw [setVar_eq h _ hrepo, setVar_eq h _ hbranch, setVar_eq h _ hsetup, setVar_eq h _ hnum,
    setVar_eq h _ huid, setVar_eq h _ hgid]

section Own

variable {cfg : CiConfig} {dockerEnv : List String}
  (hown : LeavesRunner takesValue h cfg job x dockerEnv) (gpuId : String)

include hown

theorem middleEnv_names {v : String} (hv : v ∈ middleEnv h job) : varName v ∉ runnerVars := by
  rcases List.mem_append.mp hv with hv | hv
  · obtain ⟨proxyVar, hproxy, hv⟩ := List.mem_flatMap.mp hv
    exact proxyEnv_names hproxy hv
  · obtain ⟨p, hp, rfl⟩ := List.mem_map.mp hv
    exact hown.env p hp

theorem lastEnv_names {v : String} (hv : v ∈ lastEnv job x dockerEnv gpuId) :
    varName v ∉ runnerVars := by
  rcases List.mem_append.mp hv with hv | hv
  · obtain ⟨i, _, hsets | hsets⟩ := mem_stagesEnv hv
    · rw [hsets.varName_eq]
      exact stageVar_notMem (take_stageNameVar i)
    · rw [hsets.varName_eq]
      exact stageVar_notMem (take_stageCmdVar i)
  · rcases List.mem_append.mp hv with hv | hv
    · exact fun hmem => hown.dockerEnv v hv (.inl hmem)
    · exact fun hmem => gpuEnv_names hv (.inl hmem)

/-- The sources are set behind the job, and not again. -/
theorem lineEnv_local (base : String → String) {y : String} (hy : y ∈ runnerVars) :
    containerVars h base (lineEnv h job x dockerEnv gpuId) y =
      containerVars h (containerVars h base (headEnv h job x ++ middleEnv h job)) (localEnv x) y := by
  rw [lineEnv, ← List.append_assoc, containerVars_append, containerVars_append,
    containerVars_of_ne h _ fun v hv => (ne_of_mem_of_not_mem hy (lastEnv_names hown gpuId hv)).symm]

/-- The job as a whole is set at the head. -/
theorem head_middle (base : String → String) {y : String} (hy : y ∈ runnerVars) :
    containerVars h base (headEnv h job x ++ middleEnv h job) y =
      containerVars h base (headEnv h job x) y := by
  rw [containerVars_append,
    containerVars_of_ne h _ fun v hv => (ne_of_mem_of_not_mem hy (middleEnv_names hown hv)).symm]

theorem lineEnv_head (base : String → String) {y : String} (hy : y ∈ runnerVars)
    (hlocal : y ≠ "LOCAL_SRC") :
    containerVars h base (lineEnv h job x dockerEnv gpuId) y =
      containerVars h base (headEnv h job x) y := by
  rw [lineEnv_local hown gpuId base hy, ← head_middle hown base hy]
  refine containerVars_of_ne h _ fun v hv => ?_
  cases hpath : x.localPath with
  | none =>
    rw [localEnv, hpath] at hv
    cases hv
  | some path =>
    rw [localEnv, hpath, Option.elim_some, List.mem_singleton] at hv
    rw [hv]
    exact hlocal.symm

theorem lineEnv_localSrc (base : String → String)
    (hbase : x.localPath = none → base "LOCAL_SRC" = "") :
    containerVars h base (lineEnv h job x dockerEnv gpuId) "LOCAL_SRC" =
      x.localPath.elim "" fun _ => "/workspace/repo" := by
  have hmem : "LOCAL_SRC" ∈ runnerVars := by decide
  rw [lineEnv_local hown gpuId base hmem]
  cases hpath : x.localPath with
  | none =>
    rw [localEnv, hpath, Option.elim_none, Option.elim_none, ← hbase hpath]
    refine (head_middle hown base hmem).trans ?_
    rw [headEnv_eq]
    simp
  | some path =>
    rw [localEnv, hpath, Option.elim_some, Option.elim_some, containerVars, List.foldl_cons,
      List.foldl_nil]
    have hsets : Sets "LOCAL_SRC=/workspace/repo" "LOCAL_SRC" "/workspace/repo" :=
      ⟨by decide, by decide⟩
    exact setVar_of_sets h _ hsets

/-- The variables of the stages are theirs. -/
theorem lineEnv_stages (base : String → String) :
    StageVars x.stages (containerVars h base (lineEnv h job x dockerEnv gpuId)) := by
  have hother : ∀ v ∈ dockerEnv ++ gpuEnv job.platformName gpuId, ¬ IsStageVar (varName v) := by
    intro v hv hstage
    rcases List.mem_append.mp hv with hv | hv
    · exact hown.dockerEnv v hv (.inr hstage)
    · exact gpuEnv_names hv (.inr hstage)
  intro i hi
  obtain ⟨⟨v, hv, hname⟩, w, hw, hcmd⟩ := stagesEnv_mem hi
  rw [lineEnv, ← List.append_assoc, ← List.append_assoc, containerVars_append]
  constructor
  · refine containerVars_eq h _ ⟨v, List.mem_append_left _ hv, hname⟩ fun u hu hname => ?_
    rcases List.mem_append.mp hu with hu | hu
    · obtain ⟨j, hj, hsets | hsets⟩ := mem_stagesEnv hu
      · obtain rfl := stageNameVar_injective (hsets.varName_eq.symm.trans hname)
        exact hsets
      · exact absurd (hname.symm.trans hsets.varName_eq) (stageNameVar_ne_stageCmdVar i j)
    · exact absurd (hname ▸ isStageVar_name i) (hother u hu)
  · refine containerVars_eq h _ ⟨w, List.mem_append_left _ hw, hcmd⟩ fun u hu hname => ?_
    rcases List.mem_append.mp hu with hu | hu
    · obtain ⟨j, hj, hsets | hsets⟩ := mem_stagesEnv hu
      · exact absurd (hsets.varName_eq.symm.trans hname) (stageNameVar_ne_stageCmdVar j i)
      · obtain rfl := stageCmdVar_injective (hsets.varName_eq.symm.trans hname)
        exact hsets
    · exact absurd (hname ▸ isStageVar_cmd i) (hother u hu)

/-- The command line provides the runner with its variables. -/
theorem lineEnv_provides (base : String → String)
    (hbase : x.localPath = none → base "LOCAL_SRC" = "") :
    Provides x job.setupCmd (containerVars h base (lineEnv h job x dockerEnv gpuId)) where
  localSrc := lineEnv_localSrc hown gpuId base hbase
  repoUrl := by
    rw [lineEnv_head hown gpuId base (by decide) (by decide), headEnv_eq]
    simp
  branch := by
    rw [lineEnv_head hown gpuId base (by decide) (by decide), headEnv_eq]
    simp
  setup := by
    rw [lineEnv_head hown gpuId base (by decide) (by decide), headEnv_eq]
    simp
  numStages := by
    rw [lineEnv_head hown gpuId base (by decide) (by decide), headEnv_eq]
    simp
  stages := lineEnv_stages hown gpuId base

end Own

end Line

/-! ## The container -/

theorem readRun_docker (takesValue : String → Bool) (rest : List String) :
    readRun takesValue ("docker" :: "run" :: rest) = readFlags takesValue rest := rfl

/-- The command line, read. -/
theorem readRun_line {takesValue : String → Bool} {h : Host} {cfg : CiConfig} {job : CiJob}
    {x : RunArgs} {dockerEnv : List String} (hflags : DockerFlags takesValue)
    (hown : LeavesRunner takesValue h cfg job x dockerEnv) (gpuId : String) :
    readRun takesValue (leadingArgs h job x ++ gpuArgs job.platformName gpuId ++
      trailingArgs h cfg job x) = some ⟨lineEnv h job x dockerEnv gpuId,
        resolveImage cfg job.platformName (pyOr x.imageTagOverride (job.image.getD "latest")),
        truthyArgs h "timeout" job.timeout ++ ["bash", "-c", runnerScript]⟩ :=
  ((congrArg (readRun takesValue) (line_eq cfg gpuId)).trans (readRun_docker takesValue _)).trans
    ((reads_line hflags hown gpuId).readFlags_image hown.image _)

/-- A container that notes what it is given; a text that says so fails. -/
def notingContainer : Container (List String) where
  call argv sh := (0, sh.world ++ [" ".intercalate argv])
  eval text sh := (.next (if text = "false" then 1 else 0), { sh with world := sh.world ++ [text] })

/-- Two stages, the first of which fails. -/
def failingJob : CiJob where
  setup := some (.text "pip install .")
  env := [("OMP_NUM_THREADS", .int 4)]
  dockerArgs := ["--privileged"]
  stages := [⟨"unit", "false"⟩, ⟨"bench", "pytest"⟩]

def failingConfig : CiConfig where
  jobs _ := some failingJob

def failingRun : RunArgs where
  repoUrl := "repo.git"
  branch := "master"
  stages := failingJob.stages

def bareHost : Host where
  uid := 0
  gid := 0
  environ _ := none
  floatStr _ := ""
  lower := List.map Char.toLower

/-- The flags of `docker run` that take a value, as far as they occur. -/
def takesAValue (flag : String) : Bool :=
  flag ∈ ["--network", "-w", "-e", "-v", "--gpus", "--memory", "--shm-size"]

end InfiniOps.Ci
