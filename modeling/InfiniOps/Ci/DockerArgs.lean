/-
InfiniOps.Ci.DockerArgs — the docker command line of a CI job
(`build_docker_args` in `.ci/run.py`), and the two paths that build it: the
agent (`_run_job` in `.ci/agent.py`) with the GPUs that the scheduler
allocated, and `run.py` itself.

`exposed` reads the devices that a command line exposes to the container,
behind the arguments that come from the job alone. `Launch` is a job with
an explicit list of devices, in a state of the pool in which the agent
launches it.

The time and the random id in a results directory are not modelled: its
path is given. So are the stages that remain of a job's under `--stage`
and `--test`.
-/
import InfiniOps.Ci.Scheduler
import InfiniOps.Lib.StableSort
import Mathlib.Data.List.Basic

namespace InfiniOps.Ci

/-! ## Configuration -/

/-- `PLATFORM_DEVICE_ENV.get`. -/
def platformDeviceEnv (platform : String) : Option String :=
  if platform = "iluvatar" then some "CUDA_VISIBLE_DEVICES"
  else if platform = "metax" then some "CUDA_VISIBLE_DEVICES"
  else if platform = "moore" then some "MTHREADS_VISIBLE_DEVICES"
  else if platform = "cambricon" then some "MLU_VISIBLE_DEVICES"
  else if platform = "ascend" then some "ASCEND_VISIBLE_DEVICES"
  else none

structure Stage where
  name : String
  run : String := ""

/-- `job["setup"]`. -/
inductive Setup where
  | text (s : String)
  | lines (l : List String)

/-- An entry of `config["jobs"]`; a missing key is `none`. -/
structure CiJob where
  platform : Option String := none
  image : Option String := none
  setup : Option Setup := none
  env : List (String × PyVal) := []
  dockerArgs : List String := []
  volumes : List String := []
  stages : List Stage := []
  resources : Resources := {}
  /-- `resources.shm_size`. -/
  shmSize : Option PyVal := none
  /-- `resources.timeout`. -/
  timeout : Option PyVal := none

structure CiConfig where
  jobs : String → Option CiJob
  repoUrl : Option String := none
  registryUrl : Option String := none
  registryProject : Option String := none

/-- What is read from the process: ids, environment variables, the text of a
float and `str.lower`. -/
structure Host where
  uid : Nat
  gid : Nat
  environ : String → Option String
  floatStr : PyFloat → String
  lower : List Char → List Char

/-- `str(v)`. -/
def Host.str (h : Host) : PyVal → String
  | .str s => s
  | .int n => toString n
  | .float x => h.floatStr x

/-- The value of `v` as a condition. -/
def PyVal.truthy : PyVal → Bool
  | .str s => s ≠ ""
  | .int n => n ≠ 0
  | .float x => x ≠ .fin 0

/-- `a or b`, for a text or `None` and a text. -/
def pyOr (a : Option String) (b : String) : String :=
  match a with
  | none => b
  | some s => if s = "" then b else s

/-! ## The command line -/

/-- `resolve_image`. -/
def resolveImage (cfg : CiConfig) (platform imageTag : String) : String :=
  let registryUrl := cfg.registryUrl.getD ""
  let project := cfg.registryProject.getD "infiniops"
  if registryUrl = "" then project ++ "-ci/" ++ platform ++ ":" ++ imageTag
  else registryUrl ++ "/" ++ project ++ "/" ++ platform ++ ":" ++ imageTag

/-- `build_runner_script().strip()`. -/
def runnerScript : String := "\n".intercalate [
  "set -e",
  "cd /workspace",
  "mkdir -p /workspace/results",
  "if [ -n \"$LOCAL_SRC\" ]; then",
  "  cp -r \"$LOCAL_SRC\" /tmp/src",
  "  cd /tmp/src",
  "else",
  "  git clone \"$REPO_URL\" repo",
  "  cd repo",
  "  git checkout \"$BRANCH\"",
  "fi",
  "echo \"========== Setup ==========\"",
  "eval \"$SETUP_CMD\"",
  "set +e",
  "rc=0",
  "for i in $(seq 1 \"$NUM_STAGES\"); do",
  "  name_var=\"STAGE_$\x7bi\x7d_NAME\"",
  "  cmd_var=\"STAGE_$\x7bi\x7d_CMD\"",
  "  name=\"$\x7b!name_var\x7d\"",
  "  cmd=\"$\x7b!cmd_var\x7d\"",
  "  echo \"========== Stage: $name ==========\"",
  "  if [ -n \"$cmd\" ]; then",
  "    eval \"$cmd\"",
  "    rc=$?",
  "    if [ $rc -ne 0 ]; then",
  "      echo \"Stage '$name' failed with exit code $rc\"",
  "      break",
  "    fi",
  "  fi",
  "done",
  "echo \"========== Summary ==========\"",
  "if [ -n \"$HOST_UID\" ] && [ -n \"$HOST_GID\" ]; then",
  "  chown -R \"$HOST_UID:$HOST_GID\" /workspace/results 2>/dev/null || true",
  "fi",
  "exit $rc"]

/-- The arguments of `build_docker_args` next to the job. -/
structure RunArgs where
  repoUrl : String
  branch : String
  stages : List Stage
  workdir : String := "/workspace"
  imageTagOverride : Option String := none
  resultsDir : Option String := none
  localPath : Option String := none

/-- `job.get("platform", "nvidia")`. -/
def CiJob.platformName (job : CiJob) : String := job.platform.getD "nvidia"

/-- A proxy variable of the host, in both spellings. -/
def proxyArgs (h : Host) (proxyVar : String) : List String :=
  let proxyVal := pyOr (h.environ proxyVar) ((h.environ proxyVar.toLower).getD "")
  if proxyVal = "" then []
  else ["-e", proxyVar ++ "=" ++ proxyVal, "-e", proxyVar.toLower ++ "=" ++ proxyVal]

/-- The variables of the `i`-th stage, counted from 0. -/
def stageArgs (s : Stage) (i : Nat) : List String :=
  ["-e", "STAGE_" ++ toString (i + 1) ++ "_NAME=" ++ s.name,
    "-e", "STAGE_" ++ toString (i + 1) ++ "_CMD=" ++ s.run]

/-- The command line up to the GPU selection. -/
def leadingArgs (h : Host) (job : CiJob) (x : RunArgs) : List String :=
  let setupCmd := match job.setup.getD (.text "pip install .[dev]") with
    | .lines l => "\n".intercalate l
    | .text s => s
  ["docker", "run", "--rm", "--network", "host", "-i", "-w", x.workdir,
    "-e", "REPO_URL=" ++ x.repoUrl, "-e", "BRANCH=" ++ x.branch, "-e", "SETUP_CMD=" ++ setupCmd,
    "-e", "NUM_STAGES=" ++ toString x.stages.length, "-e", "HOST_UID=" ++ toString h.uid,
    "-e", "HOST_GID=" ++ toString h.gid]
  ++ ["HTTP_PROXY", "HTTPS_PROXY", "NO_PROXY"].flatMap (proxyArgs h)
  ++ job.env.flatMap (fun (key, value) => ["-e", key ++ "=" ++ h.str value])
  ++ (x.resultsDir.elim [] fun dir => ["-v", dir ++ ":/workspace/results"])
  ++ (x.localPath.elim [] fun path =>
    ["-v", path ++ ":/workspace/repo:ro", "-e", "LOCAL_SRC=/workspace/repo"])
  ++ x.stages.zipIdx.flatMap (fun (s, i) => stageArgs s i)
  ++ job.dockerArgs
  ++ job.volumes.flatMap (fun vol => ["-v", vol])

/-- `str(resources.get("gpu_ids", "auto")).strip()`. -/
def rawGpuIds (h : Host) (r : Resources) : String :=
  .ofList (stripBy pyIsSpace (h.str (r.gpuIds.getD (.str "auto"))).toList)

/-- The local `gpu_id`: an override wins. -/
def gpuIdOf (h : Host) (r : Resources) (override : Option String) : String :=
  pyOr override (if rawGpuIds h r = "auto" then "" else rawGpuIds h r)

/-- The GPU selection. -/
def gpuArgs (platform gpuId : String) : List String :=
  if gpuId = "" then []
  else if platform = "nvidia" then
    ["--gpus", if gpuId = "all" then "all" else "device=" ++ gpuId]
  else if gpuId = "all" then []
  else match platformDeviceEnv platform with
    | some deviceEnv => ["-e", deviceEnv ++ "=" ++ gpuId]
    | none => []

/-- `--memory`. -/
def memoryArgs (h : Host) (r : Resources) : List String :=
  match r.memory with
  | none => []
  | some memory =>
    if memory.truthy then
      let mem := ((String.ofList (h.lower (h.str memory).toList)).replace "gb" "g").replace "mb" "m"
      ["--memory", if mem.endsWith "g" ∨ mem.endsWith "m" then mem else mem ++ "g"]
    else []

/-- An argument for a value that counts as true. -/
def truthyArgs (h : Host) (flag : String) (v : Option PyVal) : List String :=
  match v with
  | none => []
  | some v => if v.truthy then [flag, h.str v] else []

/-- The command line behind the GPU selection. -/
def trailingArgs (h : Host) (cfg : CiConfig) (job : CiJob) (x : RunArgs) : List String :=
  memoryArgs h job.resources
  ++ truthyArgs h "--shm-size" job.shmSize
  ++ [resolveImage cfg job.platformName (pyOr x.imageTagOverride (job.image.getD "latest"))]
  ++ truthyArgs h "timeout" job.timeout
  ++ ["bash", "-c", runnerScript]

/-- `build_docker_args`. -/
def buildDockerArgs (h : Host) (cfg : CiConfig) (jobName : String) (x : RunArgs)
    (gpuIdOverride : Option String) : Except PyExc (List String) :=
  match cfg.jobs jobName with
  | none => .error .keyError
  | some job =>
    .ok (leadingArgs h job x ++ gpuArgs job.platformName (gpuIdOf h job.resources gpuIdOverride)
      ++ trailingArgs h cfg job x)

/-! ## The two paths -/

/-- `",".join(str(g) for g in gpu_ids)`. -/
def joinIds (gpuIds : List Int) : String := ",".intercalate (gpuIds.map toString)

/-- A `JobRequest`, with the directory for its results. -/
structure RunRequest extends JobRequest where
  branch : String
  imageTag : Option String := none
  resultsDir : String

/-- What `_run_job` executes. -/
def agentDockerArgs (h : Host) (cfg : CiConfig) (req : RunRequest) (gpuIds : List Int) :
    Except PyExc (List String) :=
  match cfg.jobs req.jobName with
  | none => .error .keyError
  | some job =>
    buildDockerArgs h cfg req.jobName
      { repoUrl := cfg.repoUrl.getD "", branch := req.branch, stages := job.stages
        imageTagOverride := req.imageTag, resultsDir := some req.resultsDir }
      (if gpuIds = [] then none else some (joinIds gpuIds))

/-- The GPU assignment of `run.py`: what `build_docker_args` is given, and
`false` if there are not enough GPUs. -/
def assignGpus (h : Host) (gpuId : Option String) (r : Resources) (pool : ResourcePool)
    (d : Detection) : Except PyExc (ResourcePool × Option String × Bool) := do
  if pyOr gpuId "" = "" ∧ rawGpuIds h r = "auto" then
    let gpuCount ← parseGpuRequirement r
    let memoryMb ← parseMemoryRequirement h.lower r
    let (pool, allocatedIds, ok) ← pool.allocate d gpuCount memoryMb
    if ok then
      return (pool, if allocatedIds = [] then gpuId else some (joinIds allocatedIds), true)
    else
      return (pool, gpuId, false)
  else
    return (pool, gpuId, true)

/-- The configuration as the scheduler sees it. -/
def CiConfig.scheduler (cfg : CiConfig) (h : Host) (dryRun : Bool) : Config where
  jobs name := (cfg.jobs name).map CiJob.resources
  dryRun
  lower := h.lower

/-! ## The devices -/

/-- The ids in a comma-separated list. -/
def deviceIds (s : String) : List String :=
  (s.toList.splitOn ',').map fun id => .ofList (stripBy pyIsSpace id)

/-- What follows a given prefix. -/
def afterPrefix (pre s : String) : Option String :=
  if pre.toList.isPrefixOf s.toList then some (.ofList (s.toList.drop pre.toList.length)) else none

/-- The list of devices that a container on a platform is given by the
first of these arguments. -/
def exposed (platform : String) : List String → Option (List String)
  | flag :: value :: _ =>
    if platform = "nvidia" then
      if flag = "--gpus" then (afterPrefix "device=" value).map deviceIds else none
    else
      match platformDeviceEnv platform with
      | none => none
      | some deviceEnv =>
        if flag = "-e" then (afterPrefix (deviceEnv ++ "=") value).map deviceIds else none
  | _ => none

/-- The command line exposes these devices and no others. -/
def Exposes (h : Host) (job : CiJob) (x : RunArgs) (args ids : List String) : Prop :=
  ∃ got, exposed job.platformName (args.drop (leadingArgs h job x).length) = some got ∧
    ∀ id, id ∈ got ↔ id ∈ ids

/-- `gpu_ids` is a list of devices, and not a keyword. -/
structure Pinned (h : Host) (r : Resources) : Prop where
  isText : ∀ x, r.gpuIds ≠ some (.float x)
  not_auto : rawGpuIds h r ≠ "auto"
  not_all : rawGpuIds h r ≠ "all"
  ids_ne : ∀ id ∈ deviceIds (rawGpuIds h r), id ≠ ""

/-- A pinned job in a state in which the agent launches it. -/
structure Launch where
  host : Host
  config : CiConfig
  dryRun : Bool
  req : RunRequest
  job : CiJob
  pool : ResourcePool
  detection : Detection
  found : config.jobs req.jobName = some job
  pinned : Pinned host job.resources
  launched : ∃ pool' gpuIds,
    consider (config.scheduler host dryRun) detection pool req.toJobRequest = .ok (pool', gpuIds, true)

namespace Launch

variable (x : Launch)

/-- S. -/
def ids : List String := deviceIds (rawGpuIds x.host x.job.resources)

/-- The arguments of `build_docker_args` on the agent. -/
def runArgs : RunArgs where
  repoUrl := x.config.repoUrl.getD ""
  branch := x.req.branch
  stages := x.job.stages
  imageTagOverride := x.req.imageTag
  resultsDir := some x.req.resultsDir

/-- The agent exposes the devices of the list. -/
def AgentExposes : Prop :=
  ∀ pool' gpuIds,
    consider (x.config.scheduler x.host x.dryRun) x.detection x.pool x.req.toJobRequest
      = .ok (pool', gpuIds, true) →
    ∃ args, agentDockerArgs x.host x.config x.req gpuIds = .ok args ∧
      Exposes x.host x.job x.runArgs args x.ids

/-- `run.py` without `--gpu-id` exposes them, with whatever GPUs there are. -/
def LocalExposes : Prop :=
  ∀ (y : RunArgs) (pool : ResourcePool) (d : Detection), ∃ pool' override,
    assignGpus x.host none x.job.resources pool d = .ok (pool', override, true) ∧
    ∃ args, buildDockerArgs x.host x.config x.req.jobName y override = .ok args ∧
      Exposes x.host x.job y args x.ids

/-- Both paths honour the pinning. -/
def Honoured : Prop := x.AgentExposes ∧ x.LocalExposes

/-- The platform has a way to select devices. -/
def HasDeviceSelection : Prop :=
  x.job.platformName = "nvidia" ∨ (platformDeviceEnv x.job.platformName).isSome

instance : Decidable x.HasDeviceSelection := inferInstanceAs (Decidable (_ ∨ _))

end Launch

/-- The GPUs that are free, in the order of their detection. -/
def ResourcePool.available (pool : ResourcePool) (gpus : List GpuInfo) : List GpuInfo :=
  gpus.filter fun g => g.index ∉ pool.allocated && g.utilizationPct.lt pool.utilizationThreshold

/-- `a` is not more loaded than `b`. -/
def GpuInfo.le (a b : GpuInfo) : Bool := !b.utilizationPct.lt a.utilizationPct

/-- The devices of the list are the free GPUs that have fewer free ones
before them than there are ids, by utilization and then by detection. -/
def Launch.LeastLoaded (x : Launch) : Prop :=
  ∀ gpus, x.detection.gpus = .ok gpus → ∀ id, id ∈ x.ids ↔
    ∃ g i, (g, i) ∈ (x.pool.available gpus).zipIdx ∧ toString g.index = id ∧
      StableSort.rank GpuInfo.le (x.pool.available gpus) (g, i) < x.ids.length

end InfiniOps.Ci
