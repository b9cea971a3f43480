/-
InfiniOps.Ci.ConfigFile — the CI configuration as it is written and as it is
used (`normalize_config` in `.ci/utils.py`).

The file groups jobs by platform; `run.py`, `build.py` and the agent read
flat sections. Values are of any type `V`: the code moves them and looks
into none but `agents`, for a warning that it prints and that is left out.

`Lossless` says what a flat configuration keeps of the file, and `Keeps`
when there is nothing to lose.
-/
import InfiniOps.Lib.OrderedDict

namespace InfiniOps.Ci

/-- What the code does with a value of the file. -/
class ConfigValue (V : Type) where
  /-- A text as a value. -/
  str : String → V

section

variable {V : Type}

/-- An entry of `platforms`: its jobs, and every other field. -/
structure PlatformConfig (V : Type) where
  fields : OrderedDict String V
  jobs : OrderedDict String (OrderedDict String V) := .empty

/-- A configuration file: its platforms, and every other section. -/
structure RawConfig (V : Type) where
  sections : OrderedDict String V
  platforms : Option (OrderedDict String (PlatformConfig V))

/-- A flat configuration. `sections` are the ones that are copied. -/
structure FlatConfig (V : Type) where
  sections : OrderedDict String V
  images : OrderedDict String V
  jobs : OrderedDict String (OrderedDict String V)

/-- Copy the keys that are there. -/
def copyKeys (keys : List String) (src dst : OrderedDict String V) : OrderedDict String V :=
  keys.foldl (fun dst key => match src.get? key with
    | some v => dst.insert key v
    | none => dst) dst

/-- The fields of a platform that are defaults for its jobs. -/
def platformDefaults (pcfg : PlatformConfig V) : OrderedDict String V :=
  copyKeys ["image_tag", "docker_args", "volumes", "setup", "env"] pcfg.fields .empty

/-- The key of a flattened job. -/
def fullName (platform jobName : String) : String := platform ++ "_" ++ jobName

variable [ConfigValue V]

open ConfigValue (str)

/-- The flat entry of a job. -/
def flatJob (platform : String) (defaults jobCfg : OrderedDict String V) : OrderedDict String V :=
  let flat := (OrderedDict.empty.insert "platform" (str platform)).insert "image"
    ((defaults.get? "image_tag").getD (str "latest"))
  (copyKeys ["docker_args", "volumes", "setup", "env"] defaults flat).update jobCfg

/-- The loop over the jobs of one platform. -/
def flattenJobs (platform : String) (pcfg : PlatformConfig V)
    (jobs : OrderedDict String (OrderedDict String V)) :
    OrderedDict String (OrderedDict String V) :=
  pcfg.jobs.entries.foldl (fun jobs (jobName, jobCfg) =>
    jobs.insert (fullName platform jobName) (flatJob platform (platformDefaults pcfg) jobCfg)) jobs

/-- `normalize_config` of a file with platforms. -/
def normalizePlatforms (sections : OrderedDict String V)
    (platforms : OrderedDict String (PlatformConfig V)) : FlatConfig V where
  sections := copyKeys ["repo", "github", "agents"] sections .empty
  images := platforms.entries.foldl (fun images (platform, pcfg) =>
    match pcfg.fields.get? "image" with
    | some image => images.insert platform image
    | none => images) .empty
  jobs := platforms.entries.foldl (fun jobs (platform, pcfg) => flattenJobs platform pcfg jobs)
    .empty

/-- `normalize_config`. A file without platforms is left as it is. -/
def normalizeConfig (raw : RawConfig V) : RawConfig V ⊕ FlatConfig V :=
  match raw.platforms with
  | none => .inl raw
  | some platforms => .inr (normalizePlatforms raw.sections platforms)

/-- The image tag that `run.py` reads of a flat job, without an override. -/
def imageTagOf (job : OrderedDict String V) : V := (job.get? "image").getD (str "latest")

/-! ## What is kept -/

/-- A job of the file, with its platform. -/
structure PlatformJob (V : Type) where
  platform : String
  pcfg : PlatformConfig V
  jobName : String
  jobCfg : OrderedDict String V

/-- Every (platform, job) pair, in order. -/
def platformJobs (platforms : OrderedDict String (PlatformConfig V)) : List (PlatformJob V) :=
  platforms.entries.flatMap fun (platform, pcfg) =>
    pcfg.jobs.entries.map fun (jobName, jobCfg) => ⟨platform, pcfg, jobName, jobCfg⟩

/-- The tag that a job asks for: its own, or else that of its platform. -/
def PlatformJob.wantedTag (x : PlatformJob V) : V :=
  match x.jobCfg.get? "image_tag", x.jobCfg.get? "image" with
  | some tag, _ => tag
  | none, some tag => tag
  | none, none => (x.pcfg.fields.get? "image_tag").getD (str "latest")

/-- A flat entry has the fields that the job sets, and the platform's where
it sets none. -/
structure PlatformJob.Carries (x : PlatformJob V) (flat : OrderedDict String V) : Prop where
  own : ∀ key v, x.jobCfg.get? key = some v → flat.get? key = some v
  platform : x.jobCfg.get? "platform" = none → flat.get? "platform" = some (str x.platform)
  inherited : ∀ key ∈ ["docker_args", "volumes", "setup", "env"],
    x.jobCfg.get? key = none → flat.get? key = x.pcfg.fields.get? key
  imageTag : imageTagOf flat = x.wantedTag

/-- An entry for each job and no fewer, and the sections that are read. -/
structure Lossless (sections : OrderedDict String V)
    (platforms : OrderedDict String (PlatformConfig V)) (config : FlatConfig V) : Prop where
  entries : config.jobs.entries.length = (platformJobs platforms).length
  jobs : ∀ x ∈ platformJobs platforms, ∃ flat,
    config.jobs.get? (fullName x.platform x.jobName) = some flat ∧ x.Carries flat
  sections : ∀ key ∈ ["repo", "github", "agents", "registry"],
    config.sections.get? key = sections.get? key

/-- The name of one platform does not go on where that of another ends in a
way that a job of the latter makes up for. -/
def NamesApart (platforms : OrderedDict String (PlatformConfig V)) : Prop :=
  ∀ x ∈ platformJobs platforms, ∀ y ∈ platformJobs platforms, ∀ between,
    ¬ (y.platform = x.platform ++ "_" ++ between ∧ x.jobName = between ++ "_" ++ y.jobName)

/-- A job that sets `image_tag` would get it in any case. -/
def TagsAgree (platforms : OrderedDict String (PlatformConfig V)) : Prop :=
  ∀ x ∈ platformJobs platforms, ∀ tag, x.jobCfg.get? "image_tag" = some tag →
    (x.jobCfg.get? "image").getD ((x.pcfg.fields.get? "image_tag").getD (str "latest")) = tag

/-- There is nothing to lose. -/
structure Keeps (sections : OrderedDict String V)
    (platforms : OrderedDict String (PlatformConfig V)) : Prop where
  namesApart : NamesApart platforms
  tagsAgree : TagsAgree platforms
  noRegistry : sections.get? "registry" = none

end

end InfiniOps.Ci
