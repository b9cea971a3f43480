/-
InfiniOps.Ci.StagedRun — what happens in the container of a CI job
(`build_runner_script` in `.ci/run.py`, under the command line of
`build_docker_args`).

`readRun` reads a command line as `docker run` does, as far as the runner
depends on it: its flags, some of which take the next token as their value,
the image, and the command; the variables of the container are those of the
image under those of its `-e` flags, of which the last one counts. `runner`
is the runner script, over a container that gives meaning to the commands.

`stagedRun` says what a run is for: fetch the sources, run the setup, then
the stages in their order up to the first that fails, and exit with its
status. A stage without a command is passed over.

A stage's command is run by `eval` in the shell of the script itself, where
it may break out of the loop over the stages or go on to the next.
-/
import InfiniOps.Ci.DockerArgs
import InfiniOps.Lib.ShellScript

namespace InfiniOps.Ci

open Script

/-! ## `docker run` -/

/-- What stands before the first `=`. -/
def varName (v : String) : String := .ofList (v.toList.takeWhile (· ≠ '='))

/-- What stands behind it. -/
def varValue (v : String) : String := .ofList ((v.toList.dropWhile (· ≠ '=')).drop 1)

/-- `-e v`. Without a value, the variable is passed on from the client. -/
def setVar (h : Host) (vars : String → String) (v : String) : String → String :=
  if '=' ∈ v.toList then Function.update vars (varName v) (varValue v)
  else match h.environ v with
    | some value => Function.update vars v value
    | none => vars

/-- The variables of a container, by its `-e` flags. -/
def containerVars (h : Host) (base : String → String) (env : List String) : String → String :=
  env.foldl (setVar h) base

/-- A command line, read. -/
structure DockerRun where
  env : List String
  image : String
  command : List String
  deriving DecidableEq

/-- The flags up to the image. `takesValue` says which flags take the next
token. -/
def readFlags (takesValue : String → Bool) : List String → Option DockerRun
  | [] => none
  | token :: rest =>
    if token.toList.head? = some '-' then
      if takesValue token then
        match rest with
        | [] => none
        | value :: rest =>
          (readFlags takesValue rest).map fun r =>
            if token = "-e" then { r with env := value :: r.env } else r
      else readFlags takesValue rest
    else some ⟨[], token, rest⟩

/-- `docker run …`. -/
def readRun (takesValue : String → Bool) : List String → Option DockerRun
  | "docker" :: "run" :: rest => readFlags takesValue rest
  | _ => none

/-! ## The runner script -/

/-- What the commands of a container do: programs change its world only,
and what is given to `eval` may change everything. -/
structure Container (σ : Type) where
  call : List String → Shell σ → Nat × σ
  eval : String → Shell σ → Shell.Flow × Shell σ

variable {σ : Type}

/-- A program with its arguments. -/
def Container.program (c : Container σ) (argv : (String → String) → List String) : Script σ :=
  command fun sh =>
    (.next (c.call (argv sh.vars) sh).1, { sh with world := (c.call (argv sh.vars) sh).2 })

/-- `eval "$x"`. -/
def Container.evalVar (c : Container σ) (x : String) : Script σ :=
  command fun sh => c.eval (sh.vars x) sh

/-- The number in a variable. -/
def number (x : String) (sh : Shell σ) : Nat := ((sh.vars x).toNat?).getD 0

/-- `seq 1 n`. -/
def seqTo (n : Nat) : List String := (List.range n).map fun i => toString (i + 1)

/-- The body of the loop over the stages. -/
def stageBody (c : Container σ) : Script σ :=
  block [
    assign "name_var" fun sh => "STAGE_" ++ sh.vars "i" ++ "_NAME",
    assign "cmd_var" fun sh => "STAGE_" ++ sh.vars "i" ++ "_CMD",
    assign "name" fun sh => sh.vars (sh.vars "name_var"),
    assign "cmd" fun sh => sh.vars (sh.vars "cmd_var"),
    ifThen (fun sh => sh.vars "cmd" ≠ "")
      ((c.evalVar "cmd").andThen fun status => block [
        assign "rc" fun _ => toString status,
        ifThen (fun sh => number "rc" sh ≠ 0) brk skip])
      skip]

/-- `build_runner_script`. What it prints is left out. -/
def runner (c : Container σ) : Script σ :=
  block [
    setErrexit true,
    c.program fun _ => ["cd", "/workspace"],
    c.program fun _ => ["mkdir", "-p", "/workspace/results"],
    ifThen (fun sh => sh.vars "LOCAL_SRC" ≠ "")
      (block [
        c.program fun vars => ["cp", "-r", vars "LOCAL_SRC", "/tmp/src"],
        c.program fun _ => ["cd", "/tmp/src"]])
      (block [
        c.program fun vars => ["git", "clone", vars "REPO_URL", "repo"],
        c.program fun _ => ["cd", "repo"],
        c.program fun vars => ["git", "checkout", vars "BRANCH"]]),
    outsideLoop (c.evalVar "SETUP_CMD"),
    setErrexit false,
    assign "rc" fun _ => "0",
    forEachIn "i" (fun sh => seqTo (number "NUM_STAGES" sh)) (stageBody c),
    ifThen (fun sh => sh.vars "HOST_UID" ≠ "" ∧ sh.vars "HOST_GID" ≠ "")
      (ignored fun sh => c.call ["chown", "-R", sh.vars "HOST_UID" ++ ":" ++ sh.vars "HOST_GID",
        "/workspace/results"] sh)
      skip,
    Script.exit (number "rc")]

/-! ## What a run is for -/

/-- The sources: a copy of a local directory, or a branch of a repository. -/
def fetch (c : Container σ) (x : RunArgs) : Script σ :=
  match x.localPath with
  | some _ =>
    block [
      c.program fun _ => ["cp", "-r", "/workspace/repo", "/tmp/src"],
      c.program fun _ => ["cd", "/tmp/src"]]
  | none =>
    block [
      c.program fun _ => ["git", "clone", x.repoUrl, "repo"],
      c.program fun _ => ["cd", "repo"],
      c.program fun _ => ["git", "checkout", x.branch]]

/-- Up to the first stage; a step that fails ends the run. -/
def prepare (c : Container σ) (x : RunArgs) (setupCmd : String) : Script σ :=
  block [
    setErrexit true,
    c.program fun _ => ["cd", "/workspace"],
    c.program fun _ => ["mkdir", "-p", "/workspace/results"],
    fetch c x,
    outsideLoop (command (c.eval setupCmd)),
    setErrexit false,
    assign "rc" fun _ => "0"]

/-- The shell as a stage finds it, with its number. -/
def enterStage (s : Stage) (i : Nat) (sh : Shell σ) : Shell σ :=
  ((((sh.set "i" (toString (i + 1))).set "name_var" ("STAGE_" ++ toString (i + 1) ++ "_NAME")).set
    "cmd_var" ("STAGE_" ++ toString (i + 1) ++ "_CMD")).set "name" s.name).set "cmd" s.run

/-- The stages from the `i`-th on, up to the first that fails. They are taken
to leave the loop of the script alone. -/
def runStages (c : Container σ) : List Stage → Nat → Shell σ → Shell.Flow × Shell σ
  | [], _, sh => (.next 0, sh)
  | s :: stages, i, sh =>
    if s.run = "" then runStages c stages (i + 1) (enterStage s i sh)
    else
      match command (c.eval s.run) (enterStage s i sh) with
      | (.next n, sh') =>
        if n = 0 then runStages c stages (i + 1) (sh'.set "rc" "0")
        else (.next n, sh'.set "rc" (toString n))
      | (flow, sh') => (flow, sh')

/-- The results are given to the user of the host. -/
def finish (c : Container σ) (sh : Shell σ) : Shell σ :=
  if sh.vars "HOST_UID" ≠ "" ∧ sh.vars "HOST_GID" ≠ "" then
    { sh with
      world := (c.call ["chown", "-R", sh.vars "HOST_UID" ++ ":" ++ sh.vars "HOST_GID",
        "/workspace/results"] sh).2 }
  else sh

/-- A run, with its exit code. -/
def stagedRun (c : Container σ) (x : RunArgs) (setupCmd : String) (sh : Shell σ) : Nat × Shell σ :=
  match prepare c x setupCmd sh with
  | (.next _, sh') =>
    match runStages c x.stages 0 sh' with
    | (.next n, sh'') => (n, finish c sh'')
    | (.brk, sh'') => (0, sh'')
    | (.cont, sh'') => (0, sh'')
    | (.exit n, sh'') => (n, sh'')
  | (.brk, sh') => (0, sh')
  | (.cont, sh') => (0, sh')
  | (.exit n, sh') => (n, sh')

end InfiniOps.Ci
