/-
InfiniOps.Ci.StagedRunTheorems — the container of a job runs its stages.

The runner script finds the job in its variables. `runner_run` shows that,
given these (`Provides`), it does what `stagedRun` says; the loop over the
stages is related to `runStages` by an invariant over the numbers that
remain (`StagesRemain`).
-/
import InfiniOps.Ci.StagedRun
import InfiniOps.Lib.Decimal
import Std.Data.String.ToNat

namespace InfiniOps.Ci

open Script

/-! ## The variables of the runner -/

def stageNameVar (i : Nat) : String := "STAGE_" ++ toString (i + 1) ++ "_NAME"

def stageCmdVar (i : Nat) : String := "STAGE_" ++ toString (i + 1) ++ "_CMD"

/-- The variables of the stages. -/
def StageVars (stages : List Stage) (vars : String → String) : Prop :=
  ∀ i (h : i < stages.length), vars (stageNameVar i) = stages[i].name ∧
    vars (stageCmdVar i) = stages[i].run

/-- The variables that the runner script reads. -/
structure Provides (x : RunArgs) (setupCmd : String) (vars : String → String) : Prop where
  localSrc : vars "LOCAL_SRC" = x.localPath.elim "" fun _ => "/workspace/repo"
  repoUrl : vars "REPO_URL" = x.repoUrl
  branch : vars "BRANCH" = x.branch
  setup : vars "SETUP_CMD" = setupCmd
  numStages : vars "NUM_STAGES" = toString x.stages.length
  stages : StageVars x.stages vars

/-- A variable that tells the runner about the stages. -/
def IsStageVar (v : String) : Prop := v = "NUM_STAGES" ∨ ∃ i, v = stageNameVar i ∨ v = stageCmdVar i

/-- The setup and the stages leave these variables alone. -/
def Container.Keeps {σ : Type} (c : Container σ) (texts : List String) : Prop :=
  ∀ text ∈ texts, ∀ sh v, IsStageVar v → (c.eval text sh).2.vars v = sh.vars v

/-- The stages leave the loop of the script alone. -/
def Container.Stays {σ : Type} (c : Container σ) (texts : List String) : Prop :=
  ∀ text ∈ texts, ∀ sh, (c.eval text sh).1 ≠ .brk ∧ (c.eval text sh).1 ≠ .cont

theorem take_stageNameVar (i : Nat) : (stageNameVar i).toList.take 6 = "STAGE_".toList := by
  simp [stageNameVar]

theorem take_stageCmdVar (i : Nat) : (stageCmdVar i).toList.take 6 = "STAGE_".toList := by
  simp [stageCmdVar]

/-- Other variables are none of them. -/
theorem stageVar_ne {v y : String} (hv : IsStageVar v) (hy : y.toList.take 6 ≠ "STAGE_".toList)
    (hnum : y ≠ "NUM_STAGES") : v ≠ y := by
  rintro rfl
  rcases hv with rfl | ⟨i, rfl | rfl⟩
  · exact hnum rfl
  · exact hy (take_stageNameVar i)
  · exact hy (take_stageCmdVar i)

theorem isStageVar_name (i : Nat) : IsStageVar (stageNameVar i) := .inr ⟨i, .inl rfl⟩

theorem isStageVar_cmd (i : Nat) : IsStageVar (stageCmdVar i) := .inr ⟨i, .inr rfl⟩

variable {σ : Type} {c : Container σ} {x : RunArgs} {setupCmd : String}

/-! ## Up to the stages -/

/-- Two blocks that begin alike. -/
theorem block_congr {s t : Script σ} {ss ts : List (Script σ)} {sh : Shell σ} (h : s sh = t sh)
    (hrest : ∀ n sh', t sh = (.next n, sh') → block ss sh' = block ts sh') :
    block (s :: ss) sh = block (t :: ts) sh := by
  rw [block, block, andThen, andThen, h]
  cases ht : t sh with
  | mk flow sh' =>
    cases flow with
    | next n => exact hrest n sh' ht
    | brk => rfl
    | cont => rfl
    | exit n => rfl

/-- A program changes no variable. -/
theorem program_vars {argv : (String → String) → List String} {sh sh' : Shell σ} {n : Nat}
    (h : c.program argv sh = (.next n, sh')) : sh'.vars = sh.vars := by
  rw [command_of_next h]

theorem program_congr {argv argv' : (String → String) → List String} {sh : Shell σ}
    (h : argv sh.vars = argv' sh.vars) : c.program argv sh = c.program argv' sh := by
  rw [Container.program, Container.program, command, command, h]

theorem evalVar_eq {v : String} {sh : Shell σ} {text : String} (h : sh.vars v = text) :
    c.evalVar v sh = command (c.eval text) sh := by
  rw [Container.evalVar, command, command, h]

/-- The sources are those of the arguments. -/
theorem fetch_eq {sh : Shell σ} (hvars : Provides x setupCmd sh.vars) :
    ifThen (fun sh => sh.vars "LOCAL_SRC" ≠ "")
      (block [
        c.program fun vars => ["cp", "-r", vars "LOCAL_SRC", "/tmp/src"],
        c.program fun _ => ["cd", "/tmp/src"]])
      (block [
        c.program fun vars => ["git", "clone", vars "REPO_URL", "repo"],
        c.program fun _ => ["cd", "repo"],
        c.program fun vars => ["git", "checkout", vars "BRANCH"]]) sh = fetch c x sh := by
  rw [ifThen, fetch]
  have hlocal := hvars.localSrc
  cases hpath : x.localPath with
  | some path =>
    rw [hpath, Option.elim_some] at hlocal
    rw [if_pos (by rw [hlocal]; decide)]
    exact block_congr (program_congr (by rw [hlocal])) fun _ _ _ => rfl
  | none =>
    rw [hpath, Option.elim_none] at hlocal
    rw [if_neg (by simp [hlocal])]
    refine block_congr (program_congr (by rw [hvars.repoUrl])) fun _ sh' h => ?_
    refine block_congr rfl fun _ sh'' h' => ?_
    refine block_congr (program_congr ?_) fun _ _ _ => rfl
    rw [program_vars h', program_vars h, hvars.branch]

theorem fetch_vars {sh sh' : Shell σ} {n : Nat} (h : fetch c x sh = (.next n, sh')) :
    sh'.vars = sh.vars := by
  cases hpath : x.localPath with
  | some path =>
    simp only [fetch, hpath] at h
    refine block_keeps Shell.vars (fun s hs => ?_) h
    simp only [List.mem_cons, List.not_mem_nil, or_false] at hs
    rcases hs with rfl | rfl <;> exact program_vars
  | none =>
    simp only [fetch, hpath] at h
    refine block_keeps Shell.vars (fun s hs => ?_) h
    simp only [List.mem_cons, List.not_mem_nil, or_false] at hs
    rcases hs with rfl | rfl | rfl <;> exact program_vars

/-- The part of the runner script that comes before the stages. -/
def runnerHead (c : Container σ) : List (Script σ) :=
  [setErrexit true,
    c.program fun _ => ["cd", "/workspace"],
    c.program fun _ => ["mkdir", "-p", "/workspace/results"],
    ifThen (fun sh => sh.vars "LOCAL_SRC" ≠ "")
      (block [
        c.program fun vars => ["cp", "-r", vars "LOCAL_SRC", "/tmp/src"],
        c.program fun _ => ["cd", "/tmp/src"]])
      (block [
        c.program fun vars => ["git", "clone", vars "REPO_URL", "repo"],
        c.program fun _ => ["cd", "repo"],
        c.program fun vars => ["git", "checkout", vars "BRANCH"]]),
    outsideLoop (c.evalVar "SETUP_CMD"),
    setErrexit false,
    assign "rc" fun _ => "0"]

/-- The stages and the exit. -/
def runnerTail (c : Container σ) : List (Script σ) :=
  [forEachIn "i" (fun sh => seqTo (number "NUM_STAGES" sh)) (stageBody c),
    ifThen (fun sh => sh.vars "HOST_UID" ≠ "" ∧ sh.vars "HOST_GID" ≠ "")
      (ignored fun sh => c.call ["chown", "-R", sh.vars "HOST_UID" ++ ":" ++ sh.vars "HOST_GID",
        "/workspace/results"] sh)
      skip,
    Script.exit (number "rc")]

theorem runner_eq (sh : Shell σ) :
    runner c sh = (block (runnerHead c)).andThen (fun _ => block (runnerTail c)) sh :=
  block_append (runnerHead c) (runnerTail c) sh

theorem runnerHead_eq {sh : Shell σ} (hvars : Provides x setupCmd sh.vars) :
    block (runnerHead c) sh = prepare c x setupCmd sh := by
  refine block_congr rfl fun _ sh₁ h₁ => ?_
  refine block_congr rfl fun _ sh₂ h₂ => ?_
  refine block_congr rfl fun _ sh₃ h₃ => ?_
  have hsame₁ : sh₁.vars = sh.vars := by
    cases h₁
    rfl
  have hsame : sh₃.vars = sh.vars := by rw [program_vars h₃, program_vars h₂, hsame₁]
  refine block_congr (fetch_eq (hsame ▸ hvars)) fun _ sh₄ h₄ => ?_
  have hsetup : c.evalVar "SETUP_CMD" sh₄ = command (c.eval setupCmd) sh₄ := by
    refine evalVar_eq ?_
    rw [fetch_vars h₄, hsame, hvars.setup]
  refine block_congr ?_ fun _ _ _ => rfl
  rw [outsideLoop, outsideLoop, hsetup]

/-- What the stages find: their variables, and no failure. -/
theorem prepare_vars {sh sh' : Shell σ} {n : Nat} {texts : List String} (hkeeps : c.Keeps texts)
    (hsetup : setupCmd ∈ texts) (h : prepare c x setupCmd sh = (.next n, sh')) :
    (∀ v, IsStageVar v → sh'.vars v = sh.vars v) ∧ sh'.vars "rc" = "0" := by
  constructor
  · intro v hv
    refine block_keeps (fun sh => sh.vars v) (fun s hs => ?_) h
    simp only [List.mem_cons, List.not_mem_nil, or_false] at hs
    rcases hs with rfl | rfl | rfl | rfl | rfl | rfl | rfl <;> intro sh sh' m hnext
    · cases hnext
      rfl
    · exact congrFun (program_vars hnext) v
    · exact congrFun (program_vars hnext) v
    · exact congrFun (fetch_vars hnext) v
    · have hsame : sh' = (c.eval setupCmd sh).2 := by
        rw [← command_snd, ← outsideLoop_snd, hnext]
      rw [hsame, hkeeps _ hsetup _ _ hv]
    · cases hnext
      rfl
    · cases hnext
      exact Shell.set_vars_of_ne sh "0" (stageVar_ne hv (by decide) (by decide))
  · have hsplit := block_append [setErrexit true, c.program fun _ => ["cd", "/workspace"],
      c.program fun _ => ["mkdir", "-p", "/workspace/results"], fetch c x,
      outsideLoop (command (c.eval setupCmd)), setErrexit false] [assign "rc" fun _ => "0"] sh
    rw [prepare] at h
    obtain ⟨m, sh₁, -, hlast⟩ := next_of_andThen (hsplit.symm.trans h)
    cases hlast
    exact Shell.set_vars_self sh₁ "rc" "0"

/-! ## The loop over the stages -/

/-- The script's own variables are not those of a stage. -/
theorem enterStage_vars {s : Stage} {i : Nat} {sh : Shell σ} {v : String} (hv : IsStageVar v) :
    (enterStage s i sh).vars v = sh.vars v := by
  have hne : ∀ y, y.toList.take 6 ≠ "STAGE_".toList → y ≠ "NUM_STAGES" → v ≠ y := fun _ => stageVar_ne hv
  rw [enterStage, Shell.set_vars_of_ne _ _ (hne _ (by decide) (by decide)),
    Shell.set_vars_of_ne _ _ (hne _ (by decide) (by decide)),
    Shell.set_vars_of_ne _ _ (hne _ (by decide) (by decide)),
    Shell.set_vars_of_ne _ _ (hne _ (by decide) (by decide)),
    Shell.set_vars_of_ne _ _ (hne _ (by decide) (by decide))]

theorem enterStage_rc {s : Stage} {i : Nat} {sh : Shell σ} :
    (enterStage s i sh).vars "rc" = sh.vars "rc" := by
  simp [enterStage]

/-- What the script does with a stage that it has looked up. -/
def stageRound (c : Container σ) (run : String) : Script σ :=
  ifThen (fun _ => run ≠ "")
    ((command (c.eval run)).andThen fun status => block [
      assign "rc" fun _ => toString status,
      ifThen (fun sh => number "rc" sh ≠ 0) brk skip])
    skip

/-- A stage in the script is the stage of the arguments. -/
theorem stageBody_eq {stages : List Stage} {i : Nat} (hi : i < stages.length) {sh : Shell σ}
    (hvars : StageVars stages sh.vars) :
    stageBody c (sh.set "i" (toString (i + 1))) =
      block [stageRound c stages[i].run] (enterStage stages[i] i sh) := by
  obtain ⟨hname, hcmd⟩ := hvars i hi
  have hother : ∀ y, y.toList.take 6 ≠ "STAGE_".toList → y ≠ "NUM_STAGES" →
      stageNameVar i ≠ y ∧ stageCmdVar i ≠ y := fun y hy hnum =>
    ⟨stageVar_ne (isStageVar_name i) hy hnum, stageVar_ne (isStageVar_cmd i) hy hnum⟩
  have hi' := hother "i" (by decide) (by decide)
  have hnameVar := hother "name_var" (by decide) (by decide)
  have hcmdVar := hother "cmd_var" (by decide) (by decide)
  have hname' := hother "name" (by decide) (by decide)
  rw [stageBody, block_assign_of (v := stageNameVar i) (by simp [stageNameVar]),
    block_assign_of (v := stageCmdVar i) (by simp [stageCmdVar]),
    block_assign_of (v := stages[i].name) (by simp [hi', hnameVar, hcmdVar, hname]),
    block_assign_of (v := stages[i].run) (by simp [hi', hnameVar, hcmdVar, hname', hcmd])]
  refine block_congr ?_ fun _ _ _ => rfl
  simp only [ifThen, stageRound, Shell.set_vars_self, andThen, evalVar_eq]

theorem number_toString {v : String} {n : Nat} {sh : Shell σ} (h : sh.vars v = toString n) :
    number v sh = n := by
  rw [number, h, show toString n = n.repr from rfl, Nat.toNat?_repr, Option.getD_some]

theorem stageRound_empty (sh : Shell σ) : block [stageRound c ""] sh = (.next 0, sh) := rfl

theorem stageRound_next {run : String} (hrun : run ≠ "") {sh sh' : Shell σ} {n : Nat}
    (h : command (c.eval run) sh = (.next n, sh')) :
    block [stageRound c run] sh =
      if n = 0 then (.next 0, sh'.set "rc" "0") else (.brk, sh'.set "rc" (toString n)) := by
  have hrc : number "rc" (sh'.set "rc" (toString n)) = n :=
    number_toString (Shell.set_vars_self ..)
  rw [block_singleton, andThen, stageRound, ifThen, if_pos (by simpa using hrun),
    andThen_of_next h, block_assign, block_singleton, andThen, ifThen, hrc]
  by_cases hn : n = 0
  · subst hn
    rfl
  · rw [if_pos (by simpa using hn), if_neg hn]
    rfl

theorem stageRound_exit {run : String} (hrun : run ≠ "") {sh sh' : Shell σ} {n : Nat}
    (h : command (c.eval run) sh = (.exit n, sh')) :
    block [stageRound c run] sh = (.exit n, sh') := by
  rw [block_singleton, andThen, stageRound, ifThen, if_pos (by simpa using hrun), andThen_of_exit h]

/-- A command that stays in the loop ends with a status, or leaves the shell. -/
theorem command_stays {f : Shell σ → Shell.Flow × Shell σ} {sh : Shell σ}
    (h : (f sh).1 ≠ .brk ∧ (f sh).1 ≠ .cont) :
    (command f sh).1 ≠ .brk ∧ (command f sh).1 ≠ .cont := by
  rw [command]
  split
  · rw [checked]
    split <;> simp
  · rename_i hf
    rw [hf] at h
    exact h

/-- The loop ends as the stages do. -/
def LoopEnds (total r : Shell.Flow × Shell σ) : Prop :=
  (∃ n sh', total = (.next n, sh') ∧ r = (.next 0, sh') ∧ sh'.vars "rc" = toString n) ∨
  ∃ n sh', total = (.exit n, sh') ∧ r = (.exit n, sh')

/-- Before a round: the numbers that remain, and what remains of the run. -/
def StagesRemain (c : Container σ) (stages : List Stage) (total : Shell.Flow × Shell σ)
    (vs : List String) (sh : Shell σ) : Prop :=
  ∃ i, vs = (seqTo stages.length).drop i ∧ StageVars stages sh.vars ∧ sh.vars "rc" = "0" ∧
    runStages c (stages.drop i) i sh = total

theorem StageVars.congr {stages : List Stage} {vars vars' : String → String}
    (h : StageVars stages vars) (hsame : ∀ v, IsStageVar v → vars' v = vars v) :
    StageVars stages vars' := fun i hi => by
  rw [hsame _ (isStageVar_name i), hsame _ (isStageVar_cmd i)]
  exact h i hi

/-- One round. -/
theorem stageBody_round {texts : List String} (hkeeps : c.Keeps texts) {stages : List Stage}
    (hstays : c.Stays (stages.map Stage.run)) (hruns : ∀ s ∈ stages, s.run ∈ texts) {total : Shell.Flow × Shell σ} (v : String)
    (vs : List String) (sh : Shell σ) (h : StagesRemain c stages total (v :: vs) sh) :
    (∃ n sh', stageBody c (sh.set "i" v) = (.next n, sh') ∧ StagesRemain c stages total vs sh') ∨
    (∃ sh', stageBody c (sh.set "i" v) = (.cont, sh') ∧ StagesRemain c stages total vs sh') ∨
    (∃ sh', stageBody c (sh.set "i" v) = (.brk, sh') ∧ LoopEnds total (.next 0, sh')) ∨
    ∃ n sh', stageBody c (sh.set "i" v) = (.exit n, sh') ∧ LoopEnds total (.exit n, sh') := by
  obtain ⟨i, hvs, hvars, hrc, htotal⟩ := h
  have hi : i < stages.length := by
    by_contra hge
    rw [List.drop_eq_nil_of_le (by simpa [seqTo] using hge)] at hvs
    cases hvs
  have hlen : i < (seqTo stages.length).length := by simpa [seqTo] using hi
  have hnumber : (seqTo stages.length)[i] = toString (i + 1) := by simp [seqTo]
  rw [List.drop_eq_getElem_cons hlen] at hvs
  obtain ⟨rfl, rfl⟩ := List.cons.inj hvs
  rw [hnumber, stageBody_eq hi hvars]
  rw [List.drop_eq_getElem_cons hi, runStages] at htotal
  have hentered : StageVars stages (enterStage stages[i] i sh).vars :=
    hvars.congr fun v hv => enterStage_vars hv
  by_cases hrun : stages[i].run = ""
  · rw [if_pos hrun] at htotal
    rw [hrun, stageRound_empty]
    exact .inl ⟨0, _, rfl, i + 1, rfl, hentered, by rw [enterStage_rc, hrc], htotal⟩
  · rw [if_neg hrun] at htotal
    obtain ⟨hnobrk, hnocont⟩ := command_stays
      (hstays _ (List.mem_map_of_mem (List.getElem_mem hi)) (enterStage stages[i] i sh))
    cases hcmd : command (c.eval stages[i].run) (enterStage stages[i] i sh) with
    | mk flow sh' =>
      rw [hcmd] at htotal
      cases flow with
      | brk => exact absurd (congrArg Prod.fst hcmd) hnobrk
      | cont => exact absurd (congrArg Prod.fst hcmd) hnocont
      | exit n =>
        rw [stageRound_exit hrun hcmd]
        exact .inr (.inr (.inr ⟨n, sh', rfl, .inr ⟨n, sh', htotal.symm, rfl⟩⟩))
      | next n =>
        rw [stageRound_next hrun hcmd]
        by_cases hn : n = 0
        · -- the stages that follow find their variables, for the stage kept them
          have hkept : ∀ v, IsStageVar v → sh'.vars v = (enterStage stages[i] i sh).vars v :=
            fun v hv => by
              rw [command_of_next hcmd, hkeeps _ (hruns _ (List.getElem_mem hi)) _ _ hv]
          have hnext : StageVars stages (sh'.set "rc" "0").vars := hentered.congr fun v hv => by
            rw [Shell.set_vars_of_ne _ _ (stageVar_ne hv (by decide) (by decide)), hkept v hv]
          simp only [if_pos hn] at htotal ⊢
          exact .inl ⟨0, _, rfl, i + 1, rfl, hnext, Shell.set_vars_self .., htotal⟩
        · simp only [if_neg hn] at htotal ⊢
          exact .inr (.inr (.inl ⟨_, rfl, .inl ⟨n, _, htotal.symm, rfl, Shell.set_vars_self ..⟩⟩))

/-- The loop over the stages runs them as `runStages` says. -/
theorem forEach_stages {texts : List String} (hkeeps : c.Keeps texts) {stages : List Stage}
    (hstays : c.Stays (stages.map Stage.run)) (hruns : ∀ s ∈ stages, s.run ∈ texts) {sh : Shell σ} (hvars : StageVars stages sh.vars)
    (hrc : sh.vars "rc" = "0") :
    LoopEnds (runStages c stages 0 sh)
      (forEach "i" (seqTo stages.length) (stageBody c) sh) := by
  refine forEach_rule (I := StagesRemain c stages (runStages c stages 0 sh)) ?_
    (stageBody_round hkeeps hstays hruns) _ _ ⟨0, rfl, hvars, hrc, rfl⟩
  rintro sh' ⟨i, hnil, -, hrc', htotal⟩
  have hi : stages.length ≤ i := by simpa [seqTo] using hnil.symm
  rw [List.drop_eq_nil_of_le hi, runStages] at htotal
  exact .inl ⟨0, sh', htotal.symm, rfl, hrc'⟩

/-- Handing over the results, in the script. -/
theorem handOver_eq (sh : Shell σ) :
    ifThen (fun sh => sh.vars "HOST_UID" ≠ "" ∧ sh.vars "HOST_GID" ≠ "")
      (ignored fun sh => c.call ["chown", "-R", sh.vars "HOST_UID" ++ ":" ++ sh.vars "HOST_GID",
        "/workspace/results"] sh)
      skip sh = (.next 0, finish c sh) := by
  rw [ifThen, finish]
  by_cases howner : sh.vars "HOST_UID" ≠ "" ∧ sh.vars "HOST_GID" ≠ ""
  · rw [if_pos (by simpa using howner), if_pos howner]
    rfl
  · rw [if_neg (by simpa using howner), if_neg howner]
    rfl

theorem finish_vars (sh : Shell σ) : (finish c sh).vars = sh.vars := by
  rw [finish]
  split <;> rfl

/-- The stages are followed by the exit. -/
theorem runnerTail_of_next {sh sh' : Shell σ} {n : Nat}
    (h : forEachIn "i" (fun sh => seqTo (number "NUM_STAGES" sh)) (stageBody c) sh =
      (.next 0, sh')) (hrc : sh'.vars "rc" = toString n) :
    block (runnerTail c) sh = (.exit n, finish c sh') := by
  rw [runnerTail, block_cons_of_next h, block_cons_of_next (handOver_eq sh'), block_exit,
    number_toString (by rw [finish_vars, hrc])]

/-- The runner script does what a run is for. -/
theorem runner_run {texts : List String} (hkeeps : c.Keeps texts)
    (hstays : c.Stays (x.stages.map Stage.run)) (hsetup : setupCmd ∈ texts)
    (hruns : ∀ s ∈ x.stages, s.run ∈ texts) {vars : String → String}
    (hvars : Provides x setupCmd vars) (errexit : Bool) (w : σ) :
    (runner c).run ⟨vars, errexit, w⟩ = stagedRun c x setupCmd ⟨vars, errexit, w⟩ := by
  rw [run, stagedRun, runner_eq, andThen, runnerHead_eq hvars]
  cases hprepare : prepare c x setupCmd ⟨vars, errexit, w⟩ with
  | mk flow sh₁ =>
    cases flow with
    | brk => rfl
    | cont => rfl
    | exit n => rfl
    | next n =>
      obtain ⟨hsame, hrc⟩ := prepare_vars hkeeps hsetup hprepare
      have hnum : number "NUM_STAGES" sh₁ = x.stages.length :=
        number_toString ((hsame _ (.inl rfl)).trans hvars.numStages)
      have hloop : LoopEnds (runStages c x.stages 0 sh₁)
          (forEachIn "i" (fun sh => seqTo (number "NUM_STAGES" sh)) (stageBody c) sh₁) := by
        rw [forEachIn, hnum]
        exact forEach_stages hkeeps hstays hruns (hvars.stages.congr hsame) hrc
      rcases hloop with ⟨m, sh₂, htotal, hends, hstatus⟩ | ⟨m, sh₂, htotal, hends⟩
      · simp only [runnerTail_of_next hends hstatus, htotal]
      · simp only [runnerTail, block_cons_of_exit hends, htotal]

end InfiniOps.Ci
