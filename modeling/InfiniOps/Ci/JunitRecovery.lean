/-
InfiniOps.Ci.JunitRecovery — how `.ci/run.py` counts a job whose container
exits with 137.

`junitXmlIndicatesPass` scans the report files in the order that the
directory yields them. Files that cannot be parsed, or have no test suite,
are passed over; the first other one decides. So a run is recovered
soundly just if no report passes, or nothing was wrong anyway
(`recoversSoundly_iff`): neither a later report nor a stage that left none
is looked at.
-/
import InfiniOps.Ci.PyValue
import InfiniOps.Lib.Except

namespace InfiniOps.Ci

/-! ## Reports -/

/-- An element of a report. -/
inductive XmlElement where
  | node (tag : String) (attributes : List (String × String)) (children : List XmlElement)

namespace XmlElement

def tag : XmlElement → String
  | node tag _ _ => tag

/-- `element.get(key, default)`. -/
def get (key : String) (default : PyVal) : XmlElement → PyVal
  | node _ attributes _ => ((attributes.lookup key).map PyVal.str).getD default

/-- `element.findall(name)`. -/
def findall (name : String) : XmlElement → List XmlElement
  | node _ _ children => children.filter fun child => child.tag = name

/-- The test suites of a report with this root. -/
def suites (root : XmlElement) : List XmlElement :=
  if root.tag = "testsuites" then root.findall "testsuite" else [root]

/-- The suite counts a failure or an error, or its counts are no numbers. -/
def suiteFails (suite : XmlElement) : Bool :=
  match pyInt (suite.get "failures" (.int 0)) with
  | .error _ => true
  | .ok failures =>
    if 0 < failures then true
    else
      match pyInt (suite.get "errors" (.int 0)) with
      | .error _ => true
      | .ok errors => 0 < errors

end XmlElement

/-- What `ET.parse` makes of a file. -/
inductive Report where
  | parsed (root : XmlElement)
  | parseError
  /-- Another exception, as when the file cannot be read. -/
  | raised (e : PyExc)

/-! ## The scan -/

/-- `_junit_xml_indicates_pass`. -/
def junitXmlIndicatesPass : (scan : List Report) → Except PyExc Bool
  | [] => .ok false
  | .parseError :: rest => junitXmlIndicatesPass rest
  | .raised e :: _ => .error e
  | .parsed root :: rest =>
    if root.suites.isEmpty then junitXmlIndicatesPass rest
    else .ok !root.suites.any XmlElement.suiteFails

/-- Whether `main` adds a job to the failed ones. -/
def jobFails (returncode : Int) (scan : List Report) : Except PyExc Bool :=
  if returncode ≠ 0 then
    if returncode = 137 then do
      let pass ← junitXmlIndicatesPass scan
      pure !pass
    else .ok true
  else .ok false

/-- The loop of `main` over its jobs: how many have failed. -/
def countFailed : (jobs : List (Int × List Report)) → (failed : Nat) → Except PyExc Nat
  | [], failed => .ok failed
  | (returncode, scan) :: jobs, failed => do
    let fails ← jobFails returncode scan
    countFailed jobs (if fails then failed + 1 else failed)

/-- The exit code of `main`. -/
def mainExitCode (jobs : List (Int × List Report)) : Except PyExc Nat :=
  (countFailed jobs 0).map fun failed => if failed ≠ 0 then 1 else 0

/-! ## Soundness -/

/-- A configured stage, and whether it came to its end. -/
structure StageRun where
  name : String
  finished : Bool
  deriving DecidableEq, Repr

/-- What a container leaves behind. -/
structure Aftermath where
  stages : List StageRun
  reports : List Report

/-- The report can be read, and no suite counts a failure or an error. -/
def Report.Clean : Report → Prop
  | .parsed root => ∀ suite ∈ root.suites, suite.suiteFails = false
  | .parseError => False
  | .raised _ => False

/-- The report is clean, and there is a suite in it. -/
def Report.Passes : Report → Prop
  | .parsed root => root.suites ≠ [] ∧ ∀ suite ∈ root.suites, suite.suiteFails = false
  | .parseError => False
  | .raised _ => False

/-- A job that exited with 137 counts as successful. -/
def Recovered (scan : List Report) : Prop := jobFails 137 scan = .ok false

/-- Every stage came to its end, and nothing is wrong in any report. -/
def Aftermath.Sound (a : Aftermath) : Prop :=
  (∀ stage ∈ a.stages, stage.finished) ∧ ∀ report ∈ a.reports, report.Clean

/-- No order of the scan recovers a job that was not sound, and all orders
come to the same. -/
def Aftermath.RecoversSoundly (a : Aftermath) : Prop :=
  (∀ scan, scan.Perm a.reports → Recovered scan → a.Sound) ∧
    ∀ scan scan', scan.Perm a.reports → scan'.Perm a.reports → (Recovered scan ↔ Recovered scan')

/-! ## What the scan finds -/

/-- A report that the scan passes over. -/
def Report.Skipped : Report → Prop
  | .parsed root => root.suites = []
  | .parseError => True
  | .raised _ => False

theorem indicatesPass_of_skipped {report : Report} (h : report.Skipped) (rest : List Report) :
    junitXmlIndicatesPass (report :: rest) = junitXmlIndicatesPass rest := by
  cases report with
  | parsed root =>
    have hempty : root.suites = [] := h
    simp [junitXmlIndicatesPass, hempty]
  | parseError => rfl
  | raised e => cases h

theorem indicatesPass_of_passes {report : Report} (h : report.Passes) (rest : List Report) :
    junitXmlIndicatesPass (report :: rest) = .ok true := by
  cases report with
  | parsed root =>
    obtain ⟨hsome, hfine⟩ := h
    have hnone : root.suites.any XmlElement.suiteFails = false := by simpa using hfine
    simp [junitXmlIndicatesPass, hsome, hnone]
  | parseError => cases h
  | raised e => cases h

/-- A file is passed over, or it decides. -/
theorem indicatesPass_of_not {report : Report} (hskip : ¬ report.Skipped) (hpass : ¬ report.Passes)
    (rest : List Report) : junitXmlIndicatesPass (report :: rest) ≠ .ok true := by
  cases report with
  | parsed root =>
    have hsome : root.suites ≠ [] := hskip
    have hfails : root.suites.any XmlElement.suiteFails = true := by
      by_contra hnone
      exact hpass ⟨hsome, by simpa using hnone⟩
    simp [junitXmlIndicatesPass, hsome, hfails]
  | parseError => exact absurd trivial hskip
  | raised e => simp [junitXmlIndicatesPass]

/-- Only a report that passes makes the scan pass. -/
theorem exists_passes {scan : List Report} (h : junitXmlIndicatesPass scan = .ok true) :
    ∃ report ∈ scan, report.Passes := by
  induction scan with
  | nil => simp [junitXmlIndicatesPass] at h
  | cons report rest ih =>
    by_cases hpass : report.Passes
    · exact ⟨report, List.mem_cons_self, hpass⟩
    · by_cases hskip : report.Skipped
      · rw [indicatesPass_of_skipped hskip] at h
        obtain ⟨found, hmem, hfound⟩ := ih h
        exact ⟨found, List.mem_cons_of_mem _ hmem, hfound⟩
      · exact absurd h (indicatesPass_of_not hskip hpass rest)

/-- A clean report either passes or is passed over. -/
theorem Report.Clean.passes_or_skipped {report : Report} (h : report.Clean) :
    report.Passes ∨ report.Skipped := by
  cases report with
  | parsed root =>
    by_cases hempty : root.suites = []
    · exact .inr hempty
    · exact .inl ⟨hempty, h⟩
  | parseError => cases h
  | raised e => cases h

theorem indicatesPass_of_clean {scan : List Report} (h : ∀ report ∈ scan, report.Clean) :
    junitXmlIndicatesPass scan = .ok true ↔ ∃ report ∈ scan, report.Passes := by
  refine ⟨exists_passes, ?_⟩
  rintro ⟨found, hmem, hfound⟩
  induction scan with
  | nil => cases hmem
  | cons report rest ih =>
    rcases (h report List.mem_cons_self).passes_or_skipped with hpass | hskip
    · exact indicatesPass_of_passes hpass rest
    · rw [indicatesPass_of_skipped hskip]
      rcases List.mem_cons.mp hmem with rfl | hrest
      · rw [← indicatesPass_of_skipped hskip]
        exact indicatesPass_of_passes hfound rest
      · exact ih (fun r hr => h r (List.mem_cons_of_mem _ hr)) hrest

theorem recovered_iff {scan : List Report} :
    Recovered scan ↔ junitXmlIndicatesPass scan = .ok true := by
  rw [Recovered, jobFails, if_pos (by decide), if_pos rfl, bind_eq_ok]
  constructor
  · rintro ⟨pass, hscan, hpass⟩
    have htrue : (!pass) = false := Except.ok.inj hpass
    rw [hscan]
    simpa using htrue
  · intro hscan
    exact ⟨true, hscan, rfl⟩

theorem le_of_countFailed {jobs : List (Int × List Report)} {failed n : Nat}
    (h : countFailed jobs failed = .ok n) : failed ≤ n := by
  induction jobs generalizing failed with
  | nil => exact Nat.le_of_eq (Except.ok.inj h)
  | cons job jobs ih =>
    obtain ⟨returncode, scan⟩ := job
    rw [countFailed, bind_eq_ok] at h
    obtain ⟨fails, -, hrest⟩ := h
    have hle := ih hrest
    cases fails with
    | false => exact hle
    | true => exact Nat.le_of_succ_le hle

/-- The count stays as it is just if no job fails. -/
theorem countFailed_eq_self_iff {jobs : List (Int × List Report)} {failed : Nat} :
    countFailed jobs failed = .ok failed ↔ ∀ job ∈ jobs, jobFails job.1 job.2 = .ok false := by
  induction jobs with
  | nil => simp [countFailed]
  | cons job jobs ih =>
    obtain ⟨returncode, scan⟩ := job
    rw [countFailed, bind_eq_ok, List.forall_mem_cons, ← ih]
    constructor
    · rintro ⟨fails, hfails, hrest⟩
      cases fails with
      | false => exact ⟨hfails, hrest⟩
      | true => exact absurd (le_of_countFailed hrest) (Nat.not_succ_le_self failed)
    · rintro ⟨hfails, hrest⟩
      exact ⟨false, hfails, hrest⟩

/-- `main` exits with 0 just if it counts no job as failed. -/
theorem mainExitCode_eq_zero_iff (jobs : List (Int × List Report)) :
    mainExitCode jobs = .ok 0 ↔ ∀ job ∈ jobs, jobFails job.1 job.2 = .ok false := by
  have hcount := @countFailed_eq_self_iff jobs 0
  rw [← hcount, mainExitCode]
  cases countFailed jobs 0 with
  | error e => simp [Except.map]
  | ok n => by_cases hzero : n = 0 <;> simp [Except.map, hzero]

/-! ## When recovery is sound -/

/-- Once a report passes, the scan may come to it first. -/
theorem recoversSoundly_iff (a : Aftermath) :
    a.RecoversSoundly ↔ (∀ report ∈ a.reports, ¬ report.Passes) ∨ a.Sound := by
  constructor
  · rintro ⟨hsound, -⟩
    by_cases hpasses : ∃ report ∈ a.reports, report.Passes
    · obtain ⟨report, hmem, hpass⟩ := hpasses
      obtain ⟨before, after, hsplit⟩ := List.append_of_mem hmem
      have hperm : (report :: (before ++ after)).Perm a.reports := hsplit ▸ List.perm_middle.symm
      have hrecovered := recovered_iff.mpr (indicatesPass_of_passes hpass (before ++ after))
      exact .inr (hsound _ hperm hrecovered)
    · exact .inl fun report hmem hpass => hpasses ⟨report, hmem, hpass⟩
  · rintro (hnone | hsound)
    · have hnever : ∀ scan, scan.Perm a.reports → ¬ Recovered scan := by
        intro scan hperm hrecovered
        obtain ⟨report, hmem, hpass⟩ := exists_passes (recovered_iff.mp hrecovered)
        exact hnone report (hperm.mem_iff.mp hmem) hpass
      refine ⟨fun scan hperm hrecovered => absurd hrecovered (hnever scan hperm), ?_⟩
      intro scan scan' hperm hperm'
      exact iff_of_false (hnever scan hperm) (hnever scan' hperm')
    · refine ⟨fun _ _ _ => hsound, ?_⟩
      have hany : ∀ scan, scan.Perm a.reports →
          (Recovered scan ↔ ∃ report ∈ a.reports, report.Passes) := by
        intro scan hperm
        have hclean : ∀ report ∈ scan, report.Clean := fun report hmem =>
          hsound.2 report (hperm.mem_iff.mp hmem)
        rw [recovered_iff, indicatesPass_of_clean hclean]
        simp only [hperm.mem_iff]
      intro scan scan' hperm hperm'
      rw [hany scan hperm, hany scan' hperm']

/-- A report of three tests that all pass. -/
def passingReport : Report :=
  .parsed (.node "testsuites" []
    [.node "testsuite" [("errors", "0"), ("failures", "0"), ("tests", "3")] []])

/-- The container is killed in its second stage, which leaves no report. -/
def killedInSecondStage : Aftermath where
  stages := [⟨"unit", true⟩, ⟨"integration", false⟩]
  reports := [passingReport]

theorem killedInSecondStage_recovered :
    Recovered killedInSecondStage.reports ∧ ¬ killedInSecondStage.RecoversSoundly := by
  have hrecovered : Recovered killedInSecondStage.reports := rfl
  refine ⟨hrecovered, fun h => ?_⟩
  have hfinished := (h.1 _ (List.Perm.refl _) hrecovered).1 ⟨"integration", false⟩
    (by simp [killedInSecondStage])
  simp at hfinished

end InfiniOps.Ci
