/-
InfiniOps.Ci.TestOverride — `apply_test_override` of `.ci/run.py`, which
puts other test paths into the pytest command of a stage.

A command is a list of `Item`s: options without a value of their own or
with one joined to them, options whose value is the next token, and test
paths. Which options take the next token is up to pytest, so it is a
parameter. The function knows seven of them, and takes every other token
for a path that looks like one.

`overridesPaths_iff` says when this is right: no other option has a value
that looks like a path, and every path does.
-/
import InfiniOps.Ci.PyValue
import InfiniOps.Lib.Except
import InfiniOps.Lib.ShellWords
import InfiniOps.Lib.Sumset
import Mathlib.Data.List.Infix

namespace InfiniOps.Ci

/-! ## The function -/

/-- `shlex.split`. -/
def shlexSplit (s : String) : Except PyExc (List String) :=
  match ShellWords.split s.toList with
  | .ok words => .ok (words.map String.ofList)
  | .error _ => .error .valueError

/-- `shlex.join`. -/
def shlexJoin (words : List String) : String :=
  String.ofList (ShellWords.join (words.map String.toList))

/-- `_PYTEST_VALUE_FLAGS`. -/
def pytestValueFlags : List String := ["-n", "-k", "-m", "-p", "--tb", "--junitxml", "--rootdir"]

/-- `p.startswith("-")`. -/
def StartsWithDash (p : String) : Prop := p.toList.head? = some '-'

instance (p : String) : Decidable (StartsWithDash p) := inferInstanceAs (Decidable (_ = _))

/-- `"/" in p or p.endswith(".py") or "::" in p`. -/
def PathLike (p : String) : Prop :=
  '/' ∈ p.toList ∨ ".py".toList <:+ p.toList ∨ "::".toList <:+: p.toList

instance (p : String) : Decidable (PathLike p) := inferInstanceAs (Decidable (_ ∨ _ ∨ _))

/-- The loop over the tokens. -/
def keepParts : (skipNext : Bool) → (parts : List String) → List String
  | _, [] => []
  | true, p :: parts => p :: keepParts false parts
  | false, p :: parts =>
    if StartsWithDash p then p :: keepParts (p ∈ pytestValueFlags) parts
    else if PathLike p then keepParts false parts
    else p :: keepParts false parts

/-- `apply_test_override`. -/
def applyTestOverride (runCmd testPath : String) : Except PyExc String := do
  let parts ← shlexSplit runCmd
  if parts.head? = some "pytest" then
    pure (shlexJoin ("pytest" :: testPath :: keepParts false parts.tail))
  else pure runCmd

/-! ## Commands -/

/-- A part of a pytest command. -/
inductive Item where
  /-- An option alone, or with its value joined to it. -/
  | flag (token : String)
  /-- An option with its value behind it. -/
  | option (name value : String)
  | path (p : String)
  deriving DecidableEq, Repr

namespace Item

def tokens : Item → List String
  | flag token => [token]
  | option name value => [name, value]
  | path p => [p]

/-- What is to stay of an item. -/
def withoutPath : Item → List String
  | flag token => [token]
  | option name value => [name, value]
  | path _ => []

/-- An item by what pytest makes of its tokens: `takesValue` tells whether a
token is an option whose value is the next token. -/
def WellFormed (takesValue : String → Bool) : Item → Prop
  | flag token => StartsWithDash token ∧ takesValue token = false
  | option name value => StartsWithDash name ∧ takesValue name = true ∧ takesValue value = false
  | path p => ¬ StartsWithDash p

/-- The loop takes the item for what it is. -/
def Recognised : Item → Prop
  | flag _ => True
  | option name value => name ∈ pytestValueFlags ∨ StartsWithDash value ∨ ¬ PathLike value
  | path p => PathLike p

instance (takesValue : String → Bool) : DecidablePred (WellFormed takesValue)
  | flag _ => inferInstanceAs (Decidable (_ ∧ _))
  | option _ _ => inferInstanceAs (Decidable (_ ∧ _ ∧ _))
  | path _ => inferInstanceAs (Decidable (¬ _))

instance : DecidablePred Recognised
  | flag _ => inferInstanceAs (Decidable True)
  | option _ _ => inferInstanceAs (Decidable (_ ∨ _ ∨ _))
  | path _ => inferInstanceAs (Decidable (PathLike _))

/-- What the loop keeps of an item. -/
def kept : Item → List String
  | flag token => [token]
  | option name value =>
    name :: if name ∈ pytestValueFlags ∨ StartsWithDash value ∨ ¬ PathLike value then [value] else []
  | path p => if PathLike p then [] else [p]

end Item

/-- The new command has the given path for the paths of the old one, and all
else as it was; a second time changes nothing. -/
def OverridesPaths (runCmd testPath : String) (items : List Item) : Prop :=
  ∃ cmd, applyTestOverride runCmd testPath = .ok cmd ∧
    shlexSplit cmd = .ok ("pytest" :: testPath :: items.flatMap Item.withoutPath) ∧
    applyTestOverride cmd testPath = .ok cmd

/-! ## Words -/

theorem shlexSplit_join (words : List String) : shlexSplit (shlexJoin words) = .ok words := by
  rw [shlexSplit, shlexJoin, String.toList_ofList, ShellWords.split_join]
  simp

theorem shlexJoin_injective {words words' : List String} (h : shlexJoin words = shlexJoin words') :
    words = words' := by
  have hsplit := shlexSplit_join words
  rw [h, shlexSplit_join] at hsplit
  exact (Except.ok.inj hsplit).symm

theorem applyTestOverride_pytest {runCmd testPath : String} {tokens : List String}
    (h : shlexSplit runCmd = .ok ("pytest" :: tokens)) :
    applyTestOverride runCmd testPath
      = .ok (shlexJoin ("pytest" :: testPath :: keepParts false tokens)) := by
  rw [applyTestOverride, h, ok_bind]
  rfl

/-! ## The loop -/

theorem keepParts_dash {p : String} (h : StartsWithDash p) (hflag : p ∉ pytestValueFlags)
    (parts : List String) : keepParts false (p :: parts) = p :: keepParts false parts := by
  rw [keepParts, if_pos h, decide_eq_false hflag]

theorem keepParts_listed {p : String} (h : StartsWithDash p) (hflag : p ∈ pytestValueFlags)
    (value : String) (parts : List String) :
    keepParts false (p :: value :: parts) = p :: value :: keepParts false parts := by
  rw [keepParts, if_pos h, decide_eq_true hflag, keepParts]

theorem keepParts_path {p : String} (h : ¬ StartsWithDash p) (hpath : PathLike p)
    (parts : List String) : keepParts false (p :: parts) = keepParts false parts := by
  rw [keepParts, if_neg h, if_pos hpath]

theorem keepParts_other {p : String} (h : ¬ StartsWithDash p) (hpath : ¬ PathLike p)
    (parts : List String) : keepParts false (p :: parts) = p :: keepParts false parts := by
  rw [keepParts, if_neg h, if_neg hpath]

section Options

variable {takesValue : String → Bool} (hlisted : ∀ p ∈ pytestValueFlags, takesValue p = true)
include hlisted

theorem notMem_flags {p : String} (h : takesValue p = false) : p ∉ pytestValueFlags := by
  intro hmem
  rw [hlisted p hmem] at h
  cases h

/-- A value that is not skipped is taken like a token of its own. -/
theorem keepParts_value {value : String} (h : takesValue value = false) (parts : List String) :
    keepParts false (value :: parts)
      = (if StartsWithDash value ∨ ¬ PathLike value then [value] else [])
        ++ keepParts false parts := by
  by_cases hdash : StartsWithDash value
  · rw [keepParts_dash hdash (notMem_flags hlisted h), if_pos (.inl hdash), List.singleton_append]
  · by_cases hpath : PathLike value
    · rw [keepParts_path hdash hpath, if_neg (by simp [hdash, hpath]), List.nil_append]
    · rw [keepParts_other hdash hpath, if_pos (.inr hpath), List.singleton_append]

/-- One item. -/
theorem keepParts_tokens {item : Item} (h : item.WellFormed takesValue) (parts : List String) :
    keepParts false (item.tokens ++ parts) = item.kept ++ keepParts false parts := by
  cases item with
  | flag token => exact keepParts_dash h.1 (notMem_flags hlisted h.2) parts
  | option name value =>
    obtain ⟨hdash, -, hvalue⟩ := h
    by_cases hflag : name ∈ pytestValueFlags
    · rw [Item.kept, if_pos (.inl hflag)]
      exact keepParts_listed hdash hflag value parts
    · have hname := keepParts_dash hdash hflag (value :: parts)
      rw [Item.tokens, List.cons_append, List.singleton_append, hname,
        keepParts_value hlisted hvalue, Item.kept]
      simp [hflag]
  | path p =>
    by_cases hpath : PathLike p
    · rw [Item.kept, if_pos hpath]
      exact keepParts_path h hpath parts
    · rw [Item.kept, if_neg hpath]
      exact keepParts_other h hpath parts

/-- What is kept of an item is kept again. -/
theorem keepParts_kept {item : Item} (h : item.WellFormed takesValue) (parts : List String) :
    keepParts false (item.kept ++ parts) = item.kept ++ keepParts false parts := by
  cases item with
  | flag token => exact keepParts_tokens hlisted h parts
  | option name value =>
    by_cases hkept : name ∈ pytestValueFlags ∨ StartsWithDash value ∨ ¬ PathLike value
    · have hall : (Item.option name value).kept = (Item.option name value).tokens := by
        rw [Item.kept, if_pos hkept, Item.tokens]
      rw [hall, keepParts_tokens hlisted h, hall]
    · have hname : (Item.option name value).kept = [name] := by
        rw [Item.kept, if_neg hkept]
      rw [hname]
      exact keepParts_dash h.1 (fun hmem => hkept (.inl hmem)) parts
  | path p =>
    by_cases hpath : PathLike p
    · rw [Item.kept, if_pos hpath]
      rfl
    · rw [Item.kept, if_neg hpath]
      exact keepParts_other h hpath parts

variable {items : List Item} (hitems : ∀ item ∈ items, item.WellFormed takesValue)
include hitems

theorem keepParts_flatMap_tokens :
    keepParts false (items.flatMap Item.tokens) = items.flatMap Item.kept := by
  induction items with
  | nil => rfl
  | cons item items ih =>
    rw [List.forall_mem_cons] at hitems
    rw [List.flatMap_cons, keepParts_tokens hlisted hitems.1, ih hitems.2, List.flatMap_cons]

theorem keepParts_flatMap_kept :
    keepParts false (items.flatMap Item.kept) = items.flatMap Item.kept := by
  induction items with
  | nil => rfl
  | cons item items ih =>
    rw [List.forall_mem_cons] at hitems
    rw [List.flatMap_cons, keepParts_kept hlisted hitems.1, ih hitems.2]

end Options

/-! ## What is kept, and what is to stay -/

theorem kept_eq_withoutPath {item : Item} (h : item.Recognised) : item.kept = item.withoutPath := by
  cases item with
  | flag token => rfl
  | option name value =>
    have hkept : name ∈ pytestValueFlags ∨ StartsWithDash value ∨ ¬ PathLike value := h
    rw [Item.kept, if_pos hkept, Item.withoutPath]
  | path p =>
    have hpath : PathLike p := h
    rw [Item.kept, if_pos hpath, Item.withoutPath]

/-- A token that the loop drops where it does not skip it. -/
def Dropped (p : String) : Bool := PathLike p ∧ ¬ StartsWithDash p

theorem countP_kept_le (item : Item) :
    item.kept.countP Dropped ≤ item.withoutPath.countP Dropped := by
  cases item with
  | flag token => exact Nat.le_refl _
  | option name value =>
    rw [Item.kept, Item.withoutPath, List.countP_cons, List.countP_cons]
    split
    · exact Nat.le_refl _
    · exact Nat.add_le_add_right (Nat.zero_le _) _
  | path p =>
    by_cases hpath : PathLike p <;> simp [Item.kept, Item.withoutPath, Dropped, hpath]

/-- The options are recognised if nothing is missing. -/
theorem option_recognised {name value : String}
    (h : (Item.option name value).kept.countP Dropped
      = (Item.option name value).withoutPath.countP Dropped) :
    (Item.option name value).Recognised := by
  by_contra hnot
  have hkept : ¬ (name ∈ pytestValueFlags ∨ StartsWithDash value ∨ ¬ PathLike value) := hnot
  have hdropped : Dropped value = true := by
    simp only [not_or, not_not] at hkept
    simp [Dropped, hkept]
  rw [Item.kept, if_neg hkept, Item.withoutPath, List.countP_cons, List.countP_cons,
    List.countP_singleton, if_pos hdropped] at h
  simp at h

/-- The loop does what it should for all items only if it does for each. -/
theorem recognised_of_flatMap_eq {items : List Item}
    (h : items.flatMap Item.kept = items.flatMap Item.withoutPath) :
    ∀ item ∈ items, item.Recognised := by
  have hcount := congrArg (List.countP Dropped) h
  rw [List.countP_flatMap, List.countP_flatMap] at hcount
  have hoptions := Sumset.forall_eq_of_le_of_sum_eq (fun item _ => countP_kept_le item) hcount
  have hlength : ∀ item ∈ items, item.withoutPath.length ≤ item.kept.length := by
    intro item hmem
    cases item with
    | flag token => exact Nat.le_refl _
    | option name value => rw [kept_eq_withoutPath (option_recognised (hoptions _ hmem))]
    | path p => exact Nat.zero_le _
  have hsum := congrArg List.length h
  rw [List.length_flatMap, List.length_flatMap] at hsum
  have hpaths := Sumset.forall_eq_of_le_of_sum_eq hlength hsum.symm
  intro item hmem
  cases item with
  | flag token => trivial
  | option name value => exact option_recognised (hoptions _ hmem)
  | path p =>
    by_contra hnot
    have hpath : ¬ PathLike p := hnot
    have hnone := hpaths _ hmem
    rw [Item.kept, if_neg hpath] at hnone
    simp [Item.withoutPath] at hnone

/-! ## When the command is kept -/

/-- The command is kept just if the values of options that are not listed do
not look like paths, and the paths, old and new, do. -/
theorem overridesPaths_iff {takesValue : String → Bool}
    (hlisted : ∀ p ∈ pytestValueFlags, takesValue p = true) (items : List Item)
    (hitems : ∀ item ∈ items, item.WellFormed takesValue) (runCmd testPath : String)
    (hcmd : shlexSplit runCmd = .ok ("pytest" :: items.flatMap Item.tokens))
    (hpath : ¬ StartsWithDash testPath) :
    OverridesPaths runCmd testPath items ↔
      (∀ item ∈ items, item.Recognised) ∧ PathLike testPath := by
  have hfirst : applyTestOverride runCmd testPath
      = .ok (shlexJoin ("pytest" :: testPath :: items.flatMap Item.kept)) := by
    rw [applyTestOverride_pytest hcmd, keepParts_flatMap_tokens hlisted hitems]
  have hsecond : applyTestOverride (shlexJoin ("pytest" :: testPath :: items.flatMap Item.kept))
      testPath = .ok (shlexJoin ("pytest" :: testPath ::
        keepParts false (testPath :: items.flatMap Item.kept))) :=
    applyTestOverride_pytest (shlexSplit_join _)
  have hidempotent := keepParts_flatMap_kept hlisted hitems
  constructor
  · rintro ⟨cmd, hcmd', hsplit, hagain⟩
    rw [hfirst] at hcmd'
    cases hcmd'
    rw [shlexSplit_join] at hsplit
    have hkept : items.flatMap Item.kept = items.flatMap Item.withoutPath := by
      simpa using hsplit
    refine ⟨recognised_of_flatMap_eq hkept, ?_⟩
    by_contra hnot
    rw [hsecond, keepParts_other hpath hnot, hidempotent] at hagain
    have htwice := congrArg List.length (shlexJoin_injective (Except.ok.inj hagain))
    simp at htwice
  · rintro ⟨hrecognised, htest⟩
    have hkept : items.flatMap Item.kept = items.flatMap Item.withoutPath :=
      List.flatMap_congr fun item hmem => kept_eq_withoutPath (hrecognised item hmem)
    refine ⟨_, hfirst, ?_, ?_⟩
    · rw [shlexSplit_join, hkept]
    · rw [hsecond, keepParts_path hpath htest, hidempotent]

/-- Some options of pytest that take a value. -/
def takesValueSample (p : String) : Bool :=
  p ∈ pytestValueFlags ++ ["-c", "-o", "-r", "-W", "--ignore", "--deselect", "--maxfail"]

/-- A command of the kind that the configuration has. -/
theorem overridesPaths_sample :
    OverridesPaths "pytest tests/ -n 8 -v --tb=short --junitxml=/workspace/results/r.xml"
      "tests/test_gemm.py"
      [.path "tests/", .option "-n" "8", .flag "-v", .flag "--tb=short",
        .flag "--junitxml=/workspace/results/r.xml"] :=
  (overridesPaths_iff (by decide : ∀ p ∈ pytestValueFlags, takesValueSample p = true) _ (by decide)
    _ _ (by decide) (by decide)).mpr (by decide)

/-- The value of `--ignore` is dropped as if it were a test path. -/
theorem ignore_not_overridesPaths :
    applyTestOverride "pytest tests/ --ignore tests/slow.py" "tests/test_gemm.py"
        = .ok "pytest tests/test_gemm.py --ignore" ∧
      ¬ OverridesPaths "pytest tests/ --ignore tests/slow.py" "tests/test_gemm.py"
        [.path "tests/", .option "--ignore" "tests/slow.py"] := by
  have hrun : applyTestOverride "pytest tests/ --ignore tests/slow.py" "tests/test_gemm.py"
      = .ok "pytest tests/test_gemm.py --ignore" := by decide
  refine ⟨hrun, ?_⟩
  rintro ⟨cmd, hcmd, hsplit, -⟩
  rw [hrun] at hcmd
  cases hcmd
  revert hsplit
  decide

end InfiniOps.Ci
