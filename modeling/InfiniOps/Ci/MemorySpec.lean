/-
InfiniOps.Ci.MemorySpec — the two readings of `resources.memory`:
`parse_memory_requirement` in `.ci/ci_resource.py` and the `--memory`
argument of `build_docker_args` in `.ci/run.py`.

`dockerMegabytes` is docker's documented grammar: a positive integer and at
most one of the units `b`, `k`, `m` and `g`, bytes without one.
`MemoryMeansTheSame` says that both read one amount, and that neither acts
on a text whose number is malformed.

`dockerMegabytes_dockerText` inverts the docker argument: only digits with
one of five units arrive there as a limit. `memoryMeansTheSame_iff` gives
the values for which the two readings agree.
-/
import InfiniOps.Ci.DockerArgs
import InfiniOps.Ci.PyValueTheorems
import InfiniOps.Lib.Decimal
import InfiniOps.Lib.TextReplace
import Mathlib.Data.List.TakeWhile

namespace InfiniOps.Ci

open TextReplace

/-! ## Docker's grammar -/

def unitMegabytes : List Char → Option ℚ
  | [] => some (1 / 2 ^ 20)
  | ['b'] => some (1 / 2 ^ 20)
  | ['k'] => some (1 / 2 ^ 10)
  | ['m'] => some 1
  | ['g'] => some (2 ^ 10)
  | _ => none

/-- The megabytes that a memory limit denotes. -/
def dockerMegabytes (limit : List Char) : Option ℚ :=
  let n := Nat.ofDigitChars 10 (limit.takeWhile Char.isDigit) 0
  if n = 0 then none else (unitMegabytes (limit.dropWhile Char.isDigit)).map (n * ·)

/-! ## The property -/

/-- The number that `parse_memory_requirement` reads before the suffix. -/
def memoryNumber (lower : List Char → List Char) (s : List Char) : List Char :=
  let memory := stripBy pyIsSpace (lower s)
  match beforeSuffix "gb".toList memory, beforeSuffix "g".toList memory,
      beforeSuffix "mb".toList memory, beforeSuffix "m".toList memory with
  | some n, _, _, _ => n
  | none, some n, _, _ => n
  | none, none, some n, _ => n
  | none, none, none, some n => n
  | none, none, none, none => memory

/-- A text whose number is not one. -/
def Malformed (lower : List Char → List Char) : PyVal → Prop
  | .str s => s ≠ "" ∧ ∃ e, pyFloatOfString (memoryNumber lower s.toList) = .error e
  | .int _ => False
  | .float _ => False

/-- One amount for the scheduler and for docker. -/
structure MemoryMeansTheSame (h : Host) (memory : PyVal) : Prop where
  parses : ∃ m, parseMemoryRequirement h.lower { memory } = .ok m
  limit : ∀ m, parseMemoryRequirement h.lower { memory } = .ok m → ResourcePool.wantsMemory m = true →
    ∃ text q, memoryArgs h { memory } = ["--memory", text] ∧
      dockerMegabytes text.toList = some q ∧ m = .fin q
  malformed : Malformed h.lower memory →
    (∀ m, parseMemoryRequirement h.lower { memory } = .ok m → ResourcePool.wantsMemory m = false) ∧
      memoryArgs h { memory } = []

/-! ## Suffixes -/

section Suffixes

variable {s suffix : List Char}

theorem beforeSuffix_append : beforeSuffix suffix (s ++ suffix) = some s := by
  rw [beforeSuffix, if_pos (by simp)]
  simp

theorem beforeSuffix_eq_none (h : ¬ suffix <:+ s) : beforeSuffix suffix s = none := by
  rw [beforeSuffix, if_neg (by simpa using h)]

end Suffixes

/-! ## Plain limits -/

/-- The units that `parse_memory_requirement` knows. -/
def memoryUnits : List (List Char) := [[], ['g'], ['g', 'b'], ['m'], ['m', 'b']]

/-- Their megabytes, GB without one. -/
def unitScale (unit : List Char) : Nat := if unit ∈ [['m'], ['m', 'b']] then 1 else 1024

/-- A lower-case text of a positive integer and a unit. -/
structure PlainLimit (t digits unit : List Char) : Prop where
  text : t = digits ++ unit
  isDigit : ∀ c ∈ digits, c.isDigit = true
  pos : 0 < Nat.ofDigitChars 10 digits 0
  known : unit ∈ memoryUnits

theorem letter_of_known {unit : List Char} (h : unit ∈ memoryUnits) {c : Char} (hc : c ∈ unit) :
    c = 'g' ∨ c = 'm' ∨ c = 'b' := by
  have hall := (by decide : ∀ unit ∈ memoryUnits, unit.all (· ∈ ['g', 'm', 'b']) = true) unit h
  simpa using List.all_eq_true.mp hall c hc

theorem PlainLimit.ne_nil {t digits unit : List Char} (h : PlainLimit t digits unit) :
    digits ≠ [] := by
  rintro rfl
  exact absurd h.pos (by decide)

/-- A unit has no digits. -/
theorem PlainLimit.eq_of_digits {t digits unit : List Char} (h : PlainLimit t digits unit)
    (ht : ∀ c ∈ t, c.isDigit = true) : digits = t ∧ unit = [] := by
  have hunit : unit = [] := by
    refine List.eq_nil_iff_forall_not_mem.mpr fun c hc => ?_
    have hdigit := ht c (h.text ▸ List.mem_append_right digits hc)
    rcases letter_of_known h.known hc with rfl | rfl | rfl <;> cases hdigit
  refine ⟨?_, hunit⟩
  rw [h.text, hunit, List.append_nil]

/-- The argument of `--memory`, from the text in lower case. -/
def dockerText (t : List Char) : List Char :=
  let mem := replaceAll ['m', 'b'] ['m'] (replaceAll ['g', 'b'] ['g'] t)
  if ['g'] <:+ mem ∨ ['m'] <:+ mem then mem else mem ++ ['g']

/-- `build_docker_args` emits these arguments. -/
theorem memoryArgs_infix {h : Host} {cfg : CiConfig} {jobName : String} {job : CiJob}
    {memory : PyVal} {x : RunArgs} {gpuId : Option String} {args : List String}
    (hjob : cfg.jobs jobName = some job) (hmemory : job.resources.memory = some memory)
    (hargs : buildDockerArgs h cfg jobName x gpuId = .ok args) :
    memoryArgs h { memory } <:+: args := by
  have hsame : memoryArgs h job.resources = memoryArgs h { memory } := by
    rw [memoryArgs, hmemory, memoryArgs]
  rw [buildDockerArgs, hjob] at hargs
  rw [← Except.ok.inj hargs, ← hsame]
  refine List.IsInfix.trans ?_ (List.suffix_append _ _).isInfix
  rw [trailingArgs, List.append_assoc, List.append_assoc, List.append_assoc]
  exact (List.prefix_append _ _).isInfix

theorem endsWith_iff (s suffix : String) : s.endsWith suffix = true ↔ suffix.toList <:+ s.toList := by
  rw [String.endsWith, String.Slice.endsWith_string_iff, String.copy_toSlice]

theorem toList_unitAppended (mem : String) :
    (if mem.endsWith "g" ∨ mem.endsWith "m" then mem else mem ++ "g").toList
      = if ['g'] <:+ mem.toList ∨ ['m'] <:+ mem.toList then mem.toList
        else mem.toList ++ ['g'] := by
  have hends : mem.endsWith "g" ∨ mem.endsWith "m" ↔ ['g'] <:+ mem.toList ∨ ['m'] <:+ mem.toList :=
    or_congr (endsWith_iff mem "g") (endsWith_iff mem "m")
  by_cases h : mem.endsWith "g" ∨ mem.endsWith "m"
  · rw [if_pos h, if_pos (hends.mp h)]
  · rw [if_neg h, if_neg fun hlist => h (hends.mpr hlist)]
    exact String.toList_append

theorem memoryArgs_of_truthy {h : Host} {memory : PyVal} (htrue : memory.truthy = true) :
    ∃ text, memoryArgs h { memory } = ["--memory", text] ∧
      text.toList = dockerText (h.lower (h.str memory).toList) := by
  refine ⟨_, if_pos htrue, ?_⟩
  have hlower : (String.ofList (h.lower (h.str memory).toList)).toList =
      h.lower (h.str memory).toList := String.toList_ofList
  rw [toList_unitAppended, toList_replace _ _ _ (by decide), toList_replace _ _ _ (by decide),
    hlower]
  rfl

/-! ## Docker's reading -/

section Squeeze

variable {c d : Char} {t w digits : List Char}

/-- A text begins with the unit, or its first character stays. -/
theorem replaceAll_cases (e : Char) (t : List Char) :
    (∃ t', e :: t = [c, 'b'] ++ t' ∧
        replaceAll [c, 'b'] [c] (e :: t) = c :: replaceAll [c, 'b'] [c] t') ∨
      replaceAll [c, 'b'] [c] (e :: t) = e :: replaceAll [c, 'b'] [c] t := by
  by_cases hprefix : [c, 'b'] <+: e :: t
  · obtain ⟨t', ht'⟩ := hprefix
    refine .inl ⟨t', ht'.symm, ?_⟩
    rw [← ht', replaceAll_append (by simp), List.singleton_append]
  · exact .inr (replaceAll_cons hprefix)

/-- What the first character of a result is made of. -/
theorem exists_of_replaceAll_cons (h : replaceAll [c, 'b'] [c] t = d :: w) :
    ∃ t', replaceAll [c, 'b'] [c] t' = w ∧ (t = d :: t' ∨ d = c ∧ t = [c, 'b'] ++ t') := by
  cases t with
  | nil => simp at h
  | cons e t =>
    obtain ⟨t', ht', hrun⟩ | hrun := replaceAll_cases (c := c) e t
    · rw [hrun] at h
      obtain ⟨hd, hw⟩ := List.cons_eq_cons.mp h
      exact ⟨t', hw, .inr ⟨hd.symm, ht'⟩⟩
    · rw [hrun] at h
      obtain ⟨rfl, hw⟩ := List.cons_eq_cons.mp h
      exact ⟨t, hw, .inl rfl⟩

theorem eq_nil_of_replaceAll (h : replaceAll [c, 'b'] [c] t = []) : t = [] := by
  cases t with
  | nil => rfl
  | cons e t =>
    obtain ⟨t', -, hrun⟩ | hrun := replaceAll_cases (c := c) e t
    · rw [hrun] at h
      cases h
    · rw [hrun] at h
      cases h

theorem eq_of_replaceAll_singleton (h : replaceAll [c, 'b'] [c] t = [d]) :
    t = [d] ∨ d = c ∧ t = [c, 'b'] := by
  obtain ⟨t', hnil, ht⟩ := exists_of_replaceAll_cons h
  rw [eq_nil_of_replaceAll hnil] at ht
  exact ht

theorem exists_of_replaceAll_digits (hc : c.isDigit = false)
    (hdigits : ∀ d ∈ digits, d.isDigit = true) (h : replaceAll [c, 'b'] [c] t = digits ++ w) :
    ∃ t', t = digits ++ t' ∧ replaceAll [c, 'b'] [c] t' = w := by
  induction digits generalizing t with
  | nil => exact ⟨t, rfl, h⟩
  | cons d digits ih =>
    obtain ⟨t', hw, ht | ⟨rfl, -⟩⟩ := exists_of_replaceAll_cons h
    · obtain ⟨t'', rfl, hrest⟩ := ih (fun e he => hdigits e (List.mem_cons_of_mem d he)) hw
      exact ⟨t'', ht, hrest⟩
    · rw [hdigits d List.mem_cons_self] at hc
      cases hc

theorem replaceAll_digits (hc : c.isDigit = false) (hdigits : ∀ d ∈ digits, d.isDigit = true) :
    replaceAll [c, 'b'] [c] (digits ++ w) = digits ++ replaceAll [c, 'b'] [c] w := by
  refine replaceAll_keep fun u d v hkept hprefix => ?_
  have hd : d = c := (List.cons_prefix_cons.mp hprefix).1.symm
  have hmem := hdigits d (hkept ▸ by simp)
  rw [hd, hc] at hmem
  cases hmem

end Squeeze

section Plain

variable {t digits unit : List Char}

/-- The letter of the unit in the docker argument. -/
def unitLetter (unit : List Char) : Char := if unit ∈ [['m'], ['m', 'b']] then 'm' else 'g'

theorem dockerText_plain (h : PlainLimit t digits unit) :
    dockerText t = digits ++ [unitLetter unit] := by
  obtain ⟨rfl, hdigits, -, hknown⟩ := h
  have hnotMem : ∀ c : Char, c.isDigit = false → ¬ [c] <:+ digits := by
    intro c hc hsuffix
    have hmem := hdigits c (hsuffix.subset List.mem_cons_self)
    rw [hc] at hmem
    cases hmem
  rw [dockerText, replaceAll_digits (by decide) hdigits, replaceAll_digits (by decide) hdigits]
  simp only [memoryUnits, List.mem_cons, List.not_mem_nil, or_false] at hknown
  rcases hknown with rfl | rfl | rfl | rfl | rfl
  · simp [hnotMem, unitLetter]
  all_goals simp [replaceAll, unitLetter]

theorem dockerMegabytes_append {rest : List Char} (hdigits : ∀ c ∈ digits, c.isDigit = true)
    (hrest : ∀ c ∈ rest.head?, c.isDigit = false) :
    dockerMegabytes (digits ++ rest) =
      if Nat.ofDigitChars 10 digits 0 = 0 then none
      else (unitMegabytes rest).map ((Nat.ofDigitChars 10 digits 0 : ℚ) * ·) := by
  have hhead : rest.takeWhile Char.isDigit = [] ∧ rest.dropWhile Char.isDigit = rest := by
    cases rest with
    | nil => exact ⟨rfl, rfl⟩
    | cons c rest => simp [hrest c rfl]
  rw [dockerMegabytes, List.takeWhile_append_of_pos hdigits, List.dropWhile_append_of_pos hdigits,
    hhead.1, hhead.2, List.append_nil]

/-- A plain limit arrives at docker. -/
theorem dockerMegabytes_plain (h : PlainLimit t digits unit) :
    dockerMegabytes (dockerText t)
      = some ((Nat.ofDigitChars 10 digits 0 * unitScale unit : Nat) : ℚ) := by
  have hletter : (unitLetter unit).isDigit = false ∧
      unitMegabytes [unitLetter unit] = some (unitScale unit : ℚ) := by
    unfold unitLetter unitScale
    split_ifs
    · exact ⟨rfl, by simp [unitMegabytes]⟩
    · exact ⟨rfl, by norm_num [unitMegabytes]⟩
  rw [dockerText_plain h, dockerMegabytes_append h.isDigit (by simpa using hletter.1),
    if_neg h.pos.ne', hletter.2, Option.map_some, Nat.cast_mul]

theorem eq_of_unitMegabytes {rest : List Char} {v : ℚ} (h : unitMegabytes rest = some v) :
    rest = [] ∨ ∃ c ∈ ['b', 'k', 'm', 'g'], rest = [c] := by
  unfold unitMegabytes at h
  split at h
  · exact .inl rfl
  · exact .inr ⟨'b', by simp⟩
  · exact .inr ⟨'k', by simp⟩
  · exact .inr ⟨'m', by simp⟩
  · exact .inr ⟨'g', by simp⟩
  · cases h

/-- The argument ends with one of the two letters that the code looks for. -/
theorem dockerText_suffix (t : List Char) : ['g'] <:+ dockerText t ∨ ['m'] <:+ dockerText t := by
  rw [dockerText]
  split_ifs with h
  · exact h
  · exact .inl (List.suffix_append _ _)

/-- Which texts become digits and a letter. -/
theorem exists_of_dockerText {c : Char} (hdigits : ∀ d ∈ digits, d.isDigit = true)
    (hc : c = 'g' ∨ c = 'm') (h : dockerText t = digits ++ [c]) :
    ∃ unit ∈ memoryUnits, t = digits ++ unit := by
  rw [dockerText] at h
  split_ifs at h
  · obtain ⟨t₁, ht₁, hm⟩ := exists_of_replaceAll_digits (by decide) hdigits h
    obtain ⟨t₂, rfl, hg⟩ := exists_of_replaceAll_digits (by decide) hdigits ht₁
    refine ⟨t₂, ?_, rfl⟩
    rcases eq_of_replaceAll_singleton hm with rfl | ⟨rfl, rfl⟩
    · rcases eq_of_replaceAll_singleton hg with rfl | ⟨-, rfl⟩
      · rcases hc with rfl | rfl <;> decide
      · decide
    · -- `mb`, whose first letter is not that of `gb`
      obtain ⟨t₃, hb, rfl | ⟨hne, -⟩⟩ := exists_of_replaceAll_cons hg
      · rcases eq_of_replaceAll_singleton hb with rfl | ⟨hne, -⟩
        · decide
        · exact absurd hne (by decide)
      · exact absurd hne (by decide)
  · obtain ⟨hmem, -⟩ := List.append_inj' h rfl
    rw [← List.append_nil digits] at hmem
    obtain ⟨t₁, ht₁, hm⟩ := exists_of_replaceAll_digits (by decide) hdigits hmem
    rw [eq_nil_of_replaceAll hm] at ht₁
    obtain ⟨t₂, rfl, hg⟩ := exists_of_replaceAll_digits (by decide) hdigits ht₁
    rw [eq_nil_of_replaceAll hg]
    exact ⟨[], by decide, rfl⟩

/-- Every limit that arrives at docker is a plain one. -/
theorem exists_plain_of_dockerMegabytes {q : ℚ} (h : dockerMegabytes (dockerText t) = some q) :
    ∃ digits unit, PlainLimit t digits unit := by
  rw [dockerMegabytes] at h
  split_ifs at h with hn
  obtain ⟨v, hv, -⟩ := Option.map_eq_some_iff.mp h
  have hsplit := List.takeWhile_append_dropWhile (p := Char.isDigit) (l := dockerText t)
  have hdigits : ∀ c ∈ (dockerText t).takeWhile Char.isDigit, c.isDigit = true :=
    fun c hc => List.mem_takeWhile_imp hc
  generalize (dockerText t).takeWhile Char.isDigit = digits at *
  rcases eq_of_unitMegabytes hv with hrest | ⟨c, -, hrest⟩
  · rw [hrest, List.append_nil] at hsplit
    have hletter : 'g' ∈ digits ∨ 'm' ∈ digits := by
      rw [hsplit]
      exact (dockerText_suffix t).imp (fun hs => hs.subset (by simp)) fun hs => hs.subset (by simp)
    rcases hletter with hmem | hmem
    · exact absurd (hdigits _ hmem) (by decide)
    · exact absurd (hdigits _ hmem) (by decide)
  · rw [hrest] at hsplit
    have hc : c = 'g' ∨ c = 'm' := by
      have hsuffix := dockerText_suffix t
      rw [← hsplit] at hsuffix
      refine hsuffix.imp (fun hs => ?_) fun hs => ?_
      all_goals
        obtain ⟨w, hw⟩ := hs
        exact (List.cons_eq_cons.mp (List.append_inj' hw rfl).2).1.symm
    obtain ⟨unit, hknown, ht⟩ := exists_of_dockerText hdigits hc hsplit.symm
    exact ⟨digits, unit, ht, hdigits, Nat.pos_of_ne_zero hn, hknown⟩

end Plain

/-! ## The scheduler's reading -/

section Scheduler

variable {lower : List Char → List Char} {s digits unit suffix : List Char} {x : PyFloat}
  {e : PyExc}

theorem parseMemoryText_ok (hs : s ≠ []) (h : pyFloatOfString (memoryNumber lower s) = .ok x) :
    parseMemoryText lower s = .ok x ∨ parseMemoryText lower s = .ok (x.scale 1024) := by
  rw [memoryNumber] at h
  rw [parseMemoryText, if_neg hs]
  dsimp only at h ⊢
  split at h <;> simp_all [Except.map]

/-- A malformed number is an exception, or no requirement. -/
theorem parseMemoryText_error (hs : s ≠ [])
    (h : pyFloatOfString (memoryNumber lower s) = .error e) :
    parseMemoryText lower s = .error e ∨ parseMemoryText lower s = .ok (.fin 0) := by
  rw [memoryNumber] at h
  rw [parseMemoryText, if_neg hs]
  dsimp only at h ⊢
  split at h <;> simp_all [Except.map]

/-- A suffix without digits is one of the unit. -/
theorem suffix_of_suffix_digits (hdigits : ∀ c ∈ digits, c.isDigit = true)
    (hsuffix : ∀ c ∈ suffix, c.isDigit = false) (h : suffix <:+ digits ++ unit) :
    suffix <:+ unit := by
  rcases List.suffix_or_suffix_of_suffix h (List.suffix_append digits unit) with hunit | ⟨v, rfl⟩
  · exact hunit
  · obtain ⟨w, hw⟩ := h
    rw [← List.append_assoc, List.append_left_inj] at hw
    cases v with
    | nil => exact List.suffix_rfl
    | cons c v =>
      have hc := hdigits c (hw ▸ by simp)
      rw [hsuffix c List.mem_cons_self] at hc
      cases hc

/-- A plain limit has the suffix that is its unit. -/
theorem PlainLimit.beforeSuffix {t : List Char} (h : PlainLimit t digits unit)
    (hsuffix : suffix ∈ [['g', 'b'], ['g'], ['m', 'b'], ['m']]) :
    beforeSuffix suffix t = if suffix = unit then some digits else none := by
  obtain ⟨rfl, hdigits, -, hknown⟩ := h
  split_ifs with heq
  · rw [heq, beforeSuffix_append]
  · have hletters : ∀ suffix ∈ [['g', 'b'], ['g'], ['m', 'b'], ['m']],
        suffix.all (!·.isDigit) = true ∧
          ∀ unit ∈ memoryUnits, suffix <:+ unit → suffix = unit := by decide
    obtain ⟨hnondigit, hunits⟩ := hletters suffix hsuffix
    refine beforeSuffix_eq_none fun hs => heq (hunits unit hknown ?_)
    exact suffix_of_suffix_digits hdigits (by simpa using hnondigit) hs

theorem parse_plain (hs : s ≠ []) (h : PlainLimit (lower s) digits unit) :
    memoryNumber lower s = digits ∧
      parseMemoryText lower s = .ok (if unit ∈ [['m'], ['m', 'b']]
        then .ofRat (Nat.ofDigitChars 10 digits 0)
        else (PyFloat.ofRat (Nat.ofDigitChars 10 digits 0)).scale 1024) := by
  have hstrip : stripBy pyIsSpace (lower s) = lower s := by
    refine stripBy_eq_self fun c hc => ?_
    rw [h.text] at hc
    rcases List.mem_append.mp hc with hc | hc
    · exact not_space_of_isDigit (h.isDigit c hc)
    · rcases letter_of_known h.known hc with rfl | rfl | rfl <;> decide
  have hfloat := pyFloatOfString_digits h.ne_nil h.isDigit
  have hknown := h.known
  have htext := h.text
  rw [memoryNumber, parseMemoryText, if_neg hs, hstrip]
  simp only [memoryUnits, List.mem_cons, List.not_mem_nil, or_false] at hknown
  rcases hknown with rfl | rfl | rfl | rfl | rfl
  · rw [List.append_nil] at htext
    rw [htext] at h ⊢
    simp [h.beforeSuffix, hfloat]
  all_goals simp [h.beforeSuffix, hfloat, Except.map]

theorem readable_of_plain (hs : s ≠ []) (h : PlainLimit (lower s) digits unit) :
    pyFloatOfString (memoryNumber lower s) = .ok (.ofRat (Nat.ofDigitChars 10 digits 0)) := by
  rw [(parse_plain hs h).1]
  exact pyFloatOfString_digits h.ne_nil h.isDigit

end Scheduler

/-! ## Where the two agree -/

/-- The values with one meaning: no requirement, or plain digits with a unit
and an amount that is a float. -/
def MemoryAgrees (lower : List Char → List Char) : PyVal → Prop
  | .str s =>
    s = "" ∨
    (∃ x, pyFloatOfString (memoryNumber lower s.toList) = .ok x ∧ (PyFloat.fin 0).lt x = false) ∨
    ∃ digits unit, PlainLimit (lower s.toList) digits unit ∧
      PyFloat.Exact (Nat.ofDigitChars 10 digits 0 * unitScale unit)
  | .int n => n ≤ 0 ∨ PyFloat.Exact (n.toNat * 1024)
  | .float x => (PyFloat.fin 0).lt x = false

/-- The text of a positive float has a point, an exponent or is `inf`. -/
def Host.FloatTexts (h : Host) : Prop :=
  ∀ x, (PyFloat.fin 0).lt x = true →
    ∃ c ∈ (h.floatStr x).toList, c = '.' ∨ c = 'e' ∨ c = 'n'

/-- What is documented of `str.lower`: an ASCII text changes character by
character, and in any text an ASCII character still does. -/
structure Host.LowersTexts (h : Host) : Prop where
  ascii : ∀ s : List Char, (∀ c ∈ s, c.toNat < 128) → h.lower s = s.map Char.toLower
  mem : ∀ s : List Char, ∀ c ∈ s, c.toNat < 128 → c.toLower ∈ h.lower s

theorem plain_amount_iff {n : Nat} {unit : List Char} :
    (if unit ∈ [['m'], ['m', 'b']] then PyFloat.ofRat n else (PyFloat.ofRat n).scale 1024)
      = .fin (n * unitScale unit : Nat) ↔ PyFloat.Exact (n * unitScale unit) := by
  unfold unitScale
  split_ifs
  · rw [Nat.mul_one]
    exact ⟨PyFloat.exact_of_ofRat, PyFloat.ofRat_natCast⟩
  · exact PyFloat.scale_ofRat_iff (k := 10)

section Agreement

variable {h : Host}

/-- What both sides make of a text with a number. -/
theorem meansTheSame_of_not_positive {memory : PyVal} {m : PyFloat}
    (hparse : parseMemoryRequirement h.lower { memory } = .ok m)
    (hm : ResourcePool.wantsMemory m = false) (hformed : ¬ Malformed h.lower memory) :
    MemoryMeansTheSame h memory := by
  refine ⟨⟨m, hparse⟩, fun m' hm' hwants => ?_, fun hbad => absurd hbad hformed⟩
  rw [hparse] at hm'
  rw [← Except.ok.inj hm', hm] at hwants
  cases hwants

/-- An amount that arrives. -/
theorem meansTheSame_of_plain {memory : PyVal} {digits unit : List Char}
    (hplain : PlainLimit (h.lower (h.str memory).toList) digits unit)
    (htrue : memory.truthy = true) (hformed : ¬ Malformed h.lower memory)
    (hparse : parseMemoryRequirement h.lower { memory }
      = .ok (.fin (Nat.ofDigitChars 10 digits 0 * unitScale unit : Nat))) :
    MemoryMeansTheSame h memory := by
  refine ⟨⟨_, hparse⟩, fun m hm _ => ?_, fun hbad => absurd hbad hformed⟩
  obtain ⟨text, hargs, htext⟩ := memoryArgs_of_truthy (h := h) htrue
  refine ⟨text, _, hargs, ?_, (Except.ok.inj (hparse.symm.trans hm)).symm⟩
  rw [htext]
  exact dockerMegabytes_plain hplain

/-- A positive requirement arrives only as a plain limit. -/
theorem MemoryMeansTheSame.exists_plain {memory : PyVal} {m : PyFloat}
    (hsame : MemoryMeansTheSame h memory) (htrue : memory.truthy = true)
    (hparse : parseMemoryRequirement h.lower { memory } = .ok m)
    (hm : ResourcePool.wantsMemory m = true) :
    ∃ digits unit, PlainLimit (h.lower (h.str memory).toList) digits unit ∧
      m = .fin (Nat.ofDigitChars 10 digits 0 * unitScale unit : Nat) := by
  obtain ⟨text, hargs, htext⟩ := memoryArgs_of_truthy (h := h) htrue
  obtain ⟨text', q, hargs', hq, hmq⟩ := hsame.limit m hparse hm
  rw [hargs] at hargs'
  obtain rfl : text = text' := by simpa using hargs'
  rw [htext] at hq
  obtain ⟨digits, unit, hplain⟩ := exists_plain_of_dockerMegabytes hq
  refine ⟨digits, unit, hplain, ?_⟩
  rw [hmq, Option.some.inj (hq.symm.trans (dockerMegabytes_plain hplain))]

/-- The docker argument is there for a malformed text too. -/
theorem not_meansTheSame_of_malformed {s : String} (hbad : Malformed h.lower (.str s)) :
    ¬ MemoryMeansTheSame h (.str s) := by
  intro hsame
  have htrue : (PyVal.str s).truthy = true := decide_eq_true hbad.1
  obtain ⟨text, hargs, -⟩ := memoryArgs_of_truthy (h := h) htrue
  have hnil := (hsame.malformed hbad).2
  rw [hargs] at hnil
  cases hnil

theorem not_agrees_of_malformed {s : String} (hbad : Malformed h.lower (.str s)) :
    ¬ MemoryAgrees h.lower (.str s) := by
  obtain ⟨hs, e, hnum⟩ := hbad
  rintro (heq | ⟨x, hx, -⟩ | ⟨digits, unit, hplain, -⟩)
  · exact hs heq
  · rw [hnum] at hx
    cases hx
  · have hlist : s.toList ≠ [] := fun hnil => hs (String.toList_eq_nil_iff.mp hnil)
    rw [readable_of_plain hlist hplain] at hnum
    cases hnum

theorem memoryMeansTheSame_str_iff (s : String) :
    MemoryMeansTheSame h (.str s) ↔ MemoryAgrees h.lower (.str s) := by
  rcases eq_or_ne s "" with rfl | hs
  · exact iff_of_true (meansTheSame_of_not_positive rfl rfl fun hbad => hbad.1 rfl) (.inl rfl)
  have hlist : s.toList ≠ [] := fun hnil => hs (String.toList_eq_nil_iff.mp hnil)
  have htrue : (PyVal.str s).truthy = true := decide_eq_true hs
  cases hnum : pyFloatOfString (memoryNumber h.lower s.toList) with
  | error e =>
    have hbad : Malformed h.lower (.str s) := ⟨hs, e, hnum⟩
    exact iff_of_false (not_meansTheSame_of_malformed hbad) (not_agrees_of_malformed hbad)
  | ok x =>
    have hformed : ¬ Malformed h.lower (.str s) := by
      rintro ⟨-, e, he⟩
      rw [hnum] at he
      cases he
    have hdouble := isDouble_of_pyFloatOfString hnum
    obtain ⟨m, hparse, hm⟩ : ∃ m, parseMemoryText h.lower s.toList = .ok m ∧
        ResourcePool.wantsMemory m = (PyFloat.fin 0).lt x := by
      rcases parseMemoryText_ok hlist hnum with hparse | hparse
      · exact ⟨x, hparse, rfl⟩
      · exact ⟨_, hparse, PyFloat.lt_scale hdouble (by decide)⟩
    constructor
    · intro hsame
      cases hpos : (PyFloat.fin 0).lt x with
      | false => exact .inr (.inl ⟨x, hnum, hpos⟩)
      | true =>
        obtain ⟨digits, unit, hplain, hamount⟩ :=
          hsame.exists_plain htrue hparse (hm.trans hpos)
        refine .inr (.inr ⟨digits, unit, hplain, plain_amount_iff.mp ?_⟩)
        rw [← hamount]
        exact Except.ok.inj ((parse_plain hlist hplain).2.symm.trans hparse)
    · rintro (heq | ⟨x', hx', hpos⟩ | ⟨digits, unit, hplain, hexact⟩)
      · exact absurd heq hs
      · rw [hnum] at hx'
        rw [← Except.ok.inj hx', ← hm] at hpos
        exact meansTheSame_of_not_positive hparse hpos hformed
      · refine meansTheSame_of_plain hplain htrue hformed ?_
        rw [← plain_amount_iff.mpr hexact]
        exact (parse_plain hlist hplain).2

theorem lower_natCast (hlower : h.LowersTexts) (k : Nat) :
    h.lower (h.str (.int k)).toList = Nat.toDigits 10 k := by
  rw [Host.str, Decimal.toList_toString, if_neg (Int.natCast_nonneg k).not_gt, hlower.ascii]
  · exact map_toLower_digits Decimal.isDigit_of_mem_toDigits
  · intro c hc
    have hdigit := Decimal.isDigit_of_mem_toDigits c hc
    simp only [Char.isDigit, Bool.and_eq_true, decide_eq_true_eq] at hdigit
    exact Nat.lt_of_le_of_lt hdigit.2 (by decide)

/-- A positive integer is written as a plain limit. -/
theorem plainLimit_toDigits {k : Nat} (hpos : 0 < k) :
    PlainLimit (Nat.toDigits 10 k) (Nat.toDigits 10 k) [] := by
  refine ⟨(List.append_nil _).symm, Decimal.isDigit_of_mem_toDigits, ?_, by decide⟩
  rwa [Nat.ofDigitChars_ten_toDigits]

theorem memoryMeansTheSame_int_iff (hlower : h.LowersTexts) (n : Int) :
    MemoryMeansTheSame h (.int n) ↔ MemoryAgrees h.lower (.int n) := by
  have hwants : ResourcePool.wantsMemory ((PyFloat.ofRat n).scale 1024)
      = (PyFloat.fin 0).lt (PyFloat.ofRat n) :=
    PyFloat.lt_scale (PyFloat.isDouble_ofRat _) (by decide)
  rcases le_or_gt n 0 with hn | hn
  · have hlt : (PyFloat.fin 0).lt (PyFloat.ofRat n) = false :=
      PyFloat.not_lt_ofRat (by exact_mod_cast hn)
    exact iff_of_true (meansTheSame_of_not_positive rfl (hwants.trans hlt) id) (.inl hn)
  · obtain ⟨k, rfl⟩ := Int.eq_ofNat_of_zero_le hn.le
    have hpos : 0 < k := by exact_mod_cast hn
    have hvalue : Nat.ofDigitChars 10 (Nat.toDigits 10 k) 0 = k := Nat.ofDigitChars_ten_toDigits
    have htrue : (PyVal.int k).truthy = true := decide_eq_true hn.ne'
    constructor
    · intro hsame
      have hlt : (PyFloat.fin 0).lt (PyFloat.ofRat (k : Int)) = true := by
        have hone : (1 : ℚ) ≤ (k : Int) := by exact_mod_cast hpos
        exact PyFloat.lt_ofRat ((zpow_le_one_of_nonpos₀ one_le_two (by decide)).trans hone)
      obtain ⟨digits, unit, hplain, hamount⟩ := hsame.exists_plain htrue rfl (hwants.trans hlt)
      rw [lower_natCast hlower] at hplain
      obtain ⟨rfl, rfl⟩ := hplain.eq_of_digits Decimal.isDigit_of_mem_toDigits
      rw [hvalue] at hamount
      exact .inr ((@plain_amount_iff k []).mp hamount)
    · rintro (hle | hexact)
      · exact absurd hle hn.not_ge
      · have hplain :
            PlainLimit (h.lower (h.str (.int k)).toList) (Nat.toDigits 10 k) [] := by
          rw [lower_natCast hlower]
          exact plainLimit_toDigits hpos
        refine meansTheSame_of_plain hplain htrue id ?_
        rw [hvalue]
        exact congrArg Except.ok ((@plain_amount_iff k []).mpr hexact)

theorem memoryMeansTheSame_float_iff (hlower : h.LowersTexts) {x : PyFloat} (hx : x.IsDouble)
    (htexts : h.FloatTexts) : MemoryMeansTheSame h (.float x) ↔ MemoryAgrees h.lower (.float x) := by
  have hwants : ResourcePool.wantsMemory (x.scale 1024) = (PyFloat.fin 0).lt x :=
    PyFloat.lt_scale hx (by decide)
  cases hpos : (PyFloat.fin 0).lt x with
  | false =>
    exact iff_of_true (meansTheSame_of_not_positive rfl (hwants.trans hpos) id) hpos
  | true =>
    refine iff_of_false (fun hsame => ?_) fun hagrees => ?_
    · have htrue : (PyVal.float x).truthy = true := by
        refine decide_eq_true fun hzero => ?_
        rw [hzero] at hpos
        cases hpos
      obtain ⟨digits, unit, hplain, -⟩ := hsame.exists_plain htrue rfl (hwants.trans hpos)
      obtain ⟨c, hc, hletter⟩ := htexts x hpos
      have hascii : c.toNat < 128 := by rcases hletter with rfl | rfl | rfl <;> decide
      have hmem : c.toLower ∈ digits ++ unit := hplain.text ▸ hlower.mem _ c hc hascii
      rcases List.mem_append.mp hmem with hmem | hmem
      · have hdigit := hplain.isDigit _ hmem
        rcases hletter with rfl | rfl | rfl <;> exact absurd hdigit (by decide)
      · have hunit := letter_of_known hplain.known hmem
        rcases hletter with rfl | rfl | rfl <;> exact absurd hunit (by decide)
    · exact absurd (hpos.symm.trans hagrees) (by decide)

end Agreement

/-- The scheduler and docker read one amount of exactly the values above. -/
theorem memoryMeansTheSame_iff {h : Host} {memory : PyVal} (hlower : h.LowersTexts)
    (hfloat : ∀ x, memory = .float x → x.IsDouble) (htexts : h.FloatTexts) :
    MemoryMeansTheSame h memory ↔ MemoryAgrees h.lower memory := by
  cases memory with
  | str s => exact memoryMeansTheSame_str_iff s
  | int n => exact memoryMeansTheSame_int_iff hlower n
  | float x => exact memoryMeansTheSame_float_iff hlower (hfloat x rfl) htexts

/-- A host whose texts of floats are those of whole numbers, and which lowers
ASCII letters. -/
def memoryHost : Host where
  uid := 1000
  gid := 1000
  environ _ := none
  floatStr
    | .nan => "nan"
    | .inf negative => if negative then "-inf" else "inf"
    | .fin q => toString ⌊q⌋ ++ ".0"
  lower := List.map Char.toLower

theorem memoryHost_lowersTexts : memoryHost.LowersTexts :=
  ⟨fun _ _ => rfl, fun _ _ hc _ => List.mem_map_of_mem hc⟩

theorem memoryHost_floatTexts : memoryHost.FloatTexts := by
  intro x hx
  cases x with
  | nan => cases hx
  | inf negative =>
    refine ⟨'n', ?_, .inr (.inr rfl)⟩
    cases negative <;> decide
  | fin q =>
    refine ⟨'.', ?_, .inl rfl⟩
    have htext : memoryHost.floatStr (.fin q) = toString ⌊q⌋ ++ ".0" := rfl
    rw [htext, String.toList_append]
    exact List.mem_append_right _ (by decide)

theorem memoryMeansTheSame_megabytes : MemoryMeansTheSame memoryHost (.str "512MB") := by
  refine (memoryMeansTheSame_iff memoryHost_lowersTexts (fun x hx => by cases hx)
    memoryHost_floatTexts).mpr (.inr (.inr ⟨['5', '1', '2'], ['m', 'b'],
      ⟨by decide, List.all_eq_true.mp (by decide), by decide, by decide⟩, ?_⟩))
  exact PyFloat.exact_of_lt (by decide)

/-- A malformed number before a suffix: the scheduler raises. -/
theorem malformed_not_meansTheSame : ¬ MemoryMeansTheSame memoryHost (.str "12xgb") := by
  intro hsame
  obtain ⟨m, hm⟩ := hsame.parses
  have hraises : parseMemoryRequirement memoryHost.lower { memory := some (.str "12xgb") } =
      .error .valueError := by
    decide +kernel
  rw [hraises] at hm
  cases hm

end InfiniOps.Ci
