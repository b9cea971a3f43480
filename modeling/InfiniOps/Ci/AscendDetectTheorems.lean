/-
InfiniOps.Ci.AscendDetectTheorems — when the devices that are detected are
those of the table.

Two things go wrong. A process row begins as a first row does, and the loop
takes it for one together with the next line (`Quiet` says where this does no
harm), and `[\da-f:.]` has no upper-case digits, so that the utilization
behind such a bus id is not found. `detectsFaithfully_iff` says that nothing
else does.
-/
import InfiniOps.Ci.DockerArgsTheorems
import InfiniOps.Ci.NpuSmiTable
import InfiniOps.Lib.Except

namespace InfiniOps.Ci

open RunPattern

/-! ## The property -/

namespace NpuSmiOutput

/-- What the code makes of it. -/
def detected (o : NpuSmiOutput) : List GpuInfo := detectGpusAscend (.exited 0 o.stdout)

/-- One `GpuInfo` for each device, and allocations that can rely on them. -/
structure DetectsFaithfully (o : NpuSmiOutput) : Prop where
  detects : o.detected.Perm (o.devices.map NpuDevice.info)
  allocates : ∀ (pool pool' : ResourcePool) (system : Except PyExc SystemResources) (n : Int)
    (memoryMb : PyFloat) (ids : List Int),
    pool.allocate { gpus := .ok o.detected, system } n memoryMb = .ok (pool', ids, true) →
    ids.length = n.toNat ∧ ids.Nodup ∧ ∀ id ∈ ids, id ∉ pool.allocated ∧
      ∃ d ∈ o.devices, (d.index : Int) = id ∧
        d.util.value.lt pool.utilizationThreshold = true

end NpuSmiOutput

/-! ## The condition -/

/-- The figures that the patterns find in a line, and that `float()` refuses. -/
def Unreadable (line : List Char) : Prop :=
  (∃ util e, matchAicore line = some util ∧ pyFloatOfString util = .error e) ∨
    ∃ hbm e, (hbmMatches line).getLast? = some hbm ∧
      (pyFloatOfString hbm.1 = .error e ∨ pyFloatOfString hbm.2 = .error e)

/-- No process row is taken for a device: it ends the output, or the figures
of the next line are refused. -/
def Quiet : List ProcessItem → Prop
  | [] => True
  | .plain _ :: items => Quiet items
  | [.process _] => True
  | .process _ :: next :: items => Unreadable next.line ∧ Quiet items

/-- The device is idle, or its bus id has no upper-case digit. -/
def NpuDevice.UtilizationSeen (d : NpuDevice) : Prop :=
  d.util.value = .fin 0 ∨ ∀ c ∈ d.busId, c.isUpper = false

/-! ## Lines -/

section Lines

/-- Every line break is a space. -/
theorem not_isLineBreak {c : Char} (h : c = ' ' ∨ pyIsSpace c = false) :
    isLineBreak c = false := by
  rcases h with rfl | h
  · decide
  · simp only [pyIsSpace, Bool.or_eq_false_iff, Bool.and_eq_false_iff, decide_eq_false_iff_not,
      beq_eq_false_iff_ne] at h
    simp [isLineBreak]
    omega

theorem splitlinesFrom_append {u : List Char} (h : Unbroken u) (line s : List Char) :
    splitlinesFrom line (u ++ '\n' :: s) = (line ++ u) :: splitlinesFrom [] s := by
  induction u generalizing line with
  | nil => simp [splitlinesFrom, isLineBreak]
  | cons c u ih =>
    have hc := h c List.mem_cons_self
    have hcr : c ≠ '\r' := by
      rintro rfl
      cases hc
    rw [List.cons_append, splitlinesFrom, hc, if_neg Bool.false_ne_true,
      ih fun d hd => h d (List.mem_cons_of_mem c hd), List.append_assoc]
    · rfl
    · exact fun _ heq => absurd heq hcr

/-- Lines that hold no line break are read back. -/
theorem splitlines_flatMap {ls : List (List Char)} (h : ∀ l ∈ ls, Unbroken l) :
    splitlines (ls.flatMap (· ++ ['\n'])) = ls := by
  rw [splitlines]
  induction ls with
  | nil => rfl
  | cons l ls ih =>
    rw [List.flatMap_cons, List.append_assoc, List.singleton_append,
      splitlinesFrom_append (h l List.mem_cons_self), List.nil_append,
      ih fun l' hl' => h l' (List.mem_cons_of_mem l hl')]

@[simp] theorem unbroken_nil : Unbroken [] := fun _ hc => by cases hc

@[simp] theorem unbroken_cons {c : Char} {s : List Char} :
    Unbroken (c :: s) ↔ isLineBreak c = false ∧ Unbroken s :=
  List.forall_mem_cons

@[simp] theorem unbroken_append {s t : List Char} :
    Unbroken (s ++ t) ↔ Unbroken s ∧ Unbroken t :=
  List.forall_mem_append

@[simp] theorem unbroken_pad (n : Nat) : Unbroken (pad n) :=
  fun _ hc => not_isLineBreak (.inl (List.eq_of_mem_replicate hc))

@[simp] theorem unbroken_toDigits (n : Nat) : Unbroken (Nat.toDigits 10 n) :=
  fun c hc => not_isLineBreak (.inr (not_space_of_isDigit (Decimal.isDigit_of_mem_toDigits c hc)))

@[simp] theorem Figure.unbroken (f : Figure) : Unbroken f.text :=
  fun _ hc => not_isLineBreak (.inr (not_space_of_isFigureChar (isFigureChar_of_mem hc)))

theorem unbroken_numberedLine {before after index : Nat} {rest : List Char} (h : Unbroken rest) :
    Unbroken (numberedLine before after index rest) := by
  simp [numberedLine, h, isLineBreak]

theorem unbroken_secondRow (d : NpuDevice) : Unbroken d.secondRow := by
  have hbus : Unbroken d.busId := fun _ hc => not_isLineBreak (.inr (not_space_of_mem_busId hc))
  simp [NpuDevice.secondRow, NpuDevice.aicoreTexts, usage, hbus, isLineBreak]

theorem NpuSmiOutput.unbroken (o : NpuSmiOutput) : ∀ l ∈ o.lines, Unbroken l := by
  intro l hl
  rcases List.mem_append.mp hl with hl | hl
  · obtain ⟨item, -, hitem⟩ := List.mem_flatMap.mp hl
    cases item with
    | plain l' =>
      rw [List.mem_singleton.mp hitem]
      exact l'.unbroken
    | device d =>
      rcases List.mem_pair.mp hitem with rfl | rfl
      · exact unbroken_numberedLine d.name_unbroken
      · exact unbroken_secondRow d
  · obtain ⟨item, -, rfl⟩ := List.mem_map.mp hl
    cases item with
    | plain l' => exact l'.unbroken
    | process p => exact unbroken_numberedLine p.rest_unbroken

/-- The loop sees the lines as they were printed. -/
theorem NpuSmiOutput.detected_eq (o : NpuSmiOutput) :
    o.detected = (detectLines o.lines).mergeSort fun a b => a.index ≤ b.index := by
  rw [detected, detectGpusAscend, stdout, String.toList_ofList, splitlines_flatMap o.unbroken]
  exact if_neg fun h => h rfl

end Lines

/-! ## Detection -/

section Detection

/-- What the code reads of a device. -/
def NpuDevice.seen (d : NpuDevice) : GpuInfo :=
  { d.info with
    utilizationPct := if d.busId.all (!·.isUpper) then d.util.value else .fin 0 }

theorem NpuDevice.all_iff (d : NpuDevice) :
    d.busId.all (!·.isUpper) = true ↔ ∀ c ∈ d.busId, c.isUpper = false := by
  simp

theorem readUtilization_secondRow (d : NpuDevice) :
    readUtilization d.secondRow = .ok d.seen.utilizationPct := by
  rw [readUtilization, NpuDevice.seen]
  by_cases h : ∀ c ∈ d.busId, c.isUpper = false
  · rw [matchAicore_secondRow h]
    dsimp only
    rw [if_pos (d.all_iff.mpr h), d.util.reads]
  · have hupper : ∃ c ∈ d.busId, c.isUpper = true := by simpa using h
    rw [matchAicore_secondRow_of_isUpper hupper]
    dsimp only
    rw [if_neg fun hall => h (d.all_iff.mp hall)]

theorem readDevice_secondRow (d : NpuDevice) :
    readDevice (Nat.toDigits 10 d.index) d.secondRow = .ok d.seen := by
  have hhbm : readHbm d.secondRow = .ok (d.hbmUsed.value, d.hbmTotal.value) := by
    rw [readHbm, hbmMatches_secondRow]
    dsimp only [List.getLast?]
    rw [List.getLast_cons_cons, List.getLast_singleton, d.hbmUsed.reads, d.hbmTotal.reads]
    rfl
  rw [readDevice, pyIntOfString_digits Nat.toDigits_ne_nil Decimal.isDigit_of_mem_toDigits,
    readUtilization_secondRow, hhbm, Nat.ofDigitChars_ten_toDigits]
  rfl

theorem readUtilization_error_iff (row : List Char) :
    (∃ e, readUtilization row = .error e) ↔
      ∃ util e, matchAicore row = some util ∧ pyFloatOfString util = .error e := by
  rw [readUtilization]
  cases matchAicore row with
  | none => simp
  | some util => simp

theorem readHbm_error_iff (row : List Char) :
    (∃ e, readHbm row = .error e) ↔ ∃ hbm e, (hbmMatches row).getLast? = some hbm ∧
      (pyFloatOfString hbm.1 = .error e ∨ pyFloatOfString hbm.2 = .error e) := by
  rw [readHbm]
  cases (hbmMatches row).getLast? with
  | none => simp
  | some hbm =>
    cases hused : pyFloatOfString hbm.1 <;> cases htotal : pyFloatOfString hbm.2 <;>
      simp [hused, htotal, bind, Except.bind, pure, Except.pure]

theorem readDevice_toOption_eq_none_iff (n : Nat) (row : List Char) :
    (readDevice (Nat.toDigits 10 n) row).toOption = none ↔ Unreadable row := by
  rw [Unreadable, ← readUtilization_error_iff, ← readHbm_error_iff, readDevice,
    pyIntOfString_digits Nat.toDigits_ne_nil Decimal.isDigit_of_mem_toDigits, ok_bind]
  cases hutil : readUtilization row <;> cases hhbm : readHbm row <;>
    simp [bind, Except.bind, pure, Except.pure, Except.toOption]

theorem detectLines_plain {line : List Char} (h : matchRow line = none) (lines : List (List Char)) :
    detectLines (line :: lines) = detectLines lines := by
  cases lines with
  | nil => rfl
  | cons next lines => rw [detectLines, h]

theorem detectLines_numberedLine {before after index : Nat} {rest : List Char}
    (h : ∀ c ∈ rest.head?, pyIsSpace c = false) (next : List Char) (lines : List (List Char)) :
    detectLines (numberedLine before after index rest :: next :: lines)
      = (readDevice (Nat.toDigits 10 index) next).toOption.toList ++ detectLines lines := by
  rw [detectLines, matchRow_numberedLine h]

/-- The device table is read row by row, whatever follows it. -/
theorem detectLines_deviceTable (items : List DeviceItem) (rest : List (List Char)) :
    detectLines (items.flatMap DeviceItem.lines ++ rest)
      = (items.filterMap DeviceItem.device?).map NpuDevice.seen ++ detectLines rest := by
  induction items with
  | nil => rfl
  | cons item items ih =>
    cases item with
    | plain l =>
      rw [List.flatMap_cons, List.append_assoc, DeviceItem.lines, List.singleton_append,
        detectLines_plain l.matchRow, ih]
      rfl
    | device d =>
      have hrows : detectLines (d.firstRow :: d.secondRow :: (items.flatMap DeviceItem.lines ++ rest))
          = (readDevice (Nat.toDigits 10 d.index) d.secondRow).toOption.toList ++
            detectLines (items.flatMap DeviceItem.lines ++ rest) :=
        detectLines_numberedLine d.name_head _ _
      rw [readDevice_secondRow, ih] at hrows
      exact hrows

/-- The process table adds nothing exactly when it is quiet. -/
theorem detectLines_processTable_iff (items : List ProcessItem) :
    detectLines (items.map ProcessItem.line) = [] ↔ Quiet items := by
  induction items using Quiet.induct with
  | case1 => exact iff_of_true rfl trivial
  | case2 l items ih =>
    rw [List.map_cons, ProcessItem.line, detectLines_plain l.matchRow, ih, Quiet]
  | case3 p => exact iff_of_true rfl trivial
  | case4 p next items ih =>
    have hrows : detectLines ((ProcessItem.process p :: next :: items).map ProcessItem.line)
        = (readDevice (Nat.toDigits 10 p.npu) next.line).toOption.toList ++
          detectLines (items.map ProcessItem.line) :=
      detectLines_numberedLine p.rest_head _ _
    rw [hrows, List.append_eq_nil_iff, ih, Option.toList_eq_nil_iff,
      readDevice_toOption_eq_none_iff, Quiet]

end Detection

/-! ## When the detection is faithful -/

section Faithful

variable {o : NpuSmiOutput}

theorem NpuDevice.seen_eq_info_iff (d : NpuDevice) : d.seen = d.info ↔ d.UtilizationSeen := by
  rw [NpuDevice.UtilizationSeen]
  by_cases h : ∀ c ∈ d.busId, c.isUpper = false
  · rw [NpuDevice.seen, if_pos (d.all_iff.mpr h)]
    exact iff_of_true rfl (.inr h)
  · rw [NpuDevice.seen, if_neg fun hall => h (d.all_iff.mp hall), or_iff_left h]
    constructor
    · exact fun heq => (congrArg GpuInfo.utilizationPct heq).symm
    · intro hzero
      rw [← hzero]
      rfl

/-- One device for each of the table, with its figures. -/
theorem detected_perm_iff (o : NpuSmiOutput) :
    o.detected.Perm (o.devices.map NpuDevice.info) ↔
      Quiet o.processTable ∧ ∀ d ∈ o.devices, d.UtilizationSeen := by
  have hsorted : o.detected.Perm
      (o.devices.map NpuDevice.seen ++ detectLines (o.processTable.map ProcessItem.line)) := by
    rw [o.detected_eq, NpuSmiOutput.lines, detectLines_deviceTable]
    exact List.mergeSort_perm _ _
  rw [← detectLines_processTable_iff]
  constructor
  · intro hperm
    have hboth := hsorted.symm.trans hperm
    have hnil : detectLines (o.processTable.map ProcessItem.line) = [] := by
      have hlength := hboth.length_eq
      rw [List.length_append, List.length_map, List.length_map] at hlength
      exact List.eq_nil_of_length_eq_zero (by omega)
    rw [hnil, List.append_nil] at hboth
    refine ⟨hnil, fun d hd => (NpuDevice.seen_eq_info_iff d).mp ?_⟩
    -- of all devices, only this one has its index
    obtain ⟨d', hd', heq⟩ := List.mem_map.mp (hboth.mem_iff.mp (List.mem_map_of_mem hd))
    have hindex : d'.index = d.index := Int.ofNat_inj.mp (congrArg GpuInfo.index heq)
    rw [← heq, List.inj_on_of_nodup_map o.distinct hd' hd hindex]
  · rintro ⟨hnil, hseen⟩
    rw [hnil, List.append_nil,
      List.map_congr_left fun d hd => (NpuDevice.seen_eq_info_iff d).mpr (hseen d hd)] at hsorted
    exact hsorted

/-- Of devices that were detected as they are, an allocation takes free and
idle ones. -/
theorem allocates_of_perm (hperm : o.detected.Perm (o.devices.map NpuDevice.info))
    {pool pool' : ResourcePool} {system : Except PyExc SystemResources} {n : Int}
    {memoryMb : PyFloat} {ids : List Int} (hn : 0 < n)
    (h : pool.allocate { gpus := .ok o.detected, system } n memoryMb = .ok (pool', ids, true)) :
    ids.length = n.toNat ∧ ids.Nodup ∧ ∀ id ∈ ids, id ∉ pool.allocated ∧
      ∃ d ∈ o.devices, (d.index : Int) = id ∧
        d.util.value.lt pool.utilizationThreshold = true := by
  obtain ⟨gpus, hgpus, hle, rfl⟩ := allocate_eq_ok hn h
  obtain rfl := Except.ok.inj hgpus
  have hsorted := List.mergeSort_perm (pool.available o.detected) GpuInfo.le
  refine ⟨?_, ?_, fun id hid => ?_⟩
  · rw [List.length_map, List.length_take, hsorted.length_eq]
    omega
  · have hdistinct : ((o.devices.map NpuDevice.info).map GpuInfo.index).Nodup := by
      have hcast : Function.Injective fun n : Nat => (n : Int) := Nat.cast_injective
      have hmap := List.Nodup.map hcast o.distinct
      rw [List.map_map] at hmap ⊢
      exact hmap
    have hdetected := (hperm.map GpuInfo.index).nodup_iff.mpr hdistinct
    have havailable : ((pool.available o.detected).map GpuInfo.index).Nodup :=
      hdetected.sublist (List.filter_sublist.map GpuInfo.index)
    have hall := (hsorted.map GpuInfo.index).nodup_iff.mpr havailable
    exact hall.sublist ((List.take_sublist _ _).map GpuInfo.index)
  · obtain ⟨g, hg, rfl⟩ := List.mem_map.mp hid
    have havailable := List.mem_filter.mp (hsorted.mem_iff.mp (List.mem_of_mem_take hg))
    obtain ⟨d, hd, rfl⟩ := List.mem_map.mp (hperm.mem_iff.mp havailable.1)
    simp only [Bool.and_eq_true, decide_eq_true_eq] at havailable
    exact ⟨havailable.2.1, d, hd, rfl, havailable.2.2⟩

end Faithful

/-- The devices are those of the table, and allocations can rely on them, for
exactly the outputs whose process table is quiet and whose busy devices have
a bus id in lower case. -/
theorem detectsFaithfully_iff (o : NpuSmiOutput) :
    o.DetectsFaithfully ↔ Quiet o.processTable ∧ ∀ d ∈ o.devices, d.UtilizationSeen := by
  rw [← detected_perm_iff]
  constructor
  · exact fun h => h.detects
  · intro hperm
    refine ⟨hperm, fun pool pool' system n memoryMb ids h => ?_⟩
    rcases le_or_gt n 0 with hn | hn
    · obtain ⟨-, rfl⟩ := ResourcePool.allocate_of_nonpos hn h
      refine ⟨?_, List.nodup_nil, fun id hid => by cases hid⟩
      rw [Int.toNat_eq_zero.mpr hn]
      rfl
    · exact allocates_of_perm hperm hn h

/-- In a table that is closed by a border, with figures that can be read,
quiet means that nothing runs. -/
theorem quiet_iff_idle {items : List ProcessItem} {border : PlainLine}
    (hreadable : ∀ item ∈ items ++ [.plain border], ¬ Unreadable item.line) :
    Quiet (items ++ [.plain border]) ↔ ∀ p, ProcessItem.process p ∉ items := by
  induction items with
  | nil => exact iff_of_true trivial fun _ => List.not_mem_nil
  | cons item items ih =>
    have htail : ∀ item ∈ items ++ [.plain border], ¬ Unreadable item.line :=
      fun item hitem => hreadable item (List.mem_cons_of_mem _ hitem)
    cases item with
    | plain l =>
      rw [List.cons_append, Quiet, ih htail]
      simp
    | process p =>
      refine iff_of_false (fun hquiet => ?_) fun hidle => hidle p List.mem_cons_self
      obtain ⟨next, rest, heq⟩ : ∃ next rest, items ++ [.plain border] = next :: rest :=
        List.exists_cons_of_ne_nil (by simp)
      rw [heq] at htail
      rw [List.cons_append, heq, Quiet] at hquiet
      exact htail next List.mem_cons_self hquiet.1

/-- A whole number as the tool prints it. -/
def Figure.ofNat (n : Nat) (h : n < 2 ^ 53) : Figure where
  text := Nat.toDigits 10 n
  value := .fin n
  isFigure c hc := .inl (Decimal.isDigit_of_mem_toDigits c hc)
  reads := by
    rw [pyFloatOfString_digits Nat.toDigits_ne_nil Decimal.isDigit_of_mem_toDigits,
      Nat.ofDigitChars_ten_toDigits, PyFloat.ofRat_natCast (PyFloat.exact_of_lt h)]

/-- A device at work, and the process that runs on it. -/
def busyOutput : NpuSmiOutput where
  deviceTable := [.device {
    index := 0
    name := "910B4               | OK            | 86.5  41                      |".toList
    chip := 0
    busId := "0000:c1:00.0".toList
    util := .ofNat 5 (by decide)
    ddrUsed := .ofNat 0 (by decide)
    ddrTotal := .ofNat 0 (by decide)
    hbmUsed := .ofNat 2789 (by decide)
    hbmTotal := .ofNat 32768 (by decide)
    gap := fun _ => 1
    name_head := by simp [pyIsSpace]
    name_unbroken := by decide
    busId_ne := by decide
    busId_chars := by simp }]
  processTable := [
    .process {
      npu := 0
      rest := "0                 | 12345         | python                   | 1234 |".toList
      before := 0
      after := 6
      rest_head := by simp [pyIsSpace]
      rest_unbroken := by decide },
    .plain {
      text := ['+', '=', '+']
      plain := fun s h => by cases h
      unbroken := by decide }]
  distinct := by decide

/-- The process is taken for a second device 0, which is idle. -/
theorem busyOutput_not_detectsFaithfully : ¬ busyOutput.DetectsFaithfully := by
  intro h
  have hquiet := ((detected_perm_iff busyOutput).mp h.detects).1
  have hunreadable : Unreadable ['+', '=', '+'] := hquiet.1
  rcases hunreadable with ⟨util, e, hmatch, -⟩ | ⟨hbm, e, hlast, -⟩
  · cases hmatch
  · rw [hbmMatches, findAll_hbmPattern_none (by decide)] at hlast
    cases hlast

end InfiniOps.Ci
