/-
InfiniOps.Ci.NpuSmiTable — what `npu-smi info` prints, and what the patterns
of the detection find in its rows.

`NpuSmiOutput` is a device table of two rows per NPU, then a process table
whose rows begin with a device id, with borders, headings and notices between
the rows. The amounts of padding are free, and so are the texts that no
pattern captures.

A row whose first cell begins with a number matches as a first row
(`matchRow_numberedLine`), a process row therefore too. Of a second row, the
HBM figures are always the last pair (`hbmMatches_secondRow`), while the
utilization is found behind a bus id in lower case only
(`matchAicore_secondRow`, `matchAicore_secondRow_of_isUpper`).
-/
import InfiniOps.Ci.AscendDetect
import InfiniOps.Ci.PyValueTheorems
import InfiniOps.Lib.Decimal
import Mathlib.Data.List.TakeWhile

namespace InfiniOps.Ci

open RunPattern

/-! ## What the tool prints -/

def pad (n : Nat) : List Char := List.replicate n ' '

/-- Text of a single line. -/
def Unbroken (s : List Char) : Prop := ∀ c ∈ s, isLineBreak c = false

instance (s : List Char) : Decidable (Unbroken s) :=
  List.decidableBAll (fun c => isLineBreak c = false) s

/-- A number that `float()` reads. -/
structure Figure where
  text : List Char
  value : PyFloat
  isFigure : ∀ c ∈ text, c.isDigit = true ∨ c = '.'
  reads : pyFloatOfString text = .ok value

/-- A usage: two figures and a slash. -/
def usage (used total : Figure) (before after : Nat) : List (List Char) :=
  [used.text, pad before, ['/'], pad after, total.text]

/-- A line whose first cell begins with a number. -/
def numberedLine (before after index : Nat) (rest : List Char) : List Char :=
  [['|'], pad (before + 1), Nat.toDigits 10 index, pad (after + 1)].flatten ++ rest

/-- A border, a heading, a notice: no number begins the first cell. -/
structure PlainLine where
  text : List Char
  plain : ∀ s, text = '|' :: s → ∀ c ∈ (s.dropWhile pyIsSpace).head?, isDecimal c = false
  unbroken : Unbroken text

/-- The two rows of a device. -/
structure NpuDevice where
  index : Nat
  /-- What follows the index in the first row. -/
  name : List Char
  chip : Nat
  busId : List Char
  util : Figure
  ddrUsed : Figure
  ddrTotal : Figure
  hbmUsed : Figure
  hbmTotal : Figure
  /-- The amounts of padding. -/
  gap : Nat → Nat
  name_head : ∀ c ∈ name.head?, pyIsSpace c = false
  name_unbroken : Unbroken name
  busId_ne : busId ≠ []
  busId_chars : ∀ c ∈ busId,
    c.isDigit = true ∨ ('a' ≤ c ∧ c ≤ 'f') ∨ ('A' ≤ c ∧ c ≤ 'F') ∨ c = ':' ∨ c = '.'

namespace NpuDevice

def firstRow (d : NpuDevice) : List Char := numberedLine (d.gap 0) (d.gap 1) d.index d.name

/-- The second row as far as the blank behind the utilization. -/
def aicoreTexts (d : NpuDevice) : List (List Char) :=
  [['|'], pad (d.gap 2 + 1), Nat.toDigits 10 d.chip, pad (d.gap 3 + 1), ['|'], pad (d.gap 4 + 1),
    d.busId, pad (d.gap 5 + 1), ['|'], pad (d.gap 6), d.util.text, [' ']]

def secondRow (d : NpuDevice) : List Char :=
  d.aicoreTexts.flatten ++ pad (d.gap 7) ++
    ((usage d.ddrUsed d.ddrTotal (d.gap 8) (d.gap 9)).flatten ++ (pad (d.gap 10 + 1) ++
      ((usage d.hbmUsed d.hbmTotal (d.gap 11) (d.gap 12)).flatten ++ (pad (d.gap 13) ++ ['|']))))

/-- The utilization and HBM figures of the second row. -/
def info (d : NpuDevice) : GpuInfo where
  index := d.index
  memoryUsedMb := d.hbmUsed.value
  memoryTotalMb := d.hbmTotal.value
  utilizationPct := d.util.value

end NpuDevice

/-- A row of the process table. -/
structure ProcessRow where
  npu : Nat
  rest : List Char
  before : Nat
  after : Nat
  rest_head : ∀ c ∈ rest.head?, pyIsSpace c = false
  rest_unbroken : Unbroken rest

inductive DeviceItem where
  | plain (l : PlainLine)
  | device (d : NpuDevice)

inductive ProcessItem where
  | plain (l : PlainLine)
  | process (p : ProcessRow)

def DeviceItem.lines : DeviceItem → List (List Char)
  | .plain l => [l.text]
  | .device d => [d.firstRow, d.secondRow]

def DeviceItem.device? : DeviceItem → Option NpuDevice
  | .plain _ => none
  | .device d => some d

def ProcessItem.line : ProcessItem → List Char
  | .plain l => l.text
  | .process p => numberedLine p.before p.after p.npu p.rest

structure NpuSmiOutput where
  deviceTable : List DeviceItem
  processTable : List ProcessItem
  distinct : ((deviceTable.filterMap DeviceItem.device?).map NpuDevice.index).Nodup

namespace NpuSmiOutput

def devices (o : NpuSmiOutput) : List NpuDevice := o.deviceTable.filterMap DeviceItem.device?

def lines (o : NpuSmiOutput) : List (List Char) :=
  o.deviceTable.flatMap DeviceItem.lines ++ o.processTable.map ProcessItem.line

def stdout (o : NpuSmiOutput) : String := .ofList (o.lines.flatMap (· ++ ['\n']))

end NpuSmiOutput

/-! ## Classes -/

section Classes

variable {c : Char}

theorem not_space_of_isBusIdChar (h : isBusIdChar c = true) : pyIsSpace c = false := by
  simp only [isBusIdChar, Bool.or_eq_true, Bool.and_eq_true, decide_eq_true_eq, beq_iff_eq] at h
  rcases h with ((h | ⟨hlo, hhi⟩) | rfl) | rfl
  · exact not_space_of_decimalDigit h
  · have hlo' : 97 ≤ c.toNat := hlo
    have hhi' : c.toNat ≤ 102 := hhi
    simp [pyIsSpace]
    omega
  · decide
  · decide

theorem not_space_of_isFigureChar (h : isFigureChar c = true) : pyIsSpace c = false := by
  rw [isFigureChar, Bool.or_eq_true, beq_iff_eq] at h
  rcases h with h | rfl
  · exact not_space_of_decimalDigit h
  · decide

/-- Two classes without a common character, the other way round. -/
theorem disjoint_symm {p q : Char → Bool} (h : ∀ c, q c = true → p c = false) (c : Char)
    (hp : p c = true) : q c = false := by
  cases hq : q c with
  | false => rfl
  | true =>
    rw [h c hq] at hp
    cases hp

theorem isDecimal_of_isDigit (h : c.isDigit = true) : isDecimal c = true := by
  rw [isDecimal, decimalDigit_of_isDigit h]
  rfl

end Classes

theorem determinate_rowPattern {rest : List Char} (h : ∀ c ∈ rest.head?, pyIsSpace c = false) :
    Determinate rest rowPattern :=
  ⟨fun _ => not_space_of_decimalDigit, disjoint_symm fun _ => not_space_of_decimalDigit, h, trivial⟩

theorem not_space_of_eq {d c : Char} (hd : pyIsSpace d = false) (h : (c == d) = true) :
    pyIsSpace c = false := by
  rw [beq_iff_eq.mp h, hd]

theorem determinate_aicorePattern (rest : List Char) : Determinate rest aicorePattern :=
  ⟨fun _ => not_space_of_decimalDigit, disjoint_symm fun _ => not_space_of_decimalDigit,
    fun _ => not_space_of_eq (by decide), fun _ => not_space_of_isBusIdChar,
    disjoint_symm fun _ => not_space_of_isBusIdChar, fun _ => not_space_of_eq (by decide),
    fun _ => not_space_of_isFigureChar, disjoint_symm fun _ => not_space_of_isFigureChar, trivial⟩

/-! ## Rows -/

section Rows

theorem accepts_pad {n : Nat} : (Piece.plus pyIsSpace).Accepts (pad (n + 1)) :=
  .plus (List.cons_ne_nil _ _) fun _ hc => by rw [List.eq_of_mem_replicate hc]; decide

theorem accepts_digits {n : Nat} : (Piece.plus isDecimal).Accepts (Nat.toDigits 10 n) :=
  .plus Nat.toDigits_ne_nil fun c hc => isDecimal_of_isDigit (Decimal.isDigit_of_mem_toDigits c hc)

theorem matchRow_numberedLine {before after index : Nat} {rest : List Char}
    (h : ∀ c ∈ rest.head?, pyIsSpace c = false) :
    matchRow (numberedLine before after index rest) = some (Nat.toDigits 10 index) := by
  have hsplits : Splits rowPattern
      [['|'], pad (before + 1), Nat.toDigits 10 index, pad (after + 1)] :=
    .cons (.char rfl) (.cons accepts_pad (.cons accepts_digits (.cons accepts_pad .nil)))
  rw [matchRow, numberedLine, run_of_splits (determinate_rowPattern h) hsplits]
  rfl

theorem PlainLine.matchRow (l : PlainLine) : matchRow l.text = none := by
  have hrun : run rowPattern l.text = none := by
    cases htext : l.text with
    | nil => rfl
    | cons c s =>
      by_cases hc : c = '|'
      · rw [hc] at htext ⊢
        have hnext : run [.plus pyIsSpace, .plus isDecimal, .plus pyIsSpace] s = none :=
          run_plus_eq_none_of_next (run_plus_eq_none (l.plain s htext))
        rw [rowPattern, run, if_pos (beq_self_eq_true _), hnext]
        rfl
      · exact run_char_eq_none fun d hd => by
          cases hd
          simpa using hc
  rw [InfiniOps.Ci.matchRow, hrun]
  rfl

variable {d : NpuDevice}

theorem Figure.ne_nil (f : Figure) : f.text ≠ [] := by
  intro hnil
  have hreads := f.reads
  rw [hnil] at hreads
  cases hreads

theorem accepts_figure (f : Figure) : (Piece.plus isFigureChar).Accepts f.text := by
  refine .plus f.ne_nil fun c hc => ?_
  rw [isFigureChar]
  rcases f.isFigure c hc with h | rfl
  · rw [isDecimal_of_isDigit h]
    rfl
  · decide

theorem accepts_star_pad {n : Nat} : (Piece.star pyIsSpace).Accepts (pad n) :=
  .star fun _ hc => by rw [List.eq_of_mem_replicate hc]; decide

theorem isUpper_iff_toNat {c : Char} : c.isUpper = true ↔ 65 ≤ c.toNat ∧ c.toNat ≤ 90 := by
  have hbounds : c.isUpper = true ↔ 'A'.val ≤ c.val ∧ c.val ≤ 'Z'.val := decide_eq_true_iff
  rw [hbounds, UInt32.le_iff_toNat_le, UInt32.le_iff_toNat_le]
  rfl

theorem isBusIdChar_of_isUpper {c : Char} (h : c.isUpper = true) : isBusIdChar c = false := by
  obtain ⟨hlo, hhi⟩ := isUpper_iff_toNat.mp h
  have hdecimal : isDecimal c = false := by
    cases hdecimal : isDecimal c with
    | false => rfl
    | true =>
      rw [isDecimal, decimalDigit, Option.isSome_map, List.find?_isSome] at hdecimal
      obtain ⟨z, hz, hrange⟩ := hdecimal
      rw [Bool.and_eq_true, decide_eq_true_eq, decide_eq_true_eq] at hrange
      have hzero := decimalZeros_range z hz
      omega
  have hletter : ¬ 'a' ≤ c := by
    intro hle
    have hle' : 97 ≤ c.toNat := hle
    omega
  have hcolon : c ≠ ':' := by
    rintro rfl
    cases h
  have hpoint : c ≠ '.' := by
    rintro rfl
    cases h
  simp [isBusIdChar, hdecimal, hletter, hcolon, hpoint]

theorem isBusIdChar_iff {c : Char} (h : c ∈ d.busId) : isBusIdChar c = true ↔ c.isUpper = false := by
  constructor
  · intro hbus
    cases hupper : c.isUpper with
    | false => rfl
    | true =>
      rw [isBusIdChar_of_isUpper hupper] at hbus
      cases hbus
  · intro hupper
    rw [isBusIdChar]
    rcases d.busId_chars c h with hdigit | ⟨hlo, hhi⟩ | ⟨hlo, hhi⟩ | rfl | rfl
    · simp [isDecimal_of_isDigit hdigit]
    · simp [hlo, hhi]
    · have hlo' : 65 ≤ c.toNat := hlo
      have hhi' : c.toNat ≤ 70 := hhi
      rw [isUpper_iff_toNat.mpr ⟨hlo', by omega⟩] at hupper
      cases hupper
    · decide
    · decide

theorem not_space_of_mem_busId {c : Char} (h : c ∈ d.busId) : pyIsSpace c = false := by
  cases hupper : c.isUpper with
  | false => exact not_space_of_isBusIdChar ((isBusIdChar_iff h).mpr hupper)
  | true =>
    have hrange := isUpper_iff_toNat.mp hupper
    simp [pyIsSpace]
    omega

/-- The utilization is captured behind a bus id in lower case. -/
theorem matchAicore_secondRow (h : ∀ c ∈ d.busId, c.isUpper = false) :
    matchAicore d.secondRow = some d.util.text := by
  have hbus : (Piece.plus isBusIdChar).Accepts d.busId :=
    .plus d.busId_ne fun c hc => (isBusIdChar_iff hc).mpr (h c hc)
  have hsplits : Splits aicorePattern d.aicoreTexts :=
    .cons (.char rfl) (.cons accepts_pad (.cons accepts_digits (.cons accepts_pad
      (.cons (.char rfl) (.cons accepts_pad (.cons hbus (.cons accepts_pad (.cons (.char rfl)
        (.cons accepts_star_pad (.cons (accepts_figure d.util) (.cons (.char rfl) .nil)))))))))))
  rw [matchAicore, NpuDevice.secondRow, List.append_assoc,
    run_of_splits (determinate_aicorePattern _) hsplits]
  rfl

/-- Behind any other it is not found. -/
theorem matchAicore_secondRow_of_isUpper (h : ∃ c ∈ d.busId, c.isUpper = true) :
    matchAicore d.secondRow = none := by
  obtain ⟨tail, htail⟩ : ∃ tail, d.secondRow
      = (d.aicoreTexts.take 6).flatten ++ (d.busId ++ tail) := by
    have hcut : ∀ s, d.aicoreTexts.flatten ++ s = (d.aicoreTexts.take 6).flatten ++
        (d.busId ++ ((d.aicoreTexts.drop 7).flatten ++ s)) := fun s => by
      simp [NpuDevice.aicoreTexts]
    rw [NpuDevice.secondRow, List.append_assoc]
    exact ⟨_, hcut _⟩
  have hhead : ∀ c ∈ (d.busId ++ tail).head?, pyIsSpace c = false := by
    rw [List.head?_append_of_ne_nil _ d.busId_ne]
    exact fun c hc => not_space_of_mem_busId (List.mem_of_mem_head? hc)
  have hfront : run (aicorePattern.take 6) d.secondRow
      = some (d.aicoreTexts.take 6, d.busId ++ tail) := by
    rw [htail]
    refine run_of_splits ?_ ?_
    · exact ⟨fun _ => not_space_of_decimalDigit, disjoint_symm fun _ => not_space_of_decimalDigit,
        fun _ => not_space_of_eq (by decide), hhead, trivial⟩
    · exact .cons (.char rfl) (.cons accepts_pad (.cons accepts_digits (.cons accepts_pad
        (.cons (.char rfl) (.cons accepts_pad .nil)))))
  -- the run of the bus id stops at the upper-case digit
  have hstop : ∀ c ∈ ((d.busId ++ tail).dropWhile isBusIdChar).head?, pyIsSpace c = false := by
    have hne : d.busId.dropWhile isBusIdChar ≠ [] := by
      obtain ⟨c, hc, hupper⟩ := h
      intro hnil
      have hall := List.dropWhile_eq_nil_iff.mp hnil c hc
      rw [isBusIdChar_of_isUpper hupper] at hall
      cases hall
    rw [List.dropWhile_append, if_neg (by simpa using hne), List.head?_append_of_ne_nil _ hne]
    intro c hc
    exact not_space_of_mem_busId ((List.dropWhile_sublist _).subset (List.mem_of_mem_head? hc))
  have hrest : run (aicorePattern.drop 6) (d.busId ++ tail) = none :=
    run_plus_eq_none_of_next (run_plus_eq_none hstop)
  rw [matchAicore, ← List.take_append_drop 6 aicorePattern, run_append hfront, hrest]
  rfl

theorem isFigureChar_of_mem {f : Figure} {c : Char} (h : c ∈ f.text) : isFigureChar c = true := by
  cases accepts_figure f with
  | plus _ hchars => exact hchars c h

/-- Without a slash behind the first run, no pair of figures begins here. -/
theorem run_hbmPattern_eq_none {s : List Char}
    (h : ∀ c ∈ ((s.dropWhile isFigureChar).dropWhile pyIsSpace).head?, c ≠ '/') :
    run hbmPattern s = none := by
  refine run_plus_eq_none_of_next ?_
  rw [run, run_char_eq_none fun c hc => by simpa using h c hc]
  rfl

theorem findAll_hbmPattern_none {s : List Char} (h : '/' ∉ s) : findAll hbmPattern s = [] := by
  rw [← List.append_nil s, findAll_skip, findAll_nil]
  intro u c v heq
  refine run_hbmPattern_eq_none fun d hd => ?_
  rintro rfl
  refine h ?_
  have hmem := (List.dropWhile_sublist _).subset
    ((List.dropWhile_sublist _).subset (List.mem_of_mem_head? hd))
  rw [List.append_nil] at hmem
  rw [heq]
  exact List.mem_append_right u hmem

/-- Dropping stops at the first element outside the class. -/
theorem dropWhile_append_cons {p : Char → Bool} {b : Char} (h : p b = false) (l s : List Char) :
    (l ++ b :: s).dropWhile p = l.dropWhile p ++ b :: s := by
  rw [List.dropWhile_append]
  split_ifs with hl
  · rw [List.isEmpty_iff.mp hl]
    simp [h]
  · rfl

theorem run_hbmPattern_blank {t s : List Char} (hslash : '/' ∉ t)
    (hs : ∀ c ∈ s.head?, isFigureChar c = true) : run hbmPattern (t ++ ' ' :: s) = none := by
  refine run_hbmPattern_eq_none fun c hc => ?_
  have hstop : (' ' :: s).dropWhile pyIsSpace = s := by
    cases s with
    | nil => rfl
    | cons d s => simp [not_space_of_isFigureChar (hs d rfl), (by decide : pyIsSpace ' ' = true)]
  rw [dropWhile_append_cons (by decide), List.dropWhile_append, hstop] at hc
  split_ifs at hc with hblank
  · rintro rfl
    exact absurd (hs _ hc) (by decide)
  · rw [List.head?_append_of_ne_nil _ (by simpa using hblank)] at hc
    rintro rfl
    exact hslash ((List.dropWhile_sublist _).subset
      ((List.dropWhile_sublist _).subset (List.mem_of_mem_head? hc)))

/-- Text without a slash that ends with a blank is passed over in front of a figure. -/
theorem findAll_hbmPattern_skip {t s : List Char} (hslash : '/' ∉ t)
    (hs : ∀ c ∈ s.head?, isFigureChar c = true) :
    findAll hbmPattern (t ++ [' '] ++ s) = findAll hbmPattern s := by
  refine findAll_skip fun u c v heq => ?_
  obtain ⟨w, b, hw⟩ : ∃ w b, c :: v = w ++ [b] :=
    ⟨_, _, (List.dropLast_append_getLast (List.cons_ne_nil c v)).symm⟩
  rw [hw, ← List.append_assoc] at heq
  obtain ⟨rfl, hb⟩ := List.append_inj' heq rfl
  obtain rfl := (List.cons_eq_cons.mp hb).1
  rw [hw, List.append_assoc]
  exact run_hbmPattern_blank (fun hmem => hslash (List.mem_append_right u hmem)) hs

theorem determinate_hbmPattern {rest : List Char} (h : ∀ c ∈ rest.head?, isFigureChar c = false) :
    Determinate rest hbmPattern := by
  have hslash : ∀ c : Char, (c == '/') = true → isFigureChar c = false := by
    intro c hc
    rw [beq_iff_eq.mp hc]
    decide
  exact ⟨⟨disjoint_symm fun _ => not_space_of_isFigureChar, hslash⟩,
    fun _ => not_space_of_eq (by decide), fun _ => not_space_of_isFigureChar, h, trivial⟩

/-- A pair of figures is found, and the search goes on behind it. -/
theorem findAll_hbmPattern_pair {used total : Figure} {before after : Nat} {rest : List Char}
    (h : ∀ c ∈ rest.head?, isFigureChar c = false) :
    findAll hbmPattern ((usage used total before after).flatten ++ rest)
      = usage used total before after :: findAll hbmPattern rest := by
  refine findAll_of_run (run_of_splits (determinate_hbmPattern h) ?_) ?_
  · exact .cons (accepts_figure used) (.cons accepts_star_pad (.cons (.char rfl)
      (.cons accepts_star_pad (.cons (accepts_figure total) .nil))))
  · simp [usage]
    omega

theorem head_usage {used total : Figure} {before after : Nat} {rest : List Char} :
    ∀ c ∈ ((usage used total before after).flatten ++ rest).head?, isFigureChar c = true := by
  rw [usage, List.flatten_cons, List.append_assoc, List.head?_append_of_ne_nil _ used.ne_nil]
  exact fun c hc => isFigureChar_of_mem (List.mem_of_mem_head? hc)

theorem pad_succ (n : Nat) : pad (n + 1) = pad n ++ [' '] := List.replicate_succ'

theorem slash_notMem_pad {n : Nat} : '/' ∉ pad n :=
  fun h => absurd (List.eq_of_mem_replicate h) (by decide)

/-- Before the figures of the memory there is no slash. -/
theorem slash_notMem_aicoreTexts : '/' ∉ (d.aicoreTexts.take 11).flatten ++ pad (d.gap 7) := by
  have hdigits : '/' ∉ Nat.toDigits 10 d.chip :=
    fun h => absurd (Decimal.isDigit_of_mem_toDigits _ h) (by decide)
  have hbus : '/' ∉ d.busId := by
    intro h
    have hchar := (isBusIdChar_iff h).mpr (by decide)
    exact absurd hchar (by decide)
  have hutil : '/' ∉ d.util.text := fun h => absurd (isFigureChar_of_mem h) (by decide)
  simp [NpuDevice.aicoreTexts, slash_notMem_pad, hdigits, hbus, hutil]

/-- Both pairs of a second row, the HBM figures last. -/
theorem hbmMatches_secondRow (d : NpuDevice) :
    hbmMatches d.secondRow
      = [(d.ddrUsed.text, d.ddrTotal.text), (d.hbmUsed.text, d.hbmTotal.text)] := by
  have hfront : d.aicoreTexts.flatten ++ pad (d.gap 7)
      = (d.aicoreTexts.take 11).flatten ++ pad (d.gap 7) ++ [' '] := by
    have hpad : ' ' :: pad (d.gap 7) = pad (d.gap 7) ++ [' '] := pad_succ (d.gap 7)
    simp [NpuDevice.aicoreTexts, hpad]
  have hlast : ∀ c ∈ (pad (d.gap 13) ++ ['|']).head?, isFigureChar c = false := by
    intro c hc
    have hmem := List.mem_of_mem_head? hc
    rcases List.mem_append.mp hmem with hmem | hmem
    · rw [List.eq_of_mem_replicate hmem]
      decide
    · rw [List.mem_singleton.mp hmem]
      decide
  rw [hbmMatches, NpuDevice.secondRow, hfront,
    findAll_hbmPattern_skip slash_notMem_aicoreTexts head_usage,
    findAll_hbmPattern_pair (fun c hc => by cases hc; decide), pad_succ,
    findAll_hbmPattern_skip slash_notMem_pad head_usage, findAll_hbmPattern_pair hlast,
    findAll_hbmPattern_none (by simp [slash_notMem_pad])]
  rfl

end Rows

end InfiniOps.Ci
