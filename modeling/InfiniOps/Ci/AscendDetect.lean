/-
InfiniOps.Ci.AscendDetect — device detection from the table that
`npu-smi info` prints (`_detect_gpus_ascend` in `.ci/ci_resource.py`).

The three regular expressions are patterns of character classes. Classes
next to each other in them have no character in common, so that the longest
runs are the match.
-/
import InfiniOps.Ci.Resource
import InfiniOps.Lib.RunPattern

namespace InfiniOps.Ci

open RunPattern

/-! ## Lines -/

def isLineBreak (c : Char) : Bool :=
  let n := c.toNat
  (10 ≤ n && n ≤ 13) || (0x1c ≤ n && n ≤ 0x1e) || n == 0x85 || n == 0x2028 || n == 0x2029

/-- `str.splitlines`, where `line` is what was read of the current one. -/
def splitlinesFrom (line : List Char) : List Char → List (List Char)
  | [] => if line = [] then [] else [line]
  | '\r' :: '\n' :: s => line :: splitlinesFrom [] s
  | c :: s => if isLineBreak c then line :: splitlinesFrom [] s else splitlinesFrom (line ++ [c]) s

def splitlines (s : List Char) : List (List Char) := splitlinesFrom [] s

/-! ## Patterns -/

/-- `\d`. -/
def isDecimal (c : Char) : Bool := (decimalDigit c).isSome

/-- `[\da-f:.]`. -/
def isBusIdChar (c : Char) : Bool := isDecimal c || ('a' ≤ c && c ≤ 'f') || c == ':' || c == '.'

/-- `[\d.]`. -/
def isFigureChar (c : Char) : Bool := isDecimal c || c == '.'

/-- `^\|\s+(\d+)\s+`. -/
def rowPattern : List (Piece Char) :=
  [.char (· == '|'), .plus pyIsSpace, .plus isDecimal, .plus pyIsSpace]

/-- `^\|\s+\d+\s+\|\s+[\da-f:.]+\s+\|\s*([\d.]+)\s`. -/
def aicorePattern : List (Piece Char) :=
  [.char (· == '|'), .plus pyIsSpace, .plus isDecimal, .plus pyIsSpace, .char (· == '|'),
    .plus pyIsSpace, .plus isBusIdChar, .plus pyIsSpace, .char (· == '|'), .star pyIsSpace,
    .plus isFigureChar, .char pyIsSpace]

/-- `([\d.]+)\s*/\s*([\d.]+)`. -/
def hbmPattern : List (Piece Char) :=
  [.plus isFigureChar, .star pyIsSpace, .char (· == '/'), .star pyIsSpace, .plus isFigureChar]

/-- The captured index. -/
def matchRow (line : List Char) : Option (List Char) :=
  (run rowPattern line).map fun m => m.1.getD 2 []

/-- The captured utilization. -/
def matchAicore (line : List Char) : Option (List Char) :=
  (run aicorePattern line).map fun m => m.1.getD 10 []

/-- The captured pairs. -/
def hbmMatches (line : List Char) : List (List Char × List Char) :=
  (findAll hbmPattern line).map fun ts => (ts.getD 0 [], ts.getD 4 [])

/-! ## Detection -/

/-- `util_pct`. -/
def readUtilization (row : List Char) : Except PyExc PyFloat :=
  match matchAicore row with
  | some util => pyFloatOfString util
  | none => .ok (.fin 0)

/-- `used_mb, total_mb`: the last pair. -/
def readHbm (row : List Char) : Except PyExc (PyFloat × PyFloat) :=
  match (hbmMatches row).getLast? with
  | some hbm => do
    let usedMb ← pyFloatOfString hbm.1
    let totalMb ← pyFloatOfString hbm.2
    return (usedMb, totalMb)
  | none => .ok (.fin 0, .fin 0)

/-- The body of the `try`. -/
def readDevice (index row : List Char) : Except PyExc GpuInfo := do
  let npuIndex ← pyIntOfString index
  let utilPct ← readUtilization row
  let hbm ← readHbm row
  return { index := npuIndex, memoryUsedMb := hbm.1, memoryTotalMb := hbm.2,
           utilizationPct := utilPct }

/-- The loop: a line that looks like a first row is taken with the next one,
also if that cannot be read. -/
def detectLines : List (List Char) → List GpuInfo
  | [] => []
  | [_] => []
  | line :: next :: lines =>
    match matchRow line with
    | some index => (readDevice index next).toOption.toList ++ detectLines lines
    | none => detectLines (next :: lines)

/-- What `subprocess.run` did. -/
inductive NpuSmi where
  /-- `FileNotFoundError` or `TimeoutExpired`. -/
  | failed
  | exited (returncode : Int) (stdout : String)

/-- `_detect_gpus_ascend`. -/
def detectGpusAscend : NpuSmi → List GpuInfo
  | .failed => []
  | .exited returncode stdout =>
    if returncode ≠ 0 then []
    else (detectLines (splitlines stdout.toList)).mergeSort fun a b => a.index ≤ b.index

end InfiniOps.Ci
