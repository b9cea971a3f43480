/-
InfiniOps.Lib.ShellWords — words of a POSIX shell command line, as
`shlex.split` reads them and `shlex.join` writes them.

Blanks separate words; a single quote protects everything up to the next
one, a double quote everything but a backslash before a double quote or a
backslash. A word is quoted where it has a character that might mean
something to a shell. What is written is read back as it was
(`split_join`).
-/
import Mathlib.Data.List.Basic

namespace ShellWords

/-! ## Reading -/

/-- A word, or the blanks before one; a single or a double quote; behind a
backslash, outside or inside double quotes. -/
inductive State where
  | word | single | double | escape | doubleEscape
  deriving DecidableEq, Repr

inductive ReadError where
  | noClosingQuotation
  | noEscapedCharacter
  deriving DecidableEq, Repr

def isBlank (c : Char) : Bool := c = ' ' ∨ c = '\t' ∨ c = '\r' ∨ c = '\n'

/-- A word ends. It may be empty only if it has been quoted. -/
def finish (token : List Char) (quoted : Bool) (words : List (List Char)) : List (List Char) :=
  if token = [] ∧ quoted = false then words else token :: words

/-- The rest of a command line, after a part of a word. -/
def read : State → (token : List Char) → (quoted : Bool) → List Char →
    Except ReadError (List (List Char))
  | .word, token, quoted, [] => .ok (finish token quoted [])
  | .word, token, quoted, c :: cs =>
    if isBlank c then (read .word [] false cs).map (finish token quoted)
    else if c = '\'' then read .single token true cs
    else if c = '"' then read .double token true cs
    else if c = '\\' then read .escape token quoted cs
    else read .word (token ++ [c]) quoted cs
  | .single, _, _, [] => .error .noClosingQuotation
  | .single, token, quoted, c :: cs =>
    if c = '\'' then read .word token quoted cs else read .single (token ++ [c]) quoted cs
  | .double, _, _, [] => .error .noClosingQuotation
  | .double, token, quoted, c :: cs =>
    if c = '"' then read .word token quoted cs
    else if c = '\\' then read .doubleEscape token quoted cs
    else read .double (token ++ [c]) quoted cs
  | .escape, _, _, [] => .error .noEscapedCharacter
  | .escape, token, quoted, c :: cs => read .word (token ++ [c]) quoted cs
  | .doubleEscape, _, _, [] => .error .noEscapedCharacter
  | .doubleEscape, token, quoted, c :: cs =>
    if c = '"' ∨ c = '\\' then read .double (token ++ [c]) quoted cs
    else read .double (token ++ ['\\', c]) quoted cs

/-- The words of a command line. -/
def split (s : List Char) : Except ReadError (List (List Char)) := read .word [] false s

/-! ## Writing -/

/-- A character that means nothing to a shell. -/
def isSafe (c : Char) : Bool := c.isAlphanum || "_@%+=:,./-".toList.contains c

/-- Inside single quotes, one of them is written by leaving them. -/
def protect (w : List Char) : List Char :=
  w.flatMap fun c => if c = '\'' then "'\"'\"'".toList else [c]

def quote (w : List Char) : List Char :=
  if w = [] then "''".toList
  else if w.all isSafe then w
  else '\'' :: protect w ++ ['\'']

def join (ws : List (List Char)) : List Char := [' '].intercalate (ws.map quote)

example : split "pytest -k 'a or b' \"x\\\"y\" tests/".toList
    = .ok ["pytest".toList, "-k".toList, "a or b".toList, "x\"y".toList, "tests/".toList] := by
  decide

/-! ## Round trip -/

theorem isSafe_plain {c : Char} (h : isSafe c = true) :
    isBlank c = false ∧ c ≠ '\'' ∧ c ≠ '"' ∧ c ≠ '\\' := by
  have hne : ∀ d : Char, isSafe d = false → c ≠ d := by
    rintro d hd rfl
    rw [h] at hd
    cases hd
  have hblank : ¬ (c = ' ' ∨ c = '\t' ∨ c = '\r' ∨ c = '\n') := by
    simp [hne ' ' (by decide), hne '\t' (by decide), hne '\r' (by decide), hne '\n' (by decide)]
  exact ⟨by simp [isBlank, hblank], hne _ (by decide), hne _ (by decide), hne _ (by decide)⟩

/-- Safe characters stand for themselves. -/
theorem read_safe {w : List Char} (h : w.all isSafe) (token : List Char) (quoted : Bool)
    (rest : List Char) :
    read .word token quoted (w ++ rest) = read .word (token ++ w) quoted rest := by
  induction w generalizing token with
  | nil => simp
  | cons c w ih =>
    simp only [List.all_cons, Bool.and_eq_true] at h
    obtain ⟨hblank, hsingle, hdouble, hescape⟩ := isSafe_plain h.1
    rw [List.cons_append, read, hblank, if_neg Bool.false_ne_true, if_neg hsingle, if_neg hdouble,
      if_neg hescape, ih h.2, List.append_assoc, List.singleton_append]

/-- Between single quotes everything stands for itself, and a single quote
comes back from its detour. -/
theorem read_protect (w token rest : List Char) :
    read .single token true (protect w ++ rest) = read .single (token ++ w) true rest := by
  induction w generalizing token with
  | nil => simp [protect]
  | cons c w ih =>
    have hcons : protect (c :: w) = (if c = '\'' then "'\"'\"'".toList else [c]) ++ protect w := rfl
    by_cases hc : c = '\''
    · have hdetour : ∀ cs, read .single token true ("'\"'\"'".toList ++ cs)
          = read .single (token ++ ['\'']) true cs := fun cs => rfl
      rw [hcons, if_pos hc, List.append_assoc, hdetour, ih, hc, List.append_assoc,
        List.singleton_append]
    · rw [hcons, if_neg hc, List.append_assoc, List.singleton_append, read, if_neg hc, ih,
        List.append_assoc, List.singleton_append]

/-- A quoted word is read as the word, and as one. -/
theorem read_quote (w rest : List Char) :
    ∃ quoted, read .word [] false (quote w ++ rest) = read .word w quoted rest ∧
      ∀ words, finish w quoted words = w :: words := by
  rw [quote]
  by_cases hempty : w = []
  · refine ⟨true, ?_, fun words => by simp [finish]⟩
    rw [if_pos hempty, hempty]
    rfl
  · rw [if_neg hempty]
    by_cases hsafe : w.all isSafe
    · refine ⟨false, ?_, fun words => by simp [finish, hempty]⟩
      rw [if_pos hsafe, read_safe hsafe, List.nil_append]
    · refine ⟨true, ?_, fun words => by simp [finish]⟩
      have hopen : ∀ cs, read .word [] false ('\'' :: cs) = read .single [] true cs := fun cs => rfl
      have hclose : ∀ token cs, read .single token true ('\'' :: cs) = read .word token true cs :=
        fun token cs => rfl
      rw [if_neg hsafe, List.cons_append, List.cons_append, List.append_assoc, hopen, read_protect,
        List.nil_append, List.singleton_append, hclose]

/-- What is written is read back. -/
theorem split_join (ws : List (List Char)) : split (join ws) = .ok ws := by
  induction ws with
  | nil => rfl
  | cons w ws ih =>
    rw [split, join, List.map_cons]
    cases ws with
    | nil =>
      obtain ⟨quoted, hread, hfinish⟩ := read_quote w []
      rw [List.map_nil, List.intercalate_singleton, ← List.append_nil (quote w), hread, read,
        hfinish]
    | cons v ws =>
      obtain ⟨quoted, hread, hfinish⟩ :=
        read_quote w ([' '] ++ [' '].intercalate ((v :: ws).map quote))
      have hblank : ∀ cs, read .word w quoted ([' '] ++ cs)
          = (read .word [] false cs).map (finish w quoted) := fun cs => rfl
      rw [List.intercalate_cons_of_ne_nil (by simp), List.append_assoc, hread, hblank, ← split,
        ← join, ih]
      exact congrArg Except.ok (hfinish _)

/-- Different words are written differently. -/
theorem join_injective {ws ws' : List (List Char)} (h : join ws = join ws') : ws = ws' := by
  have hsplit := split_join ws
  rw [h, split_join] at hsplit
  exact (Except.ok.inj hsplit).symm

end ShellWords
