/-
InfiniOps.Ci.PyValue — the Python values and built-in functions that the
CI resource parser uses: `int()`, `float()`, `str.strip()`, `str.lower()`
and float arithmetic and comparison.

The grammars are those of the language reference: surrounding whitespace,
a sign, digits with single underscores between them, decimal digits of any
script, `nan`, `inf` and `infinity` in any case, and for `float` a decimal
point and an exponent. Whitespace for `strip` has four control characters
that `int` and `float` do not skip.

A finite float is the rational it denotes, rounded as binary64 is; the two
zeros are one.
-/
import InfiniOps.Lib.Rounding
import Mathlib.Data.Rat.Defs
import Mathlib.Data.Rat.Floor
import Mathlib.Algebra.Order.Field.Rat

namespace InfiniOps.Ci

/-- The exceptions that the modelled code raises. -/
inductive PyExc where
  | valueError
  | overflowError
  | keyError
  /-- Any other exception, such as one of the detection tools. -/
  | other (name : String)
  deriving DecidableEq, Repr

/-! ## Floats -/

inductive PyFloat where
  | nan
  | inf (negative : Bool)
  | fin (q : ℚ)
  deriving DecidableEq

namespace PyFloat

/-- The float nearest to `q`. -/
def ofRat (q : ℚ) : PyFloat :=
  let r := Rounding.roundFloat 53 (-1074) q
  if 2 ^ 1024 ≤ r then .inf false
  else if r ≤ -2 ^ 1024 then .inf true
  else .fin r

/-- Multiplication by a positive integer. -/
def scale (x : PyFloat) (n : Nat) : PyFloat :=
  match x with
  | .nan => .nan
  | .inf s => .inf s
  | .fin q => ofRat (q * n)

/-- `<`. -/
def lt : PyFloat → PyFloat → Bool
  | .nan, _ => false
  | _, .nan => false
  | .inf a, .inf b => a && !b
  | .inf a, .fin _ => a
  | .fin _, .inf b => !b
  | .fin p, .fin q => p < q

/-- `int(x)`. -/
def toInt : PyFloat → Except PyExc Int
  | .nan => .error .valueError
  | .inf _ => .error .overflowError
  | .fin q => .ok (if 0 ≤ q then ⌊q⌋ else ⌈q⌉)

end PyFloat

/-- A configuration value. -/
inductive PyVal where
  | str (s : String)
  | int (n : Int)
  | float (x : PyFloat)
  deriving DecidableEq

/-! ## Characters -/

/-- `str.isspace` of one character. -/
def pyIsSpace (c : Char) : Bool :=
  let n := c.toNat
  (9 ≤ n && n ≤ 13) || (0x1c ≤ n && n ≤ 0x20) || n == 0x85 || n == 0xa0 || n == 0x1680 ||
    (0x2000 ≤ n && n ≤ 0x200a) || n == 0x2028 || n == 0x2029 || n == 0x202f || n == 0x205f ||
    n == 0x3000

/-- What `int()` and `float()` skip on both sides. -/
def pyIsNumSpace (c : Char) : Bool := pyIsSpace c && !(0x1c ≤ c.toNat && c.toNat ≤ 0x1f)

/-- The zeros of the decimal digit blocks. -/
def decimalZeros : List Nat :=
  [0x30, 0x660, 0x6f0, 0x7c0, 0x966, 0x9e6, 0xa66, 0xae6, 0xb66, 0xbe6, 0xc66, 0xce6, 0xd66, 0xde6,
    0xe50, 0xed0, 0xf20, 0x1040, 0x1090, 0x17e0, 0x1810, 0x1946, 0x19d0, 0x1a80, 0x1a90, 0x1b50,
    0x1bb0, 0x1c40, 0x1c50, 0xa620, 0xa8d0, 0xa900, 0xa9d0, 0xa9f0, 0xaa50, 0xabf0, 0xff10, 0x104a0,
    0x10d30, 0x11066, 0x110f0, 0x11136, 0x111d0, 0x112f0, 0x11450, 0x114d0, 0x11650, 0x116c0,
    0x11730, 0x118e0, 0x11950, 0x11c50, 0x11d50, 0x11da0, 0x16a60, 0x16ac0, 0x16b50, 0x1d7ce,
    0x1d7d8, 0x1d7e2, 0x1d7ec, 0x1d7f6, 0x1e140, 0x1e2f0, 0x1e950, 0x1fbf0]

/-- The value of a decimal digit. -/
def decimalDigit (c : Char) : Option Nat :=
  (decimalZeros.find? fun z => z ≤ c.toNat && c.toNat < z + 10).map fun z => c.toNat - z

/-- Drop on both sides what satisfies `p`. -/
def stripBy (p : Char → Bool) (s : List Char) : List Char :=
  ((s.dropWhile p).reverse.dropWhile p).reverse

/-! ## Numerals -/

/-- Consume a digit part, single underscores between digits included. `prev`
tells whether the character before was a digit. -/
def digitPart : Bool → List Char → List Nat × List Char
  | _, [] => ([], [])
  | prev, c :: cs =>
    if c = '_' then
      if prev && (cs.head?.bind decimalDigit).isSome then digitPart false cs else ([], c :: cs)
    else
      match decimalDigit c with
      | some d => (d :: (digitPart true cs).1, (digitPart true cs).2)
      | none => ([], c :: cs)

/-- The number that a list of digits denotes. -/
def digitsValue (ds : List Nat) : Nat := ds.foldl (fun n d => 10 * n + d) 0

/-- An optional sign: whether it is a minus, and the rest. -/
def takeSign : List Char → Bool × List Char
  | '-' :: cs => (true, cs)
  | '+' :: cs => (false, cs)
  | cs => (false, cs)

/-- `int(s)`. -/
def pyIntOfString (s : List Char) : Except PyExc Int :=
  let (neg, body) := takeSign (stripBy pyIsNumSpace s)
  match digitPart false body with
  | (d :: ds, []) =>
    let n : Int := digitsValue (d :: ds)
    .ok (if neg then -n else n)
  | _ => .error .valueError

/-- The exponent of a float, 0 if there is none. -/
def exponentPart : List Char → Option Int
  | [] => some 0
  | c :: cs =>
    if c.toLower = 'e' then
      let (neg, body) := takeSign cs
      match digitPart false body with
      | (d :: ds, []) =>
        let n : Int := digitsValue (d :: ds)
        some (if neg then -n else n)
      | _ => none
    else none

/-- Digits, a point, digits and an exponent. -/
def decimalFloat (body : List Char) : Option ℚ :=
  let (whole, rest) := digitPart false body
  let (frac, rest) := match rest with
    | '.' :: cs => digitPart false cs
    | cs => ([], cs)
  if whole.isEmpty && frac.isEmpty then none
  else (exponentPart rest).map fun (e : Int) =>
    (digitsValue (whole ++ frac) : ℚ) * (10 : ℚ) ^ (e - frac.length)

/-- `float(s)`. -/
def pyFloatOfString (s : List Char) : Except PyExc PyFloat :=
  let (neg, body) := takeSign (stripBy pyIsNumSpace s)
  let name := body.map Char.toLower
  if name = "inf".toList ∨ name = "infinity".toList then .ok (.inf neg)
  else if name = "nan".toList then .ok .nan
  else match decimalFloat body with
    | some q => .ok (PyFloat.ofRat (if neg then -q else q))
    | none => .error .valueError

/-- `int(v)`. -/
def pyInt : PyVal → Except PyExc Int
  | .str s => pyIntOfString s.toList
  | .int n => .ok n
  | .float x => x.toInt

end InfiniOps.Ci
