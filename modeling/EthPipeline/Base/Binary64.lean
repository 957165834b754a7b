import Mathlib.Data.Rat.Defs
import Mathlib.Algebra.Order.Ring.Unbundled.Rat
import Mathlib.Algebra.Order.Ring.Int
import Mathlib.Algebra.Order.Ring.Nat
import Mathlib.Tactic.Common

/-!
# Double precision, exactly

A finite double is the rational it stands for.  `Binary64.ofRat` rounds a
rational to the nearest double, ties to even, and says `none` where the result
would be an infinity: that is where Python raises `OverflowError` for an integer
that becomes a float.  Everything is integer arithmetic, so it evaluates.

`ofInt_isSome_iff` gives the integers that become floats.
-/

namespace Binary64

/-- The nearest integer, ties to even. -/
def roundHalfEven (q : ℚ) : ℤ :=
  let f := q.num / q.den
  let twice := 2 * (q.num % q.den)
  if twice < q.den then f
  else if (q.den : ℤ) < twice then f + 1
  else if f % 2 = 0 then f else f + 1

/-- `q * 2 ^ (-e)`. -/
def scale (q : ℚ) (e : ℤ) : ℚ :=
  if 0 ≤ e then mkRat q.num (q.den * 2 ^ e.toNat) else mkRat (q.num * 2 ^ (-e).toNat) q.den

/-- The exponent of the leading bit of `q ≠ 0`. -/
def leading (q : ℚ) : ℤ :=
  let e : ℤ := (Nat.log2 q.num.natAbs : ℤ) - Nat.log2 q.den
  if 1 ≤ |scale q e| then e else e - 1

/-- The exponent of the last place a double near `q` has. -/
def lastPlace (q : ℚ) : ℤ := max (-1074) (leading q - 52)

/-- The double nearest to `q`, were there no largest one. -/
def nearest (q : ℚ) : ℚ :=
  if q = 0 then 0 else scale (roundHalfEven (scale q (lastPlace q))) (-lastPlace q)

/-- Halfway between the largest double and the power of two above it. -/
def halfwayMax : ℕ := 2 ^ 1024 - 2 ^ 970

/-- The double nearest to `q`; `none` when it would be an infinity. -/
def ofRat (q : ℚ) : Option ℚ := if |q| < halfwayMax then some (nearest q) else none

/-- `float(n)` of an integer: `none` is `OverflowError`. -/
def ofInt (n : ℤ) : Option ℚ := if n.natAbs < halfwayMax then some (nearest n) else none

theorem ofInt_isSome_iff (n : ℤ) : (ofInt n).isSome ↔ n.natAbs < halfwayMax := by
  unfold ofInt
  split
  · next h => simp [h]
  · next h => simp [h]

/-- `n / d` of two integers, rounded once: `none` is `OverflowError`. -/
def divInt (n : ℤ) (d : ℕ) : Option ℚ := ofRat (mkRat n d)

example : ofRat (1 / 10) = some (3602879701896397 / 36028797018963968) := by decide +kernel

end Binary64

/-- A Python float. -/
inductive PyFloat where
  | finite (q : ℚ)
  | inf (negative : Bool)
  | nan
  deriving DecidableEq, Repr

namespace PyFloat

/-- A rational as a float; too large gives an infinity. -/
def ofRat (q : ℚ) : PyFloat :=
  match Binary64.ofRat q with
  | some r => finite r
  | none => inf (q < 0)

/-- `x / d` for a float and a positive double `d`. -/
def divBy (x : PyFloat) (d : ℚ) : PyFloat :=
  match x with
  | finite q => ofRat (q / d)
  | inf s => inf s
  | nan => nan

/-- `bool(x)`: only zero is false. -/
def truthy : PyFloat → Bool
  | finite q => q ≠ 0
  | _ => true

/-! ### `float(s)` of a text -/

/-- The white space `float` strips, with what Unicode adds to it. -/
def isSpace (c : Char) : Bool :=
  let n := c.toNat
  (9 ≤ n && n ≤ 13) || (28 ≤ n && n ≤ 32) || n = 0x85 || n = 0xA0 || n = 0x1680
    || (0x2000 ≤ n && n ≤ 0x200A) || n = 0x2028 || n = 0x2029 || n = 0x202F || n = 0x205F
    || n = 0x3000

/-- The zeros of the decimal digits of Unicode; the nine that follow each are
the other digits. -/
def digitZeros : List ℕ :=
  [0x30, 0x660, 0x6F0, 0x7C0, 0x966, 0x9E6, 0xA66, 0xAE6, 0xB66, 0xBE6, 0xC66, 0xCE6, 0xD66, 0xDE6,
    0xE50, 0xED0, 0xF20, 0x1040, 0x1090, 0x17E0, 0x1810, 0x1946, 0x19D0, 0x1A80, 0x1A90, 0x1B50,
    0x1BB0, 0x1C40, 0x1C50, 0xA620, 0xA8D0, 0xA900, 0xA9D0, 0xA9F0, 0xAA50, 0xABF0, 0xFF10, 0x104A0,
    0x10D30, 0x11066, 0x110F0, 0x11136, 0x111D0, 0x112F0, 0x11450, 0x114D0, 0x11650, 0x116C0,
    0x11730, 0x118E0, 0x11950, 0x11C50, 0x11D50, 0x11DA0, 0x11F50, 0x16A60, 0x16AC0, 0x16B50,
    0x1D7CE, 0x1D7D8, 0x1D7E2, 0x1D7EC, 0x1D7F6, 0x1E140, 0x1E2F0, 0x1E4F0, 0x1E950, 0x1FBF0]

/-- The value of a decimal digit. -/
def digit? (c : Char) : Option ℕ :=
  (digitZeros.find? fun z => z ≤ c.toNat && c.toNat < z + 10).map fun z => c.toNat - z

def isDigit (c : Char) : Bool := (digit? c).isSome

/-- An underscore may stand between two digits, and is dropped there. -/
def dropUnderscores (afterDigit : Bool) : List Char → Option (List Char)
  | [] => some []
  | c :: cs =>
    if c = '_' then
      if afterDigit && (cs.head?.map isDigit).getD false then dropUnderscores false cs else none
    else (dropUnderscores (isDigit c) cs).map (c :: ·)

def natOfDigits (cs : List Char) : ℕ := cs.foldl (fun n c => 10 * n + (digit? c).getD 0) 0

/-- A sign and what follows it; `true` is minus. -/
def splitSign : List Char → Bool × List Char
  | '+' :: cs => (false, cs)
  | '-' :: cs => (true, cs)
  | cs => (false, cs)

/-- The exponent part of a literal, which has to be all that is left. -/
def exponent? : List Char → Option ℤ
  | [] => some 0
  | c :: cs =>
    if c = 'e' ∨ c = 'E' then
      let (minus, ds) := splitSign cs
      if ds ≠ [] ∧ ds.all isDigit then some (if minus then -natOfDigits ds else natOfDigits ds)
      else none
    else none

/-- A decimal literal without its sign. -/
def magnitude? (cs : List Char) : Option ℚ :=
  let (whole, rest) := cs.span isDigit
  let (frac, rest) := match rest with
    | '.' :: rest => rest.span isDigit
    | rest => ([], rest)
  if whole ++ frac = [] then none
  else (exponent? rest).map fun shift =>
    let e : ℤ := shift - frac.length
    let n := natOfDigits (whole ++ frac)
    if 0 ≤ e then (n : ℚ) * (10 ^ e.toNat : ℕ) else mkRat n (10 ^ (-e).toNat)

/-- `float(s)`; `none` is `ValueError`. -/
def ofString (s : String) : Option PyFloat := do
  let text := (s.toList.dropWhile isSpace).reverse.dropWhile isSpace |>.reverse
  let text ← dropUnderscores false text
  let (minus, body) := splitSign text
  let word := String.ofList (body.map Char.toLower)
  if word = "inf" ∨ word = "infinity" then some (inf minus)
  else if word = "nan" then some nan
  else (magnitude? body).map fun q => ofRat (if minus then -q else q)

example : ofString " 1_700.5e1\n" = some (finite 17005) := by decide +kernel

end PyFloat
