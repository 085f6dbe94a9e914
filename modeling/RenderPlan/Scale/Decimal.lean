import RenderPlan.Scale.Basic
import RenderPlan.Text.Blank
/-!
Decimal numerals and the scales they denote. A numeral is digits with at most one point among or
around them, with an optional plus sign before and an optional exponent behind. Its exact value is
rounded once. Numerals that denote zero, or that round to zero or beyond the largest scale, are no
scales.
-/
namespace RenderPlan

/-- The number `coefficient * 10 ^ exponent`. -/
structure Decimal where
  coefficient : Nat
  exponent : Int
  deriving DecidableEq, Repr

namespace Decimal

def isDigit (c : Char) : Bool := '0'.toNat ≤ c.toNat && c.toNat ≤ '9'.toNat

/-- The number that a run of digits denotes in base ten. -/
def ofDigits (ds : List Char) : Nat := ds.foldl (fun n c => 10 * n + (c.toNat - '0'.toNat)) 0

/-- The digits at the start of a text, and the rest. -/
def takeDigits (s : List Char) : List Char × List Char := (s.takeWhile isDigit, s.dropWhile isDigit)

/-- The exponent at the end of a numeral: nothing, or a mark, an optional sign and digits. -/
def readExponent? : List Char → Option Int
  | [] => some 0
  | mark :: r =>
    if mark = 'e' ∨ mark = 'E' then
      let (negative, r) := match r with
        | '-' :: r => (true, r)
        | '+' :: r => (false, r)
        | r => (false, r)
      let (ds, rest) := takeDigits r
      if ds.isEmpty || !rest.isEmpty then none
      else some (if negative then -(ofDigits ds : Int) else ofDigits ds)
    else none

/-- A numeral without a sign. -/
def readUnsigned? (s : List Char) : Option Decimal :=
  let (whole, r) := takeDigits s
  let (fraction, r) := match r with
    | '.' :: r => takeDigits r
    | r => ([], r)
  if whole.isEmpty && fraction.isEmpty then none
  else (readExponent? r).map fun e => ⟨ofDigits (whole ++ fraction), e - fraction.length⟩

/-- A whole text read as a numeral. -/
def read? : List Char → Option Decimal
  | '+' :: r => readUnsigned? r
  | s => readUnsigned? s

/-- The scale nearest to a decimal. Decimals that are too large or too small whatever their digits
are recognised by their exponent, so the power of ten that is computed stays small. -/
def toScale? (d : Decimal) : Option Scale :=
  match d.exponent with
  | .ofNat k => if 39 ≤ k then none else Scale.ofRatio? (d.coefficient * Nat.pow 10 k) 1
  | .negSucc k =>
    if Nat.log2 d.coefficient + 151 ≤ 3 * (k + 1) then none
    else Scale.ofRatio? d.coefficient (Nat.pow 10 (k + 1))

end Decimal

/-- The scale that a text denotes, blank characters around it not counted. -/
def Scale.read? (text : List Char) : Option Scale :=
  (Decimal.read? (Text.trim text)).bind Decimal.toScale?

end RenderPlan
