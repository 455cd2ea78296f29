/-
Reading numbers from decimal text.

`readFloat?` reads the nearest double: an optional sign, then digits with an
optional point and an optional exponent, or `inf`, `infinity` or `nan` in any
letter case. `readInt64?` reads a signed 64-bit integer. Neither skips blanks.
-/
import VectorEngine.Number.Exact

namespace VectorEngine.Decimal

/-- The value of a run of digits. -/
def natOfDigits (digits : List Char) : Nat :=
  digits.foldl (fun n c => 10 * n + (c.toNat - '0'.toNat)) 0

/-- The double nearest `± digits * 10^exponent`. Far outside the range of
doubles the power of ten is not computed: as 10 is more than `2^3`, the number
is less than `2^-1200` or more than `2^1200` there. -/
def toFloat (negative : Bool) (digits : Nat) (exponent : Int) : Float :=
  let binary : Int := digits.log2 + 3 * exponent
  if digits = 0 ∨ (exponent < 0 ∧ binary < -1200) then Exact.ratioToFloat negative 0 1
  else if 0 ≤ exponent ∧ 1200 < binary then infinite negative
  else Exact.ratioToFloat negative (digits * Nat.pow 10 exponent.toNat) (Nat.pow 10 (-exponent).toNat)

/-- A leading `-` or `+`, and what follows it. -/
def splitSign : List Char → Bool × List Char
  | '-' :: rest => (true, rest)
  | '+' :: rest => (false, rest)
  | cs => (false, cs)

/-- The exponent that ends a number: nothing, or `e` and an integer. -/
def readExponent? : List Char → Option Int
  | [] => some 0
  | c :: rest =>
    let (negative, digits) := splitSign rest
    if (c = 'e' ∨ c = 'E') ∧ digits ≠ [] ∧ digits.all Char.isDigit then
      some (Exact.signed negative (natOfDigits digits))
    else
      none

/-- Digits, an optional fraction and an optional exponent. There is a digit
before or after the point. -/
def readUnsigned? (negative : Bool) (cs : List Char) : Option Float :=
  let whole := cs.takeWhile Char.isDigit
  let rest := cs.dropWhile Char.isDigit
  let (fraction, rest) := match rest with
    | '.' :: more => (more.takeWhile Char.isDigit, more.dropWhile Char.isDigit)
    | _ => ([], rest)
  if whole = [] ∧ fraction = [] then none
  else (readExponent? rest).map fun e =>
    toFloat negative (natOfDigits (whole ++ fraction)) (e - fraction.length)

def readFloat? (cs : List Char) : Option Float :=
  let (negative, body) := splitSign cs
  let word := String.ofList (body.map Char.toLower)
  if word = "inf" ∨ word = "infinity" then some (infinite negative)
  else if word = "nan" then some nan
  else readUnsigned? negative body

/-- The integers of 64 bits. -/
def isInt64 (i : Int) : Bool := decide (Int64.minValue.toInt ≤ i ∧ i ≤ Int64.maxValue.toInt)

def readInt64? (cs : List Char) : Option Int :=
  let (negative, digits) := splitSign cs
  let i := Exact.signed negative (natOfDigits digits)
  if digits ≠ [] ∧ digits.all Char.isDigit ∧ isInt64 i then some i else none

end VectorEngine.Decimal
