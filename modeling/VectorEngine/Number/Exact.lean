/-
Finite doubles as exact numbers.

A finite double is `± mantissa * 2^exponent`, so what is asked of one — its
integer part, its remainder by another, the decimal it stands for — is a
question about integers. `Interchange` describes the two binary formats the
engine reads and writes; `nearest` is the way back from a ratio of integers to
the bits nearest to it.
-/
namespace VectorEngine

/-- A finite number `± mantissa * 2^exponent`. Zero keeps its sign. -/
structure Exact where
  negative : Bool
  mantissa : Nat
  exponent : Int
deriving DecidableEq, Repr

namespace Exact

/-- The magnitude is `num / den`. -/
def num (x : Exact) : Nat := x.mantissa * Nat.pow 2 x.exponent.toNat

def den (x : Exact) : Nat := Nat.pow 2 (-x.exponent).toNat

/-- `i`, or `-i` for a negative number. -/
def signed (negative : Bool) (i : Nat) : Int := if negative then -(i : Int) else i

/-- The largest integer not above `x`. -/
def floor (x : Exact) : Int := signed x.negative x.num / (x.den : Int)

/-- `x` without its fraction. -/
def truncate (x : Exact) : Int := signed x.negative (x.num / x.den)

/-- The integer nearest `x`, a half going away from zero. -/
def round (x : Exact) : Int := signed x.negative ((2 * x.num + x.den) / (2 * x.den))

/-- `x` has no fraction. -/
def isWhole (x : Exact) : Bool := x.num % x.den == 0

end Exact

/-- The integer nearest `num / den`, a half going to the even one. -/
def roundHalfEven (num den : Nat) : Nat :=
  let quotient := num / den
  let rest := num % den
  if 2 * rest < den ∨ (2 * rest = den ∧ quotient % 2 = 0) then quotient else quotient + 1

/-- The signed integer of `width` bits nearest `i`. -/
def saturate (width : Nat) (i : Int) : Int :=
  let limit : Int := Nat.pow 2 (width - 1)
  max (-limit) (min (limit - 1) i)

/-- A binary floating-point format of `width` bits: a sign, an exponent and a
significand of `precision` bits whose leading one is implied. -/
structure Interchange where
  precision : Nat
  width : Nat
deriving DecidableEq, Repr

/-- What a bit pattern stands for. -/
inductive Reading
  | finite (x : Exact)
  | infinite (negative : Bool)
  | nan
deriving DecidableEq, Repr

namespace Interchange

def double : Interchange := ⟨53, 64⟩

def single : Interchange := ⟨24, 32⟩

/-- The exponent of the least positive number, the unit of every subnormal. -/
def leastExponent (f : Interchange) : Int :=
  3 - Nat.pow 2 (f.width - f.precision - 1) - f.precision

/-- The pattern of infinity: every magnitude below it is finite. -/
def infinity (f : Interchange) : Nat := (Nat.pow 2 (f.width - f.precision) - 1) * Nat.pow 2 (f.precision - 1)

def signBit (f : Interchange) : Nat := Nat.pow 2 (f.width - 1)

def read (f : Interchange) (bits : Nat) : Reading :=
  let negative := decide (f.signBit ≤ bits)
  let magnitude := bits % f.signBit
  if magnitude < f.infinity then
    let unit := Nat.pow 2 (f.precision - 1)
    let biased := magnitude / unit
    if biased = 0 then
      .finite ⟨negative, magnitude, f.leastExponent⟩
    else
      .finite ⟨negative, magnitude % unit + unit, f.leastExponent + biased - 1⟩
  else if magnitude = f.infinity then
    .infinite negative
  else
    .nan

/-- `num / den` counted in units of `2^exponent`, again as a ratio. -/
def inUnits (num den : Nat) (exponent : Int) : Nat × Nat :=
  (num * Nat.pow 2 (-exponent).toNat, den * Nat.pow 2 exponent.toNat)

/-- The exponent at which `num / den` has a whole part of `precision` bits, or
the least exponent when that is larger. -/
def unitExponent (f : Interchange) (num den : Nat) : Int :=
  let guess := max (num.log2 - den.log2 - f.precision : Int) f.leastExponent
  let (n, d) := inUnits num den guess
  if Nat.pow 2 f.precision ≤ n / d then guess + 1 else guess

/-- The magnitude nearest `num / den`, a tie going to the even significand;
infinity from half a unit above the largest finite number. A significand that
rounds up to `2^precision` carries into the exponent. -/
def nearest (f : Interchange) (num den : Nat) : Nat :=
  if num = 0 then 0
  else
    let exponent := f.unitExponent num den
    let (n, d) := inUnits num den exponent
    min f.infinity ((exponent - f.leastExponent).toNat * Nat.pow 2 (f.precision - 1) + roundHalfEven n d)

/-- The pattern of `± num / den`, correctly rounded. -/
def write (f : Interchange) (negative : Bool) (num den : Nat) : Nat :=
  (if negative then f.signBit else 0) + f.nearest num den

end Interchange

namespace Exact

/-- The double `x` taken apart; infinities and NaN have no parts. -/
def ofFloat? (x : Float) : Option Exact :=
  match Interchange.double.read x.toBits.toNat with
  | .finite e => some e
  | _ => none

/-- The double nearest `± num / den`. -/
def ratioToFloat (negative : Bool) (num den : Nat) : Float :=
  Float.ofBits (UInt64.ofNat (Interchange.double.write negative num den))

/-- The double nearest `x`. -/
def toFloat (x : Exact) : Float := ratioToFloat x.negative x.num x.den

/-- The double nearest an integer. -/
def intToFloat (i : Int) : Float := ratioToFloat (decide (i < 0)) i.natAbs 1

/-- `x` less the multiple of `y` nearest below it in magnitude; the sign is
that of `x`. The result is exact. -/
def remainder (x y : Exact) : Exact :=
  let exponent := min x.exponent y.exponent
  let whole (z : Exact) := z.mantissa * Nat.pow 2 (z.exponent - exponent).toNat
  ⟨x.negative, whole x % whole y, exponent⟩

end Exact

/-- Not a number, which a vector holds where it has no value. -/
def nan : Float := 0.0 / 0.0

/-- Infinity of either sign. -/
def infinite (negative : Bool) : Float := if negative then -1.0 / 0.0 else 1.0 / 0.0

/-- The remainder of the truncating division `x / y`, for `y` other than zero:
an infinite `x` has none, and an infinite `y` leaves `x` as it is. -/
def floatRemainder (x y : Float) : Float :=
  match Exact.ofFloat? x, Exact.ofFloat? y with
  | some a, some b => (a.remainder b).toFloat
  | some _, none => if y.isNaN then nan else x
  | none, _ => nan

end VectorEngine
