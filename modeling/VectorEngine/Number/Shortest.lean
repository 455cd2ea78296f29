/-
The shortest decimal that reads back as a double.

Among the decimals that lie in the interval of reals rounding to the double,
those with the fewest digits are taken, of these the nearest, and of two
equally near ones the larger. Everything is compared as a ratio of naturals.
-/
import VectorEngine.Number.Exact

namespace VectorEngine

/-- The number `digits * 10^exponent`. -/
structure Scientific where
  digits : Nat
  exponent : Int
deriving DecidableEq, Repr

namespace Scientific

/-- Compares `num / den` with `digits * 10^exponent`. -/
def compareRatio (num den : Nat) (s : Scientific) : Ordering :=
  compare (num * Nat.pow 10 (-s.exponent).toNat) (s.digits * Nat.pow 10 s.exponent.toNat * den)

/-- Moves trailing zeros of the digits into the exponent. -/
def strip (s : Scientific) : Scientific :=
  if s.digits ≠ 0 ∧ s.digits % 10 = 0 then strip ⟨s.digits / 10, s.exponent + 1⟩ else s
termination_by s.digits

end Scientific

namespace Exact

/-- The double below lies half as far away as the one above: the significand is
the least of its binade, and the binade is not the lowest. -/
def narrowBelow (x : Exact) : Bool :=
  x.mantissa == Nat.pow 2 52 && decide (Interchange.double.leastExponent < x.exponent)

/-- `s` lies among the reals that round to the magnitude of `x`: between the
midpoints to its neighbours, which belong to it when its significand is even. -/
def readsBack (x : Exact) (s : Scientific) : Bool :=
  let quarter : Exact := ⟨false, 1, x.exponent - 2⟩
  let low := 4 * x.mantissa - (if x.narrowBelow then 1 else 2)
  let high := 4 * x.mantissa + 2
  let even := x.mantissa % 2 == 0
  let below := Scientific.compareRatio (low * quarter.num) quarter.den s
  let above := Scientific.compareRatio (high * quarter.num) quarter.den s
  (below == .lt || (even && below == .eq)) && (above == .gt || (even && above == .eq))

/-- The least power of ten above the magnitude of a number other than zero. It
is looked for from the estimate by the binary logarithm, which is never above
it and at most two below. -/
def decimalScale (x : Exact) : Int :=
  let estimate := ((x.mantissa.log2 : Int) + x.exponent) * 30103 / 100000
  let above (k : Int) := Scientific.compareRatio x.num x.den ⟨1, k⟩ == .lt
  if above estimate then estimate
  else if above (estimate + 1) then estimate + 1
  else estimate + 2

/-- Of the two `count`-digit neighbours of the magnitude of `x` that below
`10^scale`, the nearer one that reads back; the upper one on a tie. -/
def neighbour? (x : Exact) (scale : Int) (count : Nat) : Option Scientific :=
  let exponent := scale - count
  let n := x.num * Nat.pow 10 (-exponent).toNat
  let d := x.den * Nat.pow 10 exponent.toNat
  let lower : Scientific := ⟨n / d, exponent⟩
  let upper : Scientific := ⟨n / d + 1, exponent⟩
  match x.readsBack lower, x.readsBack upper with
  | true, true => some (if 2 * (n % d) < d then lower else upper)
  | true, false => some lower
  | false, true => some upper
  | false, false => none

/-- The shortest decimal for the magnitude of `x`. Seventeen digits suffice for
every double. -/
def shortest (x : Exact) : Scientific :=
  if x.mantissa = 0 then ⟨0, 0⟩
  else
    let scale := x.decimalScale
    match (List.range 17).findSome? fun i => x.neighbour? scale (i + 1) with
    | some s => s.strip
    | none => ⟨x.num / x.den, 0⟩

end Exact
end VectorEngine
