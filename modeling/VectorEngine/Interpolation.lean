/-
Values computed from few others: arithmetic sequences, and points interpolated
between neighbours.
-/
import VectorEngine.Series

namespace VectorEngine

variable {α : Type} [Element α]

open Element

namespace Sequence

/-- How far a sequence may pass its stop, in steps. -/
def slack : α := one / ofNat 1000000000

/-- How many terms the sequence from `start` to `stop` has: it ends with the
last term that passes `stop` by no more than the slack. -/
def terms (start stop step : α) : Except Error Nat :=
  if same step zero || !isFinite step then .error (.invalidArg "step" .badStep)
  else if !isFinite start || !isFinite stop then .error (.invalidArg "start" .unboundedSequence)
  else
    let steps := (stop - start) / step + slack
    if less steps zero then .error (.invalidArg "step" .stepAway)
    else
      match floor? steps with
      | some k => if k.toNat + 1 < Buffer.sizeLimit then .ok (k.toNat + 1) else .error (.outOfMemory Buffer.unbounded)
      | none => .error (.outOfMemory Buffer.unbounded)

/-- `start + i * step` for every `i` below `count`. -/
def values (start step : α) (count : Nat) : List α := (List.range count).map fun i => start + ofNat i * step

end Sequence

namespace Interpolation

/-- How many values there are once `density` points stand in each gap of
`count` values, if a word can count them. -/
def populatedLength (count density : Nat) : Except Error Nat :=
  let length := (count - 1) * (density + 1) + 1
  if length < Buffer.sizeLimit then .ok length else .error (.outOfMemory Buffer.unbounded)

/-- The points in the gap from `a` to `b`, at equal distances. -/
def gap (density : Nat) (a b : α) : List α :=
  let slope := one / (ofNat density + one)
  (List.range density).map fun k => a + (b - a) * ofNat (k + 1) * slope

/-- The values with `density` points in every gap. -/
def between (density : Nat) : List α → List α
  | a :: b :: rest => a :: gap density a b ++ between density (b :: rest)
  | values => values

/-- The values with `density` points in every gap, if there is room. -/
def populate (values : List α) (density : Nat) : Except Error (List α) :=
  if values.length < 2 then .ok values
  else do
    let length ← populatedLength values.length density
    if Buffer.slotLimit ≤ length then .error (.outOfMemory length)
    else return between density values

end Interpolation

namespace Series

/-- Fills the series with the sequence from `start` to `stop`. -/
def fillSequence (start stop step : Float) (s : Series) : Except Error Series := do
  let count ← Sequence.terms start stop step
  let sized ← s.changeLength count
  return sized.withBuffer (sized.buffer.write 0 (Sequence.values start step count))

/-- The positions of the values between two bounds, given in either order. -/
def search (s : Series) (low high : Float) : List Nat :=
  let (low, high) := if low ≤ high then (low, high) else (high, low)
  (s.values.zipIdx.filter fun p => low ≤ p.1 && p.1 ≤ high).map Prod.snd

end Series
end VectorEngine
