/-
Views of every so many elements of a list.

A calculation reads and writes elements that lie next to each other; a view
offers them only when it has at most one element or takes every element in
order.
-/
import VectorEngine.Element
import VectorEngine.Error

namespace VectorEngine

/-- Every `step`-th of the values, from the last one backwards if `step` is
negative. -/
structure Strided where
  values : List Float
  step : Int
deriving DecidableEq, Repr

namespace Strided

/-- The positions looked at, in order. -/
def positions (v : Strided) : List Nat :=
  let length := v.values.length
  let stride := max v.step.natAbs 1
  let forward := (List.range ((length + stride - 1) / stride)).map (· * stride)
  if v.step < 0 then forward.map (length - 1 - ·) else forward

def isContiguous (v : Strided) : Bool := v.positions.length ≤ 1 || v.step == 1

/-- The elements, for a calculation that calls the view `arg`. -/
def read (v : Strided) (arg : String) : Except InputError (List Float) :=
  if v.isContiguous then .ok (Element.pick v.values v.positions)
  else .error (.nonContiguous arg)

/-- The values with new elements written through the view. -/
def write (v : Strided) (elements : List Float) : List Float :=
  ((v.positions.zip elements).foldl (fun slots (i, x) => slots.setIfInBounds i x) v.values.toArray).toList

end Strided
end VectorEngine
