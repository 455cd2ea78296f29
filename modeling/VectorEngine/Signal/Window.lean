/-
Windows: the weights samples get before a transform.
-/
import VectorEngine.Element
import VectorEngine.Error

namespace VectorEngine

inductive Window
  /-- Every sample has weight one. -/
  | rectangular
  /-- Rises from zero to the middle of the padded length and falls again. -/
  | bartlett
deriving DecidableEq, Repr

namespace Window

variable {α : Type} [Element α]

open Element

/-- The weights of `length` samples of a signal padded to `padded`. -/
def weights (w : Window) (length padded : Nat) : List α :=
  match w with
  | bartlett =>
    if padded < 2 then List.replicate length one
    else
      let middle := Element.ofNat padded * half
      (List.range length).map fun i => one - Element.abs ((Element.ofNat i - middle) / middle)
  | rectangular => List.replicate length one

/-- What magnitudes are divided by: the sum of the weights of a tapered window
when it is positive, else the padded length. -/
def norm (w : Window) (weights : List α) (padded : Nat) : α :=
  match w with
  | rectangular => Element.ofNat padded
  | bartlett =>
    let sum := weights.foldl (· + ·) zero
    if less zero sum then sum else Element.ofNat padded

/-- The weights for `length` samples, which must fit the padded length. -/
def weightsInto (w : Window) (length padded : Nat) : Except InputError (List α) :=
  if padded < length then .error (.lengthMismatch "out" padded length) else .ok (w.weights length padded)

end Window
end VectorEngine
