/-
The numbers a vector holds.

The calculations of the engine — statistics, rescaling, interpolation,
sequences, windows, transforms — ask no more of a number than this class
offers, so the same definitions run on doubles and can be read over numbers
without rounding. The class has operations and no laws: doubles satisfy hardly
any.
-/
import VectorEngine.Number.Exact

namespace VectorEngine

/-- Numbers among which one, the blank, marks an empty element. -/
class Element (α : Type) extends Neg α, Add α, Sub α, Mul α, Div α where
  ofNat : Nat → α
  blank : α
  isBlank : α → Bool
  isFinite : α → Bool
  /-- `a < b`; a blank is on neither side of it. -/
  less : α → α → Bool
  /-- `a = b` as numbers: the two zeros are the same, and a blank is not the
  same as anything. -/
  same : α → α → Bool
  abs : α → α
  sqrt : α → α
  /-- The largest integer not above a finite number. -/
  floor? : α → Option Int

namespace Element

variable {α : Type} [Element α]

def zero : α := ofNat 0

def one : α := ofNat 1

def half : α := one / ofNat 2

def isInfinite (x : α) : Bool := !isFinite x && !isBlank x

/-- The elements of `y` at the positions listed, a blank where there is none. -/
def pick (y : List α) (positions : List Nat) : List α :=
  let slots := y.toArray
  positions.map fun i => slots.getD i blank

end Element

instance : Element Float where
  ofNat := Float.ofNat
  blank := nan
  isBlank := Float.isNaN
  isFinite := Float.isFinite
  less a b := decide (a < b)
  same a b := a == b
  abs := Float.abs
  sqrt := Float.sqrt
  floor? x := (Exact.ofFloat? x).map Exact.floor

end VectorEngine
