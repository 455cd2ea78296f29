/-
The discrete Fourier transform of a power-of-two number of points.

`transform` splits the points into those at even and odd positions, transforms
both halves and joins them; it takes the turns it needs, so that the forward and
the inverse transform differ only in the sense of turning. Turns onto the axes
calculate nothing, so an infinite part makes no blank there.

It stands for the transform of a library, which may join its parts in another
order. Everything proved of spectra and signals uses one thing about it only: in
exact arithmetic it is the discrete Fourier sum (`Fourier.transform_points`). So
it holds with any transform that is that sum.
-/
import VectorEngine.Element

namespace VectorEngine

/-- A complex number by its parts. -/
structure Phasor (α : Type) where
  re : α
  im : α
deriving DecidableEq, Repr

/-- Numbers with the functions that lead from a circle to its coordinates and
back. -/
class Circular (α : Type) extends Element α where
  /-- Cosine and sine of `k / n` of a full turn. -/
  cosine : Nat → Nat → α
  sine : Nat → Nat → α
  /-- The angle of the point with ordinate `y` and abscissa `x`. -/
  angle : (y x : α) → α

namespace Phasor

variable {α : Type}

open Element

def zero [Element α] : Phasor α := ⟨Element.zero, Element.zero⟩

def ofReal [Element α] (x : α) : Phasor α := ⟨x, Element.zero⟩

def add [Element α] (a b : Phasor α) : Phasor α := ⟨a.re + b.re, a.im + b.im⟩

def sub [Element α] (a b : Phasor α) : Phasor α := ⟨a.re - b.re, a.im - b.im⟩

def mul [Element α] (a b : Phasor α) : Phasor α := ⟨a.re * b.re - a.im * b.im, a.re * b.im + a.im * b.re⟩

/-- The mirror image at the real axis. -/
def conj [Element α] (a : Phasor α) : Phasor α := ⟨a.re, -a.im⟩

/-- The distance from zero, infinite as soon as one part is. Both parts are
divided by the larger one first, so that their squares stay in range. -/
def magnitude [Element α] (a : Phasor α) : α :=
  let x := Element.abs a.re
  let y := Element.abs a.im
  if isInfinite x then x
  else if isInfinite y then y
  else
    let large := if less x y then y else x
    if same large Element.zero then x + y
    else
      let u := x / large
      let v := y / large
      large * sqrt (u * u + v * v)

/-- `a` turned clockwise by `k / n` of a full turn. -/
def turnForward [Circular α] (k n : Nat) (a : Phasor α) : Phasor α :=
  if k = 0 then a
  else if 4 * k = n then ⟨a.im, -a.re⟩
  else a.mul ⟨Circular.cosine k n, -Circular.sine k n⟩

/-- `a` turned anticlockwise by `k / n` of a full turn. -/
def turnInverse [Circular α] (k n : Nat) (a : Phasor α) : Phasor α :=
  if k = 0 then a
  else if 4 * k = n then ⟨-a.im, a.re⟩
  else a.mul ⟨Circular.cosine k n, Circular.sine k n⟩

end Phasor

namespace Fourier

variable {α : Type}

mutual

/-- The values at positions 0, 2, 4 and so on. -/
def evens {β : Type} : List β → List β
  | [] => []
  | x :: rest => x :: odds rest

/-- The values at positions 1, 3, 5 and so on. -/
def odds {β : Type} : List β → List β
  | [] => []
  | _ :: rest => evens rest

end

/-- Joins the transforms of the even and the odd points: the value at `k` is
`even + turn k odd` and the one half a turn on `even - turn k odd`. -/
def join [Element α] (turn : Nat → Phasor α → Phasor α) (even odd : List (Phasor α)) : List (Phasor α) :=
  let turned := odd.zipIdx.map fun p => turn p.2 p.1
  even.zipWith Phasor.add turned ++ even.zipWith Phasor.sub turned

/-- The transform of `2^level` points, `turn k n` turning by `k / n` of a full
turn. -/
def transform [Element α] (turn : Nat → Nat → Phasor α → Phasor α) : Nat → List (Phasor α) → List (Phasor α)
  | 0, points => points
  | level + 1, points =>
    join (fun k => turn k (Nat.pow 2 (level + 1)))
      (transform turn level (evens points)) (transform turn level (odds points))

/-- The least power of two that is not below `n`, and at least one, by its
exponent. -/
def levelFor (n : Nat) : Nat := if n ≤ 1 then 0 else (n - 1).log2 + 1

/-- The least power of two that is not below `n`, and at least one. -/
def paddedLength (n : Nat) : Nat := Nat.pow 2 (levelFor n)

/-- The padded length in a word of 64 bits: zero once it does not fit. -/
def paddedWord (n : Nat) : Nat := paddedLength n % Nat.pow 2 64

end Fourier

instance : Circular Float where
  cosine k n := Float.cos (6.283185307179586 * (Float.ofNat k / Float.ofNat n))
  sine k n := Float.sin (6.283185307179586 * (Float.ofNat k / Float.ofNat n))
  angle := Float.atan2

end VectorEngine
