/-
Numbers without rounding.

An unrounded number is a real number, one of the two infinities, or the blank. It is
calculated with as with doubles, except that no result is rounded and there is one
zero: what doubles leave undefined is blank, and only an infinity or a division by
zero gives an infinity. What holds of the calculations of the engine over unrounded
numbers is what holds of them apart from rounding.
-/
import Mathlib
import VectorEngine.Signal.Transform

namespace VectorEngine

inductive Unrounded
  | real (x : ℝ)
  | infinite (negative : Bool)
  | blank

namespace Unrounded

noncomputable section

protected def neg : Unrounded → Unrounded
  | real x => real (-x)
  | infinite negative => infinite !negative
  | blank => blank

protected def add : Unrounded → Unrounded → Unrounded
  | real x, real y => real (x + y)
  | real _, infinite negative | infinite negative, real _ => infinite negative
  | infinite negative, infinite negative' => if negative = negative' then infinite negative else blank
  | blank, _ | _, blank => blank

/-- Infinite on the side of `x`, and blank for zero, which is on neither. -/
def beyond (x : ℝ) : Unrounded := if x = 0 then blank else infinite (decide (x < 0))

protected def mul : Unrounded → Unrounded → Unrounded
  | real x, real y => real (x * y)
  | real x, infinite negative | infinite negative, real x => beyond (if negative then -x else x)
  | infinite negative, infinite negative' => infinite (negative != negative')
  | blank, _ | _, blank => blank

protected def div : Unrounded → Unrounded → Unrounded
  | real x, real y => if y = 0 then beyond x else real (x / y)
  | real _, infinite _ => real 0
  | infinite negative, real y => infinite (negative != decide (y < 0))
  | infinite _, infinite _ => blank
  | blank, _ | _, blank => blank

protected def less : Unrounded → Unrounded → Bool
  | real x, real y => decide (x < y)
  | real _, infinite negative => !negative
  | infinite negative, real _ => negative
  | infinite negative, infinite negative' => negative && !negative'
  | blank, _ | _, blank => false

protected def same : Unrounded → Unrounded → Bool
  | real x, real y => decide (x = y)
  | infinite negative, infinite negative' => negative == negative'
  | _, _ => false

protected def abs : Unrounded → Unrounded
  | real x => real |x|
  | infinite _ => infinite false
  | blank => blank

protected def sqrt : Unrounded → Unrounded
  | real x => if x < 0 then blank else real √x
  | infinite negative => if negative then blank else infinite false
  | blank => blank

/-- The angle of a point, given by its ordinate and its abscissa; infinite
coordinates of one size lie on a diagonal. -/
protected def angle : Unrounded → Unrounded → Unrounded
  | real y, real x => real (Complex.arg ⟨x, y⟩)
  | real y, infinite negative => real (if negative then (if y < 0 then -Real.pi else Real.pi) else 0)
  | infinite negative, real _ => real (if negative then -(Real.pi / 2) else Real.pi / 2)
  | infinite negative, infinite negative' =>
    let size := if negative' then 3 * Real.pi / 4 else Real.pi / 4
    real (if negative then -size else size)
  | blank, _ | _, blank => blank

instance : Element Unrounded where
  neg := Unrounded.neg
  add := Unrounded.add
  sub x y := Unrounded.add x (Unrounded.neg y)
  mul := Unrounded.mul
  div := Unrounded.div
  ofNat n := real n
  blank := blank
  isBlank
    | blank => true
    | _ => false
  isFinite
    | real _ => true
    | _ => false
  less := Unrounded.less
  same := Unrounded.same
  abs := Unrounded.abs
  sqrt := Unrounded.sqrt
  floor?
    | real x => some ⌊x⌋
    | _ => none

instance : Circular Unrounded where
  cosine k n := real (Real.cos (2 * Real.pi * k / n))
  sine k n := real (Real.sin (2 * Real.pi * k / n))
  angle := Unrounded.angle

/-- The real number, blanks and infinities as zero. -/
def toReal : Unrounded → ℝ
  | real x => x
  | _ => 0

end

variable (x y : ℝ) (n : ℕ)

@[simp] theorem neg_real : -real x = real (-x) := rfl
@[simp] theorem real_add : real x + real y = real (x + y) := rfl
@[simp] theorem real_sub : real x - real y = real (x - y) := congrArg real (sub_eq_add_neg x y).symm
@[simp] theorem real_mul : real x * real y = real (x * y) := rfl
@[simp] theorem ofNat_eq : (Element.ofNat n : Unrounded) = real n := rfl
@[simp] theorem zero_eq : (Element.zero : Unrounded) = real 0 := congrArg real Nat.cast_zero
@[simp] theorem one_eq : (Element.one : Unrounded) = real 1 := congrArg real Nat.cast_one
@[simp] theorem isBlank_real : Element.isBlank (real x) = false := rfl
@[simp] theorem isFinite_real : Element.isFinite (real x) = true := rfl
@[simp] theorem less_real : Element.less (real x) (real y) = decide (x < y) := rfl
@[simp] theorem same_real : Element.same (real x) (real y) = decide (x = y) := rfl
@[simp] theorem isInfinite_real : Element.isInfinite (real x) = false := rfl
@[simp] theorem abs_real : Element.abs (real x) = real |x| := rfl
@[simp] theorem toReal_real : (real x).toReal = x := rfl
@[simp] theorem toReal_blank : blank.toReal = 0 := rfl

variable {x y}

theorem real_div (hy : y ≠ 0) : real x / real y = real (x / y) := if_neg hy

theorem sqrt_real (hx : 0 ≤ x) : Element.sqrt (real x) = real √x := if_neg hx.not_gt

@[simp] theorem half_eq : (Element.half : Unrounded) = real (1 / 2) := by
  rw [Element.half, one_eq, ofNat_eq, Nat.cast_ofNat, real_div two_ne_zero]

end Unrounded
end VectorEngine
