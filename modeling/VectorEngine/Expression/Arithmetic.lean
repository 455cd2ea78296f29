/-
What the operators compute.

All but the shifts work element by element, a vector of one element standing
against every element of the other operand. Where an operand is blank the
result is blank, and nothing can fail there.
-/
import VectorEngine.Error
import VectorEngine.Expression.Operator
import VectorEngine.Number.Decimal

namespace VectorEngine

def truth (b : Bool) : Float := if b then 1.0 else 0.0

/-- A finite number without a fraction. -/
def isWholeNumber (x : Float) : Bool :=
  match Exact.ofFloat? x with
  | some e => e.isWhole
  | none => false

def UnaryOp.apply (op : UnaryOp) (x : Float) : Float :=
  match op with
  | neg => -x
  | not => if x.isNaN then x else truth (x == 0.0)

namespace BinaryOp

/-- Division by zero is refused, and so are a negative power of zero and a
fractional power of a negative number. -/
def combine (op : BinaryOp) (a b : Float) : Except Error Float :=
  if a.isNaN || b.isNaN then .ok nan
  else
    match op with
    | add => .ok (a + b)
    | sub => .ok (a - b)
    | mul => .ok (a * b)
    | div => if b == 0.0 then .error .divideByZero else .ok (a / b)
    | mod => if b == 0.0 then .error .divideByZero else .ok (floatRemainder a b)
    | pow =>
      if a == 0.0 && b < 0.0 then .error .divideByZero
      else if a < 0.0 && !isWholeNumber b then .error (.mathDomain op.symbol a)
      else .ok (Float.pow a b)
    | less => .ok (truth (a < b))
    | lessEq => .ok (truth (a ≤ b))
    | greater => .ok (truth (a > b))
    | greaterEq => .ok (truth (a ≥ b))
    | equal => .ok (truth (a == b))
    | notEqual => .ok (truth (a != b))
    | and => .ok (truth (a != 0.0 && b != 0.0))
    | or => .ok (truth (a != 0.0 || b != 0.0))
    | shiftLeft | shiftRight => .error (.invalidArg op.symbol .elementwiseShift)

/-- A shift count: the integer part of a finite number, as near as 64 bits
hold it. -/
def shiftCount? (x : Float) : Option Int :=
  (Exact.ofFloat? x).map fun e => saturate 64 e.truncate

/-- Moves the first `k` values to the end. -/
def rotateLeft (values : List Float) (k : Nat) : List Float := values.drop k ++ values.take k

/-- Moves the last `k` values to the front. -/
def rotateRight (values : List Float) (k : Nat) : List Float := rotateLeft values (values.length - k)

/-- Rotates the values by a count modulo their number. -/
def rotate (op : BinaryOp) (values count : List Float) : Except Error (List Float) :=
  match count with
  | [c] =>
    match shiftCount? c with
    | none => .error (.mathDomain op.symbol c)
    | some count =>
      let k := (count % (values.length : Int)).toNat
      if values = [] then .ok []
      else .ok (if op = shiftLeft then rotateLeft values k else rotateRight values k)
  | _ => .error (.invalidArg op.symbol .vectorShiftCount)

/-- Applies an operator to two vectors. -/
def apply (op : BinaryOp) (a b : List Float) : Except Error (List Float) :=
  if op.isShift then op.rotate a b
  else
    match a, b with
    | a, [y] => a.mapM fun x => op.combine x y
    | [x], b => b.mapM fun y => op.combine x y
    | a, b =>
      if a.length = b.length then (a.zip b).mapM fun p => op.combine p.1 p.2
      else .error (.lengthMismatch a.length b.length)

end BinaryOp
end VectorEngine
