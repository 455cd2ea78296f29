/-
Parsed expressions.
-/
import VectorEngine.Expression.Function
import VectorEngine.Expression.Operator

namespace VectorEngine

/-- An expression. Functions are held as they were when it was parsed. -/
inductive Tree
  | number (x : Float)
  | vector (name : String)
  /-- Elements of a vector, by an index token. -/
  | indexed (name index : String)
  | script (text : String)
  | quoted (text : String)
  | braced (text : String)
  | unary (op : UnaryOp) (operand : Tree)
  | binary (op : BinaryOp) (left right : Tree)
  | call (name : String) (function : MathFunction) (arg : Tree)

/-- How many nodes lie on the longest way down. -/
def Tree.height : Tree → Nat
  | unary _ operand => operand.height + 1
  | binary _ left right => max left.height right.height + 1
  | call _ _ arg => arg.height + 1
  | _ => 1

end VectorEngine
