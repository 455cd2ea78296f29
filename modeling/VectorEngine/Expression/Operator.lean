/-
The operators of the expression language.
-/
namespace VectorEngine

inductive UnaryOp
  | neg
  | not
deriving DecidableEq, Repr

inductive BinaryOp
  | pow
  | mul
  | div
  | mod
  | add
  | sub
  | shiftLeft
  | shiftRight
  | less
  | lessEq
  | greater
  | greaterEq
  | equal
  | notEqual
  | and
  | or
deriving DecidableEq, Repr

namespace BinaryOp

/-- How the operator is written. -/
def symbol : BinaryOp → String
  | pow => "^"
  | mul => "*"
  | div => "/"
  | mod => "%"
  | add => "+"
  | sub => "-"
  | shiftLeft => "<<"
  | shiftRight => ">>"
  | less => "<"
  | lessEq => "<="
  | greater => ">"
  | greaterEq => ">="
  | equal => "=="
  | notEqual => "!="
  | and => "&&"
  | or => "||"

/-- What messages call the operator. -/
def title : BinaryOp → String
  | pow => "Caret"
  | mul => "Star"
  | div => "Slash"
  | mod => "Percent"
  | add => "Plus"
  | sub => "Minus"
  | shiftLeft => "Shl"
  | shiftRight => "Shr"
  | less => "Lt"
  | lessEq => "Le"
  | greater => "Gt"
  | greaterEq => "Ge"
  | equal => "Eq"
  | notEqual => "Ne"
  | and => "And"
  | or => "Or"

/-- The shifts move whole vectors; every other operator works element by
element. -/
def isShift : BinaryOp → Bool
  | shiftLeft | shiftRight => true
  | _ => false

end BinaryOp
end VectorEngine
