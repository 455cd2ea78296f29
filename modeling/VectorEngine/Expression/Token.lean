/-
The tokens of an expression, and what can be wrong with one.
-/
import VectorEngine.Expression.Operator
import VectorEngine.Number.FloatText
import VectorEngine.Text.Quoted

namespace VectorEngine

inductive Token
  | number (x : Float)
  | name (text : String)
  /-- A name directly followed by a parenthesised argument, which is kept as
  text: `v(2:5)` or `sin(x + 1)`. -/
  | call (name args : String)
  /-- `[text]`, run by the host. -/
  | script (text : String)
  /-- `"text"`, substituted by the host. -/
  | quoted (text : String)
  /-- `{text}`, taken as it is. -/
  | braced (text : String)
  | op (o : BinaryOp)
  | not
  | opening
  | closing
deriving DecidableEq, Repr

namespace Token

/-- The token as messages show it. -/
def describe : Token → String
  | number x => "Num(" ++ FloatText.literal x ++ ")"
  | name s => "Ident(" ++ Text.quote s ++ ")"
  | call n a => "Call \x7b name: " ++ Text.quote n ++ ", args: " ++ Text.quote a ++ " \x7d"
  | script s => "Script(" ++ Text.quote s ++ ")"
  | quoted s => "Quoted(" ++ Text.quote s ++ ")"
  | braced s => "Braced(" ++ Text.quote s ++ ")"
  | op o => o.title
  | not => "Not"
  | opening => "LParen"
  | closing => "RParen"

/-- The next token, or the end of the text. -/
def describe? : Option Token → String
  | some t => "Some(" ++ t.describe ++ ")"
  | none => "None"

end Token

/-- Why a text is no expression, or an operand no list of numbers. -/
inductive SyntaxError
  | unclosed (delimiter : String)
  | badNumber (text : String)
  | strayCharacter (c : Char)
  | emptyExpression
  | trailing (token : Token) (source : String)
  | expected (token : Token) (found : Option Token)
  | noOperand (found : Option Token)
  | tooDeep
  | notValues (text : String)
  | emptyOperand
deriving DecidableEq, Repr

def SyntaxError.message : SyntaxError → String
  | unclosed d => "missing closing " ++ d
  | badNumber s => "invalid number \"" ++ s ++ "\""
  | strayCharacter c => "unexpected character '" ++ c.toString ++ "'"
  | emptyExpression => "empty expression"
  | trailing t s => "unexpected " ++ t.describe ++ " in \"" ++ s ++ "\""
  | expected t found => "expected " ++ t.describe ++ ", got " ++ Token.describe? found
  | noOperand found => "expected an operand, got " ++ Token.describe? found
  | tooDeep => "expression nested too deeply"
  | notValues s => "\"" ++ s ++ "\" is not a vector or list of numbers"
  | emptyOperand => "empty operand"

end VectorEngine
