/-
Evaluating expressions.

Every intermediate value is a vector. Operands left to the host are asked for
from left to right, each once, whatever the operators around them; an
evaluation ends with the first operand or operator that fails.
-/
import VectorEngine.Expression.Arithmetic
import VectorEngine.Expression.Parser
import VectorEngine.Series

namespace VectorEngine

/-- What an expression asks of the program that embeds the engine. -/
inductive HostCall
  | script (text : String)
  | substitute (text : String)
deriving DecidableEq, Repr

/-- The embedding program: its answer to a call, given all calls before it. -/
abbrev Host := List HostCall → HostCall → Except Error String

/-- A host that runs no scripts and leaves quoted text as it is. -/
def Host.silent : Host := fun _ call =>
  match call with
  | .script text => .error (.invalidArg text .noInterpreter)
  | .substitute text => .ok text

/-- What an expression is evaluated against. -/
structure Scope where
  vector? : String → Option Series
  aggregates : Aggregates
  host : Host

/-- What evaluating leaves behind: the calls made to the host, in order, and
the generator its random numbers came from. -/
structure Traces where
  calls : List HostCall := []
  generator : Generator

/-- A computation that may fail; what it leaves behind is kept either way. -/
abbrev Evaluation := ExceptT Error (StateM Traces)

namespace Scope

def find (scope : Scope) (name : String) : Except Error Series :=
  match scope.vector? name with
  | some s => .ok s
  | none => .error (.notFound name)

/-- The values a text stands for: those of the vector of that name, or the
numbers it lists. -/
def readText (scope : Scope) (text : String) : Except Error (List Float) :=
  let trimmed := Text.trim text.toList
  match scope.vector? (String.ofList trimmed) with
  | some s => .ok s.values
  | none =>
    match (Text.words trimmed).mapM Decimal.readFloat? with
    | none => .error (.parse (.notValues (String.ofList trimmed)))
    | some [] => .error (.parse .emptyOperand)
    | some values => .ok values

/-- The elements an index token reads. -/
def readIndex (scope : Scope) (name index : String) : Except Error (List Float) := do
  let series ← scope.find name
  match ← series.readIndex scope.aggregates index with
  | .scalar x => return [x]
  | .list values => return values

/-- Asks the host. -/
def ask (scope : Scope) (call : HostCall) : Evaluation String := do
  let traces ← get
  set { traces with calls := traces.calls ++ [call] }
  scope.host traces.calls call

/-- Applies a function. -/
def apply (function : MathFunction) (values : List Float) : Evaluation (List Float) := do
  let traces ← get
  let (result, generator) := function.apply values traces.generator
  set { traces with generator := generator }
  result

end Scope

/-- The values of an expression. -/
def Tree.evaluate (scope : Scope) : Tree → Evaluation (List Float)
  | number x => return [x]
  | vector name => do return (← scope.find name).values
  | indexed name index => scope.readIndex name index
  | script text => do scope.readText (← scope.ask (.script text))
  | quoted text => do scope.readText (← scope.ask (.substitute text))
  | braced text => scope.readText text
  | unary op operand => do return (← operand.evaluate scope).map op.apply
  | binary op left right => do
    let a ← left.evaluate scope
    let b ← right.evaluate scope
    op.apply a b
  | call _ function arg => do Scope.apply function (← arg.evaluate scope)

/-- A parsed expression, kept with the text it was parsed from. -/
structure Expression where
  source : String
  tree : Tree

namespace Expression

def parse (source : String) (functions : FunctionTable) : Except Error Expression :=
  match Parser.parse source functions with
  | .ok tree => .ok ⟨source, tree⟩
  | .error why => .error (.parse why)

/-- Evaluates from some traces on: the values or the error, and the traces
afterwards. -/
def evaluate (e : Expression) (scope : Scope) (traces : Traces) : Except Error (List Float) × Traces :=
  (e.tree.evaluate scope).run.run traces

end Expression
end VectorEngine
