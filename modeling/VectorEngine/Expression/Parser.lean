/-
From tokens to expressions.

Binary operators bind, loosest first, as `precedence` lists them, all of them
to the left; the unary operators bind tighter than any binary one. Operands may
nest to a depth of 100, where a parenthesis, a call and a unary operator each
count one, and a tree may be 1000 nodes high.
-/
import VectorEngine.Expression.Lexer
import VectorEngine.Expression.Tree

namespace VectorEngine.Parser

def maxNesting : Nat := 100

def maxHeight : Nat := 1000

/-- The binary operators by level, loosest first. -/
def precedence : List (List BinaryOp) := [
  [.or],
  [.and],
  [.equal, .notEqual],
  [.less, .lessEq, .greater, .greaterEq],
  [.shiftLeft, .shiftRight],
  [.add, .sub],
  [.mul, .div, .mod],
  [.pow]]

/-- A tree read off the front of some tokens, its height, and the tokens after
it, which are fewer. -/
structure Parsed (tokens : List Token) where
  tree : Tree
  height : Nat
  rest : List Token
  shorter : rest.length < tokens.length

/-- Reads a tree off the front of the tokens. -/
abbrev Rule := (tokens : List Token) → Except SyntaxError (Parsed tokens)

/-- The height of a node over operands of this height, if it is not too high. -/
def taller (height : Nat) : Except SyntaxError Nat :=
  if height < maxHeight then .ok (height + 1) else .error .tooDeep

/-- The operator a token stands for on a level. -/
def operator? (operators : List BinaryOp) : Token → Option BinaryOp
  | .op o => if o ∈ operators then some o else none
  | _ => none

/-- What a level has read so far; of the tokens there are no more left than
there were. -/
structure Chain (tokens : List Token) where
  tree : Tree
  height : Nat
  rest : List Token
  noLonger : rest.length ≤ tokens.length

/-- Extends `tree` to the left operand of every operator of the level that
follows. -/
def chain (operators : List BinaryOp) (next : Rule) (tree : Tree) (height : Nat) (tokens : List Token) :
    Except SyntaxError (Chain tokens) :=
  match tokens with
  | [] => .ok ⟨tree, height, [], Nat.le_refl _⟩
  | token :: rest =>
    match operator? operators token with
    | none => .ok ⟨tree, height, token :: rest, Nat.le_refl _⟩
    | some o => do
      let right ← next rest
      let height ← taller (max height right.height)
      let all ← chain operators next (.binary o tree right.tree) height right.rest
      return ⟨all.tree, all.height, all.rest, by
        have := all.noLonger; have := right.shorter
        simp only [List.length_cons]; omega⟩
termination_by tokens.length
decreasing_by
  have := right.shorter
  simp only [List.length_cons]; omega

/-- One level of binary operators, with operands read by `next`. -/
def level (operators : List BinaryOp) (next : Rule) : Rule := fun tokens => do
  let first ← next tokens
  let all ← chain operators next first.tree first.height first.rest
  return ⟨all.tree, all.height, all.rest, Nat.lt_of_le_of_lt all.noLonger first.shorter⟩

/-- All levels over an operand. -/
def expression (operand : Rule) : Rule := precedence.foldr level operand

/-- An expression and the parenthesis that closes it. -/
def enclosed (operand : Rule) : Rule := fun tokens => do
  let inner ← expression operand tokens
  match h : inner.rest with
  | .closing :: rest =>
    return ⟨inner.tree, inner.height, rest, by
      have := inner.shorter
      rw [h] at this
      simp only [List.length_cons] at this; omega⟩
  | rest => .error (.expected .closing rest.head?)

/-- A tree without operands, made of the first token. -/
def leaf (tree : Tree) (token : Token) (rest : List Token) : Except SyntaxError (Parsed (token :: rest)) :=
  .ok ⟨tree, 1, rest, by simp⟩

/-- A node over an operand that was read after some tokens. -/
def node (wrap : Tree → Tree) {tokens inner : List Token} (h : inner.length ≤ tokens.length)
    (operand : Parsed inner) : Except SyntaxError (Parsed tokens) := do
  let height ← taller operand.height
  return ⟨wrap operand.tree, height, operand.rest, Nat.lt_of_lt_of_le operand.shorter h⟩

/-- All tokens of a text read as one expression. -/
def whole (operand : Rule) (source : String) : Except SyntaxError (Tree × Nat) := do
  let tokens ← Lexer.tokenize source
  if tokens = [] then .error .emptyExpression
  let parsed ← expression operand tokens
  match parsed.rest with
  | [] => return (parsed.tree, parsed.height)
  | extra :: _ => .error (.trailing extra source)

/-- An operand with at most `budget` operands nested in each other, this one
included. The argument a token carries as text is read like a text of its
own. -/
def operand (functions : FunctionTable) : Nat → Rule
  | 0, _ => .error .tooDeep
  | budget + 1, tokens =>
    match tokens with
    | .op .sub :: rest => do node (.unary .neg) (by simp) (← operand functions budget rest)
    | .not :: rest => do node (.unary .not) (by simp) (← operand functions budget rest)
    | .number x :: rest => leaf (.number x) _ rest
    | .opening :: rest => do
      let inner ← enclosed (operand functions budget) rest
      return ⟨inner.tree, inner.height, inner.rest, Nat.lt_succ_of_lt inner.shorter⟩
    | .name name :: rest =>
      match functions.find? name, rest with
      | some function, .opening :: rest => do
        node (.call name function) (by simp only [List.length_cons]; omega) (← enclosed (operand functions budget) rest)
      | _, rest => leaf (.vector name) _ rest
    | .call name args :: rest =>
      match functions.find? name with
      | some function => do
        let (arg, height) ← whole (operand functions budget) args
        return ⟨.call name function arg, ← taller height, rest, by simp⟩
      | none => leaf (.indexed name args) _ rest
    | .script text :: rest => leaf (.script text) _ rest
    | .quoted text :: rest => leaf (.quoted text) _ rest
    | .braced text :: rest => leaf (.braced text) _ rest
    | tokens => .error (.noOperand tokens.head?)

/-- The expression a text is. -/
def parse (source : String) (functions : FunctionTable) : Except SyntaxError Tree :=
  (·.1) <$> whole (operand functions maxNesting) source

end VectorEngine.Parser
