/-
What can go wrong, and how it is told.

An error is its cause; `Error.message` is the only place where causes become
text.
-/
import VectorEngine.Expression.Token

namespace VectorEngine

/-- Why an argument was refused. -/
inductive Refusal
  | notAName
  | nameTaken
  | nameOfFunction
  | unknownPolicy
  | unknownAction
  | unknownFormat
  | unknownOrder
  | unknownClass
  /-- `count` bytes do not make whole elements of the format. -/
  | partialElement (count : Nat) (format : String)
  | emptyAsInteger
  | badStep
  | unboundedSequence
  | stepAway
  | sharedOutput
  | noTarget
  | unevenSplit (values targets : Nat)
  | repeatedTarget
  | elementwiseShift
  | vectorShiftCount
  | noInterpreter
  | zeroCapacity
  | badSpacing
  /-- A reason given by the embedding program. -/
  | host (text : String)
deriving DecidableEq, Repr

def Refusal.message : Refusal → String
  | notAName => "not a valid vector name"
  | nameTaken => "a vector by that name already exists"
  | nameOfFunction => "name is a math function"
  | unknownPolicy => "expected one of never, always, whenidle"
  | unknownAction => "expected one of always, never, whenidle, now, cancel, pending"
  | unknownFormat => "expected one of i1 i2 i4 i8 u1 u2 u4 u8 r4 r8"
  | unknownOrder => "expected little, big or native"
  | unknownClass => "expected one of empty, zero, nonzero, nonempty"
  | partialElement count format => toString count ++ " bytes is not a whole number of " ++ format ++ " elements"
  | emptyAsInteger => "empty elements can't be stored as integers"
  | badStep => "step must be finite and non-zero"
  | unboundedSequence => "sequence bounds must be finite"
  | stepAway => "step moves away from stop"
  | sharedOutput => "each output needs its own vector"
  | noTarget => "at least one target is required"
  | unevenSplit values targets =>
    toString values ++ " values do not split evenly into " ++ toString targets ++ " vectors"
  | repeatedTarget => "each target must be distinct"
  | elementwiseShift => "shifts apply to whole vectors"
  | vectorShiftCount => "shift count must be a scalar"
  | noInterpreter => "no interpreter to evaluate scripts"
  | zeroCapacity => "default capacity must be > 0"
  | badSpacing => "sample spacing must be finite and > 0"
  | host text => text

/-- Why a calculation refused its inputs. -/
inductive InputError
  | lengthMismatch (arg : String) (expected got : Nat)
  | aliased (arg : String)
  | emptyInput (arg : String)
  | invalidArgument (arg : String) (why : Refusal)
  | nonContiguous (arg : String)
deriving DecidableEq, Repr

def InputError.message : InputError → String
  | lengthMismatch arg expected got =>
    "Length mismatch on `" ++ arg ++ "`. Expected " ++ toString expected ++ ", got " ++ toString got ++ "."
  | aliased arg => "Destination `" ++ arg ++ "` must differ from its source."
  | emptyInput arg => "Input `" ++ arg ++ "` was empty."
  | invalidArgument arg why => "Invalid argument `" ++ arg ++ "`: " ++ why.message
  | nonContiguous arg => "Argument `" ++ arg ++ "` is not contiguous in memory."

inductive Error
  /-- An index token that is malformed or out of range. -/
  | badIndex (token : String)
  /-- Operands of unequal lengths, neither of them a scalar. -/
  | lengthMismatch (left right : Nat)
  /-- An argument outside the domain of a function or operator. -/
  | mathDomain (func : String) (value : Float)
  | divideByZero
  | outOfMemory (requested : Nat)
  | parse (why : SyntaxError)
  /-- No vector has the name, or the id written out. -/
  | notFound (name : String)
  | invalidArg (arg : String) (why : Refusal)
  | input (why : InputError)
deriving DecidableEq, Repr

def Error.message : Error → String
  | badIndex token => "bad index \"" ++ token ++ "\""
  | lengthMismatch left right =>
    "vectors are different lengths (" ++ toString left ++ " vs " ++ toString right ++ ")"
  | mathDomain func value =>
    "domain error: argument " ++ FloatText.plain value ++ " not in valid range for \"" ++ func ++ "\""
  | divideByZero => "divide by zero"
  | outOfMemory requested => "can't allocate storage for " ++ toString requested ++ " elements"
  | parse why => "syntax error in expression: " ++ why.message
  | notFound name => "can't find vector \"" ++ name ++ "\""
  | invalidArg arg why => "Invalid argument `" ++ arg ++ "`: " ++ why.message
  | input why => why.message

end VectorEngine
