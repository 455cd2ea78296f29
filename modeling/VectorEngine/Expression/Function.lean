/-
The functions expressions can call.

A function is applied element by element, reduces a vector to one value, maps
whole vectors, or fills as many elements as it is given without looking at
them. Random numbers are drawn from a generator that stands for the one of the
embedding program: which words it gives is a parameter.
-/
import VectorEngine.NameTable
import VectorEngine.Sorting
import VectorEngine.Statistics

namespace VectorEngine

/-- The words a random generator gives in turn, for every seed. The generator
belongs to the embedding program. -/
abbrev RandomSource := UInt64 → Nat → UInt64

/-- A random generator under way: the words it gives, and how many were taken. -/
structure Generator where
  word : Nat → UInt64
  taken : Nat := 0

/-- A number in `[0, 1)`: the leading 53 bits of the next word as a fraction. -/
def Generator.next (g : Generator) : Float × Generator :=
  (Exact.ratioToFloat false (g.word g.taken >>> 11).toNat (Nat.pow 2 53), { g with taken := g.taken + 1 })

inductive MathFunction
  /-- Applied to every element; blanks pass through. -/
  | point (f : Float → Except Error Float)
  | scalar (f : List Float → Except Error Float)
  | vector (f : List Float → Except Error (List Float))
  | fill (f : Generator → Float × Generator)

namespace MathFunction

/-- One number for every element given. -/
def fillAll (f : Generator → Float × Generator) : List Float → Generator → List Float × Generator
  | [], g => ([], g)
  | _ :: rest, g =>
    let (x, g) := f g
    let (xs, g) := fillAll f rest g
    (x :: xs, g)

def apply (function : MathFunction) (values : List Float) (g : Generator) : Except Error (List Float) × Generator :=
  match function with
  | point f => (values.mapM fun x => if x.isNaN then .ok x else f x, g)
  | scalar f => ((f values).map fun x => [x], g)
  | vector f => (f values, g)
  | fill f =>
    let (xs, g) := fillAll f values g
    (.ok xs, g)

/-- A function defined on all numbers. -/
def total (f : Float → Float) : MathFunction := point fun x => .ok (f x)

/-- A function defined where `inside` holds. -/
def on (name : String) (inside : Float → Bool) (f : Float → Float) : MathFunction :=
  point fun x => if inside x then .ok (f x) else .error (.mathDomain name x)

def statistic (s : Statistic) : MathFunction := scalar fun values => .ok (s.evaluate values)

def mapping (f : List Float → List Float) : MathFunction := vector fun values => .ok (f values)

end MathFunction

/-- The functions by name. -/
abbrev FunctionTable := NameTable MathFunction

/-- The functions every store starts with. -/
def FunctionTable.initial : FunctionTable :=
  let unit (x : Float) : Bool := !(1.0 < x.abs)
  let positive (x : Float) : Bool := !(x ≤ 0.0)
  NameTable.ofList [
    ("abs", .total Float.abs),
    ("acos", .on "acos" unit Float.acos),
    ("asin", .on "asin" unit Float.asin),
    ("atan", .total Float.atan),
    ("ceil", .total Float.ceil),
    ("cos", .total Float.cos),
    ("cosh", .total Float.cosh),
    ("exp", .total Float.exp),
    ("floor", .total Float.floor),
    ("log", .on "log" positive Float.log),
    ("log10", .on "log10" positive Float.log10),
    ("round", .total Float.round),
    ("sin", .total Float.sin),
    ("sinh", .total Float.sinh),
    ("sqrt", .on "sqrt" (fun x => !(x < 0.0)) Float.sqrt),
    ("tan", .total Float.tan),
    ("tanh", .total Float.tanh),
    ("adev", .statistic .meanDeviation),
    ("kurtosis", .statistic .kurtosis),
    ("length", .scalar fun values => .ok (Float.ofNat values.length)),
    ("max", .statistic .max),
    ("mean", .statistic .mean),
    ("median", .statistic .median),
    ("min", .statistic .min),
    ("prod", .statistic .product),
    ("q1", .statistic .lowerQuartile),
    ("q3", .statistic .upperQuartile),
    ("sdev", .statistic .deviation),
    ("skew", .statistic .skewness),
    ("sum", .statistic .sum),
    ("var", .statistic .variance),
    ("norm", .mapping Statistics.normalize),
    ("sort", .mapping sortElements),
    ("nz", .mapping fun values => (ElementClass.nonzero.positions values).map Float.ofNat),
    ("random", .fill Generator.next)]

end VectorEngine
