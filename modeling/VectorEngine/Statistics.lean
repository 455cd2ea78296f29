/-
Statistics over the elements of a vector.

Every statistic sees only the finite elements. Sums are compensated: the part
of each term that rounding lost is subtracted from the next one.
-/
import VectorEngine.Element
import VectorEngine.Error

namespace VectorEngine
namespace Statistics

variable {α : Type} [Element α]

open Element

/-- The elements that count: neither blank nor infinite. -/
def finite (y : List α) : List α := y.filter isFinite

/-- A running sum, and what rounding has added to it beyond its terms. -/
structure Running (α : Type) where
  sum : α
  excess : α

def Running.add (r : Running α) (v : α) : Running α :=
  let term := v - r.excess
  let sum := r.sum + term
  ⟨sum, (sum - r.sum) - term⟩

/-- The compensated sum of all elements, blanks and infinities included. -/
def total (y : List α) : α := (y.foldl Running.add ⟨zero, zero⟩).sum

def sum (y : List α) : α := total (finite y)

/-- One for a vector without finite elements. -/
def product (y : List α) : α := (finite y).foldl (· * ·) one

/-- Blank for a vector without finite elements. -/
def mean (y : List α) : α :=
  let n := (finite y).length
  if n = 0 then blank else sum y / ofNat n

/-- The finite elements less their mean. -/
def deviations (y : List α) : List α :=
  let average := mean y
  (finite y).map (· - average)

/-- The sample variance, over one less than the number of elements. -/
def variance (y : List α) : α :=
  let n := (finite y).length
  if n < 2 then zero else total ((deviations y).map fun d => d * d) / ofNat (n - 1)

def deviation (y : List α) : α :=
  let v := variance y
  if less zero v then sqrt v else zero

/-- The mean distance from the mean. -/
def meanDeviation (y : List α) : α :=
  let n := (finite y).length
  if n < 2 then zero else total ((deviations y).map Element.abs) / ofNat n

/-- The third standardised moment. -/
def skewness (y : List α) : α :=
  let n := (finite y).length
  let v := variance y
  if n < 2 || same v zero then zero
  else total ((deviations y).map fun d => d * d * d) / (ofNat n * v * sqrt v)

/-- The fourth standardised moment, less the 3 of a normal distribution. -/
def kurtosis (y : List α) : α :=
  let n := (finite y).length
  let v := variance y
  if n < 2 || same v zero then zero
  else total ((deviations y).map fun d => d * d * d * d) / (ofNat n * v * v) - ofNat 3

def lesser (a b : α) : α := if less b a then b else a

def greater (a b : α) : α := if less a b then b else a

/-- The smallest finite element; blank when there is none. -/
def min (y : List α) : α :=
  match finite y with
  | [] => blank
  | a :: rest => rest.foldl lesser a

/-- The largest finite element; blank when there is none. -/
def max (y : List α) : α :=
  match finite y with
  | [] => blank
  | a :: rest => rest.foldl greater a

/-- The finite elements in ascending order. -/
def sortedFinite (y : List α) : List α := (finite y).mergeSort fun a b => !less b a

/-- A place in a sorted list: an element, or halfway between two neighbours. -/
inductive Cut
  | element (i : Nat)
  | between (i : Nat)
deriving DecidableEq, Repr

/-- The positions a cut looks at. -/
def Cut.positions : Cut → List Nat
  | element i => [i]
  | between i => [i, i + 1]

def Cut.read (sorted : List α) : Cut → α
  | element i => sorted.getD i blank
  | between i => (sorted.getD i blank + sorted.getD (i + 1) blank) * half

/-- Where the median of `n` sorted elements lies, for `n` other than 0. -/
def medianCut (n : Nat) : Cut :=
  let mid := (n - 1) / 2
  if n % 2 = 1 then .element mid else .between mid

/-- Where the first quartile lies. Fewer than four elements have it at the
smallest; else the parity of the middle position decides. -/
def lowerCut (n : Nat) : Cut :=
  if n < 4 then .element 0
  else
    let mid := (n - 1) / 2
    if mid % 2 = 1 then .element (mid / 2) else .between (mid / 2)

/-- Where the third quartile lies. Fewer than four elements have it at the
largest. -/
def upperCut (n : Nat) : Cut :=
  if n < 4 then .element (n - 1)
  else
    let mid := (n - 1) / 2
    if mid % 2 = 1 then .element ((n + mid) / 2) else .between ((n + mid) / 2)

/-- Reads a cut off the sorted finite elements; blank when there are none. -/
def cut (place : Nat → Cut) (y : List α) : α :=
  let sorted := sortedFinite y
  if sorted.length = 0 then blank else (place sorted.length).read sorted

def median (y : List α) : α := cut medianCut y

def lowerQuartile (y : List α) : α := cut lowerCut y

def upperQuartile (y : List α) : α := cut upperCut y

/-- The elements rescaled so that the finite ones range over `[0, 1]`. They
stay as they are when the finite ones do not differ, or lie so far apart that
their distance is no finite number. -/
def normalize (y : List α) : List α :=
  let low := min y
  let range := max y - low
  if !isFinite range || same range zero then y else y.map fun v => (v - low) / range

end Statistics

/-- The statistics a vector can be asked for. -/
inductive Statistic
  | sum
  | product
  | mean
  | variance
  | deviation
  | meanDeviation
  | skewness
  | kurtosis
  | median
  | lowerQuartile
  | upperQuartile
  | min
  | max
deriving DecidableEq, Repr

def Statistic.evaluate {α : Type} [Element α] : Statistic → List α → α
  | sum => Statistics.sum
  | product => Statistics.product
  | mean => Statistics.mean
  | variance => Statistics.variance
  | deviation => Statistics.deviation
  | meanDeviation => Statistics.meanDeviation
  | skewness => Statistics.skewness
  | kurtosis => Statistics.kurtosis
  | median => Statistics.median
  | lowerQuartile => Statistics.lowerQuartile
  | upperQuartile => Statistics.upperQuartile
  | min => Statistics.min
  | max => Statistics.max

/-- The classes elements can be counted by. -/
inductive ElementClass
  | empty
  | zero
  | nonzero
  | nonempty
deriving DecidableEq, Repr

namespace ElementClass

variable {α : Type} [Element α]

def contains : ElementClass → α → Bool
  | empty, v => Element.isBlank v
  | zero, v => Element.same v Element.zero
  | nonzero, v => !Element.isBlank v && !Element.same v Element.zero
  | nonempty, v => !Element.isBlank v

/-- How many elements belong to the class. -/
def count (c : ElementClass) (y : List α) : Nat := y.countP c.contains

/-- The positions of the elements that belong to the class. -/
def positions (c : ElementClass) (y : List α) : List Nat :=
  (y.zipIdx.filter fun p => c.contains p.1).map Prod.snd

/-- The class a word names; leading dashes are not looked at. -/
def ofString (s : String) : Except Error ElementClass :=
  match String.ofList (s.toList.dropWhile (· = '-')) with
  | "empty" => .ok empty
  | "zero" => .ok zero
  | "nonzero" => .ok nonzero
  | "nonempty" => .ok nonempty
  | other => .error (.invalidArg other .unknownClass)

end ElementClass
end VectorEngine
