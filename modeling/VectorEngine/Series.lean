/-
The contents of a vector: its values, the bias of its indices, and the extrema
remembered since the last change.

An operation that fails leaves the series it was given in use.
-/
import VectorEngine.Buffer
import VectorEngine.Index

namespace VectorEngine

/-- The smallest and the largest finite value, blank when there is none. -/
structure Extrema where
  min : Float
  max : Float
deriving DecidableEq, Repr

def Extrema.ofValues (values : List Float) : Extrema := ⟨Statistics.min values, Statistics.max values⟩

/-- The value, or values, an index token reads. -/
inductive IndexValue
  | scalar (x : Float)
  /-- The elements of a range, in the order they are visited. -/
  | list (values : List Float)
deriving DecidableEq, Repr

structure Series where
  buffer : Buffer := {}
  /-- Subtracted from the positions index tokens name. -/
  offset : Int := 0
  /-- Unknown since the last change until they are asked for. -/
  extrema : Option Extrema := none
deriving DecidableEq, Repr

namespace Series

def values (s : Series) : List Float := s.buffer.values

def length (s : Series) : Nat := s.buffer.length

/-- An empty series with room for `capacity` values. -/
def withCapacity (capacity : Nat) : Except Error Series := do
  return { buffer := ← Buffer.withCapacity capacity }

/-- The extrema, and the series that remembers them. -/
def readExtrema (s : Series) : Extrema × Series :=
  let e := s.extrema.getD (.ofValues s.values)
  (e, { s with extrema := some e })

/-- Forgets the extrema. -/
def invalidate (s : Series) : Series := { s with extrema := none }

/-- Changes the buffer, and with it the extrema. -/
def withBuffer (s : Series) (b : Buffer) : Series := { s with buffer := b, extrema := none }

def get? (s : Series) (i : Nat) : Option Float := s.values[i]?

def setValues (values : List Float) (s : Series) : Except Error Series := s.withBuffer <$> s.buffer.assign values

def setLength (n : Nat) (s : Series) : Except Error Series := s.withBuffer <$> s.buffer.setLength n

def changeLength (n : Nat) (s : Series) : Except Error Series := s.withBuffer <$> s.buffer.changeLength n

def setCapacity (n : Nat) (s : Series) : Except Error Series := s.withBuffer <$> s.buffer.setCapacity n

def append (values : List Float) (s : Series) : Except Error Series := s.withBuffer <$> s.buffer.extend values

def setOffset (offset : Int) (s : Series) : Except Error Series := .ok { s with offset := offset }

def clear (s : Series) : Except Error Series := .ok (s.withBuffer s.buffer.clear)

/-- Writes one value; the place after the last one appends it. -/
def set (i : Nat) (x : Float) (s : Series) : Except Error Series :=
  if i > s.length then .error (.badIndex (toString i))
  else do
    let b ← if i = s.length then s.buffer.changeLength (s.length + 1) else .ok s.buffer
    return s.withBuffer (b.write i [x])

/-- There are positions from `first` to `last`. -/
def hasSpan (s : Series) (first last : Nat) : Bool := first ≤ last && last < s.length

def spanToken (first last : Nat) : String := toString first ++ ":" ++ toString last

def fill (first last : Nat) (x : Float) (s : Series) : Except Error Series :=
  if s.hasSpan first last then
    .ok (s.withBuffer (s.buffer.write first (List.replicate (last + 1 - first) x)))
  else
    .error (.badIndex (spanToken first last))

def removeSpan (first last : Nat) (s : Series) : Except Error Series :=
  if s.hasSpan first last then .ok (s.withBuffer (s.buffer.removeSpan first last))
  else .error (.badIndex (spanToken first last))

/-- Replaces every value by its image. -/
def mapValues (f : Float → Float) (s : Series) : Except Error Series :=
  .ok (s.withBuffer (s.buffer.write 0 (s.values.map f)))

/-- Puts values in from position `at?` on, by default after the last value,
growing the series as needed. -/
def splice (values : List Float) (at? : Option Nat) (s : Series) : Except Error Series :=
  let start := at?.getD s.length
  if start > s.length then .error (.badIndex (toString start))
  else do
    let stop := start + values.length
    let b ← if stop > s.length then s.buffer.changeLength stop else .ok s.buffer
    return s.withBuffer (b.write start values)

/-! ## Access by index token -/

def resolve (s : Series) (aggregates : Aggregates) (token : String) (mode : IndexMode) : Except Error Index :=
  Index.resolve aggregates token s.length s.offset mode

/-- Reads the element, range or aggregate a token names. -/
def readIndex (s : Series) (aggregates : Aggregates) (token : String) : Except Error IndexValue := do
  match ← s.resolve aggregates token .read with
  | .element i => return .scalar (s.values.getD i nan)
  | .aggregate f => return .scalar (f s.values)
  | .range first last => return .list (Element.pick s.values (Index.range first last).positions)
  | .append => .error (.badIndex token)

/-- Writes the element a token names, or every element of its range. -/
def writeIndex (aggregates : Aggregates) (token : String) (x : Float) (s : Series) : Except Error Series := do
  match ← s.resolve aggregates token .write with
  | .element i => s.set i x
  | .append => s.set s.length x
  | .range first last => s.fill (min first last) (max first last) x
  | .aggregate _ => .error (.badIndex token)

/-- The span of the element or range a token names. -/
def readSpan (s : Series) (aggregates : Aggregates) (token : String) : Except Error (Nat × Nat) := do
  match (← s.resolve aggregates token .read).span? with
  | some span => return span
  | none => .error (.badIndex token)

/-- Removes the element or range a token names. -/
def unsetIndex (aggregates : Aggregates) (token : String) (s : Series) : Except Error Series := do
  let (low, high) ← s.readSpan aggregates token
  s.removeSpan low high

/-- The values outside all the spans. -/
def valuesOutside (s : Series) (spans : List (Nat × Nat)) : List Float :=
  (s.values.zipIdx.filter fun p => !spans.any fun span => span.1 ≤ p.2 && p.2 ≤ span.2).map Prod.fst

/-- Removes the elements and ranges the tokens name. All tokens are resolved
before anything is removed. -/
def deleteIndices (aggregates : Aggregates) (tokens : List String) (s : Series) : Except Error Series := do
  let spans ← tokens.mapM (s.readSpan aggregates)
  s.setValues (s.valuesOutside spans)

end Series
end VectorEngine
