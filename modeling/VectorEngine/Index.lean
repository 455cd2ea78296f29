/-
Index tokens.

A token names a position, counted from the vector's offset; `end`, the last
position; `++end`, the place after it, for writing; a range `first:last` of
positions or `end`, where a missing side means the first or last position; or
an aggregate such as `mean`, for reading.
-/
import VectorEngine.NameTable
import VectorEngine.Number.Decimal
import VectorEngine.Statistics
import VectorEngine.Text.Blank

namespace VectorEngine

/-- A value computed from all elements. -/
abbrev Aggregate := List Float → Float

/-- The aggregates a token may name. -/
abbrev Aggregates := NameTable Aggregate

/-- The aggregates every store starts with. -/
def Aggregates.initial : Aggregates := NameTable.ofList [
  ("min", Statistics.min),
  ("max", Statistics.max),
  ("mean", Statistics.mean),
  ("sum", Statistics.sum),
  ("prod", Statistics.product),
  ("median", Statistics.median)]

inductive IndexMode
  | read
  | write
deriving DecidableEq, Repr

/-- What a token stands for in a vector of a given length. -/
inductive Index
  | element (i : Nat)
  /-- The place after the last element. -/
  | append
  /-- All positions from `first` to `last`, backwards if `first` is larger. -/
  | range (first last : Nat)
  | aggregate (f : Aggregate)

namespace Index

/-- The positions meant, in the order they are visited. -/
def positions : Index → List Nat
  | element i => [i]
  | range first last =>
    if first ≤ last then List.range' first (last + 1 - first)
    else (List.range' last (first + 1 - last)).reverse
  | append | aggregate _ => []

/-- The lowest and the highest position meant. -/
def span? : Index → Option (Nat × Nat)
  | element i => some (i, i)
  | range first last => some (min first last, max first last)
  | append | aggregate _ => none

/-- The position a literal or `end` names, which may lie past the elements. A
literal less the offset is an integer of 64 bits again. -/
def place? (side : List Char) (length : Nat) (offset : Int) : Option Nat :=
  if String.ofList side = "end" then
    if length = 0 then none else some (length - 1)
  else
    match Decimal.readInt64? side with
    | some e => if offset ≤ e ∧ Decimal.isInt64 (e - offset) then some (e - offset).toNat else none
    | none => none

/-- The position of an existing element. -/
def element? (side : List Char) (length : Nat) (offset : Int) : Option Nat :=
  (place? side length offset).filter (· < length)

/-- One side of a range; a missing side means `default`. -/
def side? (side : List Char) (default length : Nat) (offset : Int) : Option Nat :=
  let trimmed := Text.trim side
  if trimmed = [] then some default else element? trimmed length offset

/-- The range between the sides of the first colon. -/
def range? (left right : List Char) (length : Nat) (offset : Int) : Option Index := do
  if length = 0 then none
  let first ← side? left 0 length offset
  let last ← side? right (length - 1) length offset
  return range first last

/-- A token without a colon. -/
def single? (aggregates : Aggregates) (token : List Char) (length : Nat) (offset : Int) (mode : IndexMode) :
    Option Index :=
  if String.ofList token = "++end" then
    if mode = .write then some append else none
  else
    match aggregates.find? (String.ofList token) with
    | some f => if mode = .read then some (aggregate f) else none
    | none => do
      let i ← place? token length offset
      if i < length then some (element i)
      else if mode = .write ∧ i = length then some append
      else none

/-- Resolves a token against a vector of `length` elements. -/
def resolve (aggregates : Aggregates) (token : String) (length : Nat) (offset : Int) (mode : IndexMode) :
    Except Error Index :=
  let trimmed := Text.trim token.toList
  let index? := match trimmed.dropWhile (· ≠ ':') with
    | _ :: right => range? (trimmed.takeWhile (· ≠ ':')) right length offset
    | [] => single? aggregates trimmed length offset mode
  match index? with
  | some index => .ok index
  | none => .error (.badIndex token)

end Index
end VectorEngine
