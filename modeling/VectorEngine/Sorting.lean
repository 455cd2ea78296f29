/-
Sorting rows by several keys.

A row is a position shared by key vectors of one length. Rows are compared key
by key, the first difference deciding, and sorted stably: rows that are equal
on every key keep their order, whatever the direction.
-/
import VectorEngine.Element
import VectorEngine.Error

namespace VectorEngine

variable {α : Type} [Element α]

open Element

/-- Blanks come after every number and are equal to each other. -/
def compareElements (a b : α) : Ordering :=
  match isBlank a, isBlank b with
  | true, true => .eq
  | true, false => .gt
  | false, true => .lt
  | false, false => if less a b then .lt else if less b a then .gt else .eq

/-- The elements in increasing order, blanks last. -/
def sortElements (y : List α) : List α := y.mergeSort fun a b => compareElements a b != .gt

/-- Key vectors, and the direction of the sort. -/
structure SortKeys (α : Type) where
  keys : List (Array α)
  decreasing : Bool

namespace SortKeys

/-- There is at least one key, and all have the same length. -/
def ofKeys (keys : List (List α)) (decreasing : Bool) : Except InputError (SortKeys α) :=
  match keys with
  | [] => .error (.emptyInput "keys")
  | first :: _ =>
    match keys.find? fun k => k.length != first.length with
    | some odd => .error (.lengthMismatch "keys" first.length odd.length)
    | none => .ok ⟨keys.map List.toArray, decreasing⟩

/-- How many rows there are. -/
def rows (s : SortKeys α) : Nat := (s.keys.headD #[]).size

/-- Compares two rows, whatever the direction. -/
def compareRows (s : SortKeys α) (a b : Nat) : Ordering :=
  s.keys.foldr (fun key rest => (compareElements (key.getD a blank) (key.getD b blank)).then rest) .eq

/-- Compares two rows in the direction of the sort. -/
def compare (s : SortKeys α) (a b : Nat) : Ordering :=
  if s.decreasing then (s.compareRows a b).swap else s.compareRows a b

/-- The rows in sorted order. -/
def order (s : SortKeys α) : List Nat := (List.range s.rows).mergeSort fun a b => s.compare a b != .gt

/-- The rows of `order` that are not equal to the row kept before them. -/
def distinctAfter (s : SortKeys α) (kept : Nat) : List Nat → List Nat
  | [] => []
  | row :: rest =>
    if s.compareRows kept row = .eq then s.distinctAfter kept rest else row :: s.distinctAfter row rest

/-- The first row of every run of equal rows. -/
def distinct (s : SortKeys α) : List Nat → List Nat
  | [] => []
  | row :: rest => row :: s.distinctAfter row rest

end SortKeys

/-- How to sort: the direction, and whether equal rows collapse to one. -/
structure SortOptions where
  decreasing : Bool := false
  unique : Bool := false
deriving DecidableEq, Repr

/-- The rows of `keys` in the order asked for. -/
def sortRows (options : SortOptions) (keys : List (List α)) : Except InputError (List Nat) := do
  let s ← SortKeys.ofKeys keys options.decreasing
  return if options.unique then s.distinct s.order else s.order

end VectorEngine
