/-
Growable storage: a run of slots of which the first `length` are visible.

Every slot past the visible ones is blank, so growing the length never shows a
value that was there before. The number of slots is the capacity.

Whether there is storage for more slots is for the allocator to say, and
`slotLimit` stands for its answer: requests of `2^57` slots, which are `2^60`
bytes, and more are refused, smaller ones are met. A machine refuses sooner, but
what follows a refusal is the same wherever it comes. Theorems about operations
that ask for storage cover both answers, or suppose the one they need; and all
positions of a buffer fit a word.
-/
import VectorEngine.Error

namespace VectorEngine

structure Buffer where
  slots : List Float := []
  length : Nat := 0
deriving DecidableEq, Repr

namespace Buffer

/-- The capacity growth by doubling starts from. -/
def baseCapacity : Nat := 64

/-- No storage can be had for this many slots or more: the allocator's answer. -/
def slotLimit : Nat := Nat.pow 2 57

/-- Sizes are counted in words of 64 bits. -/
def sizeLimit : Nat := Nat.pow 2 64

/-- The request that stands for a size no word can count. -/
def unbounded : Nat := sizeLimit - 1

def empty : Buffer := {}

/-- A buffer whose slots are all visible. -/
def ofValues (values : List Float) : Buffer := ⟨values, values.length⟩

/-- A buffer of one value. -/
def scalar (x : Float) : Buffer := ofValues [x]

def capacity (b : Buffer) : Nat := b.slots.length

/-- The visible values. -/
def values (b : Buffer) : List Float := b.slots.take b.length

def isEmpty (b : Buffer) : Bool := b.length == 0

def isScalar (b : Buffer) : Bool := b.length == 1

def blanks (n : Nat) : List Float := List.replicate n nan

/-- `slots` with `values` in place of as many slots from `start` on. -/
def overwrite (slots : List Float) (start : Nat) (values : List Float) : List Float :=
  slots.take start ++ values ++ slots.drop (start + values.length)

/-- Changes the number of slots; fewer slots than values cut the values. -/
def setCapacity (b : Buffer) (n : Nat) : Except Error Buffer :=
  if b.capacity < n then
    if slotLimit ≤ n then .error (.outOfMemory n)
    else .ok { b with slots := b.slots ++ blanks (n - b.capacity) }
  else if n < b.capacity then
    .ok ⟨b.slots.take n, min b.length n⟩
  else
    .ok b

def withCapacity (n : Nat) : Except Error Buffer := empty.setCapacity n

/-- Makes `n` slots visible, blanking those that appear and those that vanish. -/
def expose (b : Buffer) (n : Nat) : Buffer :=
  ⟨overwrite b.slots (min n b.length) (blanks (max n b.length - min n b.length)), n⟩

/-- Sets the length; a capacity that is too small becomes exactly the length. -/
def setLength (b : Buffer) (n : Nat) : Except Error Buffer := do
  let grown ← if b.capacity < n then b.setCapacity n else .ok b
  return grown.expose n

/-- The least doubling of `capacity` that holds `n` slots, if a word can count
it. -/
def doubledFrom (n capacity : Nat) : Option Nat :=
  if n ≤ capacity then some capacity
  else if capacity = 0 ∨ sizeLimit ≤ 2 * capacity then none
  else doubledFrom n (2 * capacity)
termination_by n - capacity

/-- The capacity that growing to `n` slots asks for. -/
def grownCapacity (n : Nat) : Except Error Nat :=
  match doubledFrom n baseCapacity with
  | some capacity => .ok capacity
  | none => .error (.outOfMemory n)

/-- Sets the length; a capacity that is too small grows by doubling. -/
def changeLength (b : Buffer) (n : Nat) : Except Error Buffer := do
  let grown ← if b.capacity < n then grownCapacity n >>= b.setCapacity else .ok b
  return grown.expose n

/-- Puts values in place of the visible ones from `start` on. -/
def write (b : Buffer) (start : Nat) (values : List Float) : Buffer :=
  { b with slots := overwrite b.slots start values }

def extend (b : Buffer) (values : List Float) : Except Error Buffer := do
  let longer ← b.changeLength (b.length + values.length)
  return longer.write b.length values

def push (b : Buffer) (x : Float) : Except Error Buffer := b.extend [x]

/-- Replaces the visible values. -/
def assign (b : Buffer) (values : List Float) : Except Error Buffer := do
  let sized ← b.changeLength values.length
  return sized.write 0 values

/-- Drops the values and keeps the slots. -/
def clear (b : Buffer) : Buffer := b.expose 0

/-- Removes the values from `first` to `last`; the values after them move down.
Nothing is removed unless `first ≤ last < length`. -/
def removeSpan (b : Buffer) (first last : Nat) : Buffer :=
  if first ≤ last ∧ last < b.length then
    let removed := last - first + 1
    let kept := b.values.take first ++ b.values.drop (last + 1)
    ⟨overwrite b.slots 0 (kept ++ blanks removed), b.length - removed⟩
  else
    b

/-- Equality as numbers of all slots, blank ones included: as no blank equals
another, a buffer with a blank slot differs even from itself. -/
def same (a b : Buffer) : Bool := a.slots == b.slots && a.length == b.length

end Buffer
end VectorEngine
