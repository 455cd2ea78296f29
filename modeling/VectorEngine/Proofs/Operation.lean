/-
What can be done to a series.

The engine changes the contents of a vector through operations only, and reads
its extrema in between. A property that new series have and every operation and
reading keeps is `Lasting`; it holds of whatever has become of a series.
-/
import VectorEngine.Interpolation

namespace VectorEngine.Series

/-- What can be done to a series. -/
inductive Operation
  | setValues (values : List Float)
  | setLength (n : Nat)
  | changeLength (n : Nat)
  | setCapacity (n : Nat)
  | append (values : List Float)
  | setOffset (offset : Int)
  | clear
  | set (i : Nat) (x : Float)
  | fill (first last : Nat) (x : Float)
  | removeSpan (first last : Nat)
  /-- Writes over the values in place. -/
  | rewrite (f : Nat → Float → Float)
  | splice (values : List Float) (at? : Option Nat)
  | fillSequence (start stop step : Float)
  | writeIndex (aggregates : Aggregates) (token : String) (x : Float)
  | unsetIndex (aggregates : Aggregates) (token : String)
  | deleteIndices (aggregates : Aggregates) (tokens : List String)
  | invalidate

def Operation.apply : Operation → Series → Except Error Series
  | setValues values, s => s.setValues values
  | setLength n, s => s.setLength n
  | changeLength n, s => s.changeLength n
  | setCapacity n, s => s.setCapacity n
  | append values, s => s.append values
  | setOffset offset, s => s.setOffset offset
  | clear, s => s.clear
  | set i x, s => s.set i x
  | fill first last x, s => s.fill first last x
  | removeSpan first last, s => s.removeSpan first last
  | rewrite f, s => .ok (s.withBuffer (s.buffer.write 0 (s.values.mapIdx f)))
  | splice values at?, s => s.splice values at?
  | fillSequence start stop step, s => s.fillSequence start stop step
  | writeIndex aggregates token x, s => s.writeIndex aggregates token x
  | unsetIndex aggregates token, s => s.unsetIndex aggregates token
  | deleteIndices aggregates tokens, s => s.deleteIndices aggregates tokens
  | invalidate, s => .ok s.invalidate

/-- What happens to a series: an operation, or a reading of the extrema. -/
inductive Use
  | change (o : Operation)
  | read

/-- The series afterwards. An operation that fails leaves it as it is. -/
def use (s : Series) : Use → Series
  | .change o =>
    match o.apply s with
    | .ok s' => s'
    | .error _ => s
  | .read => s.readExtrema.2

def uses (s : Series) (us : List Use) : Series := us.foldl use s

/-- The change is made of operations and readings. -/
def MadeOfUses (change : Series → Except Error Series) : Prop := ∀ t t', change t = .ok t' → ∃ us, t' = t.uses us

/-- New series have the property, and nothing done to a series loses it. -/
structure Lasting (P : Series → Prop) : Prop where
  new : ∀ {capacity s}, withCapacity capacity = .ok s → P s
  use : ∀ {s}, P s → ∀ u, P (s.use u)

variable {s s' : Series} {P : Series → Prop}

/-- To replace every value by its image is one way to write over them. -/
theorem apply_rewrite (f : Float → Float) (s : Series) : (Operation.rewrite fun _ => f).apply s = s.mapValues f := by
  have hvalues : s.values.mapIdx (fun _ => f) = s.values.map f :=
    List.ext_getElem (by simp) fun i _ _ => by simp
  show Except.ok (s.withBuffer (s.buffer.write 0 (s.values.mapIdx fun _ => f))) = _
  rw [hvalues]
  rfl

theorem use_of_apply {o : Operation} (h : o.apply s = .ok s') : s.use (.change o) = s' := by
  rw [use, h]

theorem uses_append (s : Series) (us us' : List Use) : s.uses (us ++ us') = (s.uses us).uses us' := List.foldl_append

namespace Lasting

variable (hP : Lasting P)

include hP

theorem uses (hs : P s) (us : List Use) : P (s.uses us) := by
  induction us generalizing s with
  | nil => exact hs
  | cons u us ih => exact ih (hP.use hs u)

theorem apply {o : Operation} (hs : P s) (h : o.apply s = .ok s') : P s' := use_of_apply h ▸ hP.use hs (.change o)

theorem invalidate (hs : P s) : P s.invalidate := hP.use hs (.change .invalidate)

theorem readExtrema (hs : P s) : P s.readExtrema.2 := hP.use hs .read

end Lasting
end VectorEngine.Series
