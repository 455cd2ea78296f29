/-
Commands: the operations of the engine as an interpreter's user names them,
with vectors referred to by name.
-/
import VectorEngine.Expression.Arithmetic
import VectorEngine.Store.Combine

namespace VectorEngine

/-- What a notification command does. -/
inductive NotifyAction
  | policy (p : NotifyPolicy)
  | now
  | cancel
  /-- Tell whether a flush is pending. -/
  | pending
deriving DecidableEq, Repr

def NotifyAction.ofString (s : String) : Except Error NotifyAction :=
  match s with
  | "now" => .ok now
  | "cancel" => .ok cancel
  | "pending" => .ok pending
  | other =>
    match NotifyPolicy.ofString other with
    | .ok p => .ok (policy p)
    | .error _ => .error (.invalidArg other .unknownAction)

inductive Command
  /-- Create a vector, with `length?` blank elements. -/
  | create (name? : Option String) (length? : Option Nat)
  | destroy (names : List String)
  | names
  | set (name : String) (values : List Float)
  | append (name : String) (values : List Float)
  | values (name : String)
  /-- Read the length, or set it exactly. -/
  | length (name : String) (length? : Option Nat)
  /-- Read the offset, or set it. -/
  | offset (name : String) (offset? : Option Int)
  | clear (name : String)
  /-- Remove the elements index tokens name. -/
  | delete (name : String) (indices : List String)
  | index (name index : String)
  | setIndex (name index : String) (value : Float)
  | unset (name index : String)
  /-- Read the range between two index tokens. -/
  | range (name first last : String)
  | dup (source target : String)
  | merge (target : String) (sources : List String)
  | split (source : String) (targets : List String)
  | normalize (name : String) (target? : Option String)
  | search (name : String) (low : Float) (high? : Option Float)
  | sequence (name : String) (start stop step : Float)
  | populate (target source : String) (density : Nat)
  | count (name : String) (elements : ElementClass)
  | indices (name : String) (elements : ElementClass)
  | sort (keys companions : List String) (options : SortOptions)
  /-- Evaluate an expression, and keep the values in `target?`. -/
  | expression (target? : Option String) (source : String)
  | spectrum (source : String) (outputs : SpectrumOutputs String) (options : SpectrumOptions Float)
  | signal (real : String) (imag? : Option String) (targetReal : String) (targetImag? : Option String)
      (includesConstant : Bool)
  | notify (name : String) (action : NotifyAction)
  | readBlock (name : String) (bytes : List UInt8) (format : NumberFormat) (order : ByteOrder) (at? : Option Nat)
  | writeBlock (name : String) (format : NumberFormat) (order : ByteOrder) (skipEmpty : Bool)
  | statistic (name : String) (statistic : Statistic)
deriving DecidableEq, Repr

namespace Store

/-- A reply without any change. -/
def replying (s : Store) (r : Reply) : Store × List Task := (s, [.answer (.reply r)])

/-- The tasks that end a command with nothing to tell. -/
def quietly : List Task := [.answer (.reply .empty)]

/-- Changes the vector of a name. -/
def changing (s : Store) (name : String) (change : Series → Except Error Series) :
    Except Error (Store × List Task) := do
  s.updating (← s.lookup name) change quietly

def lookupOutputs (s : Store) (o : SpectrumOutputs String) : Except Error (SpectrumOutputs VectorId) := do
  return {
    real := ← s.lookup? o.real
    imag := ← s.lookup? o.imag
    magnitude := ← s.lookup? o.magnitude
    phase := ← s.lookup? o.phase
    frequency := ← s.lookup? o.frequency }

def notifying (s : Store) (id : VectorId) : NotifyAction → Except Error (Store × List Task)
  | .policy p => do return (← s.setPolicy id p, quietly)
  | .now => do
    let (s, d?) ← s.notifyNow id
    return (s, Task.delivering d? quietly)
  | .cancel => do return ((← s.cancelNotify id).1, quietly)
  | .pending => do return s.replying (.scalar (truth (← s.isPending id)))

/-- Creates a vector with a length; if the length cannot be had, the vector is
removed again. -/
def createWithLength (s : Store) (name? : Option String) (length? : Option Nat) :
    Store × Except Error (List Task) :=
  match s.create name? with
  | (s, .error e) => (s, .error e)
  | (s, .ok id) =>
    let named : List Task := match s.get? id with
      | some v => [.answer (.reply (.name v.name))]
      | none => []
    match length? with
    | none => (s, .ok named)
    | some length =>
      match s.updating id (Series.setLength length) named with
      | .ok (s, tasks) => (s, .ok tasks)
      | .error e => (s.retire id, .error e)

/-- Begins a command other than `create` and `expression`, which change more
than the store when they fail. -/
def begin (s : Store) : Command → Except Error (Store × List Task)
  | .create .. | .expression .. => .ok (s, [])
  | .destroy names => do return (s, [.destroyNamed (← s.lookupAll names)])
  | .names => .ok (s.replying (.names s.names.names))
  | .set name values => s.changing name (Series.setValues values)
  | .append name values => s.changing name (Series.append values)
  | .values name => do return s.replying (.list (← s.valuesOf (← s.lookup name)))
  | .length name none => do
    return s.replying (.scalar (Float.ofNat (← s.get (← s.lookup name)).series.length))
  | .length name (some n) => do
    let id ← s.lookup name
    s.updating id (Series.setLength n) [.answerLength id]
  | .offset name none => do
    return s.replying (.scalar (Exact.intToFloat (← s.get (← s.lookup name)).series.offset))
  | .offset name (some offset) => do
    let id ← s.lookup name
    s.updating id (Series.setOffset offset) [.answerOffset id]
  | .clear name => s.changing name Series.clear
  | .delete name indices => s.changing name (Series.deleteIndices s.aggregates indices)
  | .index name index => do
    let series := (← s.get (← s.lookup name)).series
    return s.replying (.ofIndexValue (← series.readIndex s.aggregates index))
  | .setIndex name index value => s.changing name (Series.writeIndex s.aggregates index value)
  | .unset name index => s.changing name (Series.unsetIndex s.aggregates index)
  | .range name first last => do
    let series := (← s.get (← s.lookup name)).series
    return s.replying (.ofIndexValue (← series.readIndex s.aggregates (first ++ ":" ++ last)))
  | .dup source target => do s.dup (← s.lookup source) (← s.lookup target) quietly
  | .merge target sources => do s.merge (← s.lookup target) (← s.lookupAll sources) quietly
  | .split source targets => do s.split (← s.lookup source) (← s.lookupAll targets) quietly
  | .normalize name target? => do s.normalize (← s.lookup name) (← s.lookup? target?) quietly
  | .search name low high? => do return s.replying (.ofPositions (← s.search (← s.lookup name) low high?))
  | .sequence name start stop step => s.changing name (Series.fillSequence start stop step)
  | .populate target source density => do
    let target ← s.lookup target
    let source ← s.lookup source
    s.populate target source density quietly
  | .count name c => do
    return s.replying (.scalar (Float.ofNat (c.count (← s.valuesOf (← s.lookup name)))))
  | .indices name c => do return s.replying (.ofPositions (← s.indices (← s.lookup name) c))
  | .sort keys companions options => do
    s.sort (← s.lookupAll keys) (← s.lookupAll companions) options fun _ => quietly
  | .spectrum source outputs options => do
    s.spectrum (← s.lookup source) (← s.lookupOutputs outputs) options fun _ => quietly
  | .signal real imag? targetReal targetImag? includesConstant => do
    let real ← s.lookup real
    let imag? ← s.lookup? imag?
    let targetReal ← s.lookup targetReal
    let targetImag? ← s.lookup? targetImag?
    s.signal real imag? targetReal targetImag? includesConstant quietly
  | .notify name action => do s.notifying (← s.lookup name) action
  | .readBlock name bytes format order at? => do
    s.readBlock (← s.lookup name) bytes format order at? fun n => [.answer (.reply (.scalar (Float.ofNat n)))]
  | .writeBlock name format order skipEmpty => do
    return s.replying (.bytes (← Block.encode (← s.valuesOf (← s.lookup name)) format order skipEmpty))
  | .statistic name statistic => do
    return s.replying (.scalar (statistic.evaluate (← s.valuesOf (← s.lookup name))))

end Store
end VectorEngine
