/-
Operations on several vectors at once.

Each computes everything it writes before it writes anything, and writes to all
its targets before any change is noted: a failure leaves every vector as it
was, unless the room runs out between two targets, and the first client called
sees all the new values.
-/
import VectorEngine.Interpolation
import VectorEngine.Signal.Spectrum
import VectorEngine.Store.Task

namespace VectorEngine

/-- The values of the columns row by row, for columns of one length. -/
def interleave (columns : List (List Float)) : List Float :=
  let slots := columns.map List.toArray
  (List.range (columns.headD []).length).flatMap fun row => slots.map fun column => column.getD row nan

/-- Every `count`-th value from position `k` on, when `count` divides their
number. -/
def deal (values : List Float) (count k : Nat) : List Float :=
  Element.pick values ((List.range (values.length / count)).map fun row => row * count + k)

/-- Where the parts of a spectrum go; a part without a place is dropped. -/
structure SpectrumOutputs (β : Type) where
  real : Option β := none
  imag : Option β := none
  magnitude : Option β := none
  phase : Option β := none
  frequency : Option β := none
deriving DecidableEq, Repr

/-- The places by the name of their part. -/
def SpectrumOutputs.named {β : Type} (o : SpectrumOutputs β) : List (String × β) :=
  [("real", o.real), ("imag", o.imag), ("spectrum", o.magnitude), ("phase", o.phase),
    ("frequencies", o.frequency)].filterMap fun (arg, place?) => place?.map fun place => (arg, place)

/-- The parts of a spectrum that have a place, with it. -/
def SpectrumOutputs.writes {β : Type} (o : SpectrumOutputs β) (x : Spectrum Float) : List (β × List Float) :=
  [(o.real, x.real), (o.imag, x.imag), (o.magnitude, x.magnitude), (o.phase, x.phase),
    (o.frequency, x.frequency)].filterMap fun (place?, values) => place?.map fun place => (place, values)

/-- The first output that an earlier one goes to as well. -/
def repeatedOutput? : (seen : List VectorId) → List (String × VectorId) → Option String
  | _, [] => none
  | seen, (arg, id) :: rest => if id ∈ seen then some arg else repeatedOutput? (id :: seen) rest

/-- No output goes to a source, and no two go to the same vector. -/
def checkOutputs (sources : List VectorId) (outputs : List (String × VectorId)) : Except Error Unit :=
  match outputs.find? fun o => sources.contains o.2 with
  | some (arg, _) => .error (.input (.aliased arg))
  | none =>
    match repeatedOutput? [] outputs with
    | some arg => .error (.invalidArg arg .sharedOutput)
    | none => .ok ()

def InputError.lift {β : Type} : Except InputError β → Except Error β
  | .ok x => .ok x
  | .error e => .error (.input e)

namespace Store

def valuesOf (s : Store) (id : VectorId) : Except Error (List Float) := do return (← s.get id).series.values

/-- All ids name vectors. -/
def getAll (s : Store) (ids : List VectorId) : Except Error Unit := ids.forM fun id => do
  let _ ← s.get id

/-- Changes one vector, notes the change, and goes on with `tasks`. -/
def updating (s : Store) (id : VectorId) (change : Series → Except Error Series) (tasks : List Task) :
    Except Error (Store × List Task) := do
  let (s, d?) ← s.update id change
  return (s, Task.delivering d? tasks)

/-- Writes to several vectors in turn, up to the first that has no room, which
ends it with an error. -/
def writeAll (s : Store) : List (VectorId × List Float) → Store × Option Error
  | [] => (s, none)
  | (id, values) :: rest =>
    match s.edit id (Series.setValues values) with
    | .ok s => s.writeAll rest
    | .error e => (s, some e)

/-- Writes to several vectors, notes the changes, and goes on with `tasks`. What
was written before the room ran out stays. -/
def writing (s : Store) (writes : List (VectorId × List Float)) (tasks : List Task) : Store × List Task :=
  match s.writeAll writes with
  | (s, none) => (s, .markEach (writes.map (·.1)) :: tasks)
  | (s, some e) => (s, [.refuse e])

/-- Copies `source` to `target`. Copying a vector to itself changes nothing. -/
def dup (s : Store) (source target : VectorId) (tasks : List Task) : Except Error (Store × List Task) := do
  let values ← s.valuesOf source
  let _ ← s.get target
  if source = target then return (s, tasks)
  else s.updating target (Series.setValues values) tasks

/-- Interleaves the values of the sources, which have one length. -/
def merge (s : Store) (target : VectorId) (sources : List VectorId) (tasks : List Task) :
    Except Error (Store × List Task) := do
  let columns ← sources.mapM s.valuesOf
  let rows := (columns.headD []).length
  match columns.find? fun c => c.length != rows with
  | some odd => .error (.lengthMismatch rows odd.length)
  | none => s.updating target (Series.setValues (interleave columns)) tasks

/-- Deals the values of `source` to the targets in turn. -/
def split (s : Store) (source : VectorId) (targets : List VectorId) (tasks : List Task) :
    Except Error (Store × List Task) := do
  if targets = [] then .error (.invalidArg "targets" .noTarget)
  let values ← s.valuesOf source
  let count := targets.length
  if values.length % count ≠ 0 then .error (.invalidArg "targets" (.unevenSplit values.length count))
  if ¬targets.Nodup then .error (.invalidArg "targets" .repeatedTarget)
  s.getAll targets
  return s.writing (targets.zipIdx.map fun (id, k) => (id, deal values count k)) tasks

/-- Rescales `id` to `[0, 1]`, in place or into `target?`. -/
def normalize (s : Store) (id : VectorId) (target? : Option VectorId) (tasks : List Task) :
    Except Error (Store × List Task) := do
  let values ← s.valuesOf id
  s.updating (target?.getD id) (Series.setValues (Statistics.normalize values)) tasks

/-- Fills `target` with the values of `source` and `density` points in every
gap. -/
def populate (s : Store) (target source : VectorId) (density : Nat) (tasks : List Task) :
    Except Error (Store × List Task) := do
  let values ← Interpolation.populate (← s.valuesOf source) density
  s.updating target (Series.setValues values) tasks

/-- Sorts the rows of `keys` and reorders the companions along with them. Every
vector is permuted once, however often it is listed. `tasks` may look at the
permutation. -/
def sort (s : Store) (keys companions : List VectorId) (options : SortOptions) (tasks : List Nat → List Task) :
    Except Error (Store × List Task) := do
  let columns ← keys.mapM s.valuesOf
  let order ← InputError.lift (sortRows options columns)
  let rows := (columns.headD []).length
  let writes ← (keys ++ companions).eraseDups.mapM fun id => do
    let values ← s.valuesOf id
    if values.length = rows then return (id, Element.pick values order)
    else .error (.lengthMismatch rows values.length)
  return s.writing writes (tasks order)

/-- Writes the spectrum of `source`. `tasks` may look at the padded length. -/
def spectrum (s : Store) (source : VectorId) (outputs : SpectrumOutputs VectorId) (options : SpectrumOptions Float)
    (tasks : Nat → List Task) : Except Error (Store × List Task) := do
  checkOutputs [source] outputs.named
  s.getAll (outputs.named.map (·.2))
  InputError.lift options.check
  let spectrum ← InputError.lift (Spectrum.ofSignal options (← s.valuesOf source))
  return s.writing (outputs.writes spectrum) (tasks spectrum.padded)

/-- Writes the signal of the half spectrum with these parts. -/
def signal (s : Store) (real : VectorId) (imag? : Option VectorId) (targetReal : VectorId)
    (targetImag? : Option VectorId) (includesConstant : Bool) (tasks : List Task) :
    Except Error (Store × List Task) := do
  let targets := ("real", targetReal) :: (targetImag?.map fun id => ("imag", id)).toList
  checkOutputs (real :: imag?.toList) targets
  s.getAll (targets.map (·.2))
  let imag ← match imag? with
    | some id => some <$> s.valuesOf id
    | none => .ok none
  let half ← InputError.lift (HalfSpectrum.ofParts includesConstant (← s.valuesOf real) imag)
  let signal := half.signal
  return s.writing ((targetReal, signal.map (·.re)) :: (targetImag?.map fun id => (id, signal.map (·.im))).toList)
    tasks

/-- Decodes a block into a vector from position `at?` on, by default after its
values. -/
def readBlock (s : Store) (id : VectorId) (bytes : List UInt8) (format : NumberFormat) (order : ByteOrder)
    (at? : Option Nat) (tasks : Nat → List Task) : Except Error (Store × List Task) := do
  let values ← Block.decode bytes format order
  s.updating id (Series.splice values at?) (tasks values.length)

/-- The positions of a vector's elements as index tokens name them. -/
def external (offset : Int) (positions : List Nat) : List Int := positions.map fun (p : Nat) => (p : Int) + offset

/-- Where the values between two bounds are; without `high?`, those equal to
`low`. -/
def search (s : Store) (id : VectorId) (low : Float) (high? : Option Float) : Except Error (List Int) := do
  let series := (← s.get id).series
  return external series.offset (series.search low (high?.getD low))

/-- Where the elements of a class are. -/
def indices (s : Store) (id : VectorId) (c : ElementClass) : Except Error (List Int) := do
  let series := (← s.get id).series
  return external series.offset (c.positions series.values)

end Store
end VectorEngine
