/-
The store of named vectors.

Vectors live in numbered slots. A slot is used again after its vector is
destroyed, under the next generation, so an id kept past that point names no
vector. The free slots form a stack.
-/
import VectorEngine.Expression.Lexer
import VectorEngine.Expression.Function
import VectorEngine.Series

namespace VectorEngine

/-- A slot and the generation of the vector in it. -/
structure VectorId where
  index : Nat
  generation : UInt32
deriving DecidableEq, Repr

def VectorId.text (id : VectorId) : String :=
  "vector#" ++ toString id.index ++ "." ++ toString id.generation.toNat

/-- When a change is told to the clients of a vector. -/
inductive NotifyPolicy
  | never
  | always
  /-- Once, at the next idle pass, however many changes there were. -/
  | onIdle
deriving DecidableEq, Repr

def NotifyPolicy.ofString : String → Except Error NotifyPolicy
  | "never" => .ok never
  | "always" => .ok always
  | "whenidle" | "idle" => .ok onIdle
  | other => .error (.invalidArg other .unknownPolicy)

inductive NotifyState
  | idle
  /-- A flush waits in the idle queue. -/
  | pending
  /-- The clients are being called. -/
  | notifying
deriving DecidableEq, Repr

/-- A client registration. -/
structure ClientId where
  number : Nat
deriving DecidableEq, Repr

def ClientId.text (c : ClientId) : String := "client" ++ toString c.number

/-- A registered client; one that does not listen is counted and not called. -/
structure Client where
  id : ClientId
  listens : Bool
deriving DecidableEq, Repr

structure NamedVector where
  name : String
  series : Series
  policy : NotifyPolicy
  state : NotifyState := .idle
  /-- In the order of registration. -/
  clients : List Client := []
  destroying : Bool := false
  /-- A fan-out to the clients is under way. -/
  notifying : Bool := false
deriving DecidableEq, Repr

structure Slot where
  generation : UInt32 := 0
  vector : Option NamedVector := none
deriving DecidableEq, Repr

structure StoreConfig where
  defaultCapacity : Nat := Buffer.baseCapacity
  policy : NotifyPolicy := .onIdle
  seed : UInt64 := 0
deriving DecidableEq, Repr

structure Store where
  config : StoreConfig := {}
  slots : List Slot := []
  /-- The slots without a vector, the one used next in front. -/
  free : List Nat := []
  names : NameTable VectorId := .empty
  /-- The vector each live registration belongs to. -/
  links : List (ClientId × VectorId) := []
  /-- Flushes waiting for an idle pass, cancelled ones included. -/
  queue : List VectorId := []
  functions : FunctionTable := .initial
  aggregates : Aggregates := .initial
  /-- The number of the next registration. Like `nextName` it grows without end,
  where a word of 64 bits starts again after `2^64` of them. -/
  nextClient : Nat := 1
  /-- The first number to try for a generated name. -/
  nextName : Nat := 1

namespace Store

/-- An empty store. -/
def ofConfig (config : StoreConfig) : Except Error Store :=
  if config.defaultCapacity = 0 then .error (.input (.invalidArgument "default_capacity" .zeroCapacity))
  else .ok { config := config }

/-- The vector an id names. -/
def get? (s : Store) (id : VectorId) : Option NamedVector :=
  match s.slots[id.index]? with
  | some slot => if slot.generation = id.generation then slot.vector else none
  | none => none

def get (s : Store) (id : VectorId) : Except Error NamedVector :=
  match s.get? id with
  | some v => .ok v
  | none => .error (.notFound id.text)

def contains (s : Store) (id : VectorId) : Bool := (s.get? id).isSome

def lookup (s : Store) (name : String) : Except Error VectorId :=
  match s.names.find? name with
  | some id => .ok id
  | none => .error (.notFound name)

def lookupAll (s : Store) (names : List String) : Except Error (List VectorId) := names.mapM s.lookup

def lookup? (s : Store) (name? : Option String) : Except Error (Option VectorId) :=
  match name? with
  | some name => some <$> s.lookup name
  | none => .ok none

/-- The vector of a name. -/
def vector? (s : Store) (name : String) : Option NamedVector := s.names.find? name >>= s.get?

/-- Replaces the vector of an id by its image. -/
def modify (s : Store) (id : VectorId) (f : NamedVector → NamedVector) : Store :=
  match s.get? id with
  | some v => { s with slots := s.slots.set id.index ⟨id.generation, some (f v)⟩ }
  | none => s

/-- Changes the contents of a vector and tells nobody. -/
def edit (s : Store) (id : VectorId) (change : Series → Except Error Series) : Except Error Store := do
  let v ← s.get id
  let series ← change v.series
  return s.modify id fun v => { v with series := series }

/-- The extrema of a vector, and the store that remembers them. -/
def readExtrema (s : Store) (id : VectorId) : Except Error (Extrema × Store) := do
  let (extrema, series) := (← s.get id).series.readExtrema
  return (extrema, s.modify id fun v => { v with series := series })

/-! ## Creation -/

/-- Why a vector cannot be given a name. -/
def nameRefusal? (s : Store) (name : String) : Option Refusal :=
  if !Lexer.isName name then some .notAName
  else if s.names.contains name then some .nameTaken
  else if s.functions.contains name then some .nameOfFunction
  else none

def generatedName (i : Nat) : String := "vector" ++ toString i

/-- The first number from `i` on whose generated name is no vector's. Of
`tries + 1` numbers one is such, if there are at most `tries` names. -/
def freeNumber (s : Store) : (tries i : Nat) → Nat
  | 0, i => i
  | tries + 1, i => if s.names.contains (generatedName i) then s.freeNumber tries (i + 1) else i

/-- The name for a new vector; a number is never used for two of them. -/
def chooseName (s : Store) : Option String → Store × Except Error String
  | some name =>
    match s.nameRefusal? name with
    | some why => (s, .error (.invalidArg name why))
    | none => (s, .ok name)
  | none =>
    let i := s.freeNumber s.names.size s.nextName
    ({ s with nextName := i + 1 }, .ok (generatedName i))

/-- There are fewer slots than this. -/
def maxSlots : Nat := Nat.pow 2 32

/-- Puts a vector into a free slot, or into a new one. -/
def place (s : Store) (v : NamedVector) : Except Error (Store × VectorId) :=
  match s.free with
  | index :: free =>
    let id : VectorId := ⟨index, (s.slots.getD index {}).generation⟩
    .ok ({ s with
      slots := s.slots.set index ⟨id.generation, some v⟩
      free := free
      names := s.names.insert v.name id }, id)
  | [] =>
    let index := s.slots.length
    if maxSlots ≤ index then .error (.outOfMemory (index + 1))
    else
      let id : VectorId := ⟨index, 0⟩
      .ok ({ s with
        slots := s.slots ++ [⟨0, some v⟩]
        names := s.names.insert v.name id }, id)

/-- Creates an empty vector, under a generated name if none is given. A number
taken for a name stays taken when the creation fails. -/
def create (s : Store) (name? : Option String) : Store × Except Error VectorId :=
  match s.chooseName name? with
  | (s, .error e) => (s, .error e)
  | (s, .ok name) =>
    let placed := do
      let series ← Series.withCapacity s.config.defaultCapacity
      s.place { name := name, series := series, policy := s.config.policy }
    match placed with
    | .ok (s, id) => (s, .ok id)
    | .error e => (s, .error e)

/-- Removes a vector: its name is free again, its clients are no longer linked
to it, and its slot is free under the next generation. -/
def retire (s : Store) (id : VectorId) : Store :=
  match s.slots[id.index]? with
  | none => s
  | some slot =>
    let s := { s with
      slots := s.slots.set id.index ⟨slot.generation + 1, none⟩
      free := id.index :: s.free }
    match slot.vector with
    | none => s
    | some v => { s with
        names := s.names.erase v.name
        links := s.links.filter fun l => !v.clients.any (·.id == l.1) }

end Store
end VectorEngine
