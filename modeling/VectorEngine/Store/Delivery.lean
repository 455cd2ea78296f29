/-
Fan-outs: telling the clients of a vector about an event, one after the other.

The engine does not call clients itself. A fan-out stops at each client that
listens and goes on when its call has returned; in between, the client may have
done anything to the store. It reaches those of the clients registered at its
start that still are when their turn comes.
-/
import VectorEngine.Store.Client

namespace VectorEngine

inductive EventKind
  | updated
  | destroyed
deriving DecidableEq, Repr

/-- What a client is told: the vector concerned, and what happened to it. -/
structure ClientEvent where
  server : VectorId
  kind : EventKind
deriving DecidableEq, Repr

/-- A fan-out under way. -/
structure Delivery where
  event : ClientEvent
  /-- The clients whose turn has not come. -/
  waiting : List Client
  /-- A fan-out of the same vector was under way when this one started. -/
  nested : Bool
  reached : Nat := 0
deriving DecidableEq, Repr

/-- The next client that listens among those waiting that are registered, with
those after it, and how many have been reached, that one included. -/
def Delivery.nextListener (registered : List Client) :
    List Client → Nat → Option (ClientId × List Client) × Nat
  | [], reached => (none, reached)
  | c :: waiting, reached =>
    if registered.any (·.id == c.id) then
      if c.listens then (some (c.id, waiting), reached + 1)
      else nextListener registered waiting (reached + 1)
    else nextListener registered waiting reached

/-- How a fan-out goes on. -/
inductive Delivery.Step
  /-- The client is to be called; the fan-out goes on afterwards. -/
  | call (client : ClientId) (afterwards : Delivery)
  | ended (reached : Nat)

namespace Store

/-- Starts a fan-out to the clients registered now. -/
def beginDelivery (s : Store) (id : VectorId) (kind : EventKind) : Store × Option Delivery :=
  match s.get? id with
  | none => (s, none)
  | some v =>
    (s.modify id fun v => { v with state := .notifying, notifying := true },
      some { event := ⟨id, kind⟩, waiting := v.clients, nested := v.notifying })

/-- Goes on to the next client. Nobody is left when the vector is gone. -/
def stepDelivery (s : Store) (d : Delivery) : Delivery.Step :=
  match s.get? d.event.server with
  | none => .ended d.reached
  | some v =>
    match Delivery.nextListener v.clients d.waiting d.reached with
    | (some (client, waiting), reached) => .call client { d with waiting := waiting, reached := reached }
    | (none, reached) => .ended reached

/-- Ends a fan-out. A flush scheduled meanwhile stays pending; a vector whose
clients have been told of its end is removed. -/
def endDelivery (s : Store) (d : Delivery) : Store :=
  match d.event.kind with
  | .updated => s.modify d.event.server fun v =>
    { v with
      notifying := d.nested
      state := if v.state = .notifying then .idle else v.state }
  | .destroyed => s.retire d.event.server

/-- Notes a change to a vector: at policy `always` the fan-out starts at once,
except while the clients of the vector are being called. -/
def markDirty (s : Store) (id : VectorId) : Except Error (Store × Option Delivery) := do
  let v ← s.get id
  let s := s.modify id fun v => { v with series := v.series.invalidate }
  match v.policy with
  | .never => return (s, none)
  | .onIdle => return (s.schedule id, none)
  | .always =>
    if v.notifying then return (s.schedule id, none)
    else return (s.modify id fun v => { v with state := .idle }).beginDelivery id .updated

/-- Starts a fan-out whatever the policy, in place of a pending flush; while the
clients of the vector are being called a flush is scheduled instead. -/
def notifyNow (s : Store) (id : VectorId) : Except Error (Store × Option Delivery) := do
  let v ← s.get id
  if v.notifying then return (s.schedule id, none)
  else return (s.modify id fun v => { v with state := .idle }).beginDelivery id .updated

/-- Starts destroying a vector; nothing happens if that is under way. -/
def beginDestroy (s : Store) (id : VectorId) : Except Error (Store × Option Delivery) := do
  let v ← s.get id
  if v.destroying then return (s, none)
  else return (s.modify id fun v => { v with destroying := true, state := .idle }).beginDelivery id .destroyed

/-- Changes the contents of a vector and notes the change. -/
def update (s : Store) (id : VectorId) (change : Series → Except Error Series) :
    Except Error (Store × Option Delivery) := do
  (← s.edit id change).markDirty id

end Store
end VectorEngine
