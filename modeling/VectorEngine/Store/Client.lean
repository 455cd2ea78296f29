/-
Clients and the notifications they wait for.

A registration is linked to its vector until it is released or the vector is
destroyed; `serverOf` reads the link.
-/
import VectorEngine.Store.Basic

namespace VectorEngine.Store

/-- The vector a registration belongs to, while it is live. -/
def serverOf (s : Store) (c : ClientId) : Option VectorId := (s.links.find? (·.1 == c)).map (·.2)

/-- Registers a client. The number is used up even if there is no such vector;
a vector that is being destroyed gives out a registration without a link. -/
def registerClient (s : Store) (id : VectorId) (listens : Bool) : Store × Except Error ClientId :=
  let c : ClientId := ⟨s.nextClient⟩
  let s := { s with nextClient := s.nextClient + 1 }
  match s.get id with
  | .error e => (s, .error e)
  | .ok v =>
    if v.destroying then (s, .ok c)
    else
      let s := s.modify id fun v => { v with clients := v.clients ++ [⟨c, listens⟩] }
      ({ s with links := (c, id) :: s.links }, .ok c)

/-- Releases a registration; false if it was not live. -/
def releaseClient (s : Store) (c : ClientId) : Store × Bool :=
  match s.serverOf c with
  | none => (s, false)
  | some server =>
    match s.get? server with
    | none => (s, false)
    | some v =>
      if v.clients.any (·.id == c) then
        let s := s.modify server fun v => { v with clients := v.clients.eraseP (·.id == c) }
        ({ s with links := s.links.filter (·.1 != c) }, true)
      else
        (s, false)

/-- Queues a flush of a vector, unless one is pending. -/
def schedule (s : Store) (id : VectorId) : Store :=
  match s.get? id with
  | none => s
  | some v =>
    if v.state = .pending then s
    else
      let s := s.modify id fun v => { v with state := .pending }
      { s with queue := s.queue ++ [id] }

/-- Whether a flush of the vector is pending. -/
def isPending (s : Store) (id : VectorId) : Except Error Bool := do return (← s.get id).state = .pending

/-- Takes back a pending flush; false if there is none. Its entry stays in the
queue. -/
def cancelNotify (s : Store) (id : VectorId) : Except Error (Store × Bool) := do
  let pending ← s.isPending id
  return (if pending then s.modify id fun v => { v with state := .idle } else s, pending)

/-- Sets the policy; switching to `never` takes back a pending flush. -/
def setPolicy (s : Store) (id : VectorId) (policy : NotifyPolicy) : Except Error Store := do
  let _ ← s.get id
  return s.modify id fun v =>
    { v with
      policy := policy
      state := if policy = .never ∧ v.state = .pending then .idle else v.state }

end VectorEngine.Store
