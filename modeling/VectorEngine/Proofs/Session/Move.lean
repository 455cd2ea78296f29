/-
What a session can do next, as far as its vectors are concerned.

A `View` keeps of the work under way the fan-outs and the idle passes. `Move`
lists what can happen to it: a request is begun (`issue_move`), or one unit of
work is done (`tick_move`). Most invariants are proved of moves.
-/
import Mathlib
import VectorEngine.Proofs.Session.Work

namespace VectorEngine

/-- The fan-out a task goes on with. -/
def Task.fanOut? : Task → Option Delivery
  | .deliver d => some d
  | _ => none

/-- The vectors an idle pass has not come to yet. -/
def Task.pass? : Task → Option (List VectorId)
  | .idlePass rest _ => some rest
  | _ => none

/-- What matters of a session to its vectors. -/
structure View where
  store : Store
  /-- The fan-outs under way, the innermost first. -/
  fanOuts : List Delivery
  /-- What is left of the idle passes under way, the innermost first. -/
  passes : List (List VectorId)

/-- The view of a store with tasks to do. -/
def View.ofTasks (s : Store) (tasks : List Task) : View :=
  ⟨s, tasks.filterMap Task.fanOut?, tasks.filterMap Task.pass?⟩

def Session.view (s : Session) : View := .ofTasks s.store s.stack

/-- What happens in a step, with the client called and the vector flushed by an
idle pass. Flushes are taken back only from the vectors in `W`. -/
inductive Move (W : VectorId → Prop) : View → Option (ClientId × ClientEvent) → Option VectorId → View → Prop
  | begun {s mid s' : Store} {d? : Option Delivery} (F : List Delivery) (P : List (List VectorId)) :
    Store.Changes W s mid → Store.Opening mid s' d? → Move W ⟨s, F, P⟩ none none ⟨s', d?.toList ++ F, P⟩
  | pass (s : Store) (F : List Delivery) (P : List (List VectorId)) :
    Move W ⟨s, F, P⟩ none none ⟨{ s with queue := [] }, F, s.queue :: P⟩
  | call {s : Store} {d : Delivery} {v : NamedVector} {c : ClientId} {waiting : List Client} {reached : Nat}
    (F : List Delivery) (P : List (List VectorId)) : s.get? d.event.server = some v →
    Delivery.nextListener v.clients d.waiting d.reached = (some (c, waiting), reached) →
    Move W ⟨s, d :: F, P⟩ (some (c, d.event)) none ⟨s, { d with waiting := waiting, reached := reached } :: F, P⟩
  | ended (s : Store) (d : Delivery) (F : List Delivery) (P : List (List VectorId)) :
    Move W ⟨s, d :: F, P⟩ none none ⟨s.endDelivery d, F, P⟩
  | flush {s : Store} {id : VectorId} {v : NamedVector} (F : List Delivery) (ids : List VectorId)
    (P : List (List VectorId)) : s.get? id = some v → v.state = .pending →
    Move W ⟨s, F, (id :: ids) :: P⟩ none (some id) ⟨s.modify id NamedVector.opened,
      ⟨⟨id, .updated⟩, v.clients, v.notifying, 0⟩ :: F, ids :: P⟩
  | skip {s : Store} {id : VectorId} (F : List Delivery) (ids : List VectorId) (P : List (List VectorId)) :
    (∀ v, s.get? id = some v → v.state ≠ .pending) → Move W ⟨s, F, (id :: ids) :: P⟩ none none ⟨s, F, ids :: P⟩
  | passed (s : Store) (F : List Delivery) (P : List (List VectorId)) : Move W ⟨s, F, [] :: P⟩ none none ⟨s, F, P⟩

namespace Task

@[simp] theorem fanOut?_deliver (d : Delivery) : (deliver d).fanOut? = some d := rfl
@[simp] theorem pass?_deliver (d : Delivery) : (deliver d).pass? = none := rfl

theorem Inert.fanOut? {t : Task} (h : t.Inert) : t.fanOut? = none := by
  cases t <;> first | rfl | exact h.elim

theorem Inert.pass? {t : Task} (h : t.Inert) : t.pass? = none := by
  cases t <;> first | rfl | exact h.elim

end Task

namespace View

/-- Inert tasks are not seen. -/
theorem ofTasks_delivering {s : Store} {d? : Option Delivery} {rest : List Task} (hi : ∀ t ∈ rest, t.Inert)
    (stack : List Task) : ofTasks s (Task.delivering d? rest ++ stack) =
      ⟨s, d?.toList ++ stack.filterMap Task.fanOut?, stack.filterMap Task.pass?⟩ := by
  have hf : rest.filterMap Task.fanOut? = [] := List.filterMap_eq_nil_iff.2 fun t ht => (hi t ht).fanOut?
  have hp : rest.filterMap Task.pass? = [] := List.filterMap_eq_nil_iff.2 fun t ht => (hi t ht).pass?
  cases d? <;> simp [ofTasks, Task.delivering, List.filterMap_cons, hf, hp]

theorem ofTasks_inert {s : Store} {t : Task} (ht : t.Inert) (stack : List Task) :
    ofTasks s (t :: stack) = ofTasks s stack := by
  simp [ofTasks, ht.fanOut?, ht.pass?]

theorem ofTasks_report (s : Store) (reached : Nat) (tasks : List Task) :
    ofTasks s (Task.report reached tasks) = ofTasks s tasks := by
  unfold Task.report
  split <;> rfl

end View

variable {W : VectorId → Prop}

theorem Move.of_begun {s s' : Store} {tasks : List Task} (h : Store.Begun W s s' tasks) (stack : List Task) :
    Move W (.ofTasks s stack) none none (.ofTasks s' (tasks ++ stack)) := by
  obtain ⟨mid, d?, rest, hc, ho, hi, rfl⟩ := h
  rw [View.ofTasks_delivering hi]
  exact .begun _ _ hc ho

/-- A session that stays as it is. -/
theorem Move.refl (w : View) : Move W w none none w := .begun w.fanOuts w.passes .refl (.nothing w.store)

/-! ## Units of work -/

/-- The client a signal calls. -/
def Signal.called? : Signal → Option (ClientId × ClientEvent)
  | .calling client event => some (client, event)
  | _ => none

namespace Store

/-- The vector an idle pass is about to flush. -/
def flushing? (s : Store) : List Task → Option VectorId
  | .idlePass (id :: _) _ :: _ =>
    match s.isPending id with
    | .ok true => some id
    | _ => none
  | _ => none

theorem flushing?_of_pending {s : Store} {id : VectorId} {ids : List VectorId} {flushed : Nat} {rest : List Task}
    (h : s.isPending id = .ok true) : s.flushing? (.idlePass (id :: ids) flushed :: rest) = some id := by
  simp only [flushing?, h]

theorem flushing?_of_not_pending {s : Store} {id : VectorId} {ids : List VectorId} {flushed : Nat} {rest : List Task}
    (h : s.isPending id ≠ .ok true) : s.flushing? (.idlePass (id :: ids) flushed :: rest) = none := by
  unfold flushing?
  dsimp only
  split
  · next h' => exact absurd h' h
  · rfl

theorem flushing?_of_inert {s : Store} {t : Task} {rest : List Task} (h : t.Inert) :
    s.flushing? (t :: rest) = none := by
  cases t <;> first | rfl | exact h.elim

/-- A flushed vector is the next of the innermost idle pass, and pending. -/
theorem flushing?_eq_some {s : Store} {id : VectorId} {tasks : List Task} (h : s.flushing? tasks = some id) :
    ∃ ids flushed rest, tasks = .idlePass (id :: ids) flushed :: rest ∧ s.isPending id = .ok true := by
  unfold flushing? at h
  split at h
  · next ids flushed rest =>
    split at h
    · next hpending =>
      cases h
      exact ⟨ids, flushed, rest, rfl, hpending⟩
    · cases h
  · cases h

theorem Ticked.move {s s' : Store} {tasks tasks' : List Task} {signal? : Option Signal}
    (h : Ticked s tasks s' tasks' signal?) :
    Move (fun _ => False) (.ofTasks s tasks) (signal? >>= Signal.called?) (s.flushing? tasks) (.ofTasks s' tasks') := by
  cases h with
  | quiet => exact .refl _
  | calls rest hv hnext => exact .call _ _ hv hnext
  | ends rest _ =>
    rw [View.ofTasks_report]
    exact .ended s _ _ _
  | passed => exact .passed s _ _
  | flushes ids flushed rest hv hp =>
    rw [flushing?_of_pending (isPending_eq_true.2 ⟨_, hv, hp⟩)]
    exact .flush _ ids _ hv hp
  | skips ids flushed rest hidle =>
    rw [flushing?_of_not_pending fun hpending =>
      let ⟨v, hv, hp⟩ := isPending_eq_true.1 hpending
      hidle v hv hp]
    exact .skip _ ids _ hidle
  | works rest ht hb _ =>
    rw [flushing?_of_inert ht, View.ofTasks_inert ht]
    exact .of_begun hb rest
  | finishes rest ht =>
    rw [flushing?_of_inert ht, View.ofTasks_inert ht]
    exact .refl _

end Store

/-- The vector an idle pass is about to flush. -/
def Session.flushing? (s : Session) : Option VectorId := s.store.flushing? s.stack

namespace Session

variable {s : Session}

/-- A unit of work changes the store and the tasks. -/
theorem tick_eq {s' : Session} {signal? : Option Signal} (h : s.tick = (s', signal?)) :
    s.store.tick s.stack = (s'.store, s'.stack, signal?) ∧ s' = { s with store := s'.store, stack := s'.stack } := by
  simp only [tick, Prod.mk.injEq] at h
  obtain ⟨rfl, rfl⟩ := h
  exact ⟨rfl, rfl⟩

theorem tick_move {s' : Session} {signal? : Option Signal} (h : s.tick = (s', signal?)) :
    Move (fun _ => False) s.view (signal? >>= Signal.called?) s.flushing? s'.view :=
  (Store.tick_ticked (tick_eq h).1).move

/-! ## Requests -/

/-- **What a request begins with.** A move; flushes are taken back only where
the request says so. -/
theorem issue_move (hs : s.store.Coherent) (r : Request) :
    Move (r.TakesBack s.store) s.view none none (s.issue r).view := by
  have hissued := issue_issued hs r
  generalize s.issue r = s' at hissued
  rw [view, view]
  cases hissued with
  | started hb _ hstack =>
    rw [hstack]
    exact .of_begun hb s.stack
  | pass _ hstore hstack =>
    rw [hstore, hstack]
    exact .pass s.store _ _
  | @released c b _ hstore hstack =>
    have hi : ∀ t ∈ [Task.answer (.flag b)], t.Inert := by simp [Task.Inert]
    rw [hstore, hstack]
    exact .of_begun (.of_changes (.single (.release s.store c)) hi) s.stack
  | @undone _ _ _ e _ _ _ _ _ hc hstack =>
    have hi : ∀ t ∈ [Task.refuse e], t.Inert := by simp [Task.Inert]
    rw [hstack]
    exact .of_begun (.of_changes hc hi) s.stack

end Session
end VectorEngine
