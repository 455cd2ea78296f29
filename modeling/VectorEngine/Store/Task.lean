/-
The work left to do, as data.

An operation of the engine is done by working through a list of tasks. The
first task is the innermost: an operation begun by a client that is being
called puts its tasks in front of the fan-out that called it. Work stops where
a client is to be called and where an answer is due, so between two stops the
whole of what is under way can be read off the list.
-/
import VectorEngine.Block
import VectorEngine.Store.Delivery

namespace VectorEngine

/-- What a command tells. -/
inductive Reply
  | empty
  | scalar (x : Float)
  | list (values : List Float)
  | name (name : String)
  | names (names : List String)
  | bytes (bytes : List UInt8)
deriving DecidableEq, Repr

namespace Reply

def ofIndexValue : IndexValue → Reply
  | .scalar x => scalar x
  | .list values => list values

/-- Positions as numbers, the nearest ones for those no double can hold. -/
def ofPositions (positions : List Int) : Reply := list (positions.map Exact.intToFloat)

/-- The reply as shown to a user. -/
def text : Reply → String
  | empty => ""
  | scalar x => FloatText.plain x
  | list values => " ".intercalate (values.map FloatText.plain)
  | name s => s
  | names ss => " ".intercalate ss
  | bytes bs => "<" ++ toString bs.length ++ " bytes>"

end Reply

/-- What an operation gives back. -/
inductive Answer
  | done
  | flag (b : Bool)
  | count (n : Nat)
  | vector (id : VectorId)
  | client (id : ClientId)
  | extrema (e : Extrema)
  | values (xs : List Float)
  | order (rows : List Nat)
  | reply (r : Reply)
deriving DecidableEq, Repr

inductive Task
  /-- Call the clients waiting in a fan-out. -/
  | deliver (d : Delivery)
  /-- Flush the vectors of an idle pass that are still pending. -/
  | idlePass (rest : List VectorId) (flushed : Nat)
  /-- Note a change to each of some vectors, passing over those that are gone. -/
  | markEach (rest : List VectorId)
  /-- Destroy each of some vectors, passing over those that are gone. -/
  | destroyAll (rest : List VectorId)
  /-- Destroy each of some vectors up to the first that is gone, and answer. -/
  | destroyNamed (rest : List VectorId)
  | answer (a : Answer)
  /-- Answer with what went wrong. -/
  | refuse (e : Error)
  /-- Answer with the number of clients reached by the fan-out before. -/
  | answerReached
  | answerLength (id : VectorId)
  | answerOffset (id : VectorId)
deriving DecidableEq, Repr

/-- An upper bound for the tasks one task can still turn into. -/
def Task.weight : Task → Nat
  | deliver _ => 1
  | idlePass rest _ | markEach rest | destroyAll rest | destroyNamed rest => 2 * rest.length + 1
  | answer _ | refuse _ | answerReached | answerLength _ | answerOffset _ => 0

/-- The steps that tasks take at most. -/
def Task.totalWeight : List Task → Nat
  | [] => 0
  | task :: rest => task.weight + totalWeight rest

/-- A fan-out, if there is one, before other tasks. -/
def Task.delivering : Option Delivery → List Task → List Task
  | some d, tasks => .deliver d :: tasks
  | none, tasks => tasks

/-- Tells the task that waits for it how many clients were reached. -/
def Task.report (reached : Nat) : List Task → List Task
  | .answerReached :: tasks => .answer (.count reached) :: tasks
  | tasks => tasks

/-- Why work has stopped. -/
inductive Signal
  /-- A client is to be called; work goes on when the call has returned. -/
  | calling (client : ClientId) (event : ClientEvent)
  | finished (result : Except Error Answer)
  /-- There is no work. -/
  | quiet

/-- Works on the innermost task. Without a signal there is more to do. -/
def Store.tick (s : Store) (tasks : List Task) : Store × List Task × Option Signal :=
  match tasks with
  | [] => (s, [], some .quiet)
  | .deliver d :: rest =>
    match s.stepDelivery d with
    | .call client d => (s, .deliver d :: rest, some (.calling client d.event))
    | .ended reached => (s.endDelivery d, Task.report reached rest, none)
  | .idlePass [] flushed :: rest => (s, .answer (.count flushed) :: rest, none)
  | .idlePass (id :: ids) flushed :: rest =>
    match s.isPending id with
    | .ok true =>
      let (s, d?) := s.beginDelivery id .updated
      (s, Task.delivering d? (.idlePass ids (flushed + 1) :: rest), none)
    | _ => (s, .idlePass ids flushed :: rest, none)
  | .markEach [] :: rest => (s, rest, none)
  | .markEach (id :: ids) :: rest =>
    match s.markDirty id with
    | .ok (s, d?) => (s, Task.delivering d? (.markEach ids :: rest), none)
    | .error _ => (s, .markEach ids :: rest, none)
  | .destroyAll [] :: rest => (s, rest, none)
  | .destroyAll (id :: ids) :: rest =>
    match s.beginDestroy id with
    | .ok (s, d?) => (s, Task.delivering d? (.destroyAll ids :: rest), none)
    | .error _ => (s, .destroyAll ids :: rest, none)
  | .destroyNamed [] :: rest => (s, rest, some (.finished (.ok (.reply .empty))))
  | .destroyNamed (id :: ids) :: rest =>
    match s.beginDestroy id with
    | .ok (s, d?) => (s, Task.delivering d? (.destroyNamed ids :: rest), none)
    | .error e => (s, rest, some (.finished (.error e)))
  | .answer a :: rest => (s, rest, some (.finished (.ok a)))
  | .refuse e :: rest => (s, rest, some (.finished (.error e)))
  | .answerReached :: rest => (s, rest, some (.finished (.ok (.count 0))))
  | .answerLength id :: rest =>
    (s, rest, some (.finished ((s.get id).map fun v => .reply (.scalar (Float.ofNat v.series.length)))))
  | .answerOffset id :: rest =>
    (s, rest, some (.finished ((s.get id).map fun v => .reply (.scalar (Exact.intToFloat v.series.offset)))))

theorem Task.totalWeight_delivering (d? : Option Delivery) (tasks : List Task) :
    totalWeight (delivering d? tasks) ≤ totalWeight tasks + 1 := by
  cases d? <;> simp only [delivering, totalWeight, weight] <;> omega

theorem Task.totalWeight_report (reached : Nat) (tasks : List Task) :
    totalWeight (report reached tasks) = totalWeight tasks := by
  unfold report
  split <;> simp only [totalWeight, weight]

/-- Work that goes on leaves less to do. -/
theorem Store.tick_lighter {s s' : Store} {tasks tasks' : List Task} (h : s.tick tasks = (s', tasks', none)) :
    Task.totalWeight tasks' < Task.totalWeight tasks := by
  unfold Store.tick at h
  split at h
  all_goals try split at h
  all_goals simp only [Prod.mk.injEq, reduceCtorEq, and_false, and_true] at h
  all_goals
    obtain ⟨-, rfl⟩ := h
    simp only [Task.totalWeight, Task.weight, Task.totalWeight_report, List.length_cons, List.length_nil]
    try omega
  -- What is left starts a fan-out.
  all_goals
    refine Nat.lt_of_le_of_lt (Task.totalWeight_delivering _ _) ?_
    simp only [Task.totalWeight, Task.weight]
    omega

/-- Works through the tasks up to the next stop. -/
def Store.advance (s : Store) (tasks : List Task) : Store × List Task × Signal :=
  match _h : s.tick tasks with
  | (s, tasks, none) => s.advance tasks
  | (s, tasks, some signal) => (s, tasks, signal)
termination_by Task.totalWeight tasks
decreasing_by exact Store.tick_lighter ‹_›

end VectorEngine
