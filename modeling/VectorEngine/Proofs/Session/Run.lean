/-
Runs: the program asks, and the engine works.

A run is the list of its steps, each with the moments before and after it, from
the first on. Whatever the program and the clients do is a run: a client that is
called has the turn until the program lets the engine work on, and may ask for
anything (`Run.submit`, `Run.resume`).
-/
import Mathlib
import VectorEngine.Proofs.Session.Move

namespace VectorEngine

/-- A session, and whose turn it is. -/
structure Moment where
  session : Session
  /-- The engine goes on; otherwise the program may ask. -/
  busy : Bool

inductive Act
  | ask (r : Request)
  /-- One unit of work; without a signal there is more to do. -/
  | work (signal? : Option Signal)

/-- What can come next. -/
inductive Next : Moment → Act → Moment → Prop
  | ask (s : Session) (r : Request) : Next ⟨s, false⟩ (.ask r) ⟨s.issue r, true⟩
  | work {s s' : Session} {signal? : Option Signal} (busy : Bool) : s.tick = (s', signal?) →
    Next ⟨s, busy⟩ (.work signal?) ⟨s', signal?.isNone⟩

structure Step where
  before : Moment
  act : Act
  after : Moment

/-- The steps lead from one moment to another. -/
inductive Run (start : Moment) : List Step → Moment → Prop
  | start : Run start [] start
  | next {steps : List Step} {m m' : Moment} {a : Act} : Run start steps m → Next m a m' →
    Run start (steps ++ [⟨m, a, m'⟩]) m'

/-- The client called. -/
def Act.called? : Act → Option (ClientId × ClientEvent)
  | .ask _ => none
  | .work signal? => signal? >>= Signal.called?

/-- The vector flushed by an idle pass. -/
def Act.flushed? (s : Session) : Act → Option VectorId
  | .ask _ => none
  | .work _ => s.flushing?

/-- A pending flush of the vector is taken back. -/
def Act.TakesBack (s : Store) (a : Act) (id : VectorId) : Prop :=
  match a with
  | .ask r => r.TakesBack s id
  | .work _ => False

/-- The calls of a run in their order. -/
def calls (steps : List Step) : List (ClientId × ClientEvent) := steps.filterMap (·.act.called?)

/-! ## Working up to a stop -/

namespace Store

variable {s s' : Store} {tasks tasks' : List Task}

theorem advance_of_tick_none (h : s.tick tasks = (s', tasks', none)) : s.advance tasks = s'.advance tasks' := by
  rw [advance]
  split
  · next ht =>
    rw [h] at ht
    cases ht
    rfl
  · next ht =>
    rw [h] at ht
    cases ht

theorem advance_of_tick_some {signal : Signal} (h : s.tick tasks = (s', tasks', some signal)) :
    s.advance tasks = (s', tasks', signal) := by
  rw [advance]
  split
  · next ht =>
    rw [h] at ht
    cases ht
  · next ht =>
    rw [h] at ht
    cases ht
    rfl

end Store

namespace Session

variable {s s' : Session}

theorem resume_of_tick_none (h : s.tick = (s', none)) : s.resume = s'.resume := by
  obtain ⟨htick, hs'⟩ := tick_eq h
  simp only [resume, Store.advance_of_tick_none htick]
  rw [hs']

theorem resume_of_tick_some {signal : Signal} (h : s.tick = (s', some signal)) : s.resume = (s', signal) := by
  obtain ⟨htick, hs'⟩ := tick_eq h
  simp only [resume, Store.advance_of_tick_some htick]
  exact congrArg (·, signal) hs'.symm

/-- What is done up to the next stop follows from the first unit of work. -/
theorem resume_congr (h : s.tick = s'.tick) : s.resume = s'.resume := by
  rcases htick : s'.tick with ⟨s₁, _ | signal⟩
  · rw [resume_of_tick_none htick, resume_of_tick_none (h.trans htick)]
  · rw [resume_of_tick_some htick, resume_of_tick_some (h.trans htick)]

/-- A request that is done at once is answered at once. -/
theorem resume_answer (s : Session) (store : Store) (a : Answer) :
    (s.put store [.answer a]).resume = ({ s with store := store }, .finished (.ok a)) :=
  resume_of_tick_some rfl

theorem resume_refuse (s : Session) (store : Store) (e : Error) :
    (s.put store [.refuse e]).resume = ({ s with store := store }, .finished (.error e)) :=
  resume_of_tick_some rfl

/-- A change that a vector refuses is as if it had not been asked for. -/
theorem submit_refused {id : VectorId} {v : NamedVector} {change : Series → Except Error Series} {e : Error}
    (hv : s.store.get? id = some v) (h : change v.series = .error e) :
    s.submit (.edit id change) = (s, .finished (.error e)) ∧
      s.submit (.update id change) = (s, .finished (.error e)) := by
  have hedit : s.store.edit id change = .error e := by
    rw [Store.edit, Store.get_of_get? hv]
    simp only [bind, Except.bind, h]
  have hupdate : s.store.update id change = .error e := by
    rw [Store.update, hedit]
    rfl
  constructor
  · rw [submit, issue, hedit]
    exact s.resume_refuse s.store e
  · rw [submit, issue, hupdate]
    exact s.resume_refuse s.store e

end Session

variable {start m m' : Moment} {a : Act} {steps : List Step}

theorem Next.move (h : Next m a m') (hs : m.session.store.Coherent) :
    Move (a.TakesBack m.session.store) m.session.view a.called? (a.flushed? m.session) m'.session.view := by
  cases h with
  | ask s r => exact Session.issue_move hs r
  | work busy h => exact Session.tick_move h

namespace Run

theorem trans {mid : Moment} {front rest : List Step} (h : Run start front mid) (h' : Run mid rest m) :
    Run start (front ++ rest) m := by
  induction h' with
  | start => rwa [List.append_nil]
  | next _ hnext ih =>
    rw [← List.append_assoc]
    exact ih.next hnext

theorem eq_of_nil (h : Run start [] m) : start = m := by
  generalize hnil : [] = steps at h
  cases h with
  | start => rfl
  | next => simp at hnil

/-- A run up to a step of it, and from there on. -/
theorem split {front rest : List Step} {step : Step} (h : Run start (front ++ step :: rest) m) :
    Run start front step.before ∧ Next step.before step.act step.after ∧ Run step.after rest m := by
  generalize hall : front ++ step :: rest = all at h
  induction h generalizing rest with
  | start => simp at hall
  | @next steps m m' a hrun hnext ih =>
    rcases List.eq_nil_or_concat rest with rfl | ⟨rest, last, rfl⟩
    · obtain ⟨rfl, rfl⟩ := List.append_singleton_inj.1 hall
      exact ⟨hrun, hnext, .start⟩
    · rw [List.concat_eq_append, ← List.cons_append, ← List.append_assoc] at hall
      obtain ⟨hfront, rfl⟩ := List.append_singleton_inj.1 hall
      obtain ⟨h₁, h₂, h₃⟩ := ih hfront
      exact ⟨h₁, h₂, List.concat_eq_append ▸ h₃.next hnext⟩

/-- The first step of a run is taken from where it starts. -/
theorem first {rest : List Step} {step : Step} (h : Run start (step :: rest) m) :
    step.before = start ∧ Next start step.act step.after ∧ Run step.after rest m := by
  have h : Run start ([] ++ step :: rest) m := h
  obtain ⟨hstart, hnext, hrest⟩ := h.split
  obtain rfl := hstart.eq_of_nil
  exact ⟨rfl, hnext, hrest⟩

/-- A run from a step of it on. -/
theorem from_step {front rest : List Step} {step : Step} (h : Run start (front ++ step :: rest) m) :
    Run step.before (step :: rest) m :=
  let ⟨_, hnext, hrest⟩ := h.split
  (Run.next .start hnext).trans hrest

/-- What every move keeps holds at the end of every run. -/
theorem keeps {I : View → Prop} (hcoherent : ∀ {w}, I w → w.store.Coherent)
    (hmove : ∀ {W w c f w'}, Move W w c f w' → I w → I w') (h : Run start steps m) (hstart : I start.session.view) :
    I m.session.view := by
  induction h with
  | start => exact hstart
  | next _ hnext ih => exact hmove (hnext.move (hcoherent ih)) ih

/-! ## What the program does -/

theorem resume {steps : List Step} {s : Session} {busy : Bool} (h : Run start steps ⟨s, busy⟩) :
    ∃ more, Run start (steps ++ more) ⟨s.resume.1, false⟩ := by
  rcases htick : s.tick with ⟨s', signal?⟩
  have hnext := h.next (.work busy htick)
  cases signal? with
  | none =>
    obtain ⟨more, hmore⟩ := hnext.resume
    rw [Session.resume_of_tick_none htick]
    exact ⟨_, List.append_assoc _ _ _ ▸ hmore⟩
  | some signal =>
    rw [Session.resume_of_tick_some htick]
    exact ⟨_, hnext⟩
termination_by Task.totalWeight s.stack
decreasing_by exact Store.tick_lighter (Session.tick_eq htick).1

theorem submit {s : Session} (h : Run start steps ⟨s, false⟩) (r : Request) :
    ∃ more, Run start (steps ++ more) ⟨(s.submit r).1, false⟩ := by
  obtain ⟨more, hmore⟩ := (h.next (.ask s r)).resume
  exact ⟨_, List.append_assoc _ _ _ ▸ hmore⟩

end Run

/-! ## Runs of a program given in advance -/

namespace Moment

/-- A step: what the program asks, or a unit of work. -/
def step (m : Moment) : Option Request → Step
  | some r => ⟨m, .ask r, ⟨m.session.issue r, true⟩⟩
  | none => ⟨m, .work m.session.tick.2, ⟨m.session.tick.1, m.session.tick.2.isNone⟩⟩

def play (m : Moment) : List (Option Request) → List Step
  | [] => []
  | r? :: script => m.step r? :: (m.step r?).after.play script

def outcome (m : Moment) : List (Option Request) → Moment
  | [] => m
  | r? :: script => (m.step r?).after.outcome script

/-- The program asks only when it has the turn. -/
def admits (m : Moment) : List (Option Request) → Bool
  | [] => true
  | r? :: script => !(m.busy && r?.isSome) && (m.step r?).after.admits script

theorem step_eq (m : Moment) (r? : Option Request) : ⟨m, (m.step r?).act, (m.step r?).after⟩ = m.step r? := by
  cases r? <;> rfl

theorem next_step {m : Moment} (r? : Option Request) (h : (m.busy && r?.isSome) = false) :
    Next m (m.step r?).act (m.step r?).after := by
  obtain ⟨s, busy⟩ := m
  cases r? with
  | none => exact .work busy rfl
  | some r =>
    cases busy with
    | true => cases h
    | false => exact .ask s r

theorem run_play {m : Moment} {script : List (Option Request)} (h : m.admits script = true) :
    Run m (m.play script) (m.outcome script) := by
  induction script generalizing m with
  | nil => exact .start
  | cons r? script ih =>
    simp only [admits, Bool.and_eq_true, Bool.not_eq_true'] at h
    have hfirst := Run.next .start (next_step r? h.1)
    rw [step_eq] at hfirst
    exact hfirst.trans (ih h.2)

theorem play_concat (m : Moment) (script : List (Option Request)) (r? : Option Request) :
    m.play (script ++ [r?]) = m.play script ++ [(m.outcome script).step r?] := by
  induction script generalizing m with
  | nil => rfl
  | cons r'? script ih =>
    rw [List.cons_append, play, ih]
    rfl

/-! Units of work only -/

theorem admits_work (m : Moment) (n : Nat) : m.admits (List.replicate n none) = true := by
  induction n generalizing m with
  | zero => rfl
  | succ n ih =>
    rw [List.replicate_succ, admits, ih]
    simp

theorem work_of_mem_play {m : Moment} {n : Nat} {step : Step} (h : step ∈ m.play (List.replicate n none)) :
    ∃ signal?, step.act = .work signal? := by
  induction n generalizing m with
  | zero => cases h
  | succ n ih =>
    rw [List.replicate_succ, play] at h
    obtain hfirst | hrest := List.mem_cons.1 h
    · exact ⟨_, congrArg Step.act hfirst⟩
    · exact ih hrest

end Moment

/-- The answer a signal gives. -/
def Signal.answer? : Signal → Option Answer
  | .finished (.ok a) => some a
  | _ => none

theorem Signal.answer?_eq_some {signal : Signal} {a : Answer} (h : signal.answer? = some a) :
    signal = .finished (.ok a) := by
  unfold answer? at h
  split at h
  · cases h
    rfl
  · cases h

/-- A session with an empty store, for a program that runs no scripts and whose
random words are all zero. -/
def Session.initial : Session := ⟨{}, Host.silent, { generator := { word := fun _ => 0 } }, []⟩

theorem Session.ofConfig_initial : Session.ofConfig {} Host.silent (fun _ _ => 0) = .ok Session.initial := rfl

end VectorEngine
