/-
The tasks under way as a stack: what a step leaves beneath, and what is on top
once a fan-out has started.

While there are tasks above another, that one stays where it is (`Next.beneath`),
so the part of a run between the start of a fan-out and its end is told by the
number of tasks below it (`Above`).
-/
import Mathlib
import VectorEngine.Proofs.Session.Persistence

namespace VectorEngine

/-! ## What is left beneath -/

namespace Task

theorem report_of_ne (reached : Nat) {t : Task} (ht : t ≠ .answerReached) (rest : List Task) :
    report reached (t :: rest) = t :: rest := by
  unfold report
  split
  · next heq =>
    cases heq
    exact absurd rfl ht
  · rfl

theorem length_report (reached : Nat) (tasks : List Task) : (report reached tasks).length = tasks.length := by
  unfold report
  split <;> rfl

/-- Only the task right beneath a fan-out is told how many were reached. -/
theorem report_append (reached : Nat) (front : List Task) {t : Task} (ht : t ≠ .answerReached) (rest : List Task) :
    report reached (front ++ t :: rest) = report reached front ++ t :: rest := by
  cases front with
  | nil => exact report_of_ne reached ht rest
  | cons x front =>
    by_cases hx : x = .answerReached
    · subst hx
      rfl
    · rw [report_of_ne reached hx, List.cons_append, report_of_ne reached hx]

theorem delivering_append (d? : Option Delivery) (rest base : List Task) :
    delivering d? rest ++ base = delivering d? (rest ++ base) := by cases d? <;> rfl

end Task

theorem Session.fanOuts_of_stack {s : Session} {front rest : List Task} {d : Delivery}
    (h : s.stack = front ++ .deliver d :: rest) :
    s.view.fanOuts = front.filterMap Task.fanOut? ++ d :: rest.filterMap Task.fanOut? := by
  simp [view, View.ofTasks, h]

theorem Session.mem_fanOuts_of_stack {s : Session} {front rest : List Task} {d : Delivery}
    (h : s.stack = front ++ .deliver d :: rest) : d ∈ s.view.fanOuts := by
  rw [fanOuts_of_stack h]
  simp

theorem Session.Issued.stack {s : Store} {stack : List Task} {r : Request} {s' : Session} (h : Issued s stack r s') :
    ∃ tasks, s'.stack = tasks ++ stack := by
  cases h with
  | started _ _ hstack => exact ⟨_, hstack⟩
  | pass _ _ hstack | released _ _ hstack | undone _ _ _ _ _ _ hstack => exact ⟨[_], hstack⟩

/-- A unit of work replaces the innermost task, and may report to the next. -/
theorem Store.Ticked.stack {s s' : Store} {t : Task} {rest tasks' : List Task} {signal? : Option Signal}
    (h : Ticked s (t :: rest) s' tasks' signal?) :
    (∃ tasks, tasks' = tasks ++ rest) ∨ ∃ reached, tasks' = Task.report reached rest := by
  cases h with
  | calls | passed | skips => exact .inl ⟨[_], rfl⟩
  | ends => exact .inr ⟨_, rfl⟩
  | flushes => exact .inl ⟨[_, _], rfl⟩
  | works => exact .inl ⟨_, rfl⟩
  | finishes => exact .inl ⟨[], rfl⟩

variable {start m m' : Moment} {a : Act} {steps : List Step} {id : VectorId} {v : NamedVector} {e : ClientEvent}

/-- **A task stays while there are others above it, and while the program asks.** -/
theorem Next.beneath (h : Next m a m') (hs : m.session.store.Coherent) {front rest : List Task} {t : Task}
    (hstack : m.session.stack = front ++ t :: rest) (ht : t ≠ .answerReached)
    (hfront : front ≠ [] ∨ ∃ r, a = .ask r) : ∃ front', m'.session.stack = front' ++ t :: rest := by
  cases h with
  | ask s r =>
    obtain ⟨tasks, htasks⟩ := (Session.issue_issued hs r).stack
    exact ⟨tasks ++ front, by rw [htasks, hstack, List.append_assoc]⟩
  | @work s s' _ busy h =>
    obtain ⟨x, front, rfl⟩ : ∃ x front', front = x :: front' := by
      rcases hfront with hfront | ⟨r, hr⟩
      · exact List.exists_cons_of_ne_nil hfront
      · cases hr
    have hticked := Store.tick_ticked (Session.tick_eq h).1
    rw [hstack, List.cons_append] at hticked
    rcases hticked.stack with ⟨tasks, htasks⟩ | ⟨reached, htasks⟩
    · exact ⟨tasks ++ front, by rw [htasks, List.append_assoc]⟩
    · exact ⟨Task.report reached front, by rw [htasks, Task.report_append reached front ht]⟩

/-- The run works above the `depth` outermost tasks, until only these are left. -/
structure Above (depth : Nat) (start : Moment) (steps : List Step) (m : Moment) : Prop where
  run : Run start steps m
  inside : ∀ step ∈ steps, depth < step.before.session.stack.length
  left : m.session.stack.length = depth

/-- A script keeps working above the `depth` outermost tasks. -/
def Moment.staysAbove (depth : Nat) (m : Moment) : List (Option Request) → Bool
  | [] => true
  | r? :: script => decide (depth < m.session.stack.length) && (m.step r?).after.staysAbove depth script

theorem Moment.above_play {m : Moment} {depth : Nat} {script : List (Option Request)} (hadmits : m.admits script = true)
    (hinside : m.staysAbove depth script = true) (hleft : (m.outcome script).session.stack.length = depth) :
    Above depth m (m.play script) (m.outcome script) := by
  refine ⟨run_play hadmits, ?_, hleft⟩
  clear hadmits hleft
  induction script generalizing m with
  | nil => simp [play]
  | cons r? script ih =>
    simp only [staysAbove, Bool.and_eq_true, decide_eq_true_eq] at hinside
    rintro step (_ | ⟨_, hstep⟩)
    · cases r? <;> exact hinside.1
    · exact ih hinside.2 step hstep

/-! ## What is on top -/

/-- The program asks for a fan-out at once. -/
def Act.NotifiesNow : Act → Prop
  | .ask r => r.NotifiesNow
  | .work _ => False

/-- How the fan-out on top of the stack has started. A change is told by an idle
pass, on demand, or at policy `always`. -/
structure Started (m : Moment) (a : Act) (m' : Moment) (d : Delivery) (v : NamedVector) : Prop where
  begins : d.Begins m'.session.store v
  update : d.event.kind = .updated →
    a.flushed? m.session = some d.event.server ∨ a.NotifiesNow ∨ v.policy = .always
  ending : d.event.kind = .destroyed → m'.session.store = m.session.store.modify d.event.server NamedVector.ended

namespace Store

variable {s s' : Store} {tasks tasks' : List Task} {d : Delivery} {asked : Prop}

/-- The fan-out an operation starts is its first task. -/
theorem Start.top (h : Start asked s s' tasks) {F : List Delivery}
    (hF : tasks.filterMap Task.fanOut? ++ F = d :: F) : ∃ v rest, tasks = .deliver d :: rest ∧ d.Begins s' v ∧
      (d.event.kind = .updated → asked ∨ v.policy = .always) ∧
      (d.event.kind = .destroyed → s' = s.modify d.event.server NamedVector.ended) := by
  have hinert : ∀ {rest : List Task}, (∀ t ∈ rest, t.Inert) → rest.filterMap Task.fanOut? = [] := fun hi =>
    List.filterMap_eq_nil_iff.2 fun t ht => (hi t ht).fanOut?
  cases h with
  | quiet _ hi =>
    have hlength := congrArg List.length hF
    simp [hinert hi] at hlength
  | update _ hk hbegins hasked hi =>
    simp only [List.filterMap_cons, Task.fanOut?_deliver, hinert hi, List.cons_append, List.nil_append,
      List.cons.injEq, and_true] at hF
    subst hF
    refine ⟨_, _, rfl, hbegins, fun _ => hasked, fun hk' => ?_⟩
    rw [hk] at hk'
    cases hk'
  | ending hv _ hi =>
    simp only [List.filterMap_cons, Task.fanOut?_deliver, hinert hi, List.cons_append, List.nil_append,
      List.cons.injEq, and_true] at hF
    subst hF
    refine ⟨_, _, rfl, ⟨get?_modify_self hv, rfl, rfl⟩, fun hk => ?_, fun _ => rfl⟩
    cases hk

/-- The fan-out a unit of work starts is its first task. -/
theorem Ticked.top {signal? : Option Signal} (h : Ticked s tasks s' tasks' signal?)
    (hF : tasks'.filterMap Task.fanOut? = d :: tasks.filterMap Task.fanOut?) :
    ∃ v rest, tasks' = .deliver d :: rest ∧ d.Begins s' v ∧
      (d.event.kind = .updated → s.flushing? tasks = some d.event.server ∨ v.policy = .always) ∧
      (d.event.kind = .destroyed → s' = s.modify d.event.server NamedVector.ended) := by
  cases h with
  | quiet =>
    cases hF
  | calls | passed | skips =>
    have hlength := congrArg List.length hF
    simp [List.filterMap_cons, Task.fanOut?] at hlength
  | @ends _ reached rest _ =>
    have hlength := congrArg List.length hF
    have hsame : (Task.report reached rest).filterMap Task.fanOut? = rest.filterMap Task.fanOut? :=
      congrArg View.fanOuts (View.ofTasks_report s reached rest)
    rw [hsame] at hlength
    simp only [List.filterMap_cons, Task.fanOut?_deliver, List.length_cons] at hlength
    omega
  | flushes ids flushed rest hv hp =>
    simp only [List.filterMap_cons, Task.fanOut?, List.cons.injEq, and_true] at hF
    subst hF
    refine ⟨_, _, rfl, ⟨get?_modify_self hv, rfl, rfl⟩, fun _ => .inl ?_, fun hk => ?_⟩
    · exact flushing?_of_pending (isPending_eq_true.2 ⟨_, hv, hp⟩)
    · cases hk
  | works rest ht _ hst =>
    rw [List.filterMap_append, List.filterMap_cons, ht.fanOut?] at hF
    obtain ⟨v, more, rfl, hbegins, hupdate, hending⟩ := hst.top hF
    exact ⟨v, more ++ rest, rfl, hbegins, fun hk => .inr ((hupdate hk).resolve_left id), hending⟩
  | finishes rest ht =>
    have hlength := congrArg List.length hF
    simp [ht.fanOut?] at hlength

end Store

/-- **A fan-out that has started is on top of the stack.** -/
theorem Next.started (h : Next m a m') (hs : m.session.store.Coherent) (hst : Step.Starts ⟨m, a, m'⟩ e) :
    ∃ d v rest, m'.session.stack = .deliver d :: rest ∧ d.event = e ∧ Started m a m' d v := by
  obtain ⟨d, he, hF⟩ := hst
  simp only [Session.view, View.ofTasks] at hF
  have hshort : ∀ {t : Task}, t.fanOut? = none → m'.session.stack = t :: m.session.stack → False := by
    intro t ht hstack
    have hlength := congrArg List.length hF
    rw [hstack, List.filterMap_cons, ht] at hlength
    simp at hlength
  cases h with
  | ask s r =>
    cases Session.issue_issued hs r with
    | started _ hst hstack =>
      rw [hstack, List.filterMap_append] at hF
      obtain ⟨v, rest, rfl, hbegins, hupdate, hending⟩ := hst.top hF
      exact ⟨d, v, rest ++ s.stack, hstack, he, hbegins, fun hk => .inr (hupdate hk), hending⟩
    | pass _ _ hstack | released _ _ hstack | undone _ _ _ _ _ _ hstack => exact (hshort rfl hstack).elim
  | work busy h =>
    obtain ⟨v, rest, hstack, hbegins, hupdate, hending⟩ := (Store.tick_ticked (Session.tick_eq h).1).top hF
    exact ⟨d, v, rest, hstack, he, hbegins, fun hk => (hupdate hk).imp_right .inr, hending⟩

/-- Asked to destroy a vector, the engine begins to tell its end. -/
theorem Session.issue_destroy {s : Session} (hv : s.store.get? id = some v) (hd : v.destroying = false) :
    s.issue (.destroy id) = s.put (s.store.modify id NamedVector.ended)
      [.deliver ⟨⟨id, .destroyed⟩, v.clients, v.notifying, 0⟩, .answer .done] := by
  have hbegin : s.store.beginDestroy id = .ok (s.store.modify id NamedVector.ended,
      some ⟨⟨id, .destroyed⟩, v.clients, v.notifying, 0⟩) := by
    refine bind_ok_iff.2 ⟨v, Store.get_of_get? hv, ?_⟩
    rw [hd, Store.beginDelivery_of_get? (Store.get?_modify_self hv), Store.modify_modify]
    rfl
  simp only [issue, beginDelivery, hbegin]
  rfl

end VectorEngine
