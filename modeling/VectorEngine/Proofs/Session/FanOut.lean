/-
A fan-out from its start to its end.

It takes the clients registered at its start in their order, whatever they do to
the store and however many fan-outs they begin inside it. Each has its turn once
(`visits`), and is called if it listens and is still registered then
(`Next.course`, for one step; `Run.course`, for those so far).
-/
import Mathlib
import VectorEngine.Proofs.Session.Stack

namespace VectorEngine

/-! ## Turns -/

/-- The clients waiting in the fan-out with `depth` tasks below it. -/
def Session.awaiting (s : Session) (depth : Nat) : List Client :=
  match s.stack.reverse[depth]? with
  | some (.deliver d) => d.waiting
  | _ => []

/-- The clients whose turn comes in a step. -/
def Step.visited (step : Step) (depth : Nat) : List Client :=
  let before := step.before.session.awaiting depth
  before.take (before.length - (step.after.session.awaiting depth).length)

/-- The client called by the fan-out with `depth` tasks below it. -/
def Step.callAt (step : Step) (depth : Nat) : Option (ClientId × ClientEvent) :=
  if step.before.session.stack.length = depth + 1 then step.act.called? else none

/-- The turn of a client in a fan-out. -/
structure Visit where
  client : Client
  /-- What has happened since the fan-out started. -/
  earlier : List Step
  /-- The store when the turn comes. -/
  store : Store

/-- The client is still registered with the vector when its turn comes. -/
def Visit.stays (t : Visit) (id : VectorId) : Bool := t.store.registers id t.client.id

/-- The turns in the steps after `earlier`. -/
def visitsAfter (depth : Nat) (earlier : List Step) : List Step → List Visit
  | [] => []
  | step :: steps =>
    (step.visited depth).map (⟨·, earlier, step.before.session.store⟩) ++ visitsAfter depth (earlier ++ [step]) steps

/-- The turns of the fan-out with `depth` tasks below it, in their order. -/
def visits (depth : Nat) (steps : List Step) : List Visit := visitsAfter depth [] steps

/-- The calls of the fan-out with `depth` tasks below it, without those of the
fan-outs inside it. -/
def callsAt (depth : Nat) (steps : List Step) : List (ClientId × ClientEvent) := steps.filterMap (·.callAt depth)

variable {start m m' : Moment} {a : Act} {steps : List Step} {id : VectorId} {v : NamedVector} {e : ClientEvent}
  {d : Delivery} {depth : Nat}

theorem visitsAfter_append (depth : Nat) (earlier steps : List Step) (step : Step) :
    visitsAfter depth earlier (steps ++ [step]) = visitsAfter depth earlier steps ++
      (step.visited depth).map (⟨·, earlier ++ steps, step.before.session.store⟩) := by
  induction steps generalizing earlier with
  | nil => simp [visitsAfter]
  | cons first steps ih => simp [visitsAfter, ih, List.append_assoc]

theorem visits_append (depth : Nat) (steps : List Step) (step : Step) : visits depth (steps ++ [step]) =
    visits depth steps ++ (step.visited depth).map (⟨·, steps, step.before.session.store⟩) :=
  visitsAfter_append depth [] steps step

theorem callsAt_append (depth : Nat) (front back : List Step) :
    callsAt depth (front ++ back) = callsAt depth front ++ callsAt depth back := List.filterMap_append

theorem callsAt_sublist (depth : Nat) (steps : List Step) : (callsAt depth steps).Sublist (calls steps) := by
  induction steps with
  | nil => exact List.Sublist.slnil
  | cons step steps ih =>
    have hcallAt : step.callAt depth = step.act.called? ∨ step.callAt depth = none := by
      unfold Step.callAt
      split
      · exact .inl rfl
      · exact .inr rfl
    simp only [callsAt, calls, List.filterMap_cons] at ih ⊢
    rcases hcallAt with heq | heq
    · rw [heq]
      cases step.act.called? with
      | none => exact ih
      | some call => exact ih.cons_cons call
    · rw [heq]
      cases step.act.called? with
      | none => exact ih
      | some call => exact ih.cons call

theorem Session.awaiting_of_stack {s : Session} {front rest : List Task} (h : s.stack = front ++ .deliver d :: rest) :
    s.awaiting rest.length = d.waiting := by
  simp [awaiting, h]

theorem Session.awaiting_of_short {s : Session} (h : s.stack.length = depth) : s.awaiting depth = [] := by
  have hnone : s.stack.reverse[depth]? = none := List.getElem?_eq_none (by simp [h])
  simp [awaiting, hnone]

/-- The turns of a step are those of the clients gone from the waiting ones. -/
theorem Step.visited_eq {step : Step} {visited : List Client}
    (h : step.before.session.awaiting depth = visited ++ step.after.session.awaiting depth) :
    step.visited depth = visited := by
  simp [Step.visited, h]

/-! ## One step of a fan-out -/

/-- The clients that have their turn before the next call or the end: of those
still registered, one that listens is called, and all are counted. -/
theorem Delivery.nextListener_visited (registered waiting : List Client) (n : Nat) :
    ∃ visited rest, waiting = visited ++ rest ∧
      (nextListener registered waiting n).2 = n + visited.countP (fun x => registered.any (·.id == x.id)) ∧
      ((nextListener registered waiting n).1 = none ∧ rest = [] ∧
          visited.filter (fun x => x.listens && registered.any (·.id == x.id)) = [] ∨
        ∃ x, (nextListener registered waiting n).1 = some (x.id, rest) ∧
          visited.filter (fun x => x.listens && registered.any (·.id == x.id)) = [x]) := by
  induction waiting generalizing n with
  | nil => exact ⟨[], [], rfl, rfl, .inl ⟨rfl, rfl, rfl⟩⟩
  | cons y waiting ih =>
    simp only [nextListener]
    by_cases hregistered : registered.any (·.id == y.id) = true
    · by_cases hlistens : y.listens = true
      · refine ⟨[y], waiting, rfl, ?_, .inr ⟨y, ?_, ?_⟩⟩ <;> simp [hregistered, hlistens]
      · obtain ⟨visited, rest, hwaiting, hreached, hcall⟩ := ih (n + 1)
        refine ⟨y :: visited, rest, by rw [hwaiting, List.cons_append], ?_, ?_⟩
        · simp only [hregistered, hlistens, if_true, Bool.false_eq_true, if_false, hreached, List.countP_cons]
          omega
        · simpa [hregistered, hlistens] using hcall
    · obtain ⟨visited, rest, hwaiting, hreached, hcall⟩ := ih n
      refine ⟨y :: visited, rest, by rw [hwaiting, List.cons_append], ?_, ?_⟩
      · simp only [hregistered, Bool.false_eq_true, if_false, hreached, List.countP_cons, Nat.add_zero]
      · simpa [hregistered] using hcall

/-- A fan-out goes on to the next client to call, or ends. -/
theorem Store.stepDelivery_visited (s : Store) (d : Delivery) :
    ∃ visited waiting reached, d.waiting = visited ++ waiting ∧
      reached = d.reached + visited.countP (fun x => s.registers d.event.server x.id) ∧
      ((∃ x, s.stepDelivery d = .call x.id { d with waiting := waiting, reached := reached } ∧
          visited.filter (fun x => x.listens && s.registers d.event.server x.id) = [x]) ∨
        s.stepDelivery d = .ended reached ∧ waiting = [] ∧
          visited.filter (fun x => x.listens && s.registers d.event.server x.id) = []) := by
  cases hv : s.get? d.event.server with
  | none =>
    have hended : s.stepDelivery d = .ended d.reached := by simp only [stepDelivery, hv]
    refine ⟨d.waiting, [], d.reached, (List.append_nil _).symm, ?_, .inr ⟨hended, rfl, ?_⟩⟩ <;>
      simp [registers_of_none hv]
  | some v =>
    obtain ⟨visited, waiting, hwaiting, hreached, hcall⟩ := Delivery.nextListener_visited v.clients d.waiting d.reached
    simp only [← registers_of_get? hv] at hreached hcall
    refine ⟨visited, waiting, _, hwaiting, hreached, ?_⟩
    simp only [stepDelivery, hv]
    generalize Delivery.nextListener v.clients d.waiting d.reached = next at hcall ⊢
    obtain ⟨called?, reached⟩ := next
    rcases hcall with ⟨rfl, hrest, hfilter⟩ | ⟨x, rfl, hfilter⟩
    · exact .inr ⟨rfl, hrest, hfilter⟩
    · exact .inl ⟨x, rfl, hfilter⟩

/-- **One step of a fan-out.** Some clients have their turn; the one called, if
any, is the one among them that listens and is still registered. The fan-out goes
on with the others, or it has ended and reports how many it has reached. -/
theorem Next.course (h : Next m a m') (hs : m.session.store.Coherent) {front rest : List Task}
    (hstack : m.session.stack = front ++ .deliver d :: rest) :
    ∃ visited waiting reached, d.waiting = visited ++ waiting ∧ Step.visited ⟨m, a, m'⟩ rest.length = visited ∧
      reached = d.reached + visited.countP (fun x => m.session.store.registers d.event.server x.id) ∧
      (Step.callAt ⟨m, a, m'⟩ rest.length).toList =
        (visited.filter fun x => x.listens && m.session.store.registers d.event.server x.id).map (·.id, d.event) ∧
      ((∃ front', m'.session.stack = front' ++ .deliver { d with waiting := waiting, reached := reached } :: rest) ∨
        waiting = [] ∧ m'.session.stack = Task.report reached rest ∧
          m'.session.store = m.session.store.endDelivery d) := by
  have hbefore := Session.awaiting_of_stack hstack
  by_cases hfront : front ≠ [] ∨ ∃ r, a = .ask r
  · -- The step is not one of the fan-out itself.
    obtain ⟨front', hstack'⟩ := h.beneath hs hstack (by simp) hfront
    have hvisited : Step.visited ⟨m, a, m'⟩ rest.length = [] :=
      Step.visited_eq (by rw [hbefore, Session.awaiting_of_stack hstack', List.nil_append])
    have hcall : Step.callAt ⟨m, a, m'⟩ rest.length = none := by
      rcases hfront with hfront | ⟨r, rfl⟩
      · have hpos : 0 < front.length := List.length_pos_iff.2 hfront
        refine if_neg ?_
        rw [hstack, List.length_append, List.length_cons]
        omega
      · exact ite_self none
    exact ⟨[], d.waiting, d.reached, rfl, hvisited, rfl, by rw [hcall]; rfl, .inl ⟨front', hstack'⟩⟩
  · obtain ⟨rfl, hask⟩ : front = [] ∧ ¬∃ r, a = .ask r := by simpa using hfront
    have hcallAt : Step.callAt ⟨m, a, m'⟩ rest.length = a.called? := if_pos (by simp [hstack])
    cases h with
    | ask s r => exact absurd ⟨r, rfl⟩ hask
    | @work s s' signal? busy h =>
      have htick := (Session.tick_eq h).1
      rw [hstack, List.nil_append] at htick
      obtain ⟨visited, waiting, reached, hwaiting, hreached, ⟨x, hstep, hfilter⟩ | ⟨hstep, rfl, hfilter⟩⟩ :=
        s.store.stepDelivery_visited d
      · simp only [Store.tick, hstep, Prod.mk.injEq] at htick
        obtain ⟨-, hstack', rfl⟩ := htick
        have hafter : s'.awaiting rest.length = waiting :=
          Session.awaiting_of_stack (hstack'.symm.trans (List.nil_append _).symm)
        refine ⟨visited, waiting, reached, hwaiting, Step.visited_eq ?_, hreached, ?_, .inl ⟨[], hstack'.symm⟩⟩
        · rw [hbefore, hafter, hwaiting]
        · rw [hcallAt, hfilter]
          rfl
      · simp only [Store.tick, hstep, Prod.mk.injEq] at htick
        obtain ⟨hstore', hstack', rfl⟩ := htick
        have hlength : s'.stack.length = rest.length := by rw [← hstack', Task.length_report]
        refine ⟨visited, [], reached, hwaiting, Step.visited_eq ?_, hreached, ?_,
          .inr ⟨rfl, hstack'.symm, hstore'.symm⟩⟩
        · rw [hbefore, Session.awaiting_of_short hlength, hwaiting]
        · rw [hcallAt, hfilter]
          rfl

/-! ## A whole fan-out -/

/-- The clients of a fan-out that have had their turn, with the calls to them, and
those still waiting. -/
structure Course (e : ClientEvent) (clients waiting : List Client) (depth : Nat) (steps : List Step) : Prop where
  order : (visits depth steps).map (·.client) ++ waiting = clients
  called : callsAt depth steps =
    ((visits depth steps).filter fun t => t.client.listens && t.stays e.server).map fun t => (t.client.id, e)

/-- Only clients registered at the start are called, and of the event. -/
theorem Course.mem_clients {clients waiting : List Client} (h : Course e clients waiting depth steps)
    {call : ClientId × ClientEvent} (hcall : call ∈ callsAt depth steps) :
    call.2 = e ∧ ∃ x ∈ clients, call.1 = x.id := by
  rw [h.called] at hcall
  obtain ⟨t, ht, rfl⟩ := List.mem_map.1 hcall
  have hturn : t.client ∈ (visits depth steps).map (·.client) := List.mem_map.2 ⟨t, List.mem_of_mem_filter ht, rfl⟩
  exact ⟨rfl, t.client, h.order ▸ List.mem_append_left _ hturn, rfl⟩

theorem Course.next {clients visited waiting : List Client} {step : Step}
    (h : Course e clients (visited ++ waiting) depth steps) (hvisited : step.visited depth = visited)
    (hcall : (step.callAt depth).toList =
      (visited.filter fun x => x.listens && step.before.session.store.registers e.server x.id).map (·.id, e)) :
    Course e clients waiting depth (steps ++ [step]) where
  order := by
    rw [visits_append, hvisited, List.map_append, List.map_map, ← h.order, ← List.append_assoc]
    exact congrArg (_ ++ · ++ _) (List.map_id visited)
  called := by
    have hlast : callsAt depth [step] = (step.callAt depth).toList := by
      cases hc : step.callAt depth <;> simp [callsAt, hc]
    rw [callsAt_append, visits_append, hvisited, List.filter_append, List.map_append, h.called, hlast, hcall,
      List.filter_map, List.map_map]
    rfl

/-- How far a fan-out has come in a run that works above the tasks below it. -/
theorem Run.course (hw : start.session.view.Regular) (h : Run start steps m) {rest : List Task}
    (hstart : start.session.stack = .deliver d :: rest) (hreached : d.reached = 0)
    (hinside : ∀ step ∈ steps, rest.length < step.before.session.stack.length) :
    ∃ reached, reached = (visits rest.length steps).countP (·.stays d.event.server) ∧
      ((∃ front waiting, m.session.stack = front ++ .deliver { d with waiting := waiting, reached := reached } :: rest ∧
          Course d.event d.waiting waiting rest.length steps) ∨
        m.session.stack = Task.report reached rest ∧ Course d.event d.waiting [] rest.length steps) := by
  induction h with
  | start => exact ⟨0, rfl, .inl ⟨[], d.waiting, by rw [hstart, ← hreached]; rfl, ⟨rfl, rfl⟩⟩⟩
  | @next steps m m' a hrun hnext ih =>
    obtain ⟨reached, hcount, ⟨front, waiting, hstack, hcourse⟩ | ⟨hstack, -⟩⟩ :=
      ih fun step hstep => hinside step (List.mem_append_left _ hstep)
    · have hcoherent := (hrun.keeps_regular hw).sound.coherent
      obtain ⟨visited, waiting', reached', rfl, hvisited, rfl, hcall, hnow⟩ := hnext.course hcoherent hstack
      have hcourse' := hcourse.next hvisited hcall
      refine ⟨_, ?_, hnow.imp (fun ⟨front', hstack'⟩ => ⟨front', waiting', hstack', hcourse'⟩)
        fun ⟨hnil, hstack', _⟩ => ⟨hstack', hnil ▸ hcourse'⟩⟩
      rw [visits_append, hvisited, List.countP_append, List.countP_map, hcount]
      rfl
    · -- The fan-out was over before this step.
      have hlong := hinside ⟨m, a, m'⟩ (by simp)
      simp only [hstack, Task.length_report] at hlong
      exact absurd hlong (Nat.lt_irrefl _)

/-- A fan-out is on the stack for as long as there are tasks above those below it. -/
theorem Run.under (hw : start.session.view.Regular) (h : Run start steps m) {rest : List Task}
    (hstart : start.session.stack = .deliver d :: rest) (hreached : d.reached = 0)
    (hinside : ∀ step ∈ steps, rest.length < step.before.session.stack.length)
    (hlong : rest.length < m.session.stack.length) :
    ∃ front d', m.session.stack = front ++ .deliver d' :: rest ∧ d'.event = d.event := by
  obtain ⟨reached, -, ⟨front, waiting, hstack, -⟩ | ⟨hstack, -⟩⟩ := h.course hw hstart hreached hinside
  · exact ⟨front, _, hstack, rfl⟩
  · rw [hstack, Task.length_report] at hlong
    exact absurd hlong (Nat.lt_irrefl _)

/-- At the end its clients have had their turn, and the tasks below are left. -/
theorem Above.course (hw : start.session.view.Regular) {rest : List Task} (h : Above rest.length start steps m)
    (hstart : start.session.stack = .deliver d :: rest) (hreached : d.reached = 0) :
    m.session.stack = Task.report ((visits rest.length steps).countP (·.stays d.event.server)) rest ∧
      Course d.event d.waiting [] rest.length steps := by
  obtain ⟨reached, hcount, ⟨front, waiting, hstack, -⟩ | ⟨hstack, hcourse⟩⟩ :=
    h.run.course hw hstart hreached h.inside
  · have hleft := h.left
    rw [hstack, List.length_append, List.length_cons] at hleft
    omega
  · exact ⟨hcount ▸ hstack, hcourse⟩

/-- The fan-out that has just started at `m₁` has come to its end at `m₂`, with
these calls and this count. -/
structure ReachesSurvivors (e : ClientEvent) (m₁ : Moment) (during : List Step) (m₂ : Moment) : Prop where
  /-- Each client registered at the start has its turn once, in the order of
  registration. -/
  once : ∃ v, m₁.session.store.get? e.server = some v ∧ (v.clients.map (·.id)).Nodup ∧
    (visits m₁.session.stack.tail.length during).map (·.client) = v.clients
  /-- Those that listen and are still registered in their turn are called. -/
  called : callsAt m₁.session.stack.tail.length during =
    ((visits m₁.session.stack.tail.length during).filter fun t => t.client.listens && t.stays e.server).map
      fun t => (t.client.id, e)
  /-- Those still registered are counted, silent ones included. -/
  count : m₂.session.stack = Task.report
    ((visits m₁.session.stack.tail.length during).countP (·.stays e.server)) m₁.session.stack.tail
  /-- A client registered meanwhile is not called. -/
  newcomers : ∀ step ∈ during, ∀ id listens, step.act = .ask (.registerClient id listens) →
    ∀ call ∈ callsAt m₁.session.stack.tail.length during, call.1 ≠ ⟨step.before.session.store.nextClient⟩
  /-- Once the vector is gone nobody is called, and none of its clients ever hears
  of it, not even if its id comes to name another vector. -/
  gone : ∀ front step back, during = front ++ step :: back → step.before.session.store.get? e.server = none →
    callsAt m₁.session.stack.tail.length (step :: back) = [] ∧
      ∀ t ∈ visits m₁.session.stack.tail.length during, ∀ call ∈ calls (step :: back),
        call.1 = t.client.id → call.2.server ≠ e.server

/-- **A fan-out reaches the clients registered at its start that still are when
their turn comes.** Whatever started it, whatever the clients do meanwhile, and
however deep it is inside others. -/
theorem Run.fanOut_survivors {s₀ : Session} {config : StoreConfig} {host : Host} {random : RandomSource}
    (hs₀ : Session.ofConfig config host random = .ok s₀) (h : Run ⟨s₀, false⟩ steps m) {m₁ m₂ : Moment}
    {during : List Step} (hnext : Next m a m₁) (hstarts : Step.Starts ⟨m, a, m₁⟩ e)
    (hduring : Above m₁.session.stack.tail.length m₁ during m₂) : ReachesSurvivors e m₁ during m₂ := by
  have hw := h.regular hs₀
  have hw₁ := hw.move (hnext.move hw.sound.coherent)
  obtain ⟨d, v, rest, hstack, rfl, hstarted⟩ := hnext.started hw.sound.coherent hstarts
  have hv := hstarted.begins.server
  have hrun := hduring.run
  obtain rfl : m₁.session.stack.tail = rest := by rw [hstack, List.tail_cons]
  obtain ⟨hstack₂, hcourse⟩ := hduring.course hw₁ hstack hstarted.begins.reached
  rw [hstarted.begins.waiting] at hcourse
  have hvisits := hcourse.order
  rw [List.append_nil] at hvisits
  -- The numbers of its clients are taken at every moment of the fan-out.
  have hold : ∀ {front : List Step} {m : Moment}, Run m₁ front m → ∀ x ∈ v.clients,
      x.id.number < m.session.store.nextClient := fun hfront x hx =>
    Nat.lt_of_lt_of_le (hw₁.enrolled.registered.below _ v hv x hx) (hfront.nextClient hw₁.sound)
  refine ⟨⟨v, hv, hw₁.enrolled.registered.nodup _ v hv, hvisits⟩, hcourse.called, hstack₂, ?_, ?_⟩
  · rintro step hstep id listens - call hcall hc
    obtain ⟨-, x, hx, hcx⟩ := hcourse.mem_clients hcall
    obtain ⟨front, back, rfl⟩ := List.append_of_mem hstep
    have hlt := hold hrun.split.1 x hx
    rw [← hcx, hc] at hlt
    exact Nat.lt_irrefl _ hlt
  · rintro front step back rfl hnone
    have hfront := hrun.split.1
    have hunheard : ∀ x ∈ v.clients, ∀ call ∈ calls (step :: back), call.1 = x.id → call.2.server ≠ d.event.server :=
      fun x hx => hrun.from_step.unheard (hfront.keeps_regular hw₁).sound (hold hfront x hx) hnone
    refine ⟨List.eq_nil_iff_forall_not_mem.2 fun call hcall => ?_, fun t ht => ?_⟩
    · have hall := List.mem_append_right (callsAt m₁.session.stack.tail.length front) hcall
      rw [← callsAt_append] at hall
      obtain ⟨he, x, hx, hcx⟩ := hcourse.mem_clients hall
      exact hunheard x hx call ((callsAt_sublist _ _).subset hcall) hcx (by rw [he])
    · exact hunheard t.client (hvisits ▸ List.mem_map.2 ⟨t, ht, rfl⟩)

/-- A vector with three clients, the last of them silent. -/
def Moment.threeClients : List (Option Request) :=
  [some (.create none), none, some (.registerClient ⟨0, 0⟩ true), none, some (.registerClient ⟨0, 0⟩ true), none,
    some (.registerClient ⟨0, 0⟩ false), none]

/-- The first client that is told releases the second and registers another. -/
def Moment.whileTelling : List (Option Request) :=
  [none, some (.releaseClient ⟨2⟩), none, some (.registerClient ⟨0, 0⟩ true), none, none]

theorem Run.fanOut_survivors_releasedMeanwhile :
    let m := Moment.outcome ⟨.initial, false⟩ Moment.threeClients
    let m₁ := m.outcome [some (.notifyNow ⟨0, 0⟩)]
    let m₂ := m₁.outcome Moment.whileTelling
    let during := m₁.play Moment.whileTelling
    callsAt m₁.session.stack.tail.length during = [(⟨1⟩, ⟨⟨0, 0⟩, .updated⟩)] ∧
      m₂.session.stack = [.answer (.count 2)] ∧ ReachesSurvivors ⟨⟨0, 0⟩, .updated⟩ m₁ during m₂ := by
  intro m m₁ m₂ during
  have hrun : Run ⟨.initial, false⟩ (Moment.play ⟨.initial, false⟩ Moment.threeClients) m :=
    Moment.run_play (by decide +kernel)
  have hnext : Next m (.ask (.notifyNow ⟨0, 0⟩)) m₁ := Moment.next_step (some (.notifyNow ⟨0, 0⟩)) rfl
  have hstarts : Step.Starts ⟨m, .ask (.notifyNow ⟨0, 0⟩), m₁⟩ ⟨⟨0, 0⟩, .updated⟩ := ⟨_, rfl, rfl⟩
  have hduring : Above m₁.session.stack.tail.length m₁ during m₂ :=
    Moment.above_play (by decide +kernel) (by decide +kernel) (by decide +kernel)
  exact ⟨by decide +kernel, by decide +kernel,
    Run.fanOut_survivors Session.ofConfig_initial hrun hnext hstarts hduring⟩

end VectorEngine
