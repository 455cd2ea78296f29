/-
Writes that become visible together.

When a request with a plan is begun, all of the plan is written, and what is left of it
are the changes to note, one vector after the other. Up to the first call of a client
the program has no turn and no unit of work changes what a vector holds
(`Run.untold`). Whatever the clients that are called ask for is worked on above what
is left, so that is taken up again as it was, up to the answer (`Run.noting`).
-/
import Mathlib
import VectorEngine.Proofs.Session.Plan
import VectorEngine.Proofs.Session.StaleIds

namespace VectorEngine

/-- The vectors written to hold their new values, and all others what they held. -/
structure Store.Shows (s : Store) (writes : List (VectorId × List Float)) (s' : Store) : Prop where
  written : ∀ w ∈ writes, ∃ c, s.contents? w.1 = some c ∧ s'.contents? w.1 = some { c with values := w.2 }
  others : ∀ id ∉ writes.map (·.1), s'.contents? id = s.contents? id

/-- The vector whose change is to be noted next, above the `depth` outermost tasks. -/
def Task.turn? (depth : Nat) : List Task → Option VectorId
  | .markEach (id :: _) :: rest => if rest.length = depth then some id else none
  | _ => none

/-- The vector that has its turn. -/
def Step.turn? (depth : Nat) (step : Step) : Option VectorId :=
  match step.act with
  | .ask _ => none
  | .work _ => Task.turn? depth step.before.session.stack

/-- The vectors whose changes are noted above the `depth` outermost tasks, in their order. -/
def turns (depth : Nat) (steps : List Step) : List VectorId := steps.filterMap (·.turn? depth)

/-- A change to the vector is noted if it is there; its clients are told if they are to
be told at once. If it is gone nothing is done. -/
structure Step.Notes (step : Step) (id : VectorId) : Prop where
  marked : step.before.session.store.Has id → ∃ d?,
    step.before.session.store.markDirty id = .ok (step.after.session.store, d?) ∧
      step.after.session.view.fanOuts = d?.toList ++ step.before.session.view.fanOuts
  passed : step.before.session.store.get? id = none → step.after.session.store = step.before.session.store ∧
    step.after.session.view.fanOuts = step.before.session.view.fanOuts

variable {start m m' : Moment} {act : Act} {steps during : List Step} {id : VectorId} {ids rest : List VectorId}
  {writes : List (VectorId × List Float)} {a : Answer} {base : List Task} {depth : Nat} {r : Request}
  {result : Except Error Answer}

namespace Store

variable {s s' s'' : Store}

/-- What is written is there at once. -/
theorem shows_writeAll (hdistinct : (writes.map (·.1)).Nodup) (hthere : ∀ w ∈ writes, s.Has w.1)
    (h : (s.writeAll writes).2 = none) : s.Shows writes (s.writeAll writes).1 := by
  obtain ⟨hwritten, hothers⟩ := writeAll_contents hdistinct (Prod.ext rfl h)
  refine ⟨fun w hw => ?_, hothers⟩
  obtain ⟨c, hc⟩ := has_iff.1 (hthere w hw)
  exact ⟨c, hc, by rw [hwritten w hw, hc]; rfl⟩

theorem Shows.congr (h : s.Shows writes s') (hsame : ∀ id, s''.contents? id = s'.contents? id) :
    s.Shows writes s'' := by
  refine ⟨fun w hw => ?_, fun id hid => (hsame id).trans (h.others id hid)⟩
  obtain ⟨c, hc, hc'⟩ := h.written w hw
  exact ⟨c, hc, (hsame w.1).trans hc'⟩

theorem Shows.has (h : s.Shows writes s') (hid : id ∈ writes.map (·.1)) : s'.Has id := by
  obtain ⟨w, hw, rfl⟩ := List.mem_map.1 hid
  obtain ⟨c, -, hc⟩ := h.written w hw
  exact has_iff.2 ⟨_, hc⟩

theorem markDirty_kind {d : Delivery} (h : s.markDirty id = .ok (s', some d)) : d.event.kind = .updated := by
  obtain ⟨v, s₁, -, -, ⟨hd, -⟩ | ⟨hd, -⟩ | ⟨-, -, hd⟩⟩ := markDirty_cases h
  · cases hd
  · cases hd
  · cases hd
    rfl

/-- The change to a vector is noted, or the vector is passed over. -/
theorem tick_mark {tasks tasks' : List Task} {signal? : Option Signal}
    (h : s.tick (.markEach (id :: ids) :: tasks) = (s', tasks', signal?)) :
    signal? = none ∧ ∃ d?, tasks' = Task.delivering d? (.markEach ids :: tasks) ∧
      (s.markDirty id = .ok (s', d?) ∨ s.get? id = none ∧ s' = s ∧ d? = none) := by
  simp only [tick] at h
  split at h
  · next hmark =>
    cases h
    exact ⟨rfl, _, rfl, .inl hmark⟩
  · next hmark =>
    cases h
    refine ⟨rfl, none, rfl, .inr ⟨Option.eq_none_iff_forall_ne_some.2 fun v hv => ?_, rfl, rfl⟩⟩
    obtain ⟨noted, hnoted⟩ := markDirty_ok hv
    rw [hmark] at hnoted
    cases hnoted

end Store

/-! ## Up to the first call -/

/-- What is left to do while nobody has been called: to note changes, after a fan-out
that has begun or not, and to answer. -/
inductive Moment.Untold (base : List Task) (a : Answer) : Moment → Prop
  | notes {s : Session} {rest : List VectorId} : s.stack = .markEach rest :: .answer a :: base → Untold base a ⟨s, true⟩
  | tells {s : Session} {d : Delivery} {rest : List VectorId} : d.event.kind = .updated →
    s.stack = .deliver d :: .markEach rest :: .answer a :: base → Untold base a ⟨s, true⟩
  | answers {s : Session} : s.stack = .answer a :: base → Untold base a ⟨s, true⟩

/-- The program has no turn, and what the vectors hold stays. -/
theorem Next.untold (h : Next m act m') (hm : m.Untold base a) :
    (∀ id, m'.session.store.contents? id = m.session.store.contents? id) ∧ (∀ r, act ≠ .ask r) ∧
      (act.called? = none → m'.Untold base a ∨ m'.session.stack = base) := by
  cases h with
  | ask => cases hm
  | @work s s' signal? busy htick =>
    obtain ⟨store', host', traces', stack'⟩ := s'
    have hask : ∀ r, Act.work signal? ≠ .ask r := by
      intro r hr
      cases hr
    have htick := (Session.tick_eq htick).1
    dsimp only at htick
    cases hm with
    | @notes _ rest hstack =>
      rw [hstack] at htick
      cases rest with
      | nil =>
        cases htick
        exact ⟨fun id => rfl, hask, fun _ => .inl (.answers rfl)⟩
      | cons id rest =>
        obtain ⟨rfl, d?, rfl, hmark⟩ := Store.tick_mark htick
        refine ⟨fun id' => ?_, hask, fun _ => .inl ?_⟩
        · obtain hmark | ⟨-, rfl, -⟩ := hmark
          · exact Store.contents?_markDirty hmark id'
          · rfl
        · cases d? with
          | none => exact .notes rfl
          | some d =>
            refine .tells ?_ rfl
            obtain hmark | ⟨-, -, hd⟩ := hmark
            · exact Store.markDirty_kind hmark
            · cases hd
    | @tells _ d rest hd hstack =>
      rw [hstack] at htick
      simp only [Store.tick] at htick
      split at htick
      · cases htick
        refine ⟨fun id => rfl, hask, fun hcalled => ?_⟩
        cases hcalled
      · next reached _ =>
        cases htick
        have hreport := Task.report_of_ne reached (t := .markEach rest) (by simp) (.answer a :: base)
        refine ⟨fun id => ?_, hask, fun _ => .inl (.notes hreport)⟩
        rw [Store.endDelivery_updated s.store hd]
        exact Store.contents?_modify s.store _ id fun _ => rfl
    | answers hstack =>
      rw [hstack] at htick
      cases htick
      exact ⟨fun id => rfl, hask, fun _ => .inr rfl⟩

/-- **Up to the first call** the program has no turn, and all that was written at once
is there. -/
theorem Run.untold (h : Run start steps m) (hstart : start.Untold base a)
    (hinside : ∀ step ∈ steps, base.length < step.before.session.stack.length) (hcalls : calls steps = []) :
    (∀ id, m.session.store.contents? id = start.session.store.contents? id) ∧
      (m.Untold base a ∨ m.session.stack = base) := by
  induction h with
  | start => exact ⟨fun id => rfl, .inl hstart⟩
  | @next steps m m' act hrun hnext ih =>
    obtain ⟨hinside, hlast⟩ := List.forall_mem_append.1 hinside
    rw [calls, List.filterMap_append, List.append_eq_nil_iff] at hcalls
    obtain ⟨hcalls, hcall⟩ := hcalls
    obtain ⟨hcontents, huntold | hleft⟩ := ih hinside hcalls
    · obtain ⟨hsame, -, huntold'⟩ := hnext.untold huntold
      refine ⟨fun id => (hsame id).trans (hcontents id), huntold' ?_⟩
      simpa using hcall
    · have hlong := hlast _ (List.mem_singleton_self _)
      rw [hleft] at hlong
      exact absurd hlong (lt_irrefl _)

/-! ## In turn -/

/-- What is left to note: the rest of the vectors, under whatever is worked on
meanwhile, or none once there is only the answer left to give, or not even that. -/
inductive Moment.Noting (base : List Task) (a : Answer) : List VectorId → Moment → Prop
  | notes {m : Moment} {front : List Task} {rest : List VectorId} :
    m.session.stack = front ++ .markEach rest :: .answer a :: base → Noting base a rest m
  | answers {s : Session} : s.stack = .answer a :: base → Noting base a [] ⟨s, true⟩
  | done {m : Moment} : m.session.stack = base → Noting base a [] m

/-- What is on top of deeper tasks has no turn. -/
theorem Task.turn?_of_deeper {tasks : List Task} (h : depth + 1 < tasks.length) : Task.turn? depth tasks = none := by
  unfold turn?
  split
  · rw [List.length_cons] at h
    rw [if_neg (by omega)]
  · rfl

theorem Task.turn?_eq_some {tasks : List Task} (h : Task.turn? depth tasks = some id) :
    ∃ ids rest, tasks = .markEach (id :: ids) :: rest := by
  unfold turn? at h
  split at h
  · split at h
    · cases h
      exact ⟨_, _, rfl⟩
    · cases h
  · cases h

theorem Task.turn?_markEach (id : VectorId) (ids : List VectorId) (rest : List Task) :
    Task.turn? rest.length (.markEach (id :: ids) :: rest) = some id := if_pos rfl

/-- Nobody has the turn while something above is worked on, or is begun. -/
theorem Step.turn?_of_above {step : Step} {front rest : List Task} (hstack : step.before.session.stack = front ++ rest)
    (hdeep : depth < rest.length) (habove : front ≠ [] ∨ ∃ r, step.act = .ask r) : step.turn? depth = none := by
  unfold turn?
  split
  · rfl
  · next signal? hact =>
    obtain hfront | ⟨r, hr⟩ := habove
    · have hpos := List.length_pos_of_ne_nil hfront
      refine Task.turn?_of_deeper ?_
      rw [hstack, List.length_append]
      omega
    · rw [hact] at hr
      cases hr

/-- A step takes the turn of the first that is left, or leaves them all. -/
theorem Next.noting (h : Next m act m') (hs : m.session.store.Coherent)
    (hinside : base.length < m.session.stack.length) (hm : m.Noting base a rest) :
    ∃ rest', m'.Noting base a rest' ∧ rest = (Step.turn? (base.length + 1) ⟨m, act, m'⟩).toList ++ rest' := by
  cases hm with
  | @notes _ front rest hstack =>
    by_cases habove : front ≠ [] ∨ ∃ r, act = .ask r
    · obtain ⟨front', hstack'⟩ := h.beneath hs hstack (by simp) habove
      have hnone : Step.turn? (base.length + 1) ⟨m, act, m'⟩ = none :=
        Step.turn?_of_above hstack (by simp) habove
      exact ⟨rest, .notes hstack', by rw [hnone]; rfl⟩
    · -- What is left to note is on top, so the next vector has its turn.
      obtain ⟨hnil, hwork⟩ := not_or.1 habove
      obtain rfl := not_not.1 hnil
      cases h with
      | ask s r => exact absurd ⟨r, rfl⟩ hwork
      | @work s s' signal? busy htick =>
        have htick := (Session.tick_eq htick).1
        rw [List.nil_append] at hstack
        rw [hstack] at htick
        cases rest with
        | nil =>
          rw [Store.tick, Prod.mk.injEq, Prod.mk.injEq] at htick
          obtain ⟨-, hstack', rfl⟩ := htick
          have hnone : Task.turn? (base.length + 1) s.stack = none := hstack ▸ rfl
          exact ⟨[], .answers hstack'.symm, by rw [Step.turn?, hnone]; rfl⟩
        | cons id rest =>
          obtain ⟨rfl, d?, hstack', -⟩ := Store.tick_mark htick
          have hturn : Task.turn? (base.length + 1) s.stack = some id := hstack ▸ Task.turn?_markEach id rest _
          exact ⟨rest, .notes (hstack'.trans (Task.delivering_append d? [] _).symm), by rw [Step.turn?, hturn]; rfl⟩
  | @answers s hstack =>
    cases h with
    | work _ htick =>
      have htick := (Session.tick_eq htick).1
      rw [hstack, Store.tick, Prod.mk.injEq, Prod.mk.injEq] at htick
      have hnone : Task.turn? (base.length + 1) s.stack = none := hstack ▸ rfl
      exact ⟨[], .done htick.2.1.symm, by rw [Step.turn?, hnone]; rfl⟩
  | done hstack =>
    rw [hstack] at hinside
    exact absurd hinside (lt_irrefl _)

theorem turns_append (depth : Nat) (front back : List Step) :
    turns depth (front ++ back) = turns depth front ++ turns depth back := List.filterMap_append

theorem turns_singleton (depth : Nat) (step : Step) : turns depth [step] = (step.turn? depth).toList := by
  unfold turns
  cases h : step.turn? depth <;> simp [h]

/-- **Whatever is asked for meanwhile**, the vectors have their turns one after the other. -/
theorem Run.noting (h : Run start steps m) (hs : start.session.view.Sound)
    (hinside : ∀ step ∈ steps, base.length < step.before.session.stack.length) (hstart : start.Noting base a ids) :
    ∃ rest, m.Noting base a rest ∧ ids = turns (base.length + 1) steps ++ rest := by
  induction h with
  | start => exact ⟨ids, hstart, rfl⟩
  | @next steps m m' act hrun hnext ih =>
    obtain ⟨hinside, hlast⟩ := List.forall_mem_append.1 hinside
    obtain ⟨rest, hrest, hids⟩ := ih hinside
    obtain ⟨rest', hrest', hstep⟩ :=
      hnext.noting (hrun.keeps_sound hs).coherent (hlast _ (List.mem_singleton_self _)) hrest
    refine ⟨rest', hrest', ?_⟩
    rw [hids, hstep, turns_append, turns_singleton, List.append_assoc]

/-- In its turn the change to a vector is noted. -/
theorem Next.notes (h : Next m act m') (hturn : Step.turn? depth ⟨m, act, m'⟩ = some id) :
    Step.Notes ⟨m, act, m'⟩ id := by
  cases h with
  | ask => cases hturn
  | @work s s' signal? busy htick =>
    obtain ⟨ids, rest, hstack⟩ := Task.turn?_eq_some hturn
    change s.stack = _ at hstack
    have htick := (Session.tick_eq htick).1
    rw [hstack] at htick
    obtain ⟨-, d?, hstack', hmark⟩ := Store.tick_mark htick
    have hfanOuts : s'.view.fanOuts = d?.toList ++ s.view.fanOuts := by
      simp only [Session.view, View.ofTasks, hstack, hstack']
      cases d? <;> rfl
    constructor
    · rintro ⟨v, hv⟩
      obtain hmark | ⟨hnone, -⟩ := hmark
      · exact ⟨d?, hmark, hfanOuts⟩
      · cases hnone.symm.trans hv
    · intro hnone
      obtain hmark | ⟨-, hstore, rfl⟩ := hmark
      · obtain ⟨v, -, hv, -⟩ := Store.markDirty_cases hmark
        cases hnone.symm.trans hv
      · exact ⟨hstore, hfanOuts⟩

/-! ## In an exchange -/

/-- All the writes are there before anybody is called, and the vectors have their turns
in order. In its turn a vector that has not been removed is there, and its change is
noted; one that has been removed is passed over, whatever its slot is used for then. -/
structure Moment.Together (m : Moment) (writes : List (VectorId × List Float)) (during : List Step) : Prop where
  shown : ∀ (front : List Step) (step : Step) (back : List Step), during = front ++ step :: back → calls front = [] →
    m.session.store.Shows writes step.before.session.store ∧
      m.session.store.Shows writes step.after.session.store ∧ ∀ r, step.act ≠ .ask r
  turns : turns (m.session.stack.length + 1) during = writes.map (·.1)
  noted : ∀ (front : List Step) (step : Step) (back : List Step) (id : VectorId), during = front ++ step :: back →
    step.turn? (m.session.stack.length + 1) = some id → step.Notes id ∧
      (vacated front id.index = 0 → step.before.session.store.Has id) ∧
      (0 < vacated front id.index → vacated front id.index < 2 ^ 32 → step.before.session.store.get? id = none)

namespace Request.Plans

variable (h : r.Plans m.session.store writes a) (hroom : ∀ w ∈ writes, m.session.store.HasRoom w.1 w.2.length)

include h hroom

/-- All that is planned is written at once, and the changes are left to note. -/
theorem begun : (m.session.issue r).stack = .markEach (writes.map (·.1)) :: .answer a :: m.session.stack ∧
    m.session.store.Shows writes (m.session.issue r).store := by
  obtain ⟨hdistinct, hthere⟩ := h.targets
  have hall := (Store.writeAll_none_iff hdistinct).2 hroom
  rw [h.issue, Store.writing_of_none hall]
  exact ⟨rfl, Store.shows_writeAll hdistinct hthere hall⟩

/-- **However far it has come**, the request is answered as planned if nobody asks for more. -/
theorem completes (hs : m.session.view.Sound) (hturn : m.busy = false)
    (hrun : Run ⟨m.session.issue r, true⟩ steps m')
    (hinside : ∀ step ∈ steps, m.session.stack.length < step.before.session.stack.length)
    (hlong : m.session.stack.length < m'.session.stack.length) :
    ∃ more m'', (∀ step ∈ more, ∀ r, step.act ≠ .ask r) ∧ Exchange m r (steps ++ more) m'' (.ok a) := by
  obtain ⟨s, busy⟩ := m
  subst hturn
  obtain ⟨hstack, -⟩ := h.begun hroom
  have hissue : (s.issue r).view.Sound := (Run.next .start (.ask s r)).keeps_sound hs
  obtain ⟨rest, hnoting, -⟩ := hrun.noting hissue hinside (.notes (hstack.trans (List.nil_append _).symm))
  obtain ⟨front, hfront⟩ : ∃ front, m'.session.stack = front ++ .answer a :: s.stack := by
    cases hnoting with
    | @notes _ front rest hleft => exact ⟨front ++ [.markEach rest], by rw [hleft, List.append_assoc]; rfl⟩
    | answers hleft => exact ⟨[], hleft⟩
    | done hleft =>
      rw [hleft] at hlong
      exact absurd hlong (lt_irrefl _)
  obtain ⟨more, m'', hmore, hleft, hwork, init, last, rfl, hlast⟩ :=
    Run.works_off (hrun.keeps_sound hissue) (Task.answers_answer a) hfront m'.busy
  refine ⟨_, m'', fun step hstep => (hwork step hstep).2, rfl, ⟨hrun.trans hmore, ?_, congrArg List.length hleft⟩, ?_⟩
  · exact List.forall_mem_append.2 ⟨hinside, fun step hstep => (hwork step hstep).1⟩
  · exact ⟨steps ++ init, last, (List.append_assoc _ _ _).symm, hlast⟩

end Request.Plans

namespace Exchange

/-- **What is planned becomes visible together**, and the answer does not depend on what the
clients do. -/
theorem together (h : Exchange m r during m' result) (hs : m.session.view.Sound)
    (hplan : r.Plans m.session.store writes a) (hroom : ∀ w ∈ writes, m.session.store.HasRoom w.1 w.2.length) :
    result = .ok a ∧ m.Together writes during := by
  obtain ⟨hstack, hshows⟩ := hplan.begun hroom
  have hissue := h.sound_issue hs
  have hnoting : ∀ {steps m₁}, Run ⟨m.session.issue r, true⟩ steps m₁ →
      (∀ step ∈ steps, m.session.stack.length < step.before.session.stack.length) →
      ∃ rest, m₁.Noting m.session.stack a rest ∧
        writes.map (·.1) = turns (m.session.stack.length + 1) steps ++ rest := fun hrun hinside =>
    hrun.noting hissue hinside (.notes (hstack.trans (List.nil_append _).symm))
  have hturns : turns (m.session.stack.length + 1) during = writes.map (·.1) := by
    obtain ⟨rest, hrest, hids⟩ := hnoting h.above.run h.above.inside
    have hleft := h.above.left
    cases hrest with
    | notes hstack' =>
      rw [hstack', List.length_append, List.length_cons, List.length_cons] at hleft
      omega
    | answers hstack' =>
      rw [hstack', List.length_cons] at hleft
      omega
    | done => rw [hids, List.append_nil]
  have hbottom : (m.session.issue r).stack = [.markEach (writes.map (·.1))] ++ .answer a :: m.session.stack := hstack
  refine ⟨h.result_eq hs (Task.answers_answer a) hbottom, ?_, hturns, ?_⟩
  · rintro front step back rfl hcalls
    obtain ⟨hfront, hnext, -⟩ := h.above.run.split
    obtain ⟨hinside, hstep⟩ := List.forall_mem_append.1 h.above.inside
    have hlong := hstep step List.mem_cons_self
    obtain ⟨hsame, huntold | hleft⟩ := hfront.untold (.notes hstack) hinside hcalls
    · obtain ⟨hsame', hask, -⟩ := hnext.untold huntold
      have hbefore := hshows.congr hsame
      exact ⟨hbefore, hbefore.congr hsame', hask⟩
    · rw [hleft] at hlong
      exact absurd hlong (lt_irrefl _)
  · rintro front step back id rfl hturn
    obtain ⟨hfront, hnext, -⟩ := h.above.run.split
    have hid : id ∈ writes.map (·.1) := hturns ▸ List.mem_filterMap.2 ⟨step, by simp, hturn⟩
    obtain ⟨v, hv⟩ := hshows.has hid
    refine ⟨hnext.notes hturn, hfront.stays hissue hv, fun hpos hround => ?_⟩
    exact Store.get?_of_generation_ne (hfront.passed_by hissue (Store.generation_of_get? hv) hpos hround)

/-- Without room for all that is planned the request fails before anybody is called. -/
theorem out_of_room (h : Exchange m r during m' result) (hs : m.session.view.Sound)
    (hplan : r.Plans m.session.store writes a) (hroom : ¬∀ w ∈ writes, m.session.store.HasRoom w.1 w.2.length) :
    (∃ e, result = .error e) ∧ calls during = [] := by
  obtain ⟨hdistinct, -⟩ := hplan.targets
  obtain ⟨e, he⟩ := Option.ne_none_iff_exists'.1 (mt (Store.writeAll_none_iff hdistinct).1 hroom)
  have hissue := hplan.issue
  rw [Store.writing_of_some he] at hissue
  obtain ⟨hresult, -, hduring⟩ := h.answered_at_once hs (Task.answers_refuse e) hissue
  exact ⟨⟨e, hresult⟩, by rw [hduring]; rfl⟩

end Exchange

/-- **Joint writes become visible together.** At every moment of a run at which splitting,
sorting or a transform is asked for and passes its checks, all it writes is there before
any client is called, and whatever else there is holds what it held. Then each of the
vectors written to has its turn once, in the order of the writes: its change is noted if it
is still there, and it is passed over if it has been destroyed meanwhile, even if its slot
is in use again (for fewer than `2 ^ 32` removals from it). The answer is the one planned,
whatever the clients do, and it is given as soon as they let it. Room counts among the
checks, which is not missing for up to half of `slotLimit` values; a request that does
not pass fails before any client is called. -/
theorem Run.written_together {config : StoreConfig} {host : Host} {random : RandomSource} {s₀ : Session}
    {steps : List Step} {m : Moment}
    (hs₀ : Session.ofConfig config host random = .ok s₀) (h : Run ⟨s₀, false⟩ steps m) {r : Request} (hr : r.Joint) :
    (∀ writes a, r.Plans m.session.store writes a → (writes.map (·.1)).Nodup ∧
      ((∀ w ∈ writes, m.session.store.HasRoom w.1 w.2.length) →
        (∀ during m' result, Exchange m r during m' result → result = .ok a ∧ m.Together writes during) ∧
        (m.busy = false → ∀ begun m₁, Run ⟨m.session.issue r, true⟩ begun m₁ →
          (∀ step ∈ begun, m.session.stack.length < step.before.session.stack.length) →
          m.session.stack.length < m₁.session.stack.length →
          ∃ more m', (∀ step ∈ more, ∀ r', step.act ≠ .ask r') ∧ Exchange m r (begun ++ more) m' (.ok a))) ∧
      ((¬∀ w ∈ writes, m.session.store.HasRoom w.1 w.2.length) → ∀ during m' result,
        Exchange m r during m' result → (∃ e, result = .error e) ∧ calls during = [])) ∧
    ((¬∃ writes a, r.Plans m.session.store writes a) → ∀ during m' result,
      Exchange m r during m' result → (∃ e, result = .error e) ∧ calls during = [] ∧ m' = m) ∧
    ∀ id n, m.session.store.Has id → 2 * n ≤ Buffer.slotLimit → m.session.store.HasRoom id n := by
  have hs := h.sound hs₀
  refine ⟨fun writes a hplan => ⟨hplan.targets.1, fun hroom => ⟨?_, ?_⟩, ?_⟩, fun hnone => ?_,
    fun id n hid hn => Store.hasRoom_of_le hid hn⟩
  · intro during m' result hexchange
    exact hexchange.together hs hplan hroom
  · intro hturn begun m₁ hrun hinside hlong
    exact hplan.completes hroom hs hturn hrun hinside hlong
  · intro hroom during m' result hexchange
    exact hexchange.out_of_room hs hplan hroom
  · intro during m' result hexchange
    obtain ⟨e, he⟩ := hr.refused hnone
    obtain ⟨hresult, hsame⟩ := hexchange.refused hs he
    obtain ⟨-, -, hduring⟩ := hexchange.answered_at_once hs (Task.answers_refuse e) he
    exact ⟨⟨e, hresult⟩, by rw [hduring]; rfl, hsame⟩

/-- A source of four values, and two vectors to deal them out to, the first with a client
that is told of every change. -/
def Moment.dealtOut : List (Option Request) :=
  [some (.create none), none, some (.create none), none, some (.create none), none,
    some (.registerClient ⟨1, 0⟩ true), none, some (.setPolicy ⟨1, 0⟩ .always), none,
    some (.edit ⟨0, 0⟩ (Series.setValues [1.0, 10.0, 2.0, 20.0])), none]

/-- The client that is told of the first target destroys the second, and has a vector
created in its slot before the second has its turn. -/
theorem Run.written_together_slotReused :
    let m := Moment.outcome ⟨.initial, false⟩ Moment.dealtOut
    let split := Request.split ⟨0, 0⟩ [⟨1, 0⟩, ⟨2, 0⟩]
    let script :=
      [none, none, some (.destroy ⟨2, 0⟩), none, none, some (.create none), none, none, none, none] ++ [none]
    let during := (m.step (some split)).after.play script
    let m' := (m.step (some split)).after.outcome script
    Exchange m split during m' (.ok .done) ∧ (calls during).length = 1 ∧
      m'.session.store.contains ⟨2, 0⟩ = false ∧ m'.session.store.contains ⟨2, 1⟩ = true ∧
      m.Together [(⟨1, 0⟩, [1.0, 2.0]), (⟨2, 0⟩, [10.0, 20.0])] during := by
  intro m split script during m'
  have hrun : Run ⟨.initial, false⟩ (Moment.play ⟨.initial, false⟩ Moment.dealtOut) m :=
    Moment.run_play (by decide +kernel)
  have hexchange : Exchange m split during m' (.ok .done) :=
    Exchange.of_script (by decide +kernel) (by decide +kernel) (by decide +kernel) (by decide +kernel)
      (by decide +kernel)
  have hvalues : m.session.store.valuesOf ⟨0, 0⟩ = .ok [1.0, 10.0, 2.0, 20.0] := by decide +kernel
  have hfirst : m.session.store.Has ⟨1, 0⟩ := Option.isSome_iff_exists.1 (by decide +kernel)
  have hsecond : m.session.store.Has ⟨2, 0⟩ := Option.isSome_iff_exists.1 (by decide +kernel)
  have hsplits : m.session.store.Splittable ⟨0, 0⟩ [⟨1, 0⟩, ⟨2, 0⟩] [1.0, 10.0, 2.0, 20.0] :=
    ⟨hvalues, by simp [hfirst, hsecond], by decide, by decide, by decide⟩
  have hplan : split.Plans m.session.store [(⟨1, 0⟩, [1.0, 2.0]), (⟨2, 0⟩, [10.0, 20.0])] .done := .split hsplits
  obtain ⟨hplans, -, hlimit⟩ := Run.written_together Session.ofConfig_initial hrun (r := split) trivial
  have hroom : ∀ w ∈ [((⟨1, 0⟩ : VectorId), [(1.0 : Float), 2.0]), (⟨2, 0⟩, [10.0, 20.0])],
      m.session.store.HasRoom w.1 w.2.length := by
    simp [hlimit _ 2 hfirst (by decide), hlimit _ 2 hsecond (by decide)]
  obtain ⟨-, htogether, -⟩ := hplans _ _ hplan
  exact ⟨hexchange, by decide +kernel, by decide +kernel, by decide +kernel, ((htogether hroom).1 _ _ _ hexchange).2⟩

end VectorEngine
