/-
One idle pass, from the call to its answer, when the clients start no other and
demand no fan-out.

Only the pass starts fan-outs that tell changes then (`Step.Calm.flushes`), one
for each entry it comes to whose vector is pending. An entry of a vector that was
cancelled stays in the queue, so a vector scheduled again has two, and is flushed
twice if its clients change it in between (`Reflushes`).
-/
import Mathlib
import VectorEngine.Proofs.Session.Stack

namespace VectorEngine

variable {start m m' m₁ m₂ : Moment} {a : Act} {steps during : List Step} {step : Step} {id : VectorId}

/-- The vectors flushed by idle passes, in order. -/
def flushes (steps : List Step) : List VectorId := steps.filterMap fun step => step.act.flushed? step.before.session

theorem flushes_append (front back : List Step) : flushes (front ++ back) = flushes front ++ flushes back :=
  List.filterMap_append

theorem flushes_singleton (step : Step) : flushes [step] = (step.act.flushed? step.before.session).toList := by
  cases h : step.act.flushed? step.before.session <;> simp [flushes, h]

/-- The step starts no idle pass, demands no fan-out, and leaves no vector at
policy `always`. -/
structure Step.Calm (step : Step) : Prop where
  noPass : step.act ≠ .ask .runIdle
  noDemand : ¬step.act.NotifiesNow
  noAlways : ∀ id v, step.after.session.store.get? id = some v → v.policy ≠ .always

/-! ## Flushes and fan-outs -/

/-- Where all is calm, changes are told by flushes. -/
theorem Step.Calm.flushes (h : Step.Calm ⟨m, a, m'⟩) (hnext : Next m a m') (hs : m.session.store.Coherent)
    (hstarts : Step.Starts ⟨m, a, m'⟩ ⟨id, .updated⟩) : Step.Flushes ⟨m, a, m'⟩ id := by
  obtain ⟨d, v, rest, -, he, hstarted⟩ := hnext.started hs hstarts
  have hv := hstarted.begins.server
  have hupdate := hstarted.update (by rw [he])
  rw [he] at hv hupdate
  rcases hupdate with hflush | hdemand | halways
  · exact hflush
  · exact absurd hdemand h.noDemand
  · exact absurd halways (h.noAlways id v hv)

theorem Move.starts_of_flush {W : VectorId → Prop} {w w' : View} {c : Option (ClientId × ClientEvent)}
    (hm : Move W w c (some id) w') : ∃ d, d.event = ⟨id, .updated⟩ ∧ w'.fanOuts = d :: w.fanOuts := by
  cases hm with
  | flush => exact ⟨_, rfl, rfl⟩

/-- A flush starts a fan-out, after which the vector is not pending. -/
theorem Next.starts_of_flush (h : Next m a m') (hs : m.session.store.Coherent)
    (hflush : Step.Flushes ⟨m, a, m'⟩ id) :
    Step.Starts ⟨m, a, m'⟩ ⟨id, .updated⟩ ∧ ¬m'.session.store.Pending id := by
  have hm := h.move hs
  rw [show a.flushed? m.session = some id from hflush] at hm
  obtain ⟨d, he, hF⟩ := hm.starts_of_flush
  refine ⟨⟨d, he, hF⟩, ?_⟩
  have hidle := hm.not_pending_of_start hF
  rwa [he] at hidle

/-- A vector flushed a second time has been scheduled in between. -/
theorem Run.scheduled_between (hw : start.session.view.Sound) {front mid back : List Step} {first second : Step}
    (h : Run start (front ++ first :: (mid ++ second :: back)) m) (hfirst : first.Flushes id)
    (hsecond : second.Flushes id) : ∃ change ∈ mid, change.Schedules id := by
  obtain ⟨hfront, hnext, hrest⟩ := h.split
  have hsound := hfront.keeps_sound hw
  have hidle := (hnext.starts_of_flush hsound.coherent hfirst).2
  obtain ⟨before, change, after, rfl, hschedules, -⟩ :=
    Run.scheduled (hsound.move (hnext.move hsound.coherent)) hidle hrest.split.1 hsecond.pending
  exact ⟨change, by simp, hschedules⟩

/-! ## The course of a pass -/

/-- A unit of work on anything but an idle pass starts none and flushes nothing. -/
theorem Store.Ticked.passes {s s' : Store} {t : Task} {rest tasks' : List Task} {signal? : Option Signal}
    (h : Ticked s (t :: rest) s' tasks' signal?) (ht : t.pass? = none) :
    tasks'.filterMap Task.pass? = rest.filterMap Task.pass? ∧ s.flushing? (t :: rest) = none := by
  cases h with
  | calls => exact ⟨rfl, rfl⟩
  | @ends _ reached => exact ⟨congrArg View.passes (View.ofTasks_report s reached rest), rfl⟩
  | passed | flushes | skips => cases ht
  | works _ hinert hb _ =>
    obtain ⟨mid, d?, more, -, -, hi, rfl⟩ := hb
    exact ⟨congrArg View.passes (View.ofTasks_delivering (s := s) hi rest), flushing?_of_inert hinert⟩
  | finishes _ hinert => exact ⟨rfl, flushing?_of_inert hinert⟩

theorem Session.Issued.passes {s : Store} {stack : List Task} {r : Request} {s' : Session} (h : Issued s stack r s')
    (hr : r ≠ .runIdle) : s'.stack.filterMap Task.pass? = stack.filterMap Task.pass? := by
  cases h with
  | started hb _ hstack =>
    obtain ⟨mid, d?, more, -, -, hi, rfl⟩ := hb
    rw [hstack]
    exact congrArg View.passes (View.ofTasks_delivering (s := s) hi stack)
  | pass hpass => exact absurd hpass hr
  | released _ _ hstack | undone _ _ _ _ _ _ hstack =>
    rw [hstack]
    rfl

/-- Above an idle pass all is calm: it stays beneath, with no other above it. -/
theorem Next.above_pass (h : Next m a m') (hs : m.session.store.Coherent) (hcalm : a ≠ .ask .runIdle)
    {above : List Task} {ids : List VectorId} {flushed : Nat}
    (hstack : m.session.stack = above ++ [.idlePass ids flushed]) (habove : above.filterMap Task.pass? = [])
    (hwork : above ≠ [] ∨ ∃ r, a = .ask r) : a.flushed? m.session = none ∧
      ∃ above', m'.session.stack = above' ++ [.idlePass ids flushed] ∧ above'.filterMap Task.pass? = [] := by
  obtain ⟨above', hstack'⟩ := h.beneath hs hstack (by simp) hwork
  have hpasses : m'.session.stack.filterMap Task.pass? = m.session.stack.filterMap Task.pass? ∧
      a.flushed? m.session = none := by
    cases h with
    | ask s r =>
      have hr : r ≠ .runIdle := fun he => hcalm (congrArg Act.ask he)
      exact ⟨(Session.issue_issued hs r).passes hr, rfl⟩
    | @work s s' _ busy h =>
      obtain ⟨x, above, rfl⟩ : ∃ x above', above = x :: above' := by
        rcases hwork with hne | ⟨r, hr⟩
        · exact List.exists_cons_of_ne_nil hne
        · cases hr
      have hx : x.pass? = none := by
        cases hx : x.pass? with
        | none => rfl
        | some ids => simp [hx] at habove
      have hticked := Store.tick_ticked (Session.tick_eq h).1
      rw [hstack, List.cons_append] at hticked
      obtain ⟨hpasses, hflush⟩ := hticked.passes hx
      refine ⟨?_, ?_⟩
      · rw [hpasses, hstack, List.cons_append, List.filterMap_cons, hx]
      · show s.flushing? = none
        rw [Session.flushing?, hstack]
        exact hflush
  refine ⟨hpasses.2, above', hstack', ?_⟩
  have hsame := hpasses.1
  rw [hstack', hstack, List.filterMap_append, List.filterMap_append, habove] at hsame
  exact List.append_cancel_right hsame

/-- An idle pass comes to its end, or to the next vector, which it flushes if it is
pending. -/
theorem Store.Ticked.pass_next {s s' : Store} {ids : List VectorId} {n : Nat} {tasks' : List Task}
    {signal? : Option Signal} (h : Ticked s [.idlePass ids n] s' tasks' signal?) :
    (s.flushing? [.idlePass ids n] = none ∧ signal? = none ∧ tasks' = [.answer (.count n)]) ∨
      ∃ id rest, ids = id :: rest ∧
        ((s.flushing? [.idlePass ids n] = some id ∧ ∃ d, tasks' = [.deliver d, .idlePass rest (n + 1)]) ∨
          s.flushing? [.idlePass ids n] = none ∧ tasks' = [.idlePass rest n]) := by
  cases h with
  | passed => exact .inl ⟨rfl, rfl, rfl⟩
  | flushes ids n _ hv hp =>
    exact .inr ⟨_, ids, rfl, .inl ⟨flushing?_of_pending (isPending_eq_true.2 ⟨_, hv, hp⟩), _, rfl⟩⟩
  | skips ids n _ hidle =>
    refine .inr ⟨_, ids, rfl, .inr ⟨flushing?_of_not_pending fun hpending => ?_, rfl⟩⟩
    obtain ⟨v, hv, hp⟩ := isPending_eq_true.1 hpending
    exact hidle v hv hp
  | works _ hinert | finishes _ hinert => exact hinert.elim

/-- How far an idle pass over the queue has come that has flushed these vectors,
with nothing below it. -/
inductive PassState (queue flushed : List VectorId) (m : Moment) : Prop
  | going (above : List Task) (ids : List VectorId) : m.session.stack = above ++ [.idlePass ids flushed.length] →
    above.filterMap Task.pass? = [] → (flushed ++ ids).Sublist queue → PassState queue flushed m
  | passed : m.session.stack = [.answer (.count flushed.length)] → m.busy = true → flushed.Sublist queue →
    PassState queue flushed m

/-- **One step of an idle pass.** It goes on, or it answers how many vectors it has
flushed. -/
theorem PassState.next {queue flushed : List VectorId} (h : PassState queue flushed m) (hnext : Next m a m')
    (hs : m.session.store.Coherent) (hcalm : a ≠ .ask .runIdle) :
    PassState queue (flushed ++ (a.flushed? m.session).toList) m' ∨
      m'.session.stack = [] ∧ a = .work (some (.finished (.ok (.count flushed.length)))) ∧
        a.flushed? m.session = none ∧ flushed.Sublist queue := by
  cases h with
  | going above ids hstack habove hsub =>
    by_cases hwork : above ≠ [] ∨ ∃ r, a = .ask r
    · obtain ⟨hnone, above', hstack', habove'⟩ := hnext.above_pass hs hcalm hstack habove hwork
      rw [hnone, Option.toList_none, List.append_nil]
      exact .inl (.going above' ids hstack' habove' hsub)
    · obtain ⟨rfl, hask⟩ : above = [] ∧ ¬∃ r, a = .ask r := by simpa using hwork
      cases hnext with
      | ask s r => exact absurd ⟨r, rfl⟩ hask
      | @work s s' signal? busy h =>
        have hticked := Store.tick_ticked (Session.tick_eq h).1
        rw [List.nil_append] at hstack
        have hflushed : (Act.work signal?).flushed? s = s.store.flushing? [.idlePass ids flushed.length] :=
          congrArg s.store.flushing? hstack
        rw [hstack] at hticked
        dsimp only
        rw [hflushed]
        refine .inl ?_
        rcases hticked.pass_next with ⟨hnone, rfl, hstack'⟩ | ⟨id, rest, rfl, ⟨hsome, d, hstack'⟩ | ⟨hnone, hstack'⟩⟩
        · rw [hnone, Option.toList_none, List.append_nil]
          exact .passed hstack' rfl ((List.sublist_append_left _ _).trans hsub)
        · rw [hsome, Option.toList_some]
          refine .going [.deliver d] rest ?_ rfl (by simpa using hsub)
          rw [List.length_append]
          exact hstack'
        · rw [hnone, Option.toList_none, List.append_nil]
          exact .going [] rest hstack' rfl (((List.sublist_cons_self id rest).append_left _).trans hsub)
  | passed hstack hbusy hsub =>
    cases hnext with
    | ask s r => cases hbusy
    | @work s s' signal? busy h =>
      have htick := (Session.tick_eq h).1
      have hflushed : (Act.work signal?).flushed? s = s.store.flushing? [.answer (.count flushed.length)] :=
        congrArg s.store.flushing? hstack
      rw [hstack] at htick
      simp only [Store.tick, Prod.mk.injEq] at htick
      obtain ⟨-, hstack', rfl⟩ := htick
      exact .inr ⟨hstack'.symm, rfl, hflushed, hsub⟩

/-- A whole idle pass: it flushes vectors of the queue and answers how many. -/
theorem Above.pass {queue : List VectorId} (h : Above 0 m₁ during m₂) (hw : m₁.session.view.Sound)
    (hstart : m₁.session.stack = [.idlePass queue 0]) (hcalm : ∀ step ∈ during, step.act ≠ .ask .runIdle) :
    (flushes during).Sublist queue ∧ ∃ front last, during = front ++ [last] ∧
      last.act = .work (some (.finished (.ok (.count (flushes during).length)))) := by
  have hstate : ∀ {steps : List Step} {m : Moment}, Run m₁ steps m →
      (∀ step ∈ steps, 0 < step.before.session.stack.length) → (∀ step ∈ steps, step.act ≠ .ask .runIdle) →
      PassState queue (flushes steps) m ∨ m.session.stack = [] ∧ (flushes steps).Sublist queue ∧
        ∃ front last, steps = front ++ [last] ∧
          last.act = .work (some (.finished (.ok (.count (flushes steps).length)))) := by
    intro steps m hrun hinside hcalm
    induction hrun with
    | start => exact .inl (.going [] queue hstart rfl (List.Sublist.refl queue))
    | @next steps m m' a hrun hnext ih =>
      have hsound := hrun.keeps_sound hw
      have hinside' : ∀ step ∈ steps, 0 < step.before.session.stack.length :=
        fun step hstep => hinside step (List.mem_append_left _ hstep)
      have hcalm' : ∀ step ∈ steps, step.act ≠ .ask .runIdle :=
        fun step hstep => hcalm step (List.mem_append_left _ hstep)
      rw [flushes_append, flushes_singleton]
      rcases ih hinside' hcalm' with hstate | ⟨hempty, -⟩
      · refine (hstate.next hnext hsound.coherent (hcalm ⟨m, a, m'⟩ (by simp))).imp_right ?_
        rintro ⟨hstack, hact, hnone, hsub⟩
        rw [hnone, Option.toList_none, List.append_nil]
        exact ⟨hstack, hsub, steps, _, rfl, hact⟩
      · have hlong := hinside ⟨m, a, m'⟩ (by simp)
        rw [hempty] at hlong
        exact absurd hlong (Nat.lt_irrefl 0)
  have hempty := List.length_eq_zero_iff.1 h.left
  rcases hstate h.run h.inside hcalm with hstate | ⟨-, hdone⟩
  · cases hstate with
    | going above ids hstack => simp [hstack] at hempty
    | passed hstack => simp [hstack] at hempty
  · exact hdone

/-! ## One flush for each vector -/

/-- Each vector is flushed once in the pass, which counts them. -/
structure OneFlush (during : List Step) (m₂ : Moment) : Prop where
  /-- No vector has two fan-outs that tell changes. -/
  once : ∀ (id : VectorId) (front mid back : List Step) (first second : Step),
    during = front ++ first :: (mid ++ second :: back) → first.Starts ⟨id, .updated⟩ → ¬second.Starts ⟨id, .updated⟩
  /-- A flush scheduled after the flush of the vector is left to a later pass. -/
  later : ∀ (id : VectorId) (front mid back : List Step) (first change : Step),
    during = front ++ first :: (mid ++ change :: back) → first.Starts ⟨id, .updated⟩ → change.Schedules id →
      (∀ step ∈ back, ¬step.Starts ⟨id, .updated⟩) ∧
        (m₂.session.store.Pending id → id ∈ m₂.session.store.queue)
  /-- The answer is the number of the vectors flushed. -/
  count : ∃ front last, during = front ++ [last] ∧
    last.act = .work (some (.finished (.ok (.count (flushes during).dedup.length))))

/-- The vector is flushed, then scheduled again, then flushed again. -/
def Reflushes (during : List Step) (id : VectorId) : Prop :=
  ∃ (front mid back : List Step) (first second : Step), during = front ++ first :: (mid ++ second :: back) ∧
    first.Flushes id ∧ second.Flushes id ∧ ∃ change ∈ mid, change.Schedules id

theorem mem_flushes : id ∈ flushes steps ↔ ∃ step ∈ steps, step.Flushes id := List.mem_filterMap

theorem flushes_of_flushes (h : step.Flushes id) : flushes [step] = [id] := by
  rw [flushes_singleton, show step.act.flushed? step.before.session = some id from h]
  rfl

theorem Reflushes.count (h : Reflushes during id) : 2 ≤ (flushes during).count id := by
  obtain ⟨front, mid, back, first, second, rfl, hfirst, hsecond, -⟩ := h
  rw [← List.singleton_append, ← List.singleton_append (l := back)]
  simp only [flushes_append, flushes_of_flushes hfirst, flushes_of_flushes hsecond, List.count_append,
    List.count_singleton_self]
  omega

/-- Flushed once each, the vectors flushed are all different. -/
theorem flushes_nodup (honce : ∀ (id : VectorId) (front mid back : List Step) (first second : Step),
    during = front ++ first :: (mid ++ second :: back) → first.Flushes id → ¬second.Flushes id) :
    (flushes during).Nodup := by
  induction during with
  | nil => exact List.nodup_nil
  | cons first rest ih =>
    have hrest := ih fun id front mid back first' second heq =>
      honce id (first :: front) mid back first' second (by rw [heq, List.cons_append])
    rw [← List.singleton_append, flushes_append, flushes_singleton]
    cases hflush : first.act.flushed? first.before.session with
    | none => exact hrest
    | some id =>
      refine List.nodup_cons.2 ⟨fun hmem => ?_, hrest⟩
      obtain ⟨second, hsecond, hflush'⟩ := mem_flushes.1 hmem
      obtain ⟨mid, back, rfl⟩ := List.append_of_mem hsecond
      exact honce id [] mid back first second rfl hflush hflush'

/-- Where all is calm and no vector is flushed again, each is flushed once. -/
theorem Above.once (h : Above 0 m₁ during m₂) (hw : m₁.session.view.Sound) (hcalm : ∀ step ∈ during, step.Calm)
    (hno : ∀ id, ¬Reflushes during id) {front mid back : List Step} {first second : Step}
    (hsplit : during = front ++ first :: (mid ++ second :: back)) (hfirst : first.Starts ⟨id, .updated⟩) :
    ¬second.Starts ⟨id, .updated⟩ := by
  intro hsecond
  subst hsplit
  have hrun := h.run
  obtain ⟨hfront, hnext, hrest⟩ := hrun.split
  obtain ⟨hmid, hnext', -⟩ := hrest.split
  have hsound := hfront.keeps_sound hw
  have hsound' := hmid.keeps_sound (hsound.move (hnext.move hsound.coherent))
  have hflush : first.Flushes id := (hcalm first (by simp)).flushes hnext hsound.coherent hfirst
  have hflush' : second.Flushes id := (hcalm second (by simp)).flushes hnext' hsound'.coherent hsecond
  exact hno id ⟨front, mid, back, first, second, rfl, hflush, hflush', hrun.scheduled_between hw hflush hflush'⟩

/-- Flushes that start fan-outs once each happen once each. -/
theorem OneFlush.flushes_once (h : OneFlush during m₂) (hrun : Run m₁ during m₂) (hw : m₁.session.view.Sound)
    {front mid back : List Step} {first second : Step} (hsplit : during = front ++ first :: (mid ++ second :: back))
    (hfirst : first.Flushes id) : ¬second.Flushes id := by
  intro hsecond
  have hstarts : ∀ {front back : List Step} {step : Step}, during = front ++ step :: back → step.Flushes id →
      step.Starts ⟨id, .updated⟩ := by
    rintro front back step rfl hflush
    obtain ⟨hfront, hnext, -⟩ := hrun.split
    have hsound := hfront.keeps_sound hw
    exact (hnext.starts_of_flush hsound.coherent hflush).1
  have hsplit' : during = (front ++ first :: mid) ++ second :: back := by
    rw [hsplit, List.append_assoc, List.cons_append]
  exact h.once id front mid back first second hsplit (hstarts hsplit hfirst) (hstarts hsplit' hsecond)

/-- A pass in which all is calm and no vector is flushed again is as it should be. -/
theorem Above.oneFlush (h : Above 0 m₁ during m₂) (hw : m₁.session.view.Sound) (hqueued : m₂.session.view.Queued)
    (hcalm : ∀ step ∈ during, step.Calm) (hno : ∀ id, ¬Reflushes during id)
    (hanswer : ∃ front last, during = front ++ [last] ∧
      last.act = .work (some (.finished (.ok (.count (flushes during).length))))) : OneFlush during m₂ where
  once id front mid back first second hsplit hfirst := h.once hw hcalm hno hsplit hfirst
  later id front mid back first change hsplit hfirst _ := by
    refine ⟨fun step hstep => ?_, fun hp => ?_⟩
    · obtain ⟨before, after, rfl⟩ := List.append_of_mem hstep
      have hsplit' : during = front ++ first :: ((mid ++ change :: before) ++ step :: after) := by
        rw [hsplit, List.append_assoc, List.cons_append]
      exact h.once hw hcalm hno hsplit' hfirst
    · -- No pass is under way any more that could still come to the vector.
      refine (hqueued id hp).resolve_right ?_
      rintro ⟨rest, hrest, -⟩
      obtain ⟨flushed, hmem⟩ := Session.mem_passes.1 hrest
      rw [List.length_eq_zero_iff.1 h.left] at hmem
      cases hmem
  count := by
    have hnodup : (flushes during).Nodup := by
      refine flushes_nodup fun id front mid back first second hsplit hfirst hsecond => ?_
      have hbetween := (hsplit ▸ h.run).scheduled_between hw hfirst hsecond
      exact hno id ⟨front, mid, back, first, second, hsplit, hfirst, hsecond, hbetween⟩
    rwa [hnodup.dedup]

/-- **In a pass in which all is calm each vector is flushed once, unless one is
flushed, scheduled again and flushed again.** That happens only to a vector that
has two entries in the queue as the pass begins. -/
theorem Run.one_flush_iff {s₀ : Session} {config : StoreConfig} {host : Host} {random : RandomSource}
    (hs₀ : Session.ofConfig config host random = .ok s₀) (h : Run ⟨s₀, false⟩ steps m) (htop : m.session.stack = [])
    (hnext : Next m (.ask .runIdle) m₁) (hduring : Above 0 m₁ during m₂) (hcalm : ∀ step ∈ during, step.Calm) :
    (OneFlush during m₂ ↔ ∀ id, ¬Reflushes during id) ∧
      ∀ id, Reflushes during id → 2 ≤ m.session.store.queue.count id := by
  have hrun₁ := h.next hnext
  have hw₁ := hrun₁.sound hs₀
  have hstart : m₁.session.stack = [.idlePass m.session.store.queue 0] := by
    cases hnext with
    | ask s r =>
      dsimp only at htop
      simp only [Session.issue, Session.put, htop, List.append_nil]
  obtain ⟨hsub, hanswer⟩ := hduring.pass hw₁ hstart fun step hstep => (hcalm step hstep).noPass
  refine ⟨⟨?_, fun hno => ?_⟩, fun id hre => Nat.le_trans hre.count (hsub.count_le id)⟩
  · rintro hone id ⟨front, mid, back, first, second, hsplit, hfirst, hsecond, -⟩
    exact hone.flushes_once hduring.run hw₁ hsplit hfirst hsecond
  · exact hduring.oneFlush hw₁ ((hrun₁.trans hduring.run).queued hs₀) hcalm hno hanswer

/-! ## A script in which all is calm -/

/-- Neither an idle pass nor a fan-out is asked for. -/
def Request.calm : Request → Bool
  | .runIdle | .notifyNow _ | .command _ => false
  | _ => true

namespace Moment

def playsCalmly (m : Moment) : List (Option Request) → Bool
  | [] => true
  | r? :: script => r?.all Request.calm &&
      (m.step r?).after.session.store.slots.all (fun slot => slot.vector.all (·.policy != .always)) &&
      (m.step r?).after.playsCalmly script

theorem calm_play {m : Moment} {script : List (Option Request)} (h : m.playsCalmly script = true) :
    ∀ step ∈ m.play script, step.Calm := by
  induction script generalizing m with
  | nil => simp [play]
  | cons r? script ih =>
    simp only [playsCalmly, Bool.and_eq_true] at h
    obtain ⟨⟨hrequest, hpolicies⟩, hrest⟩ := h
    rintro step (_ | ⟨_, hstep⟩)
    · refine ⟨?_, ?_, fun id v hv => ?_⟩
      · cases r? with
        | none => simp [Moment.step]
        | some r =>
          rintro ⟨⟩
          cases hrequest
      · cases r? with
        | none => exact id
        | some r =>
          intro hdemand
          cases r <;> first | exact hdemand | cases hrequest
      · have hslot := List.all_eq_true.1 hpolicies _ (List.mem_of_getElem? (Store.get?_eq_some_iff.1 hv))
        simpa using hslot
    · exact ih hrest step hstep

end Moment

/-- A flush is taken back and scheduled again, which leaves two entries. -/
def Moment.twoEntries : List (Option Request) :=
  [some (.create none), none, some (.registerClient ⟨0, 0⟩ true), none, some (.markDirty ⟨0, 0⟩), none,
    some (.cancelNotify ⟨0, 0⟩), none, some (.markDirty ⟨0, 0⟩), none]

/-- The client notes a change each time it is told of one before. -/
def Moment.whilePassing : List (Option Request) :=
  [none, none, some (.markDirty ⟨0, 0⟩), none, none, none, none, none, none, none]

/-- The pass over the two entries, in which all is calm. -/
theorem Moment.twoEntries_pass :
    let m := Moment.outcome ⟨.initial, false⟩ Moment.twoEntries
    let m₁ := m.outcome [some .runIdle]
    Run ⟨.initial, false⟩ (Moment.play ⟨.initial, false⟩ Moment.twoEntries) m ∧ Next m (.ask .runIdle) m₁ ∧
      Above 0 m₁ (m₁.play Moment.whilePassing) (m₁.outcome Moment.whilePassing) ∧
      ∀ step ∈ m₁.play Moment.whilePassing, step.Calm :=
  ⟨Moment.run_play (by decide +kernel), Moment.next_step (some .runIdle) (by decide +kernel),
    Moment.above_play (by decide +kernel) (by decide +kernel) (by decide +kernel),
    Moment.calm_play (by decide +kernel)⟩

theorem Run.one_flush_iff_twoEntries :
    let m := Moment.outcome ⟨.initial, false⟩ Moment.twoEntries
    let m₁ := m.outcome [some .runIdle]
    let during := m₁.play Moment.whilePassing
    flushes during = [⟨0, 0⟩, ⟨0, 0⟩] ∧
      (OneFlush during (m₁.outcome Moment.whilePassing) ↔ ∀ id, ¬Reflushes during id) ∧
      ∀ id, Reflushes during id → 2 ≤ m.session.store.queue.count id := by
  intro m m₁ during
  obtain ⟨hrun, hnext, hduring, hcalm⟩ := Moment.twoEntries_pass
  exact ⟨by decide +kernel, Run.one_flush_iff Session.ofConfig_initial hrun (by decide +kernel) hnext hduring hcalm⟩

/-- The vector is flushed twice in the pass. -/
theorem Run.not_one_flush_twoEntries :
    let m := Moment.outcome ⟨.initial, false⟩ Moment.twoEntries
    let m₁ := m.outcome [some .runIdle]
    let during := m₁.play Moment.whilePassing
    Run ⟨.initial, false⟩ (Moment.play ⟨.initial, false⟩ Moment.twoEntries) m ∧ Next m (.ask .runIdle) m₁ ∧
      Above 0 m₁ during (m₁.outcome Moment.whilePassing) ∧ (∀ step ∈ during, step.Calm) ∧
      calls during = [(⟨1⟩, ⟨⟨0, 0⟩, .updated⟩), (⟨1⟩, ⟨⟨0, 0⟩, .updated⟩)] ∧
      ¬OneFlush during (m₁.outcome Moment.whilePassing) := by
  intro m m₁ during
  obtain ⟨hrun, hnext, hduring, hcalm⟩ := Moment.twoEntries_pass
  refine ⟨hrun, hnext, hduring, hcalm, by decide +kernel, fun hone => ?_⟩
  have hw := hrun.sound Session.ofConfig_initial
  have hnodup : (flushes during).Nodup := flushes_nodup fun id front mid back first second hsplit hfirst =>
    hone.flushes_once hduring.run (hw.move (hnext.move hw.coherent)) hsplit hfirst
  have htwice : ¬(flushes during).Nodup := by decide +kernel
  exact htwice hnodup

end VectorEngine
