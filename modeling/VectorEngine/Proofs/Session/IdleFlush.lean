/-
Deferred notifications: none is lost, and none is sent on account of an entry
left in the queue.

A vector with a flush pending is in the queue or in what is left of an idle pass
(`View.Queued`), so the next outermost pass comes to it. That it is pending goes
back to a step that scheduled the flush, after which nothing took it back and no
fan-out of the vector started (`Run.scheduled`).
-/
import Mathlib
import VectorEngine.Proofs.Session.Coherence

namespace VectorEngine

variable {W : VectorId → Prop} {w w' : View} {c : Option (ClientId × ClientEvent)} {f : Option VectorId}

namespace Store

variable {s s' : Store} {id id' : VectorId} {d : Delivery}

/-- A flush of the vector is pending. -/
def Pending (s : Store) (id : VectorId) : Prop := ∃ v, s.get? id = some v ∧ v.state = .pending

theorem not_pending_modify {f : NamedVector → NamedVector} (hf : ∀ v, (f v).state ≠ .pending) :
    ¬(s.modify id f).Pending id := by
  rintro ⟨v, hv, hp⟩
  rw [get?_modify, if_pos rfl] at hv
  obtain ⟨u, -, rfl⟩ := Option.map_eq_some_iff.1 hv
  exact hf u hp

theorem pending_modify_of_ne {f : NamedVector → NamedVector} (h : id' ≠ id) :
    (s.modify id f).Pending id' ↔ s.Pending id' := by
  simp only [Pending, get?_modify_of_ne h]

/-- A vector is pending after a change if it was, or if its flush has just been
put into the queue. -/
theorem Change.pending_after (h : Change W s s') (hs : s.Coherent) (hp : s'.Pending id) :
    s.Pending id ∨ s'.queue = s.queue ++ [id] := by
  obtain ⟨v', hv', hp⟩ := hp
  have he := h.evolves hs id
  rw [hv'] at he
  generalize hv : s.get? id = o at he
  cases he with
  | placed hfresh => exact absurd (hfresh.state.symm.trans hp) (by simp)
  | kept hkept =>
    rcases hkept.state with hsame | ⟨-, hqueue⟩ | ⟨-, -, hidle⟩
    · exact .inl ⟨_, hv, hsame ▸ hp⟩
    · exact .inr hqueue
    · exact absurd (hidle.symm.trans hp) (by simp)

/-- A pending vector is pending after a change, unless the flush is taken back. -/
theorem Change.pending_before (h : Change W s s') (hs : s.Coherent) (hp : s.Pending id) : s'.Pending id ∨ W id := by
  obtain ⟨v, hv, hp⟩ := hp
  have he := h.evolves hs id
  rw [hv] at he
  generalize hv' : s'.get? id = o at he
  cases he with
  | discarded hfresh => exact absurd (hfresh.state.symm.trans hp) (by simp)
  | kept hkept =>
    rcases hkept.state with hsame | ⟨hpending, -⟩ | ⟨hw, -, -⟩
    · exact .inl ⟨_, hv', hsame.trans hp⟩
    · exact .inl ⟨_, hv', hpending⟩
    · exact .inr hw

theorem Changes.coherent (h : Changes W s s') (hs : s.Coherent) : s'.Coherent := by
  induction h with
  | refl => exact hs
  | tail _ hc ih => exact hc.coherent ih

theorem Changes.queue (h : Changes W s s') : s.queue <+: s'.queue := by
  induction h with
  | refl => exact List.prefix_rfl
  | tail _ hc ih => exact ih.trans hc.queue

theorem Changes.pending_after (h : Changes W s s') (hs : s.Coherent) (hp : s'.Pending id) :
    s.Pending id ∨ ∃ more, s'.queue = s.queue ++ more ∧ id ∈ more := by
  induction h with
  | refl => exact .inl hp
  | tail hmid hc ih =>
    obtain ⟨new, hnew⟩ := hc.queue
    rcases hc.pending_after (Changes.coherent hmid hs) hp with hp | hqueue
    · rcases ih hp with hp | ⟨more, hmore, hmem⟩
      · exact .inl hp
      · exact .inr ⟨more ++ new, by rw [← hnew, hmore, List.append_assoc], List.mem_append_left _ hmem⟩
    · obtain ⟨more, hmore⟩ := Changes.queue hmid
      exact .inr ⟨more ++ [id], by rw [hqueue, ← hmore, List.append_assoc], by simp⟩

theorem Changes.pending_before (h : Changes W s s') (hs : s.Coherent) (hp : s.Pending id) : s'.Pending id ∨ W id := by
  induction h with
  | refl => exact .inl hp
  | tail hmid hc ih =>
    rcases ih with hp | hw
    · exact hc.pending_before (Changes.coherent hmid hs) hp
    · exact .inr hw

/-! ## The end of a fan-out -/

theorem endDelivery_queue (s : Store) (d : Delivery) : (s.endDelivery d).queue = s.queue := by
  unfold endDelivery
  split
  · exact modify_queue s _ _
  · unfold retire
    split
    · rfl
    · dsimp only
      split <;> rfl

/-- A flush scheduled during a fan-out stays pending. -/
theorem pending_endUpdate (s : Store) (hd : d.event.kind = .updated) : (s.endDelivery d).Pending id ↔ s.Pending id := by
  rw [endDelivery_updated s hd]
  by_cases hid : id = d.event.server
  · subst hid
    simp only [Pending, get?_modify, if_true, Option.map_eq_some_iff]
    constructor
    · rintro ⟨_, ⟨v, hv, rfl⟩, hp⟩
      dsimp only at hp
      split at hp
      · cases hp
      · exact ⟨v, hv, hp⟩
    · rintro ⟨v, hv, hp⟩
      exact ⟨_, ⟨v, hv, rfl⟩, by simp [hp]⟩
  · exact pending_modify_of_ne hid

theorem pending_endDestroy {v : NamedVector} (hv : s.get? d.event.server = some v) (hd : d.event.kind = .destroyed) :
    (s.endDelivery d).Pending id ↔ id ≠ d.event.server ∧ s.Pending id := by
  rw [endDelivery_destroyed s hd]
  simp only [Pending, get?_retire hv]
  by_cases hid : id = d.event.server <;> simp [hid]

end Store

/-! ## Moves -/

namespace View

/-- An idle pass under way has not come to the vector yet. -/
def Passing (w : View) (id : VectorId) : Prop := ∃ rest ∈ w.passes, id ∈ rest

/-- Every pending flush is in the queue or in an idle pass under way. -/
def Queued (w : View) : Prop := ∀ id, w.store.Pending id → id ∈ w.store.queue ∨ w.Passing id

end View

namespace Move

variable {id : VectorId}

/-- A fan-out takes the place of a pending flush. -/
theorem not_pending_of_start {d : Delivery} (hm : Move W w c f w') (hd : w'.fanOuts = d :: w.fanOuts) :
    ¬w'.store.Pending d.event.server := by
  have hlength : w'.fanOuts.length = w.fanOuts.length + 1 := congrArg List.length hd
  cases hm with
  | begun F P _ ho =>
    cases ho with
    | nothing => simp at hlength
    | update | destroy =>
      obtain ⟨rfl, -⟩ := List.cons.inj hd
      exact Store.not_pending_modify fun _ => by simp
  | flush =>
    obtain ⟨rfl, -⟩ := List.cons.inj hd
    exact Store.not_pending_modify fun _ => by simp
  | ended => exact absurd hlength (by simp; omega)
  | pass | call | skip | passed => exact absurd hlength (by simp)

/-- A vector is pending after a move if it was, or if its flush has just been
put into the queue. -/
theorem pending_after (hm : Move W w c f w') (hw : w.Sound) (hp : w'.store.Pending id) :
    w.store.Pending id ∨ ∃ more, w'.store.queue = w.store.queue ++ more ∧ id ∈ more := by
  cases hm with
  | begun F P hc ho =>
    cases ho with
    | nothing => exact hc.pending_after hw.coherent hp
    | @update id' v | @destroy id' v =>
      by_cases hid : id = id'
      · exact absurd (hid ▸ hp) (Store.not_pending_modify fun _ => by simp)
      · simpa only [Store.modify_queue] using hc.pending_after hw.coherent ((Store.pending_modify_of_ne hid).1 hp)
  | ended s d F P =>
    cases hd : d.event.kind with
    | updated => exact .inl ((Store.pending_endUpdate s hd).1 hp)
    | destroyed =>
      obtain ⟨v, hv, -⟩ := hw.dying d List.mem_cons_self hd
      exact .inl ((Store.pending_endDestroy hv hd).1 hp).2
  | @flush s id' v =>
    by_cases hid : id = id'
    · exact absurd (hid ▸ hp) (Store.not_pending_modify fun _ => by simp)
    · exact .inl ((Store.pending_modify_of_ne hid).1 hp)
  | pass | call | skip | passed => exact .inl hp

/-- A pending vector is pending after a move, unless its flush is taken back, a
fan-out of it starts, or it is removed. -/
theorem pending_before (hm : Move W w c f w') (hw : w.Sound) (hp : w.store.Pending id) : w'.store.Pending id ∨ W id ∨
    (∃ d, w'.fanOuts = d :: w.fanOuts ∧ d.event.server = id) ∨ w'.store.get? id = none := by
  cases hm with
  | begun F P hc ho =>
    rcases hc.pending_before hw.coherent hp with hp | hW
    · cases ho with
      | nothing => exact .inl hp
      | @update id' v | @destroy id' v =>
        by_cases hid : id = id'
        · exact .inr (.inr (.inl ⟨_, rfl, hid.symm⟩))
        · exact .inl ((Store.pending_modify_of_ne hid).2 hp)
    · exact .inr (.inl hW)
  | ended s d F P =>
    cases hd : d.event.kind with
    | updated => exact .inl ((Store.pending_endUpdate s hd).2 hp)
    | destroyed =>
      obtain ⟨v, hv, -⟩ := hw.dying d List.mem_cons_self hd
      by_cases hid : id = d.event.server
      · refine .inr (.inr (.inr ?_))
        rw [Store.endDelivery_destroyed s hd, Store.get?_retire hv, if_pos hid]
      · exact .inl ((Store.pending_endDestroy hv hd).2 ⟨hid, hp⟩)
  | @flush s id' v =>
    by_cases hid : id = id'
    · exact .inr (.inr (.inl ⟨_, rfl, hid.symm⟩))
    · exact .inl ((Store.pending_modify_of_ne hid).2 hp)
  | pass | call | skip | passed => exact .inl hp

/-- An idle pass comes to a vector that stays pending later on. -/
theorem passing (hm : Move W w c f w') (hp : w'.store.Pending id) (h : w.Passing id) : w'.Passing id := by
  obtain ⟨rest, hrest, hmem⟩ := h
  cases hm with
  | begun | call | ended => exact ⟨rest, hrest, hmem⟩
  | pass => exact ⟨rest, List.mem_cons_of_mem _ hrest, hmem⟩
  | @flush s id' v F ids P =>
    rcases List.mem_cons.1 hrest with rfl | hrest
    · rcases List.mem_cons.1 hmem with rfl | hmem
      · exact absurd hp (Store.not_pending_modify fun _ => by simp)
      · exact ⟨ids, List.mem_cons_self, hmem⟩
    · exact ⟨rest, List.mem_cons_of_mem _ hrest, hmem⟩
  | @skip s id' F ids P hidle =>
    rcases List.mem_cons.1 hrest with rfl | hrest
    · rcases List.mem_cons.1 hmem with rfl | hmem
      · obtain ⟨v, hv, hp⟩ := hp
        exact absurd hp (hidle v hv)
      · exact ⟨ids, List.mem_cons_self, hmem⟩
    · exact ⟨rest, List.mem_cons_of_mem _ hrest, hmem⟩
  | passed =>
    rcases List.mem_cons.1 hrest with rfl | hrest
    · cases hmem
    · exact ⟨rest, hrest, hmem⟩

/-- Entries leave the queue only for an idle pass. -/
theorem entry (hm : Move W w c f w') (h : id ∈ w.store.queue) : id ∈ w'.store.queue ∨ w'.Passing id := by
  cases hm with
  | begun F P hc ho =>
    have hmid := hc.queue.subset h
    cases ho with
    | nothing => exact .inl hmid
    | update | destroy => exact .inl (by simpa only [Store.modify_queue] using hmid)
  | pass => exact .inr ⟨_, List.mem_cons_self, h⟩
  | ended s d => exact .inl ((Store.endDelivery_queue s d).symm ▸ h)
  | flush => exact .inl (by simpa only [Store.modify_queue] using h)
  | call | skip | passed => exact .inl h

theorem queued (hm : Move W w c f w') (hw : w.Sound) (hq : w.Queued) : w'.Queued := by
  intro id hp
  rcases hm.pending_after hw hp with hbefore | ⟨more, hmore, hmem⟩
  · rcases hq id hbefore with hqueue | hpassing
    · exact hm.entry hqueue
    · exact .inr (hm.passing hp hpassing)
  · exact .inl (hmore ▸ List.mem_append_right _ hmem)

end Move

/-! ## Taking a flush back -/

namespace Store

variable {s s' : Store} {id : VectorId} {e : Error}

theorem not_pending_of_none (h : s.get? id = none) : ¬s.Pending id := by
  rintro ⟨v, hv, -⟩
  rw [h] at hv
  cases hv

theorem not_pending_takeBack (s : Store) (id : VectorId) : ¬(s.modify id NamedVector.takeBack).Pending id :=
  not_pending_modify fun v => by
    unfold NamedVector.takeBack
    split
    · simp
    · next hne => exact hne

theorem cancelNotify_error (h : s.cancelNotify id = .error e) : s.get? id = none := by
  cases hv : s.get? id with
  | none => rfl
  | some v =>
    unfold cancelNotify isPending at h
    rw [get_of_get? hv] at h
    cases h

theorem setPolicy_error {p : NotifyPolicy} (h : s.setPolicy id p = .error e) : s.get? id = none := by
  cases hv : s.get? id with
  | none => rfl
  | some v =>
    unfold setPolicy at h
    rw [get_of_get? hv] at h
    cases h

/-- After a cancellation or a switch to `never` no flush is pending. -/
theorem notifying_not_pending (s : Store) (id : VectorId) {action : NotifyAction}
    (ha : action = .cancel ∨ action = .policy .never) :
    (∀ s' tasks, s.notifying id action = .ok (s', tasks) → ¬s'.Pending id) ∧
      ∀ e, s.notifying id action = .error e → ¬s.Pending id := by
  rcases ha with rfl | rfl
  · refine ⟨fun s' tasks h => ?_, fun e h => ?_⟩
    · obtain ⟨⟨s₁, pending⟩, h₁, h⟩ := bind_ok_iff.1 h
      cases h
      exact cancelNotify_eq h₁ ▸ not_pending_takeBack s id
    · cases h₁ : s.cancelNotify id with
      | error e => exact not_pending_of_none (cancelNotify_error h₁)
      | ok p =>
        simp only [notifying, h₁] at h
        cases h
  · refine ⟨fun s' tasks h => ?_, fun e h => ?_⟩
    · obtain ⟨s₁, h₁, h⟩ := bind_ok_iff.1 h
      cases h
      exact setPolicy_never_eq h₁ ▸ not_pending_takeBack _ id
    · cases h₁ : s.setPolicy id .never with
      | error e => exact not_pending_of_none (setPolicy_error h₁)
      | ok s₁ =>
        simp only [notifying, h₁] at h
        cases h

end Store

namespace Session

variable {s : Session} {id : VectorId}

theorem begin_not_pending {begun : Except Error (Store × List Task)}
    (hok : ∀ store tasks, begun = .ok (store, tasks) → ¬store.Pending id)
    (herror : ∀ e, begun = .error e → ¬s.store.Pending id) : ¬(s.begin begun).store.Pending id := by
  unfold begin
  split
  · exact hok _ _ rfl
  · exact herror _ rfl

theorem execute_not_pending {name : String} {action : NotifyAction} (hname : s.store.lookup name = .ok id)
    (ha : action = .cancel ∨ action = .policy .never) : ¬(s.execute (.notify name action)).store.Pending id := by
  have hbegin : s.store.begin (.notify name action) = s.store.notifying id action := by
    simp only [Store.begin, hname]
    rfl
  obtain ⟨hok, herror⟩ := Store.notifying_not_pending s.store id ha
  exact begin_not_pending (hbegin ▸ hok) (hbegin ▸ herror)

theorem not_pending_of_takesBack {r : Request} (h : r.TakesBack s.store id) : ¬(s.issue r).store.Pending id := by
  unfold Request.TakesBack at h
  split at h
  · subst h
    refine begin_not_pending (fun store tasks h => ?_) fun e h => ?_
    · obtain ⟨⟨store', pending⟩, hcancel, he⟩ := map_ok_iff.1 h
      cases he
      exact Store.cancelNotify_eq hcancel ▸ Store.not_pending_takeBack s.store _
    · exact Store.not_pending_of_none (Store.cancelNotify_error (map_error_iff.1 h))
  · subst h
    refine begin_not_pending (fun store tasks h => ?_) fun e h => ?_
    · obtain ⟨store', hset, he⟩ := map_ok_iff.1 h
      cases he
      exact Store.setPolicy_never_eq hset ▸ Store.not_pending_takeBack _ _
    · exact Store.not_pending_of_none (Store.setPolicy_error (map_error_iff.1 h))
  · unfold Command.TakesBack at h
    split at h
    · exact execute_not_pending h (.inl rfl)
    · exact execute_not_pending h (.inr rfl)
    · exact h.elim
  · exact h.elim

end Session

/-! ## Runs -/

namespace Step

/-- A fan-out starts. -/
def Starts (step : Step) (e : ClientEvent) : Prop :=
  ∃ d, d.event = e ∧ step.after.session.view.fanOuts = d :: step.before.session.view.fanOuts

/-- A pending flush of the vector is taken back. -/
def TakesBack (step : Step) (id : VectorId) : Prop := step.act.TakesBack step.before.session.store id

/-- The vector starts to be destroyed, or is removed. -/
def Destroys (step : Step) (id : VectorId) : Prop :=
  step.Starts ⟨id, .destroyed⟩ ∨ step.after.session.store.get? id = none

/-- A flush of the vector is put into the queue. -/
def Schedules (step : Step) (id : VectorId) : Prop :=
  step.after.session.store.Pending id ∧
    ∃ more, step.after.session.store.queue = step.before.session.store.queue ++ more ∧ id ∈ more

/-- An idle pass that has come to the vector flushes it. -/
def Flushes (step : Step) (id : VectorId) : Prop := step.act.flushed? step.before.session = some id

end Step

variable {start m m' : Moment} {a : Act} {steps : List Step} {id : VectorId}

theorem Next.not_pending_of_takesBack (h : Next m a m') (ht : a.TakesBack m.session.store id) :
    ¬m'.session.store.Pending id := by
  cases h with
  | ask s r => exact Session.not_pending_of_takesBack ht
  | work => exact ht.elim

/-- Only a pending vector is flushed by an idle pass. -/
theorem Step.Flushes.pending {step : Step} (h : step.Flushes id) : step.before.session.store.Pending id := by
  unfold Flushes Act.flushed? at h
  split at h
  · cases h
  · obtain ⟨-, -, -, -, hpending⟩ := Store.flushing?_eq_some h
    exact Store.isPending_eq_true.1 hpending

/-- A pending vector was scheduled, and nothing has taken the flush back or
started a fan-out of the vector since. -/
theorem Run.scheduled (hsound : start.session.view.Sound) (hstart : ¬start.session.store.Pending id)
    (h : Run start steps m) (hp : m.session.store.Pending id) :
    ∃ front step rest, steps = front ++ step :: rest ∧ step.Schedules id ∧
      ∀ later ∈ rest, ¬later.TakesBack id ∧ ∀ kind, ¬later.Starts ⟨id, kind⟩ := by
  induction h with
  | start => exact absurd hp hstart
  | @next steps m m' a hrun hnext ih =>
    have hw := hrun.keeps_sound hsound
    have hm := hnext.move hw.coherent
    rcases hm.pending_after hw hp with hbefore | ⟨more, hmore, hmem⟩
    · obtain ⟨front, step, rest, rfl, hstep, hrest⟩ := ih hbefore
      refine ⟨front, step, rest ++ [⟨m, a, m'⟩], by simp, hstep, fun later hlater => ?_⟩
      rcases List.mem_append.1 hlater with hlater | hlater
      · exact hrest later hlater
      · rw [List.mem_singleton] at hlater
        subst hlater
        refine ⟨fun ht => hnext.not_pending_of_takesBack ht hp, fun kind ⟨d, he, hd⟩ => ?_⟩
        have hserver : d.event.server = id := congrArg ClientEvent.server he
        exact hm.not_pending_of_start hd (hserver ▸ hp)
    · exact ⟨steps, ⟨m, a, m'⟩, [], by simp, ⟨hp, more, hmore, hmem⟩, by simp⟩

/-- A step that keeps a property of moments, or is one of those looked for, each
time: at the end the property holds, or such a step was taken. -/
theorem Run.lasts {I : View → Prop} {E : Step → Prop}
    (hstep : ∀ {m a m'}, Next m a m' → I m.session.view → I m'.session.view ∨ E ⟨m, a, m'⟩) (h : Run start steps m)
    (hstart : I start.session.view) : I m.session.view ∨ ∃ step ∈ steps, E step := by
  induction h with
  | start => exact .inl hstart
  | next _ hnext ih =>
    rcases ih with hI | ⟨step, hmem, hE⟩
    · rcases hstep hnext hI with hI | hE
      · exact .inl hI
      · exact .inr ⟨_, by simp, hE⟩
    · exact .inr ⟨step, List.mem_append_left _ hmem, hE⟩

namespace Step

/-- What ends the wait of a pending vector. -/
def Settles (step : Step) (id : VectorId) : Prop :=
  step.Starts ⟨id, .updated⟩ ∨ step.TakesBack id ∨ step.Destroys id

end Step

/-- A pending vector stays so until its flush is settled. -/
theorem Next.pending_or_settles (h : Next m a m') (hw : m.session.view.Sound) (hp : m.session.store.Pending id) :
    m'.session.store.Pending id ∨ Step.Settles ⟨m, a, m'⟩ id := by
  rcases (h.move hw.coherent).pending_before hw hp with hp | hW | ⟨d, hd, hserver⟩ | hnone
  · exact .inl hp
  · exact .inr (.inr (.inl hW))
  · subst hserver
    cases hk : d.event.kind with
    | updated => exact .inr (.inl ⟨d, by rw [← hk], hd⟩)
    | destroyed => exact .inr (.inr (.inr (.inl ⟨d, by rw [← hk], hd⟩)))
  · exact .inr (.inr (.inr (.inr hnone)))

/-- A pending vector is settled by the end of the next outermost idle pass. -/
theorem Run.settled {front rest : List Step} {m₁ m₂ : Moment}
    (hsound : start.session.view.Sound) (hqueued : start.session.view.Queued) (hp : start.session.store.Pending id)
    (h : Run start (front ++ ⟨m₁, .ask .runIdle, m₂⟩ :: rest) m) (houter : m₁.session.view.passes = [])
    (hover : m.session.view.passes = []) :
    ∃ step ∈ front ++ ⟨m₁, .ask .runIdle, m₂⟩ :: rest, step.Settles id := by
  obtain ⟨hfront, hask, hrest⟩ := h.split
  have hbefore := hfront.lasts (I := fun w => w.Sound ∧ w.Queued ∧ w.store.Pending id)
    (E := fun step => step.Settles id) (fun hnext ⟨hw, hq, hp⟩ =>
      have hm := hnext.move hw.coherent
      (hnext.pending_or_settles hw hp).imp_left fun hp => ⟨hw.move hm, hm.queued hw hq, hp⟩)
    ⟨hsound, hqueued, hp⟩
  rcases hbefore with ⟨hw₁, hq₁, hp₁⟩ | ⟨step, hmem, hstep⟩
  swap
  · exact ⟨step, List.mem_append_left _ hmem, hstep⟩
  have hm₁ := hask.move hw₁.coherent
  rcases hask.pending_or_settles hw₁ hp₁ with hp₂ | hstep
  swap
  · exact ⟨_, by simp, hstep⟩
  -- The pass takes the whole queue, the entry of the vector included.
  have hpassing₂ : m₂.session.view.Passing id := by
    have hentry : id ∈ m₁.session.store.queue := by
      rcases hq₁ id hp₁ with hqueue | ⟨rest, hrest, -⟩
      · exact hqueue
      · rw [houter] at hrest
        cases hrest
    rcases hm₁.entry hentry with hqueue | hpassing
    · cases hask
      cases hqueue
    · exact hpassing
  have hafter := hrest.lasts (I := fun w => w.Sound ∧ w.store.Pending id ∧ w.Passing id)
    (E := fun step => step.Settles id) (fun hnext ⟨hw, hp, hpassing⟩ =>
      have hm := hnext.move hw.coherent
      (hnext.pending_or_settles hw hp).imp_left fun hp => ⟨hw.move hm, hp, hm.passing hp hpassing⟩)
    ⟨hw₁.move hm₁, hp₂, hpassing₂⟩
  rcases hafter with ⟨-, -, rest, hrest, -⟩ | ⟨step, hmem, hstep⟩
  · rw [hover] at hrest
    cases hrest
  · exact ⟨step, by simp [hmem], hstep⟩

/-! ## Deferred notifications -/

namespace Store

/-- A notification of the vector is deferred: it is due, and no fan-out starts. -/
def Defers (s : Store) (id : VectorId) (s' : Store) : Prop :=
  (∃ v, s.get? id = some v ∧ v.policy ≠ .never) ∧ s.markDirty id = .ok (s', none) ∨
    s.notifyNow id = .ok (s', none)

theorem pending_schedule {s : Store} {id : VectorId} {v : NamedVector} (hv : s.get? id = some v) :
    (s.schedule id).Pending id := ⟨_, get?_schedule hv, rfl⟩

theorem Defers.pending {s s' : Store} {id : VectorId} (h : s.Defers id s') : s'.Pending id := by
  rcases h with ⟨⟨v, hv, hpolicy⟩, h⟩ | h
  · obtain ⟨u, s₁, hu, rfl, ⟨-, -, hnever⟩ | ⟨-, rfl⟩ | ⟨-, -, hd⟩⟩ := markDirty_cases h
    · rw [hv, Option.some.injEq] at hu
      exact absurd (hu ▸ hnever) hpolicy
    · exact pending_schedule (get?_modify_self hu)
    · cases hd
  · obtain ⟨u, hu, ⟨-, rfl⟩ | ⟨-, -, hd⟩⟩ := notifyNow_cases h
    · exact pending_schedule hu
    · cases hd

end Store

theorem View.queued_start (config : StoreConfig) : View.Queued ⟨{ config := config }, [], []⟩ := by
  rintro id ⟨v, hv, -⟩
  simp [Store.get?] at hv

theorem Run.queued {s₀ : Session} {config : StoreConfig} {host : Host} {random : RandomSource}
    (hs₀ : Session.ofConfig config host random = .ok s₀) (h : Run ⟨s₀, false⟩ steps m) : m.session.view.Queued := by
  have hstart := Session.view_of_ofConfig hs₀
  have hboth := h.keeps (I := fun w => w.Sound ∧ w.Queued) (fun hw => hw.1.coherent)
    (fun hm hw => ⟨hw.1.move hm, hm.queued hw.1 hw.2⟩)
    (hstart ▸ ⟨View.sound_start config, View.queued_start config⟩)
  exact hboth.2

theorem Session.mem_passes {s : Session} {rest : List VectorId} :
    rest ∈ s.view.passes ↔ ∃ flushed, .idlePass rest flushed ∈ s.stack := by
  simp only [view, View.ofTasks, List.mem_filterMap]
  constructor
  · rintro ⟨t, ht, hrest⟩
    cases t <;> cases hrest
    exact ⟨_, ht⟩
  · rintro ⟨flushed, hmem⟩
    exact ⟨_, hmem, rfl⟩

/-- **Deferred notifications are not lost, and none is made up.** At every moment
of every run:
* deferring a notification leaves the vector pending;
* a pending vector is in the queue or in what is left of an idle pass;
* by the end of the next outermost idle pass a pending vector has had a fan-out,
  unless the flush was taken back or the vector destroyed;
* an idle pass tells of a vector only when a flush of it was scheduled, after
  which none was taken back and no fan-out of it started. -/
theorem Run.deferred_notifications {s₀ : Session} {config : StoreConfig} {host : Host} {random : RandomSource}
    (hs₀ : Session.ofConfig config host random = .ok s₀) (h : Run ⟨s₀, false⟩ steps m) (id : VectorId) :
    (∀ s s' : Store, s.Defers id s' → s'.Pending id) ∧
    (m.session.store.Pending id → id ∈ m.session.store.queue ∨
      ∃ rest flushed, .idlePass rest flushed ∈ m.session.stack ∧ id ∈ rest) ∧
    (m.session.store.Pending id → ∀ front m₁ m₂ rest m', Run m (front ++ ⟨m₁, .ask .runIdle, m₂⟩ :: rest) m' →
      m₁.session.view.passes = [] → m'.session.view.passes = [] →
      ∃ step ∈ front ++ ⟨m₁, .ask .runIdle, m₂⟩ :: rest, step.Settles id) ∧
    (∀ a m', Next m a m' → Step.Flushes ⟨m, a, m'⟩ id →
      ∃ front step rest, steps = front ++ step :: rest ∧ step.Schedules id ∧
        ∀ later ∈ rest, ¬later.TakesBack id ∧ ∀ kind, ¬later.Starts ⟨id, kind⟩) := by
  have hstart := Session.view_of_ofConfig hs₀
  have hsound₀ : s₀.view.Sound := hstart ▸ View.sound_start config
  have hidle₀ : ¬s₀.store.Pending id := by
    have hstore : s₀.store = { config := config } := congrArg View.store hstart
    exact Store.not_pending_of_none (by simp [hstore, Store.get?])
  refine ⟨fun s s' hd => hd.pending, fun hp => ?_, fun hp front m₁ m₂ rest m' hrun houter hover => ?_,
    fun a m' hnext hflush => ?_⟩
  · rcases h.queued hs₀ id hp with hqueue | ⟨rest, hrest, hmem⟩
    · exact .inl hqueue
    · obtain ⟨flushed, hstack⟩ := Session.mem_passes.1 hrest
      exact .inr ⟨rest, flushed, hstack, hmem⟩
  · exact Run.settled (h.sound hs₀) (h.queued hs₀) hp hrun houter hover
  · exact Run.scheduled hsound₀ hidle₀ h hflush.pending

/-- The program notes a change to a vector with a client, whose notification is
deferred. -/
def Moment.deferring : List (Option Request) :=
  [some (.create none), none, some (.registerClient ⟨0, 0⟩ true), none, some (.markDirty ⟨0, 0⟩), none]

theorem Run.deferred_notifications_deferring :
    let m := Moment.outcome ⟨.initial, false⟩ Moment.deferring
    let m' := m.outcome [some .runIdle]
    m.session.store.Pending ⟨0, 0⟩ ∧
    (∃ step ∈ m.play [some .runIdle, none, none, none, none], step.Settles ⟨0, 0⟩) ∧
    Step.Flushes (m'.step none) ⟨0, 0⟩ ∧
    ∃ front step rest, Moment.play ⟨.initial, false⟩ (Moment.deferring ++ [some .runIdle]) = front ++ step :: rest ∧
      step.Schedules ⟨0, 0⟩ ∧ ∀ later ∈ rest, ¬later.TakesBack ⟨0, 0⟩ ∧ ∀ kind, ¬later.Starts ⟨⟨0, 0⟩, kind⟩ := by
  intro m m'
  have hrun : Run ⟨.initial, false⟩ (Moment.play ⟨.initial, false⟩ Moment.deferring) m := Moment.run_play rfl
  have hrun' : Run ⟨.initial, false⟩ (Moment.play ⟨.initial, false⟩ (Moment.deferring ++ [some .runIdle])) m' :=
    Moment.run_play rfl
  have hpending : m.session.store.Pending ⟨0, 0⟩ := ⟨_, rfl, rfl⟩
  have hflush : Step.Flushes (m'.step none) ⟨0, 0⟩ := rfl
  have hpass : Run m (m.play [some .runIdle, none, none, none, none])
      (m.outcome [some .runIdle, none, none, none, none]) := Moment.run_play rfl
  have hnext : Next m' (m'.step none).act (m'.step none).after := Moment.next_step none rfl
  refine ⟨hpending, ?_, hflush, ?_⟩
  · exact (Run.deferred_notifications Session.ofConfig_initial hrun ⟨0, 0⟩).2.2.1 hpending [] m m' _ _ hpass rfl rfl
  · exact (Run.deferred_notifications Session.ofConfig_initial hrun' ⟨0, 0⟩).2.2.2 _ _ hnext hflush

end VectorEngine
