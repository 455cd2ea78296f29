/-
Ids that have outlived their vector.

A slot comes to its next generation with each removal (`Run.generation`), and an
id names a vector in its own generation only. So two creations never hand out the
same id, and an id whose vector has been destroyed is not found at any later
moment, until `2 ^ 32` removals have brought the generation round.
-/
import Mathlib
import VectorEngine.Proofs.Session.Farewell

namespace VectorEngine

/-- The id handed out for a new vector, be it removed at once for want of room. -/
def Request.created? (s : Store) : Request → Option VectorId
  | .create name? | .command (.create name? _) => (s.create name?).2.toOption
  | _ => none

def Step.created? (step : Step) : Option VectorId :=
  match step.act with
  | .ask r => r.created? step.before.session.store
  | .work _ => none

/-- The ids handed out for new vectors, in their order. -/
def created (steps : List Step) : List VectorId := steps.filterMap (·.created?)

/-- The destruction of the vector has completed: its end has been told, with all
that was done meanwhile, or it was removed in the step that created it. -/
def Retired (steps : List Step) (id : VectorId) : Prop :=
  (∃ front step during back m, steps = front ++ step :: (during ++ back) ∧ step.Starts ⟨id, .destroyed⟩ ∧
    Above step.after.session.stack.tail.length step.after during m) ∨
  ∃ step ∈ steps, step.created? = some id ∧ step.after.session.store.get? id = none

/-! ## Requests about an id that is not found -/

/-- The engine reports that the id names no vector, and does nothing about it. -/
structure Session.NotFound (s : Session) (id : VectorId) : Prop where
  get : s.store.get id = .error (.notFound id.text)
  contains : s.store.contains id = false
  edit : ∀ change, s.submit (.edit id change) = (s, .finished (.error (.notFound id.text)))
  update : ∀ change, s.submit (.update id change) = (s, .finished (.error (.notFound id.text)))
  markDirty : s.submit (.markDirty id) = (s, .finished (.error (.notFound id.text)))
  notifyNow : s.submit (.notifyNow id) = (s, .finished (.error (.notFound id.text)))
  destroy : s.submit (.destroy id) = (s, .finished (.error (.notFound id.text)))
  /-- The number for the client is used up. -/
  registerClient : ∀ listens, s.submit (.registerClient id listens) =
    ({ s with store.nextClient := s.store.nextClient + 1 }, .finished (.error (.notFound id.text)))
  /-- An idle pass goes past the id without counting it. -/
  idlePass : ∀ ids flushed rest, s.store.tick (.idlePass (id :: ids) flushed :: rest) =
    (s.store, .idlePass ids flushed :: rest, none)

theorem Session.notFound_of_none {s : Session} {id : VectorId} (h : s.store.get? id = none) : s.NotFound id := by
  have hget : s.store.get id = .error (.notFound id.text) := Store.get_eq_error h
  have hfail : ∀ r, s.issue r = s.fail (.notFound id.text) →
      s.submit r = (s, .finished (.error (.notFound id.text))) := by
    intro r hissue
    rw [submit, hissue, fail, resume_refuse]
  have hedit : ∀ change, s.store.edit id change = .error (.notFound id.text) := fun change =>
    bind_error_iff.2 (.inl hget)
  have hupdate : ∀ change, s.store.update id change = .error (.notFound id.text) := fun change =>
    bind_error_iff.2 (.inl (hedit change))
  have hmark : s.store.markDirty id = .error (.notFound id.text) := bind_error_iff.2 (.inl hget)
  have hnow : s.store.notifyNow id = .error (.notFound id.text) := bind_error_iff.2 (.inl hget)
  have hdestroy : s.store.beginDestroy id = .error (.notFound id.text) := bind_error_iff.2 (.inl hget)
  have hpending : s.store.isPending id = .error (.notFound id.text) := bind_error_iff.2 (.inl hget)
  exact {
    get := hget
    contains := by rw [Store.contains, h, Option.isSome_none]
    edit := fun change => hfail _ (by simp only [issue, hedit]; rfl)
    update := fun change => hfail _ (by simp only [issue, hupdate]; rfl)
    markDirty := hfail _ (by simp only [issue, hmark]; rfl)
    notifyNow := hfail _ (by simp only [issue, hnow]; rfl)
    destroy := hfail _ (by simp only [issue, hdestroy]; rfl)
    registerClient := fun listens => by
      have hregister : s.store.registerClient id listens =
          ({ s.store with nextClient := s.store.nextClient + 1 }, .error (.notFound id.text)) := by
        unfold Store.registerClient
        dsimp only
        rw [Store.get_eq_error (s := { s.store with nextClient := s.store.nextClient + 1 }) h]
      have hissue : s.issue (.registerClient id listens) =
          { s with store.nextClient := s.store.nextClient + 1 }.fail (.notFound id.text) := by
        simp only [issue, hregister]
      rw [submit, hissue, fail, resume_refuse]
    idlePass := fun ids flushed rest => by simp only [Store.tick, hpending] }

/-! ## Creation -/

namespace Store

variable {s s' : Store} {id : VectorId} {name? : Option String}

/-- A new id names the next vector of its slot, which is free. -/
theorem create_vacant (hs : s.Coherent) (h : s.create name? = (s', .ok id)) :
    s.get? id = none ∧ s.generation id.index = id.generation ∧ ∃ v, s'.get? id = some v := by
  obtain ⟨v, -, hget⟩ := get?_of_create hs h
  obtain ⟨m, u, -, -, hplace⟩ := create_ok h
  have hv : s'.get? id = some v := by rw [hget, if_pos rfl]
  refine ⟨vacant_of_create hs h, ?_, v, hv⟩
  exact (generation_place hplace id.index).symm.trans (generation_of_get? hv)

/-- A vector created with a length is there, or has been removed. -/
theorem createWithLength_created (hs : s.Coherent) (h : (s.create name?).2 = .ok id) (length? : Option Nat) :
    (∃ v, (s.createWithLength name? length?).1.get? id = some v) ∨
      (s.createWithLength name? length?).1.generation id.index = id.generation + 1 := by
  rcases hcreate : s.create name? with ⟨s₁, result⟩
  rw [hcreate] at h
  dsimp only at h
  subst h
  obtain ⟨-, -, v, hv⟩ := create_vacant hs hcreate
  simp only [createWithLength, hcreate]
  split
  · exact .inl ⟨v, hv⟩
  · split
    · next hupdating =>
      have hstart : Start False s₁ _ _ := updating_start (.refl s₁) hupdating (by simp [hv, Task.Inert])
      obtain ⟨v', hv', -⟩ := hstart.steady.vector id v hv
      exact .inl ⟨v', hv'⟩
    · exact .inr (by rw [generation_retire hv, if_pos rfl, generation_of_get? hv])

end Store

variable {start m m' : Moment} {a : Act} {steps : List Step} {id : VectorId} {v : NamedVector}

/-- **What a creation starts from, and what it comes to.** The slot of the new id
is free and in the generation of the id; afterwards the vector is there, unless it
has been removed again. -/
theorem Next.created (h : Next m a m') (hs : m.session.store.Coherent) (hc : Step.created? ⟨m, a, m'⟩ = some id) :
    m.session.store.get? id = none ∧ m.session.store.generation id.index = id.generation ∧
      ((∃ v, m'.session.store.get? id = some v) ∨ Step.vacates ⟨m, a, m'⟩ id.index = true) := by
  cases h with
  | work => cases hc
  | ask s r =>
    have hcreated : ∀ {name?}, (s.store.create name?).2.toOption = some id → (s.store.create name?).2 = .ok id := by
      intro name? hid
      cases hresult : (s.store.create name?).2 with
      | error e => simp [hresult, Except.toOption] at hid
      | ok id' =>
        rw [hresult] at hid
        exact congrArg _ (Option.some.inj hid)
    have hvacant : ∀ {name?}, (s.store.create name?).2 = .ok id →
        s.store.get? id = none ∧ s.store.generation id.index = id.generation ∧
          ∃ v, (s.store.create name?).1.get? id = some v := fun hid =>
      Store.create_vacant hs (Prod.ext rfl hid)
    cases r with
    | create name? =>
      have hid := hcreated hc
      obtain ⟨hnone, hgeneration, v, hv⟩ := hvacant hid
      refine ⟨hnone, hgeneration, .inl ⟨v, ?_⟩⟩
      have hissue : (s.issue (.create name?)).store = (s.store.create name?).1 := by
        simp only [Session.issue]
        split <;> next hcreate => rw [hcreate]; rfl
      exact hissue ▸ hv
    | command c =>
      cases c with
      | create name? length? =>
        have hid := hcreated hc
        obtain ⟨hnone, hgeneration, -⟩ := hvacant hid
        refine ⟨hnone, hgeneration, ?_⟩
        have hissue : (s.issue (.command (.create name? length?))).store =
            (s.store.createWithLength name? length?).1 := by
          simp only [Session.issue, Session.execute]
          split <;> next hcreate => rw [hcreate]; rfl
        rcases Store.createWithLength_created hs hid length? with ⟨v, hv⟩ | hgone
        · exact .inl ⟨v, hissue ▸ hv⟩
        · refine .inr ?_
          rw [← hissue] at hgone
          simp only [Step.vacates, hgone, hgeneration]
          simp
      | _ => cases hc
    | _ => cases hc

/-! ## Removal -/

namespace Store

variable {s s' : Store} {tasks tasks' : List Task} {signal? : Option Signal}

theorem Ticked.generation_of_gone (h : Ticked s tasks s' tasks' signal?) (hw : View.Sound (.ofTasks s tasks))
    (hv : s.get? id = some v) (hnone : s'.get? id = none) : s'.generation id.index = id.generation + 1 := by
  have hkeeps : s.Steady s' → s'.generation id.index = id.generation + 1 := by
    intro hsteady
    obtain ⟨v', hv', -⟩ := hsteady.vector id v hv
    cases hnone.symm.trans hv'
  cases h with
  | quiet | calls | passed | skips | finishes => exact hkeeps (.refl s)
  | flushes => exact hkeeps (opened_steady s _)
  | works _ _ _ hst => exact hkeeps hst.steady
  | @ends d =>
    cases hd : d.event.kind with
    | updated =>
      refine hkeeps ?_
      rw [endDelivery_updated s hd]
      exact steady_modify s _ (fun _ => rfl) fun _ => List.prefix_rfl
    | destroyed =>
      obtain ⟨u, hu, -⟩ := hw.dying d (by simp [View.ofTasks]) hd
      have hu : s.get? d.event.server = some u := hu
      rw [endDelivery_destroyed s hd] at hnone ⊢
      rw [get?_retire hu] at hnone
      split at hnone
      · next hid => rw [hid, generation_retire hu, if_pos rfl, generation_of_get? hu]
      · cases hnone.symm.trans hv

end Store

theorem Session.Issued.get?_ne_none {s : Store} {stack : List Task} {r : Request} {s' : Session}
    (h : Issued s stack r s') (hv : s.get? id = some v) : s'.store.get? id ≠ none := by
  have hkeeps : s.Steady s'.store → s'.store.get? id ≠ none := by
    intro hsteady
    obtain ⟨v', hv', -⟩ := hsteady.vector id v hv
    rw [hv']
    simp
  cases h with
  | started _ hst _ => exact hkeeps hst.steady
  | pass _ hstore _ =>
    rw [hstore]
    exact hv ▸ Option.some_ne_none v
  | @released c _ _ hstore _ =>
    rw [hstore]
    rcases Store.releaseClient_cases s c with he | ⟨id', he⟩
    · rw [he, hv]
      simp
    · rw [he]
      show (s.modify id' _).get? id ≠ none
      rw [Store.get?_modify]
      split
      · next hid => simp [← hid, hv]
      · simp [hv]
  | undone hsteady hnone hu _ hstore _ _ =>
    obtain ⟨v', hv', -⟩ := hsteady.vector id v hv
    rw [hstore, Store.get?_retire hu]
    split
    · next hid =>
      rw [hid, hnone] at hv
      cases hv
    · rw [hv']
      simp

/-- A vector that is gone after a step has left its slot to the next generation. -/
theorem Next.vacates (h : Next m a m') (hw : m.session.view.Sound) (hv : m.session.store.get? id = some v)
    (hnone : m'.session.store.get? id = none) : Step.vacates ⟨m, a, m'⟩ id.index = true := by
  cases h with
  | ask s r => exact absurd hnone ((Session.issue_issued hw.coherent r).get?_ne_none hv)
  | work busy h =>
    have hgone := (Store.tick_ticked (Session.tick_eq h).1).generation_of_gone hw hv hnone
    simp only [Step.vacates, hgone, Store.generation_of_get? hv]
    simp

/-- A vector stays while its slot keeps its generation. -/
theorem Run.stays (hw : start.session.view.Sound) (h : Run start steps m) (hv : start.session.store.get? id = some v)
    (hzero : vacated steps id.index = 0) : ∃ v', m.session.store.get? id = some v' := by
  induction h with
  | start => exact ⟨v, hv⟩
  | @next steps m m' a hrun hnext ih =>
    rw [vacated_append, Nat.add_eq_zero_iff] at hzero
    obtain ⟨v', hv'⟩ := ih hzero.1
    refine Option.isSome_iff_exists.1 (Option.isSome_iff_ne_none.2 fun hnone => ?_)
    have hvacates := hnext.vacates (hrun.keeps_sound hw) hv' hnone
    rw [vacated_singleton, hvacates] at hzero
    exact absurd hzero.2 (by simp)

/-- An id whose slot has come to another generation is not found. -/
theorem Run.passed_by (hw : start.session.view.Sound) (h : Run start steps m)
    (hgeneration : start.session.store.generation id.index = id.generation) (hpos : 0 < vacated steps id.index)
    (hround : vacated steps id.index < 2 ^ 32) : m.session.store.generation id.index ≠ id.generation := by
  rw [h.generation hw, hgeneration]
  exact generation_add_ne hpos hround

/-! ## Runs -/

section

variable {s₀ : Session} {config : StoreConfig} {host : Host} {random : RandomSource}
  (hs₀ : Session.ofConfig config host random = .ok s₀)

include hs₀

/-- The vector of an id handed out before is there, or its slot has come to
another generation. -/
theorem Run.created_stays (h : Run ⟨s₀, false⟩ steps m) (hround : vacated steps id.index < 2 ^ 32)
    (hid : id ∈ created steps) :
    (∃ v, m.session.store.get? id = some v) ∨ m.session.store.generation id.index ≠ id.generation := by
  obtain ⟨step, hstep, hcreated⟩ := List.mem_filterMap.1 hid
  obtain ⟨front, back, rfl⟩ := List.append_of_mem hstep
  obtain ⟨hfront, hnext, hback⟩ := h.split
  have hw := hfront.sound hs₀
  obtain ⟨-, hgeneration, hafter⟩ := hnext.created hw.coherent hcreated
  rw [vacated_append] at hround
  rcases Nat.eq_zero_or_pos (vacated (step :: back) id.index) with hzero | hpos
  · have hsum : vacated [step] id.index + vacated back id.index = 0 :=
      (vacated_append [step] back id.index).symm.trans hzero
    obtain ⟨hfirst, hrest⟩ := Nat.add_eq_zero_iff.1 hsum
    rcases hafter with ⟨v, hv⟩ | hvacates
    · exact .inl (hback.stays (hw.move (hnext.move hw.coherent)) hv hrest)
    · rw [vacated_singleton, if_pos hvacates] at hfirst
      cases hfirst
  · exact .inr (h.from_step.passed_by hw hgeneration hpos (by omega))

theorem Run.created_nodup (h : Run ⟨s₀, false⟩ steps m) (hround : ∀ i, vacated steps i < 2 ^ 32) :
    (created steps).Nodup := by
  induction h with
  | start => exact .nil
  | @next steps m m' a hrun hnext ih =>
    have hround' : ∀ i, vacated steps i < 2 ^ 32 := fun i => by
      have := hround i
      rw [vacated_append] at this
      omega
    rw [created, List.filterMap_append, ← created]
    cases hcreated : Step.created? ⟨m, a, m'⟩ with
    | none => simpa [hcreated] using ih hround'
    | some id =>
      obtain ⟨hnone, hgeneration, -⟩ := hnext.created (hrun.sound hs₀).coherent hcreated
      have hnew : id ∉ created steps := by
        intro hid
        rcases hrun.created_stays hs₀ (hround' id.index) hid with ⟨v, hv⟩ | hne
        · cases hnone.symm.trans hv
        · exact hne hgeneration
      simpa [hcreated] using List.nodup_append.2 ⟨ih hround', List.nodup_singleton id, by
        rintro a ha b hb rfl
        exact hnew (List.mem_singleton.1 hb ▸ ha)⟩

/-- An id whose vector has been destroyed names no vector. -/
theorem Run.retired (h : Run ⟨s₀, false⟩ steps m) (hround : vacated steps id.index < 2 ^ 32)
    (hretired : Retired steps id) : m.session.store.get? id = none := by
  -- Since a step before which the slot was in the generation of the id there has been a removal.
  have hgone : ∀ {front step back}, steps = front ++ step :: back →
      step.before.session.store.generation id.index = id.generation → 0 < vacated (step :: back) id.index →
      m.session.store.get? id = none := by
    rintro front step back rfl hgeneration hpos
    rw [vacated_append] at hround
    exact Store.get?_of_generation_ne (h.from_step.passed_by (h.split.1.sound hs₀) hgeneration hpos (by omega))
  rcases hretired with ⟨front, step, during, back, m₂, hsplit, hstarts, hduring⟩ | ⟨step, hstep, hcreated, hnone⟩
  · subst hsplit
    obtain ⟨hfront, hnext, -⟩ := h.split
    have hw := hfront.regular hs₀
    obtain ⟨d, u, rest, -, he, hstarted⟩ := hnext.started hw.sound.coherent hstarts
    have hstore := hstarted.ending (by rw [he])
    have hu := hstarted.begins.server
    rw [hstore, he, Store.get?_modify, if_pos rfl] at hu
    obtain ⟨v, hv, -⟩ := Option.map_eq_some_iff.1 hu
    obtain ⟨d, rest, hend⟩ := hnext.ending hw hstarts hv
    obtain rfl : step.after.session.stack.tail = rest := by rw [hend.stack, List.tail_cons]
    obtain ⟨s, u, hu, -, hremoved⟩ := Run.removes hend hduring
    have hnone : m₂.session.store.get? id = none := by rw [hremoved, Store.get?_retire hu, if_pos rfl]
    refine hgone rfl (Store.generation_of_get? hv) (Nat.pos_of_ne_zero fun hzero => ?_)
    rw [← List.cons_append, vacated_append, Nat.add_eq_zero_iff] at hzero
    have hrun : Run step.before (step :: during) m₂ := (Run.next .start hnext).trans hduring.run
    obtain ⟨v', hv'⟩ := hrun.stays hw.sound hv hzero.1
    cases hnone.symm.trans hv'
  · obtain ⟨front, back, hsplit⟩ := List.append_of_mem hstep
    obtain ⟨hfront, hnext, -⟩ := (hsplit ▸ h).split
    obtain ⟨-, hgeneration, ⟨v, hv⟩ | hvacates⟩ := hnext.created (hfront.sound hs₀).coherent hcreated
    · cases hnone.symm.trans hv
    · refine hgone hsplit hgeneration ?_
      rw [← List.singleton_append, vacated_append, vacated_singleton, if_pos hvacates]
      omega

/-- **Stale ids never come back.** As long as no slot has lost `2 ^ 32` vectors, no
two creations hand out the same id, and an id whose vector has been destroyed is
not found at any moment from then on, whatever its slot has been used for since. -/
theorem Run.stale_ids (h : Run ⟨s₀, false⟩ steps m) (hround : ∀ i, vacated steps i < 2 ^ 32) :
    (created steps).Nodup ∧ ∀ id, Retired steps id → m.session.NotFound id :=
  ⟨h.created_nodup hs₀ hround, fun id hretired =>
    Session.notFound_of_none (h.retired hs₀ (hround id.index) hretired)⟩

end

/-- The program has a vector destroyed, whose client is told, and creates another
in its slot. -/
def Moment.slotReused : List (Option Request) :=
  [some (.create none), none, some (.registerClient ⟨0, 0⟩ true), none] ++ some (.destroy ⟨0, 0⟩) ::
    ([none, none] ++ [none, some (.create none), none])

theorem Run.stale_ids_slotReused :
    let steps := Moment.play ⟨.initial, false⟩ Moment.slotReused
    let m := Moment.outcome ⟨.initial, false⟩ Moment.slotReused
    created steps = [⟨0, 0⟩, ⟨0, 1⟩] ∧ m.session.store.contains ⟨0, 1⟩ = true ∧ (created steps).Nodup ∧
      m.session.NotFound ⟨0, 0⟩ := by
  intro steps m
  have hrun : Run ⟨.initial, false⟩ steps m := Moment.run_play (by decide +kernel)
  have hround : ∀ i, vacated steps i < 2 ^ 32 := fun i =>
    Nat.lt_of_le_of_lt List.countP_le_length (show 10 < 2 ^ 32 by decide)
  have hretired : Retired steps ⟨0, 0⟩ := by
    let before := Moment.outcome ⟨.initial, false⟩ (Moment.slotReused.take 4)
    let after := (before.step (some (.destroy ⟨0, 0⟩))).after
    have habove : Above after.session.stack.tail.length after (after.play [none, none]) (after.outcome [none, none]) :=
      Moment.above_play (by decide +kernel) (by decide +kernel) (by decide +kernel)
    exact .inl ⟨Moment.play ⟨.initial, false⟩ (Moment.slotReused.take 4), before.step (some (.destroy ⟨0, 0⟩)), _,
      (after.outcome [none, none]).play (Moment.slotReused.drop 7), _, rfl, ⟨_, rfl, rfl⟩, habove⟩
  obtain ⟨hnodup, hstale⟩ := Run.stale_ids Session.ofConfig_initial hrun hround
  exact ⟨by decide +kernel, by decide +kernel, hnodup, hstale _ hretired⟩

end VectorEngine
