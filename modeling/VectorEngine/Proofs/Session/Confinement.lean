/-
Work on some vectors leaves the others as they are.

`Store.Confined` says of an operation that it changes vectors in `T` only and so
will the tasks it leaves. A command is confined to its targets and to what was not
there before (`Session.Executed.confined`), and each unit of work keeps to where
the tasks are (`Store.tick_confined`).
-/
import Mathlib
import VectorEngine.Proofs.Session.Serving

namespace VectorEngine

variable {T : VectorId → Prop}

/-- The task works on vectors in `T` only. -/
def Task.Within (T : VectorId → Prop) : Task → Prop
  | deliver d => T d.event.server
  | idlePass ids _ | markEach ids | destroyAll ids | destroyNamed ids => ∀ id ∈ ids, T id
  | answer _ | refuse _ | answerReached | answerLength _ | answerOffset _ => True

/-- The vectors outside `T` are as they were, and the work left is on vectors in
`T`. -/
structure Store.Confined (T : VectorId → Prop) (s s' : Store) (tasks : List Task) : Prop where
  off : ∀ id, ¬T id → s'.get? id = s.get? id
  within : ∀ t ∈ tasks, t.Within T

namespace Task

variable {rest : List Task}

theorem within_report (n : Nat) (hrest : ∀ t ∈ rest, t.Within T) : ∀ t ∈ report n rest, t.Within T := by
  unfold report
  split
  · exact List.forall_mem_cons.2 ⟨trivial, fun t ht => hrest t (List.mem_cons_of_mem _ ht)⟩
  · exact hrest

theorem Turns.within {t t' : Task} {id : VectorId} (h : t.Turns id t') (ht : t.Within T) : T id ∧ t'.Within T := by
  cases h <;> exact List.forall_mem_cons.1 ht

end Task

namespace Store

variable {s₀ s s' : Store} {id : VectorId} {ids : List VectorId} {tasks rest : List Task}

namespace Confined

theorem refl (s : Store) (hrest : ∀ t ∈ rest, t.Within T) : s.Confined T s rest := ⟨fun _ _ => rfl, hrest⟩

theorem trans (h : s₀.Confined T s tasks) (h' : s.Confined T s' rest) : s₀.Confined T s' rest :=
  ⟨fun id hid => (h'.off id hid).trans (h.off id hid), h'.within⟩

theorem append (h : s.Confined T s' tasks) (hrest : ∀ t ∈ rest, t.Within T) : s.Confined T s' (tasks ++ rest) :=
  ⟨h.off, List.forall_mem_append.2 ⟨h.within, hrest⟩⟩

theorem modify (h : s₀.Confined T s rest) (hid : T id) (f : NamedVector → NamedVector) :
    s₀.Confined T (s.modify id f) rest := by
  refine ⟨fun id' hid' => ?_, h.within⟩
  have hne : id' ≠ id := fun he => hid' (he ▸ hid)
  rw [get?_modify_of_ne hne, h.off id' hid']

theorem retire (h : s₀.Confined T s rest) {v : NamedVector} (hv : s.get? id = some v) (hid : T id) :
    s₀.Confined T (s.retire id) rest := by
  refine ⟨fun id' hid' => ?_, h.within⟩
  have hne : id' ≠ id := fun he => hid' (he ▸ hid)
  rw [get?_retire hv, if_neg hne, h.off id' hid']

theorem schedule (h : s₀.Confined T s rest) (hid : T id) : s₀.Confined T (s.schedule id) rest := by
  cases hv : s.get? id with
  | none => exact (schedule_of_none hv).symm ▸ h
  | some v =>
    rw [schedule_eq hv]
    exact ⟨(h.modify hid fun v => { v with state := .pending }).off, h.within⟩

end Confined

/-! ## Operations on one vector -/

section

variable {s s' : Store} (hid : T id) (hrest : ∀ t ∈ rest, t.Within T)

include hid hrest

theorem markDirty_confined {d? : Option Delivery} (h : s.markDirty id = .ok (s', d?)) :
    s.Confined T s' (Task.delivering d? rest) := by
  obtain ⟨v, s₁, -, rfl, hcases⟩ := markDirty_cases h
  have hnoted := (Confined.refl s hrest).modify hid fun v => { v with series := v.series.invalidate }
  rcases hcases with ⟨rfl, rfl, -⟩ | ⟨rfl, rfl⟩ | ⟨-, rfl, rfl⟩
  · exact hnoted
  · exact hnoted.schedule hid
  · exact ⟨(hnoted.modify hid _).off, List.forall_mem_cons.2 ⟨hid, hrest⟩⟩

theorem notifyNow_confined {d? : Option Delivery} (h : s.notifyNow id = .ok (s', d?)) :
    s.Confined T s' (Task.delivering d? rest) := by
  obtain ⟨v, -, ⟨rfl, rfl⟩ | ⟨-, rfl, rfl⟩⟩ := notifyNow_cases h
  · exact (Confined.refl s hrest).schedule hid
  · exact ⟨((Confined.refl s hrest).modify hid _).off, List.forall_mem_cons.2 ⟨hid, hrest⟩⟩

theorem beginDestroy_confined {d? : Option Delivery} (h : s.beginDestroy id = .ok (s', d?)) :
    s.Confined T s' (Task.delivering d? rest) := by
  obtain ⟨v, -, ⟨-, rfl, rfl⟩ | ⟨-, rfl, rfl⟩⟩ := beginDestroy_cases h
  · exact .refl _ hrest
  · exact ⟨((Confined.refl s hrest).modify hid _).off, List.forall_mem_cons.2 ⟨hid, hrest⟩⟩

theorem updating_confined {change : Series → Except Error Series} (h : s.updating id change rest = .ok (s', tasks)) :
    s.Confined T s' tasks := by
  unfold updating update at h
  obtain ⟨⟨s₂, d?⟩, hupdate, h⟩ := bind_ok_iff.1 h
  obtain ⟨s₁, hedit, hmark⟩ := bind_ok_iff.1 hupdate
  obtain ⟨v, series, -, -, rfl⟩ := edit_cases hedit
  cases h
  exact ((Confined.refl s hrest).modify hid _).trans (markDirty_confined hid hrest hmark)

end

/-! ## Commands -/

theorem writing_confined {writes : List (VectorId × List Float)} (hwrites : ∀ w ∈ writes, T w.1)
    (hrest : ∀ t ∈ rest, t.Within T) (h : s.writing writes rest = (s', tasks)) : s.Confined T s' tasks := by
  have hall : s.Confined T (s.writeAll writes).1 [] := by
    refine writeAll_keeps (P := fun s₁ => s.Confined T s₁ []) (fun w hw s₁ s₂ hs₁ hedit => ?_) (.refl s (by simp))
    obtain ⟨v, series, -, -, rfl⟩ := edit_cases hedit
    exact hs₁.modify (hwrites w hw) _
  have hids : (Task.markEach (writes.map (·.1))).Within T := by simpa [Task.Within] using hwrites
  obtain ⟨rfl, rfl | ⟨e, -, rfl⟩⟩ := writing_cases h
  · exact ⟨hall.off, List.forall_mem_cons.2 ⟨hids, hrest⟩⟩
  · exact ⟨hall.off, by simp [Task.Within]⟩

theorem Writes.confined (h : Writes s rest ids s' tasks) (hids : ∀ id ∈ ids, T id) (hrest : ∀ t ∈ rest, t.Within T) :
    s.Confined T s' tasks := by
  cases h with
  | nothing => exact .refl s hrest
  | one _ h => exact updating_confined (hids _ List.mem_cons_self) hrest h
  | several _ h => exact writing_confined (fun w hw => hids w.1 (List.mem_map.2 ⟨w, hw, rfl⟩)) hrest h

theorem Answering.within (h : s.Answering rest) : ∀ t ∈ rest, t.Within T := by
  unfold Answering at h
  split at h
  · simp [Task.Within]
  · simp [Task.Within]
  · simp [Task.Within]
  · exact h.elim

theorem within_quietly : ∀ t ∈ quietly, t.Within T := by simp [quietly, Task.Within]

theorem notifying_confined {action : NotifyAction} (hid : T id)
    (h : s.notifying id action = .ok (s', tasks)) : s.Confined T s' tasks := by
  cases action with
  | policy p =>
    obtain ⟨s₁, h₁, h⟩ := bind_ok_iff.1 h
    obtain ⟨v, -, h₁⟩ := bind_ok_iff.1 h₁
    cases h₁
    cases h
    exact (Confined.refl s within_quietly).modify hid _
  | now =>
    obtain ⟨⟨s₁, d?⟩, h₁, h⟩ := bind_ok_iff.1 h
    cases h
    exact notifyNow_confined hid within_quietly h₁
  | cancel =>
    obtain ⟨⟨s₁, pending⟩, h₁, h⟩ := bind_ok_iff.1 h
    cases h
    exact cancelNotify_eq h₁ ▸ (Confined.refl s within_quietly).modify hid _
  | pending =>
    obtain ⟨pending, -, h⟩ := bind_ok_iff.1 h
    cases h
    exact .refl s (by simp [Task.Within])

theorem mem_targets {c : Command} : id ∈ s.targets c ↔ ∃ n ∈ c.targets, s.names.find? n = some id := by
  rw [targets, List.mem_eraseDups, List.mem_filterMap]

theorem Form.confined {c : Command} (h : Form s c s' tasks) (hT : ∀ id ∈ s.targets c, T id) :
    s.Confined T s' tasks := by
  cases h with
  | looks => exact .refl s (by simp [Task.Within])
  | @destroys names ids hids =>
    have htargets : s.targets (.destroy names) = ids.eraseDups := targets_of_lookupAll hids
    refine .refl s (List.forall_mem_singleton.2 fun id hid => hT id ?_)
    rwa [htargets, List.mem_eraseDups]
  | @notifies _ _ name id action hne hid h =>
    refine notifying_confined (hT id (mem_targets.2 ⟨name, ?_, lookup_eq_ok_iff.1 hid⟩)) h
    cases action <;> first | exact List.mem_singleton_self name | exact absurd rfl hne
  | changes _ hids ha h => exact h.confined (targets_of_lookupAll hids ▸ hT) ha.within

/-- A new vector takes the place of none. -/
theorem create_confined {name? : Option String} {result : Except Error VectorId} (hs : s.Coherent)
    (hT : ∀ id, s.get? id = none → T id) (h : s.create name? = (s', result)) : s.Confined T s' [] := by
  cases result with
  | error e =>
    obtain ⟨m, rfl⟩ := create_error h
    exact ⟨fun _ _ => rfl, by simp⟩
  | ok id =>
    obtain ⟨v, -, hget⟩ := get?_of_create hs h
    refine ⟨fun id' hid' => ?_, by simp⟩
    have hne : id' ≠ id := fun he => hid' (hT id' (he ▸ vacant_of_create hs h))
    rw [hget, if_neg hne]

theorem createWithLength_confined {name? : Option String} {length? : Option Nat} {result : Except Error (List Task)}
    (hs : s.Coherent) (hT : ∀ id, s.get? id = none → T id) (h : s.createWithLength name? length? = (s', result)) :
    s.Confined T s' (result.toOption.getD []) := by
  unfold createWithLength at h
  split at h
  · next hcreate =>
    cases h
    exact create_confined hs hT hcreate
  · next s₁ id hcreate =>
    have hnew := create_confined hs hT hcreate
    have hid : T id := hT id (vacant_of_create hs hcreate)
    obtain ⟨v, -, hget⟩ := get?_of_create hs hcreate
    have hv : s₁.get? id = some v := by rw [hget, if_pos rfl]
    simp only [hv] at h
    split at h
    · cases h
      exact ⟨hnew.off, by simp [Except.toOption, Task.Within]⟩
    · split at h
      · next hupdating =>
        cases h
        exact hnew.trans (updating_confined hid (by simp [Task.Within]) hupdating)
      · cases h
        exact hnew.retire hv hid

/-! ## Units of work -/

theorem Worked.confined {t : Task} {signal? : Option Signal} (h : Worked s t rest s' tasks signal?)
    (ht : t.Within T) (hrest : ∀ t ∈ rest, t.Within T) : s.Confined T s' tasks := by
  cases h with
  | drops | answers => exact .refl s hrest
  | passes hturn => exact .refl s (List.forall_mem_cons.2 ⟨(hturn.within ht).2, hrest⟩)
  | marks hturn hmark =>
    obtain ⟨hid, hleft⟩ := hturn.within ht
    exact markDirty_confined hid (List.forall_mem_cons.2 ⟨hleft, hrest⟩) hmark
  | destroys hturn hdestroy =>
    obtain ⟨hid, hleft⟩ := hturn.within ht
    exact beginDestroy_confined hid (List.forall_mem_cons.2 ⟨hleft, hrest⟩) hdestroy

theorem tick_confined {signal? : Option Signal} (hw : View.Sound (.ofTasks s tasks)) (hT : ∀ t ∈ tasks, t.Within T)
    (h : s.tick tasks = (s', rest, signal?)) : s.Confined T s' rest := by
  cases tasks with
  | nil =>
    cases h
    exact .refl s hT
  | cons t tasks =>
    obtain ⟨ht, htasks⟩ := List.forall_mem_cons.1 hT
    cases t with
    | deliver d =>
      have hserver : T d.event.server := ht
      cases tick_ticked h with
      | calls => exact .refl s (List.forall_mem_cons.2 ⟨hserver, htasks⟩)
      | ends =>
        have hend : s.Confined T (s.endDelivery d) tasks := by
          cases hd : d.event.kind with
          | updated =>
            rw [endDelivery_updated s hd]
            exact (Confined.refl s htasks).modify hserver _
          | destroyed =>
            obtain ⟨v, hv, -⟩ := hw.dying d (by simp [View.ofTasks]) hd
            rw [endDelivery_destroyed s hd]
            exact (Confined.refl s htasks).retire hv hserver
        exact ⟨hend.off, Task.within_report _ htasks⟩
      | works _ hi | finishes _ hi => exact hi.elim
    | idlePass ids flushed =>
      have hids : ∀ id ∈ ids, T id := ht
      cases tick_ticked h with
      | passed => exact .refl s (List.forall_mem_cons.2 ⟨trivial, htasks⟩)
      | flushes ids flushed =>
        obtain ⟨hid, hids⟩ := List.forall_mem_cons.1 hids
        have hleft : ∀ t ∈ Task.idlePass ids (flushed + 1) :: tasks, t.Within T :=
          List.forall_mem_cons.2 ⟨hids, htasks⟩
        exact ⟨((Confined.refl s htasks).modify hid _).off, List.forall_mem_cons.2 ⟨hid, hleft⟩⟩
      | skips ids flushed =>
        exact .refl s (List.forall_mem_cons.2 ⟨(List.forall_mem_cons.1 hids).2, htasks⟩)
      | works _ hi | finishes _ hi => exact hi.elim
    | markEach | destroyAll | destroyNamed | answer | refuse | answerReached | answerLength | answerOffset =>
      exact (tick_worked h trivial).confined ht htasks

end Store

namespace Session

variable {s s' : Session}

/-- All that is done up to the next stop. -/
theorem resume_confined {s : Session} {signal : Signal} (hw : s.view.Sound) (hT : ∀ t ∈ s.stack, t.Within T)
    (h : s.resume = (s', signal)) : s'.view.Sound ∧ s.store.Confined T s'.store s'.stack := by
  rcases htick : s.tick with ⟨s₁, signal?⟩
  have hsound : s₁.view.Sound := hw.move (tick_move htick)
  have hfirst := Store.tick_confined hw hT (tick_eq htick).1
  cases signal? with
  | none =>
    rw [resume_of_tick_none htick] at h
    obtain ⟨hsound', hrest⟩ := resume_confined hsound hfirst.within h
    exact ⟨hsound', hfirst.trans hrest⟩
  | some signal =>
    rw [resume_of_tick_some htick] at h
    cases h
    exact ⟨hsound, hfirst⟩
termination_by Task.totalWeight s.stack
decreasing_by exact Store.tick_lighter (tick_eq htick).1

/-- **Work on vectors in `T` leaves the others as they are.** -/
theorem Served.off {told : List (ClientId × ClientEvent)} {r : Except Error Answer} (h : s.Served told r s')
    (hw : s.view.Sound) (hT : ∀ t ∈ s.stack, t.Within T) {id : VectorId} (hid : ¬T id) :
    s'.store.get? id = s.store.get? id := by
  induction h with
  | finished hresume => exact (resume_confined hw hT hresume).2.off id hid
  | called hresume _ ih =>
    obtain ⟨hsound, hconfined⟩ := resume_confined hw hT hresume
    exact (ih hsound hconfined.within).trans (hconfined.off id hid)

/-- **A command is confined to its targets** and to what was not there before. -/
theorem Executed.confined {c : Command} (h : Executed s c s') (hs : s.store.Coherent)
    (hstack : ∀ t ∈ s.stack, t.Within T) (hT : ∀ id, s.store.get? id = none ∨ id ∈ s.store.targets c → T id) :
    s.store.Confined T s'.store s'.stack := by
  cases h with
  | created _ h => exact (Store.createWithLength_confined hs (fun id hid => hT id (.inl hid)) h).append hstack
  | uncreated _ h =>
    have hnew := Store.createWithLength_confined hs (fun id hid => hT id (.inl hid)) h
    exact ⟨hnew.off, List.forall_mem_cons.2 ⟨trivial, hstack⟩⟩
  | evaluated | failed => exact .refl s.store (List.forall_mem_cons.2 ⟨trivial, hstack⟩)
  | @assigned target _ id _ _ _ _ hc hid h =>
    have htarget : id ∈ s.store.targets c :=
      Store.mem_targets.2 ⟨target, by simp [hc, Command.targets], Store.lookup_eq_ok_iff.1 hid⟩
    exact (Store.updating_confined (hT id (.inr htarget)) Store.within_quietly h).append hstack
  | begun _ h => exact (h.confined fun id hid => hT id (.inr hid)).append hstack

end Session
end VectorEngine
