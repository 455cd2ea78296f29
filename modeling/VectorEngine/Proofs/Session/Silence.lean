/-
Work in a store none of whose clients listens.

No fan-out stops there. Tasks that tell changes and then answer end with that
answer (`advance_harmless`); tasks that destroy vectors end with an answer too,
or with an error if they come to a vector that is gone (`advance_destroyNamed`).
-/
import Mathlib
import VectorEngine.Proofs.Session.Coherence

namespace VectorEngine

theorem Delivery.nextListener_of_silent (registered : List Client) {waiting : List Client} (n : Nat)
    (h : ∀ x ∈ waiting, x.listens = false) : ∃ k, nextListener registered waiting n = (none, k) := by
  induction waiting generalizing n with
  | nil => exact ⟨n, rfl⟩
  | cons x waiting ih =>
    have hx : x.listens = false := h x List.mem_cons_self
    have hwaiting : ∀ y ∈ waiting, y.listens = false := fun y hy => h y (List.mem_cons_of_mem _ hy)
    simp only [nextListener, hx, Bool.false_eq_true, if_false]
    split
    · exact ih _ hwaiting
    · exact ih _ hwaiting

namespace Store

variable {s s' s'' : Store} {id : VectorId} {v : NamedVector} {tasks rest : List Task}

/-- No client listens. -/
def Silent (s : Store) : Prop := ∀ id v, s.get? id = some v → ∀ x ∈ v.clients, x.listens = false

/-- The same vectors with the same clients. -/
def Alike (s s' : Store) : Prop := ∀ id, (s'.get? id).map (·.clients) = (s.get? id).map (·.clients)

theorem Alike.refl (s : Store) : s.Alike s := fun _ => rfl

theorem Alike.trans (h : s.Alike s') (h' : s'.Alike s'') : s.Alike s'' := fun id => (h' id).trans (h id)

theorem alike_modify (s : Store) (id : VectorId) {f : NamedVector → NamedVector} (hf : ∀ v, (f v).clients = v.clients) :
    s.Alike (s.modify id f) := by
  intro id'
  rw [get?_modify]
  split
  · next hid =>
    rw [hid, Option.map_map]
    exact Option.map_congr fun v _ => hf v
  · rfl

theorem alike_opened (s : Store) (id : VectorId) : s.Alike (s.modify id NamedVector.opened) :=
  alike_modify s id fun _ => rfl

theorem Alike.get? (h : s.Alike s') (hv : s.get? id = some v) :
    ∃ v', s'.get? id = some v' ∧ v'.clients = v.clients := by
  have hid := h id
  rw [hv, Option.map_some, Option.map_eq_some_iff] at hid
  exact hid

theorem Silent.alike (hs : s.Silent) (h : s.Alike s') : s'.Silent := by
  intro id v' hv'
  have hid := h id
  rw [hv', Option.map_some] at hid
  obtain ⟨v, hv, hclients⟩ := Option.map_eq_some_iff.1 hid.symm
  exact hclients ▸ hs id v hv

/-! ## Work that is done without an error -/

/-- Tasks that call nobody and end with an answer. -/
def Harmless (s : Store) : List Task → Prop
  | .deliver d :: rest => d.event.kind = .updated ∧ (∀ x ∈ d.waiting, x.listens = false) ∧ s.Harmless rest
  | .markEach _ :: rest => s.Harmless rest
  | .answer _ :: _ => True
  | .answerLength id :: _ | .answerOffset id :: _ => ∃ v, s.get? id = some v
  | _ => False

theorem Harmless.alike (h : s.Harmless tasks) (ha : s.Alike s') : s'.Harmless tasks := by
  induction tasks with
  | nil => exact h.elim
  | cons t rest ih =>
    cases t with
    | deliver d => exact ⟨h.1, h.2.1, ih h.2.2⟩
    | markEach ids => exact ih h
    | answer a => trivial
    | answerLength id | answerOffset id =>
      obtain ⟨v, hv⟩ := h
      obtain ⟨v', hv', -⟩ := ha.get? hv
      exact ⟨v', hv'⟩
    | _ => exact h.elim

theorem Harmless.append (h : s.Harmless tasks) (stack : List Task) : s.Harmless (tasks ++ stack) := by
  induction tasks with
  | nil => exact h.elim
  | cons t rest ih =>
    cases t with
    | deliver d => exact ⟨h.1, h.2.1, ih h.2.2⟩
    | markEach ids => exact ih h
    | answer a => trivial
    | answerLength id | answerOffset id => exact h
    | _ => exact h.elim

theorem Harmless.report (h : s.Harmless tasks) (n : Nat) : s.Harmless (Task.report n tasks) := by
  unfold Task.report
  split
  · exact h.elim
  · exact h

theorem Answering.harmless (h : s.Answering rest) : s.Harmless rest := by
  unfold Answering at h
  split at h
  · trivial
  · exact h
  · exact h
  · exact h.elim

theorem alike_schedule (s : Store) (id : VectorId) : s.Alike (s.schedule id) := by
  cases hv : s.get? id with
  | none =>
    rw [schedule_of_none hv]
    exact .refl s
  | some v =>
    by_cases hp : v.state = .pending
    · exact (schedule_of_pending hv hp).symm ▸ .refl s
    · rw [schedule_of_not_pending hv hp]
      exact alike_modify s id fun _ => rfl

/-- A fan-out started in a silent store calls nobody. -/
theorem harmless_deliver (hs : s.Silent) (hv : s.get? id = some v) (hrest : s'.Harmless rest) (nested : Bool) :
    s'.Harmless (.deliver ⟨⟨id, .updated⟩, v.clients, nested, 0⟩ :: rest) := ⟨rfl, hs id v hv, hrest⟩

theorem markDirty_harmless {d? : Option Delivery} (hs : s.Silent) (h : s.markDirty id = .ok (s', d?))
    (hrest : s.Harmless rest) : s.Alike s' ∧ s'.Harmless (Task.delivering d? rest) := by
  obtain ⟨v, s₁, hv, rfl, hcases⟩ := markDirty_cases h
  have hcontents : s.Alike (s.modify id fun v => { v with series := v.series.invalidate }) :=
    alike_modify s id fun _ => rfl
  rcases hcases with ⟨rfl, rfl, -⟩ | ⟨rfl, rfl⟩ | ⟨-, rfl, rfl⟩
  · exact ⟨hcontents, hrest.alike hcontents⟩
  · have ha := hcontents.trans (alike_schedule _ id)
    exact ⟨ha, hrest.alike ha⟩
  · have ha := hcontents.trans (alike_opened _ id)
    exact ⟨ha, harmless_deliver hs hv (hrest.alike ha) _⟩

theorem notifyNow_harmless {d? : Option Delivery} (hs : s.Silent) (h : s.notifyNow id = .ok (s', d?))
    (hrest : s.Harmless rest) : s.Alike s' ∧ s'.Harmless (Task.delivering d? rest) := by
  obtain ⟨v, hv, ⟨rfl, rfl⟩ | ⟨-, rfl, rfl⟩⟩ := notifyNow_cases h
  · have ha := alike_schedule s id
    exact ⟨ha, hrest.alike ha⟩
  · have ha := alike_opened s id
    exact ⟨ha, harmless_deliver hs hv (hrest.alike ha) _⟩

theorem edit_alike {change : Series → Except Error Series} (h : s.edit id change = .ok s') : s.Alike s' := by
  obtain ⟨v, series, -, -, rfl⟩ := edit_cases h
  exact alike_modify s id fun _ => rfl

theorem updating_harmless {change : Series → Except Error Series} (hs : s.Silent)
    (h : s.updating id change rest = .ok (s', tasks)) (hrest : s.Harmless rest) : s.Alike s' ∧ s'.Harmless tasks := by
  unfold updating update at h
  obtain ⟨⟨s₂, d?⟩, h₂, h⟩ := bind_ok_iff.1 h
  obtain ⟨s₁, h₁, h₂⟩ := bind_ok_iff.1 h₂
  cases h
  have hedit := edit_alike h₁
  obtain ⟨hmark, hharmless⟩ := markDirty_harmless (hs.alike hedit) h₂ (hrest.alike hedit)
  exact ⟨hedit.trans hmark, hharmless⟩

theorem writeAll_alike (s : Store) (writes : List (VectorId × List Float)) : s.Alike (s.writeAll writes).1 :=
  writeAll_keeps (P := s.Alike) (fun _ _ _ _ hs hedit => hs.trans (edit_alike hedit)) (.refl s)

/-- A fan-out that has nobody to call ends at once. -/
theorem tick_deliver_silent {d : Delivery} (h : ∀ x ∈ d.waiting, x.listens = false) :
    ∃ n, s.tick (.deliver d :: rest) = (s.endDelivery d, Task.report n rest, none) := by
  simp only [tick, stepDelivery]
  cases hv : s.get? d.event.server with
  | none => exact ⟨d.reached, rfl⟩
  | some v =>
    obtain ⟨k, hnext⟩ := Delivery.nextListener_of_silent v.clients d.reached h
    exact ⟨k, by simp only [hnext]⟩

/-- A unit of harmless work: there is more of the kind to do, or the answer is given. -/
theorem tick_harmless (hs : s.Silent) (h : s.Harmless tasks) :
    (∃ s' tasks', s.tick tasks = (s', tasks', none) ∧ s'.Silent ∧ s'.Harmless tasks') ∨
      ∃ rest a, s.tick tasks = (s, rest, some (.finished (.ok a))) := by
  cases tasks with
  | nil => exact h.elim
  | cons t rest =>
    cases t with
    | deliver d =>
      obtain ⟨hk, hsilent, hrest⟩ := h
      obtain ⟨n, htick⟩ : ∃ n, s.tick (.deliver d :: rest) = (s.endDelivery d, Task.report n rest, none) :=
        tick_deliver_silent hsilent
      have ha : s.Alike (s.endDelivery d) := endDelivery_updated s hk ▸ alike_modify s _ fun _ => rfl
      exact .inl ⟨_, _, htick, hs.alike ha, (hrest.alike ha).report n⟩
    | markEach ids =>
      have hrest : s.Harmless rest := h
      cases ids with
      | nil => exact .inl ⟨s, rest, rfl, hs, hrest⟩
      | cons id ids =>
        have hids : s.Harmless (.markEach ids :: rest) := h
        cases hmark : s.markDirty id with
        | error e => exact .inl ⟨s, .markEach ids :: rest, by simp only [tick, hmark], hs, hids⟩
        | ok p =>
          obtain ⟨s₁, d?⟩ := p
          obtain ⟨ha, hharmless⟩ := markDirty_harmless hs hmark hids
          exact .inl ⟨s₁, _, by simp only [tick, hmark], hs.alike ha, hharmless⟩
    | answer a => exact .inr ⟨rest, a, rfl⟩
    | answerLength id =>
      obtain ⟨v, hv⟩ := h
      refine .inr ⟨rest, .reply (.scalar (Float.ofNat v.series.length)), ?_⟩
      simp only [tick, get_of_get? hv, Except.map]
    | answerOffset id =>
      obtain ⟨v, hv⟩ := h
      refine .inr ⟨rest, .reply (.scalar (Exact.intToFloat v.series.offset)), ?_⟩
      simp only [tick, get_of_get? hv, Except.map]
    | _ => exact h.elim

/-- **Harmless work is done without an error.** -/
theorem advance_harmless {s : Store} {tasks : List Task} (hs : s.Silent) (h : s.Harmless tasks) :
    ∃ s' rest a, s.advance tasks = (s', rest, .finished (.ok a)) := by
  rcases tick_harmless hs h with ⟨s', tasks', htick, hs', h'⟩ | ⟨rest, a, htick⟩
  · rw [advance_of_tick_none htick]
    exact advance_harmless hs' h'
  · exact ⟨s, rest, a, advance_of_tick_some htick⟩
termination_by Task.totalWeight tasks
decreasing_by exact tick_lighter htick

/-! ## Destroying vectors -/

/-- The vector is gone and the others are as they were. -/
def Without (s : Store) (id : VectorId) (s' : Store) : Prop :=
  ∀ id', s'.get? id' = if id' = id then none else s.get? id'

theorem Silent.without (hs : s.Silent) (h : s.Without id s') : s'.Silent := by
  intro id' v hv
  rw [h id'] at hv
  split at hv
  · cases hv
  · exact hs id' v hv

/-- The next of some vectors is destroyed at once. -/
theorem advance_destroyNamed_cons {ids : List VectorId} (hs : s.Silent) (hv : s.get? id = some v)
    (hd : v.destroying = false) :
    ∃ s', s.Without id s' ∧ s.advance (.destroyNamed (id :: ids) :: rest) = s'.advance (.destroyNamed ids :: rest) := by
  let s₁ := s.modify id NamedVector.ended
  let d : Delivery := ⟨⟨id, .destroyed⟩, v.clients, v.notifying, 0⟩
  have hbegin : s.beginDestroy id = .ok (s₁, some d) := by
    simp only [beginDestroy, get_of_get? hv, bind, Except.bind, hd, Bool.false_eq_true, if_false]
    rw [beginDelivery_of_get? (get?_modify_self hv), modify_modify]
    rfl
  have htick : s.tick (.destroyNamed (id :: ids) :: rest) = (s₁, .deliver d :: .destroyNamed ids :: rest, none) := by
    simp only [tick, hbegin]
    rfl
  obtain ⟨n, htick₁⟩ : ∃ n, s₁.tick (.deliver d :: .destroyNamed ids :: rest) =
      (s₁.endDelivery d, Task.report n (.destroyNamed ids :: rest), none) := tick_deliver_silent (hs id v hv)
  refine ⟨s₁.endDelivery d, fun id' => ?_, ?_⟩
  · rw [endDelivery_destroyed s₁ rfl, get?_retire (get?_modify_self hv)]
    split
    · rfl
    · next hne => exact get?_modify_of_ne hne
  · rw [advance_of_tick_none htick, advance_of_tick_none htick₁]
    rfl

/-- **Destroying vectors comes to an answer, or to a vector that is gone.** What
was gone before stays so; an error tells of a vector that is gone, and if the
vector was there to begin with, it was listed twice. -/
theorem advance_destroyNamed (hs : s.Silent) (ids : List VectorId) (rest : List Task) :
    ∃ s' r, s.advance (.destroyNamed ids :: rest) = (s', rest, .finished r) ∧
      (∀ id, s.get? id = none → s'.get? id = none) ∧
      ∀ e, r = .error e → ∃ id ∈ ids, s'.get? id = none ∧ ((∃ v, s.get? id = some v) → ¬ids.Nodup) := by
  induction ids generalizing s with
  | nil => exact ⟨s, _, advance_of_tick_some rfl, fun _ h => h, fun e he => by cases he⟩
  | cons id ids ih =>
    cases hv : s.get? id with
    | none =>
      have hbegin : s.beginDestroy id = .error (.notFound id.text) := by
        simp only [beginDestroy, get_eq_error hv]
        rfl
      have htick : s.tick (.destroyNamed (id :: ids) :: rest) =
          (s, rest, some (.finished (.error (.notFound id.text)))) := by simp only [tick, hbegin]
      refine ⟨s, _, advance_of_tick_some htick, fun _ h => h, fun e _ => ⟨id, List.mem_cons_self, hv, ?_⟩⟩
      rintro ⟨v, hv'⟩
      rw [hv] at hv'
      cases hv'
    | some v =>
      cases hd : v.destroying with
      | true =>
        have hbegin : s.beginDestroy id = .ok (s, none) := by
          simp only [beginDestroy, get_of_get? hv, bind, Except.bind, hd, if_true]
          rfl
        have htick : s.tick (.destroyNamed (id :: ids) :: rest) = (s, .destroyNamed ids :: rest, none) := by
          simp only [tick, hbegin]
          rfl
        obtain ⟨s', r, hadvance, hgone, herror⟩ := ih hs
        refine ⟨s', r, (advance_of_tick_none htick).trans hadvance, hgone, fun e he => ?_⟩
        obtain ⟨id', hmem, hgone', htwice⟩ := herror e he
        exact ⟨id', List.mem_cons_of_mem _ hmem, hgone', fun h hnodup => htwice h (List.nodup_cons.1 hnodup).2⟩
      | false =>
        obtain ⟨s₁, hwithout, hstep⟩ := advance_destroyNamed_cons hs hv hd
        obtain ⟨s', r, hadvance, hgone, herror⟩ := ih (hs.without hwithout)
        refine ⟨s', r, hstep.trans hadvance, fun id' h => hgone id' ?_, fun e he => ?_⟩
        · rw [hwithout id', h, ite_self]
        · obtain ⟨id', hmem, hgone', htwice⟩ := herror e he
          refine ⟨id', List.mem_cons_of_mem _ hmem, hgone', ?_⟩
          rintro ⟨u, hu⟩ hnodup
          have hne : id' ≠ id := fun h => (List.nodup_cons.1 hnodup).1 (h ▸ hmem)
          have hu' : s₁.get? id' = some u := by rw [hwithout id', if_neg hne, hu]
          exact htwice ⟨u, hu'⟩ (List.nodup_cons.1 hnodup).2

end Store
end VectorEngine
