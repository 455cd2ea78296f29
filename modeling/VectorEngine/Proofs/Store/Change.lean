/-
What an operation does to the store before any client is called.

`Change` lists the changes that start no fan-out, and `Opening` the ways one
starts. Every operation is some changes, then at most one opening, and leaves
tasks that say what remains to be done (`Begun`).
-/
import Mathlib
import VectorEngine.Command
import VectorEngine.Proofs.Outcome
import VectorEngine.Proofs.Store.Creation

namespace VectorEngine

/-- Takes back a pending flush. -/
def NamedVector.takeBack (v : NamedVector) : NamedVector :=
  { v with state := if v.state = .pending then .idle else v.state }

/-- A fan-out has started. -/
def NamedVector.opened (v : NamedVector) : NamedVector := { v with state := .notifying, notifying := true }

/-- The fan-out that tells the end has started. -/
def NamedVector.ended (v : NamedVector) : NamedVector :=
  { v with destroying := true, state := .notifying, notifying := true }

@[simp] theorem NamedVector.opened_state (v : NamedVector) : v.opened.state = .notifying := rfl
@[simp] theorem NamedVector.ended_state (v : NamedVector) : v.ended.state = .notifying := rfl

namespace Store

/-- A change that starts no fan-out. Flushes are taken back only from the
vectors in `W`. -/
inductive Change (W : VectorId → Prop) : Store → Store → Prop
  | settings (s : Store) (functions : FunctionTable) (aggregates : Aggregates) {nextName : Nat} :
    s.nextName ≤ nextName → Change W s { s with functions := functions, aggregates := aggregates, nextName := nextName }
  | contents (s : Store) (id : VectorId) (f : Series → Series) :
    Change W s (s.modify id fun v => { v with series := f v.series })
  | place {s s' : Store} {v : NamedVector} {id : VectorId} : v.Fresh → s.names.find? v.name = none →
    s.place v = .ok (s', id) → Change W s s'
  | discard {s : Store} {id : VectorId} {v : NamedVector} : s.get? id = some v → v.Fresh → Change W s (s.retire id)
  | schedule (s : Store) (id : VectorId) : Change W s (s.schedule id)
  | takeBack (s : Store) {id : VectorId} : W id → Change W s (s.modify id NamedVector.takeBack)
  | policy (s : Store) (id : VectorId) (p : NotifyPolicy) : Change W s (s.modify id fun v => { v with policy := p })
  | register (s : Store) (id : VectorId) (listens : Bool) : Change W s (s.registerClient id listens).1
  | release (s : Store) (c : ClientId) : Change W s (s.releaseClient c).1

/-- Changes one after the other. -/
abbrev Changes (W : VectorId → Prop) : Store → Store → Prop := Relation.ReflTransGen (Change W)

/-- How a fan-out starts, if one does. -/
inductive Opening : Store → Store → Option Delivery → Prop
  | nothing (s : Store) : Opening s s none
  | update {s : Store} {id : VectorId} {v : NamedVector} : s.get? id = some v → v.notifying = false →
    Opening s (s.modify id NamedVector.opened)
      (some ⟨⟨id, .updated⟩, v.clients, v.notifying, 0⟩)
  | destroy {s : Store} {id : VectorId} {v : NamedVector} : s.get? id = some v → v.destroying = false →
    Opening s (s.modify id NamedVector.ended)
      (some ⟨⟨id, .destroyed⟩, v.clients, v.notifying, 0⟩)

end Store

/-- Tasks that are neither a fan-out nor an idle pass. -/
def Task.Inert : Task → Prop
  | .deliver _ | .idlePass .. => False
  | _ => True

namespace Store

/-- An operation's first part: changes, then at most one fan-out is started, and
inert tasks for what remains. -/
def Begun (W : VectorId → Prop) (s s' : Store) (tasks : List Task) : Prop :=
  ∃ mid d? rest, Changes W s mid ∧ Opening mid s' d? ∧ (∀ t ∈ rest, t.Inert) ∧ tasks = Task.delivering d? rest

variable {W : VectorId → Prop} {s s₁ s' : Store} {id : VectorId} {v : NamedVector} {tasks rest : List Task}

theorem Begun.of_changes (h : Changes W s s') (hi : ∀ t ∈ tasks, t.Inert) : Begun W s s' tasks :=
  ⟨s', none, tasks, h, .nothing s', hi, rfl⟩

theorem Begun.of_opening {d? : Option Delivery} (h : Opening s s' d?) (hi : ∀ t ∈ rest, t.Inert) :
    Begun W s s' (Task.delivering d? rest) := ⟨s, d?, rest, .refl, h, hi, rfl⟩

theorem Begun.after (h : Begun W s₁ s' tasks) (hc : Changes W s s₁) : Begun W s s' tasks :=
  let ⟨mid, d?, rest, hmid, ho, hi, he⟩ := h
  ⟨mid, d?, rest, hc.trans hmid, ho, hi, he⟩

/-! ## Fan-outs and flushes -/

theorem beginDelivery_of_get? (h : s.get? id = some v) (kind : EventKind) :
    s.beginDelivery id kind = (s.modify id NamedVector.opened,
      some ⟨⟨id, kind⟩, v.clients, v.notifying, 0⟩) := by
  simp only [beginDelivery, h]
  rfl

/-- Noting a change: the extrema are forgotten, and then nothing more happens, a
flush is scheduled, or a fan-out starts. -/
theorem markDirty_cases {d? : Option Delivery} (h : s.markDirty id = .ok (s', d?)) : ∃ v s₁, s.get? id = some v ∧
    s₁ = (s.modify id fun v => { v with series := v.series.invalidate }) ∧
    (d? = none ∧ s' = s₁ ∧ v.policy = .never ∨ d? = none ∧ s' = s₁.schedule id ∨
      v.notifying = false ∧ s' = (s₁.modify id NamedVector.opened) ∧
        d? = some ⟨⟨id, .updated⟩, v.clients, v.notifying, 0⟩) := by
  unfold markDirty at h
  obtain ⟨v, hv, h⟩ := bind_ok_iff.1 h
  rw [get_eq_ok_iff] at hv
  have hv' := get?_modify_self (f := fun v => { v with series := v.series.invalidate }) hv
  refine ⟨v, _, hv, rfl, ?_⟩
  split at h
  · next hnever =>
    cases h
    exact .inl ⟨rfl, rfl, hnever⟩
  · cases h
    exact .inr (.inl ⟨rfl, rfl⟩)
  · split at h
    · cases h
      exact .inr (.inl ⟨rfl, rfl⟩)
    · next hn =>
      dsimp only at h
      rw [beginDelivery_of_get? (get?_modify_self hv'), modify_modify] at h
      cases h
      exact .inr (.inr ⟨by simpa using hn, rfl, rfl⟩)

theorem notifyNow_cases {d? : Option Delivery} (h : s.notifyNow id = .ok (s', d?)) : ∃ v, s.get? id = some v ∧
    (d? = none ∧ s' = s.schedule id ∨
      v.notifying = false ∧ s' = (s.modify id NamedVector.opened) ∧
        d? = some ⟨⟨id, .updated⟩, v.clients, v.notifying, 0⟩) := by
  unfold notifyNow at h
  obtain ⟨v, hv, h⟩ := bind_ok_iff.1 h
  rw [get_eq_ok_iff] at hv
  refine ⟨v, hv, ?_⟩
  split at h
  · cases h
    exact .inl ⟨rfl, rfl⟩
  · next hn =>
    rw [beginDelivery_of_get? (get?_modify_self hv), modify_modify] at h
    cases h
    exact .inr ⟨by simpa using hn, rfl, rfl⟩

theorem beginDestroy_cases {d? : Option Delivery} (h : s.beginDestroy id = .ok (s', d?)) : ∃ v, s.get? id = some v ∧
    (v.destroying = true ∧ d? = none ∧ s' = s ∨
      v.destroying = false ∧
        s' = (s.modify id NamedVector.ended) ∧
        d? = some ⟨⟨id, .destroyed⟩, v.clients, v.notifying, 0⟩) := by
  unfold beginDestroy at h
  obtain ⟨v, hv, h⟩ := bind_ok_iff.1 h
  rw [get_eq_ok_iff] at hv
  refine ⟨v, hv, ?_⟩
  split at h
  · next hd =>
    cases h
    exact .inl ⟨hd, rfl, rfl⟩
  · next hd =>
    rw [beginDelivery_of_get? (get?_modify_self hv), modify_modify] at h
    cases h
    exact .inr ⟨by simpa using hd, rfl, rfl⟩

theorem markDirty_begun {d? : Option Delivery} (h : s.markDirty id = .ok (s', d?)) (hi : ∀ t ∈ rest, t.Inert) :
    Begun W s s' (Task.delivering d? rest) := by
  obtain ⟨v, s₁, hv, hs₁, hcases⟩ := markDirty_cases h
  have hcontents : Change W s s₁ := hs₁ ▸ .contents s id _
  rcases hcases with ⟨rfl, rfl, -⟩ | ⟨rfl, rfl⟩ | ⟨hn, rfl, rfl⟩
  · exact .of_changes (.single hcontents) hi
  · exact .of_changes (.tail (.single hcontents) (.schedule _ id)) hi
  · have hv₁ : s₁.get? id = some { v with series := v.series.invalidate } := hs₁ ▸ get?_modify_self hv
    have ho := Opening.update hv₁ hn
    exact (Begun.of_opening ho hi).after (.single hcontents)

theorem notifyNow_begun {d? : Option Delivery} (h : s.notifyNow id = .ok (s', d?)) (hi : ∀ t ∈ rest, t.Inert) :
    Begun W s s' (Task.delivering d? rest) := by
  obtain ⟨v, hv, ⟨rfl, rfl⟩ | ⟨hn, rfl, rfl⟩⟩ := notifyNow_cases h
  · exact .of_changes (.single (.schedule s id)) hi
  · have ho := Opening.update hv hn
    exact .of_opening ho hi

theorem beginDestroy_begun {d? : Option Delivery} (h : s.beginDestroy id = .ok (s', d?)) (hi : ∀ t ∈ rest, t.Inert) :
    Begun W s s' (Task.delivering d? rest) := by
  obtain ⟨v, hv, ⟨-, rfl, rfl⟩ | ⟨hd, rfl, rfl⟩⟩ := beginDestroy_cases h
  · exact .of_changes .refl hi
  · have ho := Opening.destroy hv hd
    exact .of_opening ho hi

/-! ## Contents -/

theorem edit_cases {change : Series → Except Error Series} (h : s.edit id change = .ok s') : ∃ v series,
    s.get? id = some v ∧ change v.series = .ok series ∧ s' = s.modify id fun v => { v with series := series } := by
  unfold edit at h
  obtain ⟨v, hv, h⟩ := bind_ok_iff.1 h
  obtain ⟨series, hseries, h⟩ := bind_ok_iff.1 h
  cases h
  exact ⟨v, series, get_eq_ok_iff.1 hv, hseries, rfl⟩

theorem edit_change {change : Series → Except Error Series} (h : s.edit id change = .ok s') : Change W s s' := by
  obtain ⟨v, series, -, -, rfl⟩ := edit_cases h
  exact .contents s id fun _ => series

theorem readExtrema_change {e : Extrema} (h : s.readExtrema id = .ok (e, s')) : Change W s s' := by
  unfold readExtrema at h
  obtain ⟨v, -, h⟩ := bind_ok_iff.1 h
  cases h
  exact .contents s id fun _ => v.series.readExtrema.2

theorem update_begun {change : Series → Except Error Series} {d? : Option Delivery}
    (h : s.update id change = .ok (s', d?)) (hi : ∀ t ∈ rest, t.Inert) : Begun W s s' (Task.delivering d? rest) := by
  unfold update at h
  obtain ⟨s₁, hs₁, h⟩ := bind_ok_iff.1 h
  exact (markDirty_begun h hi).after (.single (edit_change hs₁))

theorem updating_begun {change : Series → Except Error Series} (h : s.updating id change rest = .ok (s', tasks))
    (hi : ∀ t ∈ rest, t.Inert) : Begun W s s' tasks := by
  unfold updating at h
  obtain ⟨⟨s₁, d?⟩, hs₁, h⟩ := bind_ok_iff.1 h
  cases h
  exact update_begun hs₁ hi

/-- What each of the writes keeps, all of them keep. -/
theorem writeAll_keeps {P : Store → Prop} : ∀ {s : Store} {writes : List (VectorId × List Float)},
    (∀ w ∈ writes, ∀ s s', P s → s.edit w.1 (Series.setValues w.2) = .ok s' → P s') → P s → P (s.writeAll writes).1
  | _, [], _, hs => hs
  | s, (id, values) :: writes, h, hs => by
    unfold writeAll
    split
    · next s₁ hedit =>
      have hs₁ : P s₁ := h (id, values) List.mem_cons_self s s₁ hs hedit
      exact writeAll_keeps (fun w hw => h w (List.mem_cons_of_mem _ hw)) hs₁
    · exact hs

/-- What remains to be done after the writes is to note the changes, or to tell
that the room has run out. -/
theorem writing_cases {writes : List (VectorId × List Float)} (h : s.writing writes rest = (s', tasks)) :
    s' = (s.writeAll writes).1 ∧
      (tasks = .markEach (writes.map (·.1)) :: rest ∨ ∃ e, (s.writeAll writes).2 = some e ∧ tasks = [.refuse e]) := by
  unfold writing at h
  split at h
  · next hw =>
    cases h
    exact ⟨by rw [hw], .inl rfl⟩
  · next e hw =>
    cases h
    exact ⟨by rw [hw], .inr ⟨e, by rw [hw], rfl⟩⟩

theorem writing_begun {writes : List (VectorId × List Float)} (h : s.writing writes rest = (s', tasks))
    (hi : ∀ t ∈ rest, t.Inert) : Begun W s s' tasks := by
  have hc : Changes W s (s.writeAll writes).1 :=
    writeAll_keeps (P := Changes W s) (fun _ _ _ _ hs hedit => hs.tail (edit_change hedit)) .refl
  obtain ⟨rfl, rfl | ⟨e, -, rfl⟩⟩ := writing_cases h
  · exact .of_changes hc (List.forall_mem_cons.2 ⟨trivial, hi⟩)
  · exact .of_changes hc (by simp [Task.Inert])

/-! ## Creating vectors -/

theorem create_changes (s : Store) (name? : Option String) : Changes W s (s.create name?).1 := by
  have hgrown := create_nextName s name?
  rcases h : s.create name? with ⟨s', e | id⟩
  · rw [h] at hgrown
    obtain ⟨m, rfl⟩ := create_error h
    exact .single (.settings s _ _ hgrown)
  · rw [h] at hgrown
    obtain ⟨m, v, hfresh, hn, hplace⟩ := create_ok h
    rw [place_nextName hplace] at hgrown
    exact .tail (.single (.settings s _ _ hgrown)) (.place hfresh hn hplace)

theorem createWithLength_ok {name? : Option String} {length? : Option Nat} (hs : s.Coherent)
    (h : s.createWithLength name? length? = (s', .ok tasks)) : Begun W s s' tasks := by
  have hc : Changes W s (s.create name?).1 := create_changes s name?
  unfold createWithLength at h
  split at h
  · cases h
  · next s₁ id hcreate =>
    obtain ⟨v, -, hget⟩ := get?_of_create hs hcreate
    have hv : s₁.get? id = some v := by rw [hget, if_pos rfl]
    have hi : ∀ t ∈ [Task.answer (.reply (.name v.name))], t.Inert := by simp [Task.Inert]
    rw [hcreate] at hc
    simp only [hv] at h
    split at h
    · cases h
      exact .of_changes hc hi
    · split at h
      · next hupdating =>
        cases h
        exact (updating_begun hupdating hi).after hc
      · cases h

theorem createWithLength_error {name? : Option String} {length? : Option Nat} {e : Error} (hs : s.Coherent)
    (h : s.createWithLength name? length? = (s', .error e)) : Changes W s s' := by
  have hc : Changes W s (s.create name?).1 := create_changes s name?
  unfold createWithLength at h
  split at h
  · next hcreate =>
    rw [hcreate] at hc
    cases h
    exact hc
  · next s₁ id hcreate =>
    rw [hcreate] at hc
    dsimp only at h
    split at h
    · cases h
    · split at h
      · cases h
      · cases h
        obtain ⟨v, hfresh, hget⟩ := get?_of_create hs hcreate
        exact hc.tail (.discard (by rw [hget, if_pos rfl]) hfresh)

end Store
end VectorEngine
