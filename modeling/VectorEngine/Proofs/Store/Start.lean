/-
What an operation leaves in place when it starts.

Until the first client is called every vector stays, under its name and with its
clients (`Steady`). A fan-out is started to tell a change, because the policy is
`always` or because it was asked for, or to tell the end of a vector (`Start`).
-/
import Mathlib
import VectorEngine.Proofs.Store.Operations
import VectorEngine.Proofs.Store.Evolution

namespace VectorEngine

/-- The command asks for a fan-out at once, whatever the policy. -/
def Command.NotifiesNow : Command → Prop
  | .notify _ .now => True
  | _ => False

/-- The fan-out has just started, to the clients of its vector. -/
structure Delivery.Begins (d : Delivery) (s : Store) (v : NamedVector) : Prop where
  server : s.get? d.event.server = some v
  waiting : d.waiting = v.clients
  reached : d.reached = 0

namespace Store

/-- The generation a slot has come to. -/
def generation (s : Store) (i : Nat) : UInt32 := (s.slots.getD i {}).generation

/-- The client is registered with the vector. -/
def registers (s : Store) (id : VectorId) (c : ClientId) : Bool := (s.get? id).any fun v => v.clients.any (·.id == c)

variable {s₀ s s' s'' : Store} {id : VectorId} {v : NamedVector} {c : ClientId} {tasks rest : List Task}

theorem registers_iff : s.registers id c = true ↔ ∃ v, s.get? id = some v ∧ c ∈ v.clients.map (·.id) := by
  cases hv : s.get? id with
  | none => simp [registers, hv]
  | some v => simp [registers, hv]

theorem registers_of_get? (hv : s.get? id = some v) : s.registers id c = v.clients.any (·.id == c) := by
  simp [registers, hv]

theorem registers_of_none (hv : s.get? id = none) : s.registers id c = false := by simp [registers, hv]

/-! ## Generations -/

theorem generation_of_get? (hv : s.get? id = some v) : s.generation id.index = id.generation := by
  simp [generation, get?_eq_some_iff.1 hv]

theorem generation_set (s : Store) {i j : Nat} {g : UInt32} (vector : Option NamedVector) (h : i < s.slots.length) :
    ((s.slots.set i ⟨g, vector⟩).getD j {}).generation = if j = i then g else s.generation j := by
  by_cases hj : j = i
  · subst hj
    simp [h]
  · simp [generation, hj, List.getElem?_set_ne (Ne.symm hj)]

@[simp] theorem generation_modify (s : Store) (id : VectorId) (f : NamedVector → NamedVector) (i : Nat) :
    (s.modify id f).generation i = s.generation i := by
  cases hv : s.get? id with
  | none => rw [modify_of_none hv]
  | some v =>
    have hset := generation_set s (j := i) (g := id.generation) (some (f v)) (index_lt_of_get? hv)
    rw [modify_of_get? hv]
    refine hset.trans ?_
    split
    · next hi => rw [hi, generation_of_get? hv]
    · rfl

/-- Removing a vector uses up the generation of its slot. -/
theorem generation_retire (hv : s.get? id = some v) (i : Nat) :
    (s.retire id).generation i = if i = id.index then s.generation i + 1 else s.generation i := by
  rw [retire_of_get? hv]
  refine (generation_set s none (index_lt_of_get? hv)).trans ?_
  split
  · next hi => rw [hi, generation_of_get? hv]
  · rfl

theorem generation_place (h : s.place v = .ok (s', id)) (i : Nat) : s'.generation i = s.generation i := by
  rcases place_cases h with ⟨free, -, hg, rfl⟩ | ⟨-, rfl, rfl⟩
  · by_cases hlt : id.index < s.slots.length
    · refine (generation_set s (some v) hlt).trans ?_
      split
      · next hi => rw [hg, hi, generation]
      · rfl
    · simp only [generation, List.set_eq_of_length_le (Nat.le_of_not_lt hlt)]
  · simp only [generation, List.getD_eq_getElem?_getD, List.getElem?_append]
    split
    · rfl
    · next hge =>
      rw [List.getElem?_eq_none (Nat.le_of_not_lt hge)]
      cases i - s.slots.length <;> rfl

/-! ## Steady changes -/

/-- Every vector stays, under its name and with its clients, and every slot at
its generation. -/
structure Steady (s s' : Store) : Prop where
  generation : ∀ i, s'.generation i = s.generation i
  vector : ∀ id v, s.get? id = some v → ∃ v', s'.get? id = some v' ∧ v'.name = v.name ∧ v.clients <+: v'.clients

theorem Steady.refl (s : Store) : s.Steady s := ⟨fun _ => rfl, fun _ v hv => ⟨v, hv, rfl, List.prefix_rfl⟩⟩

theorem Steady.trans (h : s.Steady s') (h' : s'.Steady s'') : s.Steady s'' where
  generation i := (h'.generation i).trans (h.generation i)
  vector id v hv := by
    obtain ⟨v', hv', hname, hclients⟩ := h.vector id v hv
    obtain ⟨v'', hv'', hname', hclients'⟩ := h'.vector id v' hv'
    exact ⟨v'', hv'', hname'.trans hname, hclients.trans hclients'⟩

/-- The queue, the links and the tables are not looked at. -/
theorem Steady.congr (h : s.Steady s') (hslots : s''.slots = s'.slots) : s.Steady s'' := by
  have hget : s''.get? = s'.get? := by
    funext id
    simp only [get?, hslots]
  exact ⟨fun i => by rw [← h.generation i, Store.generation, hslots, Store.generation], hget ▸ h.vector⟩

theorem steady_modify (s : Store) (id : VectorId) {f : NamedVector → NamedVector} (hname : ∀ v, (f v).name = v.name)
    (hclients : ∀ v, v.clients <+: (f v).clients) : s.Steady (s.modify id f) where
  generation := generation_modify s id f
  vector id' v' hv' := by
    rw [get?_modify]
    split
    · next hid =>
      rw [← hid, hv']
      exact ⟨f v', rfl, hname v', hclients v'⟩
    · exact ⟨v', hv', rfl, List.prefix_rfl⟩

theorem schedule_steady (s : Store) (id : VectorId) : s.Steady (s.schedule id) := by
  cases hv : s.get? id with
  | none => exact (schedule_of_none hv).symm ▸ .refl s
  | some v =>
    by_cases hp : v.state = .pending
    · exact (schedule_of_pending hv hp).symm ▸ .refl s
    · rw [schedule_of_not_pending hv hp]
      have hmodify : s.Steady (s.modify id fun v => { v with state := .pending }) :=
        steady_modify s id (fun _ => rfl) fun _ => List.prefix_rfl
      exact hmodify.congr rfl

theorem opened_steady (s : Store) (id : VectorId) : s.Steady (s.modify id NamedVector.opened) :=
  steady_modify s id (fun _ => rfl) fun _ => List.prefix_rfl

theorem ended_steady (s : Store) (id : VectorId) : s.Steady (s.modify id NamedVector.ended) :=
  steady_modify s id (fun _ => rfl) fun _ => List.prefix_rfl

theorem edit_steady {change : Series → Except Error Series} (h : s.edit id change = .ok s') : s.Steady s' := by
  obtain ⟨v, series, -, -, rfl⟩ := edit_cases h
  exact steady_modify s id (fun _ => rfl) fun _ => List.prefix_rfl

theorem readExtrema_steady {e : Extrema} (h : s.readExtrema id = .ok (e, s')) : s.Steady s' := by
  obtain ⟨v, -, h⟩ := bind_ok_iff.1 h
  cases h
  exact steady_modify s id (fun _ => rfl) fun _ => List.prefix_rfl

theorem setPolicy_steady {p : NotifyPolicy} (h : s.setPolicy id p = .ok s') : s.Steady s' := by
  obtain ⟨v, -, h⟩ := bind_ok_iff.1 h
  cases h
  exact steady_modify s id (fun _ => rfl) fun _ => List.prefix_rfl

theorem cancelNotify_steady {pending : Bool} (h : s.cancelNotify id = .ok (s', pending)) : s.Steady s' := by
  rw [cancelNotify_eq h]
  exact steady_modify s id (fun _ => rfl) fun _ => List.prefix_rfl

theorem registerClient_steady (s : Store) (id : VectorId) (listens : Bool) :
    s.Steady (s.registerClient id listens).1 := by
  have hnext : s.Steady { s with nextClient := s.nextClient + 1 } := (Steady.refl s).congr rfl
  cases hv : s.get? id with
  | none => exact registerClient_of_none hv listens ▸ hnext
  | some v =>
    cases hd : v.destroying with
    | true => exact registerClient_of_destroying hv hd listens ▸ hnext
    | false =>
      rw [registerClient_of_get? hv hd]
      have hmodify := steady_modify { s with nextClient := s.nextClient + 1 } id
        (f := fun v => { v with clients := v.clients ++ [⟨⟨s.nextClient⟩, listens⟩] }) (fun _ => rfl)
        fun _ => List.prefix_append _ _
      exact (hnext.trans hmodify).congr rfl

theorem create_steady {name? : Option String} (hs : s.Coherent) : s.Steady (s.create name?).1 := by
  rcases h : s.create name? with ⟨s', e | id⟩
  · obtain ⟨m, rfl⟩ := create_error h
    exact (Steady.refl s).congr rfl
  · obtain ⟨m, v, -, -, hplace⟩ := create_ok h
    have hm : ({ s with nextName := m } : Store).Coherent := hs.congr rfl rfl rfl
    refine ⟨fun i => generation_place hplace i, fun id' v' hv' => ⟨v', ?_, rfl, List.prefix_rfl⟩⟩
    have hvacant : s.get? id = none := hm.vacant_of_place hplace
    have hne : id' ≠ id := by
      rintro rfl
      rw [hvacant] at hv'
      cases hv'
    rw [hm.get?_place hplace, if_neg hne]
    exact hv'

/-! ## How operations start -/

/-- The store and the tasks an operation goes on with. A change is told at once
if that is `asked` for, or at policy `always`. -/
inductive Start (asked : Prop) (s : Store) : Store → List Task → Prop
  | quiet {s' : Store} {tasks : List Task} : s.Steady s' → (∀ t ∈ tasks, t.Inert) → Start asked s s' tasks
  | update {s' : Store} {d : Delivery} {v : NamedVector} {rest : List Task} : s.Steady s' → d.event.kind = .updated →
    d.Begins s' v → (asked ∨ v.policy = .always) → (∀ t ∈ rest, t.Inert) → Start asked s s' (.deliver d :: rest)
  | ending {id : VectorId} {v : NamedVector} {rest : List Task} : s.get? id = some v → v.destroying = false →
    (∀ t ∈ rest, t.Inert) → Start asked s (s.modify id NamedVector.ended)
      (.deliver ⟨⟨id, .destroyed⟩, v.clients, v.notifying, 0⟩ :: rest)

variable {asked : Prop}

theorem Start.steady (h : Start asked s s' tasks) : s.Steady s' := by
  cases h with
  | quiet h => exact h
  | update h => exact h
  | ending => exact ended_steady s _

theorem markDirty_start {d? : Option Delivery} (hs : s₀.Steady s) (h : s.markDirty id = .ok (s', d?))
    (hi : ∀ t ∈ rest, t.Inert) : Start asked s₀ s' (Task.delivering d? rest) := by
  have hcontents : s₀.Steady (s.modify id fun v => { v with series := v.series.invalidate }) :=
    hs.trans (steady_modify s id (fun _ => rfl) fun _ => List.prefix_rfl)
  unfold markDirty at h
  obtain ⟨v, hv, h⟩ := bind_ok_iff.1 h
  rw [get_eq_ok_iff] at hv
  have hv' := get?_modify_self (f := fun v => { v with series := v.series.invalidate }) hv
  split at h
  · cases h
    exact .quiet hcontents hi
  · cases h
    exact .quiet (hcontents.trans (schedule_steady _ id)) hi
  · next halways =>
    split at h
    · cases h
      exact .quiet (hcontents.trans (schedule_steady _ id)) hi
    · dsimp only at h
      rw [beginDelivery_of_get? (get?_modify_self hv'), modify_modify] at h
      cases h
      have hopened := hcontents.trans (opened_steady _ id)
      exact .update hopened rfl ⟨get?_modify_self hv', rfl, rfl⟩ (.inr halways) hi

theorem notifyNow_start {d? : Option Delivery} (h : s.notifyNow id = .ok (s', d?)) (ha : asked)
    (hi : ∀ t ∈ rest, t.Inert) : Start asked s s' (Task.delivering d? rest) := by
  obtain ⟨v, hv, ⟨rfl, rfl⟩ | ⟨-, rfl, rfl⟩⟩ := notifyNow_cases h
  · exact .quiet (schedule_steady s id) hi
  · exact .update (opened_steady s id) rfl ⟨get?_modify_self hv, rfl, rfl⟩ (.inl ha) hi

theorem beginDestroy_start {d? : Option Delivery} (h : s.beginDestroy id = .ok (s', d?))
    (hi : ∀ t ∈ rest, t.Inert) : Start asked s s' (Task.delivering d? rest) := by
  obtain ⟨v, hv, ⟨-, rfl, rfl⟩ | ⟨hd, rfl, rfl⟩⟩ := beginDestroy_cases h
  · exact .quiet (.refl _) hi
  · exact .ending hv hd hi

theorem update_start {change : Series → Except Error Series} {d? : Option Delivery} (hs : s₀.Steady s)
    (h : s.update id change = .ok (s', d?)) (hi : ∀ t ∈ rest, t.Inert) :
    Start asked s₀ s' (Task.delivering d? rest) := by
  obtain ⟨s₁, hs₁, h⟩ := bind_ok_iff.1 h
  exact markDirty_start (hs.trans (edit_steady hs₁)) h hi

theorem updating_start {change : Series → Except Error Series} (hs : s₀.Steady s)
    (h : s.updating id change rest = .ok (s', tasks)) (hi : ∀ t ∈ rest, t.Inert) : Start asked s₀ s' tasks := by
  obtain ⟨⟨s₁, d?⟩, hs₁, h⟩ := bind_ok_iff.1 h
  cases h
  exact update_start hs hs₁ hi

theorem writing_start {writes : List (VectorId × List Float)} (h : s.writing writes rest = (s', tasks))
    (hi : ∀ t ∈ rest, t.Inert) : Start asked s s' tasks := by
  have hc : s.Steady (s.writeAll writes).1 :=
    writeAll_keeps (P := s.Steady) (fun _ _ _ _ hs hedit => hs.trans (edit_steady hedit)) (.refl s)
  obtain ⟨rfl, rfl | ⟨e, -, rfl⟩⟩ := writing_cases h
  · exact .quiet hc (List.forall_mem_cons.2 ⟨trivial, hi⟩)
  · exact .quiet hc (by simp [Task.Inert])

theorem Writes.start {ids : List VectorId} (h : Writes s rest ids s' tasks) (hi : ∀ t ∈ rest, t.Inert) :
    Start asked s s' tasks := by
  cases h with
  | nothing => exact .quiet (.refl s) hi
  | one _ h => exact updating_start (.refl s) h hi
  | several _ h => exact writing_start h hi

theorem notifying_start {name : String} {action : NotifyAction} (h : s.notifying id action = .ok (s', tasks)) :
    Start (Command.NotifiesNow (.notify name action)) s s' tasks := by
  have hq : ∀ t ∈ quietly, t.Inert := by simp [quietly, Task.Inert]
  cases action with
  | policy p =>
    obtain ⟨s₁, h₁, h⟩ := bind_ok_iff.1 h
    cases h
    exact .quiet (setPolicy_steady h₁) hq
  | now =>
    obtain ⟨⟨s₁, d?⟩, h₁, h⟩ := bind_ok_iff.1 h
    cases h
    exact notifyNow_start h₁ trivial hq
  | cancel =>
    obtain ⟨⟨s₁, pending⟩, h₁, h⟩ := bind_ok_iff.1 h
    cases h
    exact .quiet (cancelNotify_steady h₁) hq
  | pending =>
    obtain ⟨pending, -, h⟩ := bind_ok_iff.1 h
    cases h
    exact .quiet (.refl s) (by simp [Task.Inert])

theorem Form.start {c : Command} (h : Form s c s' tasks) : Start c.NotifiesNow s s' tasks := by
  cases h with
  | looks | destroys => exact .quiet (.refl s) (by simp [Task.Inert])
  | notifies _ _ h => exact notifying_start h
  | changes _ _ ha h => exact h.start ha.inert

/-! ## Creating vectors with a length -/

theorem createWithLength_start {name? : Option String} {length? : Option Nat} (hs : s.Coherent)
    (h : s.createWithLength name? length? = (s', .ok tasks)) : Start asked s s' tasks := by
  have hc : s.Steady (s.create name?).1 := create_steady hs
  unfold createWithLength at h
  split at h
  · cases h
  · next s₁ id hcreate =>
    obtain ⟨v, -, hget⟩ := get?_of_create hs hcreate
    have hv : s₁.get? id = some v := by rw [hget, if_pos rfl]
    have hi : ∀ t ∈ [Task.answer (.reply (.name v.name))], t.Inert := by simp [Task.Inert]
    rw [hcreate] at hc
    simp only [hv] at h
    split at h
    · cases h
      exact .quiet hc hi
    · split at h
      · next hupdating =>
        cases h
        exact updating_start hc hupdating hi
      · cases h

/-- A creation that fails has created nothing, or a vector that is removed again. -/
theorem createWithLength_undone {name? : Option String} {length? : Option Nat} {e : Error} (hs : s.Coherent)
    (h : s.createWithLength name? length? = (s', .error e)) :
    s.Steady s' ∨ ∃ s₁ id v, s.Steady s₁ ∧ s.get? id = none ∧ s₁.get? id = some v ∧ v.clients = [] ∧
      s' = s₁.retire id := by
  have hc : s.Steady (s.create name?).1 := create_steady hs
  unfold createWithLength at h
  split at h
  · next hcreate =>
    rw [hcreate] at hc
    cases h
    exact .inl hc
  · next s₁ id hcreate =>
    rw [hcreate] at hc
    dsimp only at h
    split at h
    · cases h
    · split at h
      · cases h
      · cases h
        obtain ⟨v, hfresh, hget⟩ := get?_of_create hs hcreate
        obtain ⟨m, u, -, -, hplace⟩ := create_ok hcreate
        have hm : ({ s with nextName := m } : Store).Coherent := hs.congr rfl rfl rfl
        exact .inr ⟨s₁, id, v, hc, hm.vacant_of_place hplace, by rw [hget, if_pos rfl], hfresh.clients, rfl⟩

end Store
end VectorEngine
