/-
What a change comes to once it has been noted and told.

`Store.settle` is the whole effect of a change to one vector while none of its
clients is being called: nothing but the vector and the end of the queue depend on
it, so the changes to several vectors do not get into each other's way
(`get?_settleAll`, `settleAll_queue`). What is written beforehand (`Store.Edited`)
makes no difference to who is told and what is queued.
-/
import Mathlib
import VectorEngine.Proofs.Store.Evolution

namespace VectorEngine

/-- The vector after a change to it has been noted and told as its policy asks. -/
def NamedVector.settle (v : NamedVector) : NamedVector :=
  { v with
    series := v.series.invalidate
    state :=
      match v.policy with
      | .never => v.state
      | .onIdle => .pending
      | .always => .idle }

namespace Store

/-- A change to the vector puts an entry into the queue. -/
def enqueues (s : Store) (id : VectorId) : Bool :=
  (s.get? id).any fun v => decide (v.policy = .onIdle ∧ v.state ≠ .pending)

/-- The calls that tell a change to the vector at once. -/
def updates (s : Store) (id : VectorId) : List (ClientId × ClientEvent) :=
  match s.get? id with
  | some v => if v.policy = .always then (v.clients.filter (·.listens)).map fun x => (x.id, ⟨id, .updated⟩) else []
  | none => []

/-- The store after a change to a vector has been noted and told. -/
def settle (s : Store) (id : VectorId) : Store :=
  { s.modify id NamedVector.settle with queue := s.queue ++ if s.enqueues id then [id] else [] }

/-- The store after changes to several vectors have been noted and told. -/
def settleAll (s : Store) (ids : List VectorId) : Store := ids.foldl settle s

variable {s s' : Store} {id id' : VectorId} {ids : List VectorId} {v : NamedVector}

/-! ## One vector -/

@[simp] theorem settleAll_nil (s : Store) : s.settleAll [] = s := rfl

theorem settleAll_cons (s : Store) (id : VectorId) (ids : List VectorId) :
    s.settleAll (id :: ids) = (s.settle id).settleAll ids := rfl

theorem get?_settle (s : Store) (id id' : VectorId) :
    (s.settle id).get? id' = if id' = id then (s.get? id).map NamedVector.settle else s.get? id' :=
  get?_modify s id id' NamedVector.settle

theorem get?_settle_of_ne (h : id' ≠ id) : (s.settle id).get? id' = s.get? id' := by rw [get?_settle, if_neg h]

theorem settle_of_not_enqueues (h : s.enqueues id = false) : s.settle id = s.modify id NamedVector.settle := by
  rw [settle, h, if_neg Bool.false_ne_true, List.append_nil, ← modify_queue s id NamedVector.settle]

theorem enqueues_congr (h : s'.get? id = s.get? id) : s'.enqueues id = s.enqueues id := by rw [enqueues, h, enqueues]

theorem updates_congr (h : s'.get? id = s.get? id) : s'.updates id = s.updates id := by rw [updates, h, updates]

/-- Scheduling a flush puts an entry into the queue unless one is pending. -/
theorem schedule_eq (hv : s.get? id = some v) : s.schedule id =
    { s.modify id fun v => { v with state := .pending } with
      queue := s.queue ++ if v.state = .pending then [] else [id] } := by
  by_cases hp : v.state = .pending
  · have hself : s.modify id (fun v => { v with state := .pending }) = s := by
      refine modify_eq_self fun u hu => ?_
      obtain rfl := Option.some.inj (hu.symm.trans hv)
      rw [← hp]
    rw [schedule_of_pending hv hp, hself, if_pos hp, List.append_nil]
  · rw [schedule_of_not_pending hv hp, if_neg hp]

/-- **Noting a change settles it, or starts the fan-out whose end settles it.** -/
theorem markDirty_settle (hv : s.get? id = some v) (hn : v.notifying = false) :
    s.markDirty id = .ok (s.settle id, none) ∧ s.updates id = [] ∨
      ∃ s₁ u, s.markDirty id = .ok (s₁, some ⟨⟨id, .updated⟩, v.clients, false, 0⟩) ∧ s₁.get? id = some u ∧
        u.clients = v.clients ∧ s₁.endDelivery ⟨⟨id, .updated⟩, v.clients, false, 0⟩ = s.settle id ∧
        s.updates id = (v.clients.filter (·.listens)).map fun x => (x.id, ⟨id, .updated⟩) := by
  have hget : s.get id = .ok v := get_of_get? hv
  let noted : NamedVector → NamedVector := fun v => { v with series := v.series.invalidate }
  have hnoted : (s.modify id noted).get? id = some (noted v) := get?_modify_self hv
  cases hpolicy : v.policy with
  | never =>
    have hsettle : s.settle id = s.modify id noted := by
      have hmodify : s.modify id NamedVector.settle = s.modify id noted := modify_congr fun u hu => by
        obtain rfl := Option.some.inj (hu.symm.trans hv)
        simp only [NamedVector.settle, hpolicy, noted]
      rw [settle_of_not_enqueues (by simp [enqueues, hv, hpolicy]), hmodify]
    refine .inl ⟨?_, by simp [updates, hv, hpolicy]⟩
    rw [hsettle]
    simp only [markDirty, hget, bind, Except.bind, hpolicy]
    rfl
  | onIdle =>
    have hsettle : s.settle id = (s.modify id noted).schedule id := by
      have hmodify : s.modify id NamedVector.settle =
          (s.modify id noted).modify id fun v => { v with state := .pending } := by
        rw [modify_modify]
        refine modify_congr fun u hu => ?_
        obtain rfl := Option.some.inj (hu.symm.trans hv)
        simp only [NamedVector.settle, hpolicy, noted, Function.comp]
      rw [schedule_eq hnoted, ← hmodify]
      by_cases hp : v.state = .pending <;> simp [settle, enqueues, hv, hpolicy, noted, hp]
    refine .inl ⟨?_, by simp [updates, hv, hpolicy]⟩
    rw [hsettle]
    simp only [markDirty, hget, bind, Except.bind, hpolicy]
    rfl
  | always =>
    have hopened : (s.modify id noted).modify id (fun v => { v with state := .idle }) =
        s.modify id fun v => { noted v with state := .idle } := modify_modify
    have hbegin := beginDelivery_of_get? (s := s.modify id fun v => { noted v with state := .idle })
      (get?_modify_self hv) .updated
    rw [modify_modify] at hbegin
    refine .inr ⟨s.modify id (NamedVector.opened ∘ fun v => { noted v with state := .idle }), _, ?_,
      get?_modify_self hv, rfl, ?_, by simp [updates, hv, hpolicy]⟩
    · simp only [markDirty, hget, bind, Except.bind, hpolicy, hn, Bool.false_eq_true, if_false]
      rw [hopened, hbegin]
      simp only [noted, hn]
      rfl
    · have hmodify : s.modify id NamedVector.settle = s.modify id fun v =>
          { v with series := v.series.invalidate, state := .idle, notifying := false } := modify_congr fun u hu => by
        obtain rfl := Option.some.inj (hu.symm.trans hv)
        simp only [NamedVector.settle, hpolicy, hn]
      rw [settle_of_not_enqueues (by simp [enqueues, hv, hpolicy]), hmodify]
      simp only [endDelivery, modify_modify]
      rfl

theorem event_of_mem_updates {call : ClientId × ClientEvent} (h : call ∈ s.updates id) : call.2 = ⟨id, .updated⟩ := by
  unfold updates at h
  split at h
  · split at h
    · obtain ⟨x, -, rfl⟩ := List.mem_map.1 h
      rfl
    · cases h
  · cases h

/-! ## Several vectors -/

theorem get?_settleAll (hids : ids.Nodup) (id' : VectorId) :
    (s.settleAll ids).get? id' = if id' ∈ ids then (s.get? id').map NamedVector.settle else s.get? id' := by
  induction ids generalizing s with
  | nil => simp
  | cons id ids ih =>
    obtain ⟨hid, hids⟩ := List.nodup_cons.1 hids
    rw [settleAll_cons, ih hids, get?_settle]
    by_cases he : id' = id
    · subst he
      simp [hid]
    · simp [he]

/-- Each vector gets one entry at most, in the order of the changes. -/
theorem settleAll_queue (hids : ids.Nodup) : (s.settleAll ids).queue = s.queue ++ ids.filter s.enqueues := by
  induction ids generalizing s with
  | nil => simp
  | cons id ids ih =>
    obtain ⟨hid, hids⟩ := List.nodup_cons.1 hids
    have hothers : ids.filter (s.settle id).enqueues = ids.filter s.enqueues :=
      List.filter_congr fun id' hid' => enqueues_congr (get?_settle_of_ne fun he => hid (he ▸ hid'))
    have hqueue : (s.settle id).queue = s.queue ++ if s.enqueues id then [id] else [] := rfl
    rw [settleAll_cons, ih hids, hothers, hqueue, List.append_assoc, List.filter_cons]
    cases s.enqueues id <;> simp

/-! ## What is written beforehand -/

/-- The contents of vectors are changed, and nothing else. -/
structure Edited (s s' : Store) : Prop where
  queue : s'.queue = s.queue
  vectors : ∀ id v, s.get? id = some v → ∃ series, s'.get? id = some { v with series := series }

namespace Edited

theorem refl (s : Store) : s.Edited s := ⟨rfl, fun _ v hv => ⟨v.series, hv⟩⟩

theorem edit {s'' : Store} {change : Series → Except Error Series} (h : s.Edited s')
    (hedit : s'.edit id change = .ok s'') : s.Edited s'' := by
  obtain ⟨u, series, hu, -, rfl⟩ := edit_cases hedit
  refine ⟨(modify_queue ..).trans h.queue, fun id' v hv => ?_⟩
  obtain ⟨series', hv'⟩ := h.vectors id' v hv
  rw [get?_modify]
  split
  · next he =>
    subst he
    rw [hv']
    exact ⟨series, rfl⟩
  · exact ⟨series', hv'⟩

theorem updates (h : s.Edited s') (hv : s.get? id = some v) : s'.updates id = s.updates id := by
  obtain ⟨series, hv'⟩ := h.vectors id v hv
  rw [Store.updates, Store.updates, hv, hv']

theorem enqueues (h : s.Edited s') (hv : s.get? id = some v) : s'.enqueues id = s.enqueues id := by
  obtain ⟨series, hv'⟩ := h.vectors id v hv
  rw [Store.enqueues, Store.enqueues, hv, hv']
  rfl

theorem settled (h : s.Edited s') (hids : ids.Nodup) (hid : id ∈ ids) (hv : s.get? id = some v) :
    ∃ series, (s'.settleAll ids).get? id = some { v.settle with series := series } := by
  obtain ⟨series, hv'⟩ := h.vectors id v hv
  rw [get?_settleAll hids, if_pos hid, hv']
  exact ⟨series.invalidate, rfl⟩

theorem stays (h : s.Edited s') (hids : ids.Nodup) (hv : s.get? id = some v) :
    ∃ v', (s'.settleAll ids).get? id = some v' := by
  obtain ⟨series, hv'⟩ := h.vectors id v hv
  rw [get?_settleAll hids, hv']
  split <;> exact ⟨_, rfl⟩

end Edited

theorem writeAll_edited (s : Store) (writes : List (VectorId × List Float)) : s.Edited (s.writeAll writes).1 :=
  writeAll_keeps (P := s.Edited) (fun _ _ _ _ hs hedit => hs.edit hedit) (.refl s)

end Store
end VectorEngine
