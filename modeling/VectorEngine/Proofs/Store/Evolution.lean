/-
What a change that starts no fan-out does to each vector.

`Change.evolves` is read by every invariant of the store: a vector stays away,
comes into being with nothing asked of it, goes away as it came, or is kept, with
its name, under the terms of `Kept`.
-/
import Mathlib
import VectorEngine.Proofs.Store.Change

namespace VectorEngine.Store

variable {W : VectorId → Prop} {s s' : Store} {id : VectorId} {v v' : NamedVector}

/-- What a change keeps of a vector, and what it may do to its state and its
clients. -/
structure Kept (W : VectorId → Prop) (s s' : Store) (id : VectorId) (v v' : NamedVector) : Prop where
  name : v'.name = v.name
  destroying : v'.destroying = v.destroying
  notifying : v'.notifying = v.notifying
  /-- A flush is scheduled together with its entry in the queue. -/
  state : v'.state = v.state ∨ v'.state = .pending ∧ s'.queue = s.queue ++ [id] ∨
    W id ∧ v.state = .pending ∧ v'.state = .idle
  /-- Clients are released, or one is registered under a new number. -/
  clients : v'.clients.Sublist v.clients ∨ ∃ listens, v.destroying = false ∧
    v'.clients = v.clients ++ [⟨⟨s.nextClient⟩, listens⟩] ∧ s'.nextClient = s.nextClient + 1 ∧
    s'.links = (⟨s.nextClient⟩, id) :: s.links

/-- What becomes of the vector of an id. -/
inductive Evolves (W : VectorId → Prop) (s s' : Store) (id : VectorId) :
    Option NamedVector → Option NamedVector → Prop
  | absent : Evolves W s s' id none none
  | placed {v : NamedVector} : v.Fresh → Evolves W s s' id none (some v)
  | discarded {v : NamedVector} : v.Fresh → Evolves W s s' id (some v) none
  | kept {v v' : NamedVector} : Kept W s s' id v v' → Evolves W s s' id (some v) (some v')

theorem Kept.of_eq (hname : v'.name = v.name) (hdestroying : v'.destroying = v.destroying)
    (hnotifying : v'.notifying = v.notifying) (hstate : v'.state = v.state) (hclients : v'.clients = v.clients) :
    Kept W s s' id v v' :=
  ⟨hname, hdestroying, hnotifying, .inl hstate, .inl (hclients ▸ List.Sublist.refl _)⟩

theorem Evolves.refl : ∀ o : Option NamedVector, Evolves W s s' id o o
  | none => .absent
  | some _ => .kept (.of_eq rfl rfl rfl rfl rfl)

/-- A vector replaced by its image. -/
theorem evolves_modify (s₁ : Store) (id₁ id : VectorId) {f : NamedVector → NamedVector}
    (hf : ∀ v, s₁.get? id₁ = some v → Kept W s s' id₁ v (f v)) :
    Evolves W s s' id (s₁.get? id) ((s₁.modify id₁ f).get? id) := by
  by_cases hid : id = id₁
  · subst hid
    cases hv : s₁.get? id with
    | none =>
      rw [modify_of_none hv, hv]
      exact .absent
    | some v =>
      rw [get?_modify_self hv]
      exact .kept (hf v hv)
  · rw [get?_modify_of_ne hid]
    exact .refl _

/-! ## Operations on clients and flushes -/

theorem schedule_of_none (h : s.get? id = none) : s.schedule id = s := by
  unfold schedule
  rw [h]

theorem schedule_of_pending (h : s.get? id = some v) (hp : v.state = .pending) : s.schedule id = s := by
  unfold schedule
  rw [h]
  simp only [hp, if_true]

theorem schedule_of_not_pending (h : s.get? id = some v) (hp : v.state ≠ .pending) :
    s.schedule id = { s.modify id fun v => { v with state := .pending } with queue := s.queue ++ [id] } := by
  unfold schedule
  rw [h]
  simp only [hp, if_false, modify_queue]

/-- However a flush is scheduled, the vector is pending afterwards. -/
theorem get?_schedule (h : s.get? id = some v) : (s.schedule id).get? id = some { v with state := .pending } := by
  by_cases hp : v.state = .pending
  · rw [schedule_of_pending h hp, h, ← hp]
  · rw [schedule_of_not_pending h hp]
    exact get?_modify_self h

theorem registerClient_of_none (h : s.get? id = none) (listens : Bool) :
    (s.registerClient id listens).1 = { s with nextClient := s.nextClient + 1 } := by
  unfold registerClient
  dsimp only
  rw [get_eq_error (s := { s with nextClient := s.nextClient + 1 }) h]

theorem registerClient_of_destroying (h : s.get? id = some v) (hd : v.destroying = true) (listens : Bool) :
    (s.registerClient id listens).1 = { s with nextClient := s.nextClient + 1 } := by
  unfold registerClient
  dsimp only
  rw [get_of_get? (s := { s with nextClient := s.nextClient + 1 }) h]
  simp only [hd, if_true]

theorem registerClient_of_get? (h : s.get? id = some v) (hd : v.destroying = false) (listens : Bool) :
    (s.registerClient id listens).1 =
      { { s with nextClient := s.nextClient + 1 }.modify id fun v =>
          { v with clients := v.clients ++ [Client.mk ⟨s.nextClient⟩ listens] } with
        links := (⟨s.nextClient⟩, id) :: s.links } := by
  unfold registerClient
  dsimp only
  rw [get_of_get? (s := { s with nextClient := s.nextClient + 1 }) h]
  simp only [hd, Bool.false_eq_true, if_false, modify_links]

/-- Releasing a registration changes nothing, or takes it from its vector and
drops its link. -/
theorem releaseClient_cases (s : Store) (c : ClientId) : (s.releaseClient c).1 = s ∨
    ∃ id, (s.releaseClient c).1 = { s.modify id fun v => { v with clients := v.clients.eraseP (·.id == c) } with
      links := s.links.filter (·.1 != c) } := by
  unfold releaseClient
  split
  · exact .inl rfl
  · next server _ =>
    split
    · exact .inl rfl
    · split
      · exact .inr ⟨server, by simp only [modify_links]⟩
      · exact .inl rfl

/-! ## All changes -/

theorem Change.coherent (h : Change W s s') (hs : s.Coherent) : s'.Coherent := by
  cases h with
  | settings => exact hs.congr rfl rfl rfl
  | contents id => exact hs.modify id fun _ => rfl
  | place _ hn hplace => exact hs.place hn hplace
  | discard hv => exact hs.retire hv
  | schedule id =>
    cases hv : s.get? id with
    | none => exact (schedule_of_none hv).symm ▸ hs
    | some v =>
      by_cases hp : v.state = .pending
      · exact (schedule_of_pending hv hp).symm ▸ hs
      · rw [schedule_of_not_pending hv hp]
        refine Coherent.congr (s := s.modify id _) ?_ rfl rfl rfl
        exact hs.modify id fun _ => rfl
  | takeBack => exact hs.modify _ fun _ => rfl
  | policy id => exact hs.modify id fun _ => rfl
  | register id listens =>
    cases hv : s.get? id with
    | none =>
      rw [registerClient_of_none hv]
      exact hs.congr rfl rfl rfl
    | some v =>
      cases hd : v.destroying with
      | true =>
        rw [registerClient_of_destroying hv hd]
        exact hs.congr rfl rfl rfl
      | false =>
        rw [registerClient_of_get? hv hd]
        have hs₁ : ({ s with nextClient := s.nextClient + 1 } : Store).Coherent := hs.congr rfl rfl rfl
        refine Coherent.congr (s := { s with nextClient := s.nextClient + 1 }.modify id _) ?_ rfl rfl rfl
        exact hs₁.modify id fun _ => rfl
  | release c =>
    rcases releaseClient_cases s c with he | ⟨id, he⟩
    · exact he.symm ▸ hs
    · rw [he]
      refine Coherent.congr (s := s.modify id _) ?_ rfl rfl rfl
      exact hs.modify id fun _ => rfl

/-- Entries are added to the queue, at its end. -/
theorem Change.queue (h : Change W s s') : s.queue <+: s'.queue := by
  cases h with
  | settings => exact List.prefix_rfl
  | contents | takeBack | policy => rw [modify_queue]
  | place _ _ hplace => rw [place_queue hplace]
  | discard hv => rw [retire_of_get? hv]
  | schedule id =>
    cases hv : s.get? id with
    | none => rw [schedule_of_none hv]
    | some v =>
      by_cases hp : v.state = .pending
      · rw [schedule_of_pending hv hp]
      · rw [schedule_of_not_pending hv hp]
        exact List.prefix_append _ _
  | register id listens =>
    cases hv : s.get? id with
    | none => rw [registerClient_of_none hv]
    | some v =>
      cases hd : v.destroying with
      | true => rw [registerClient_of_destroying hv hd]
      | false => simp only [registerClient_of_get? hv hd, modify_queue, List.prefix_rfl]
  | release c =>
    rcases releaseClient_cases s c with he | ⟨id, he⟩
    · rw [he]
    · simp only [he, modify_queue, List.prefix_rfl]

/-- Client numbers are never given out twice. -/
theorem Change.nextClient (h : Change W s s') : s.nextClient ≤ s'.nextClient := by
  cases h with
  | settings => exact Nat.le_refl _
  | contents | takeBack | policy => rw [modify_nextClient]
  | place _ _ hplace => rw [place_nextClient hplace]
  | discard hv => rw [retire_of_get? hv]
  | schedule id =>
    cases hv : s.get? id with
    | none => rw [schedule_of_none hv]
    | some v =>
      by_cases hp : v.state = .pending
      · rw [schedule_of_pending hv hp]
      · simp only [schedule_of_not_pending hv hp, modify_nextClient, Nat.le_refl]
  | register id listens =>
    cases hv : s.get? id with
    | none => exact registerClient_of_none hv listens ▸ Nat.le_succ _
    | some v =>
      cases hd : v.destroying with
      | true => exact registerClient_of_destroying hv hd listens ▸ Nat.le_succ _
      | false =>
        simp only [registerClient_of_get? hv hd, modify_nextClient]
        exact Nat.le_succ _
  | release c =>
    rcases releaseClient_cases s c with he | ⟨id, he⟩
    · rw [he]
    · simp only [he, modify_nextClient, Nat.le_refl]

/-- Numbers are never taken back from the names generated. -/
theorem Change.nextName (h : Change W s s') : s.nextName ≤ s'.nextName := by
  cases h with
  | settings _ _ hgrown => exact hgrown
  | contents | takeBack | policy => rw [modify_nextName]
  | place _ _ hplace => rw [place_nextName hplace]
  | discard hv => rw [retire_of_get? hv]
  | schedule id =>
    cases hv : s.get? id with
    | none => rw [schedule_of_none hv]
    | some v =>
      by_cases hp : v.state = .pending
      · rw [schedule_of_pending hv hp]
      · simp only [schedule_of_not_pending hv hp, modify_nextName, Nat.le_refl]
  | register id listens =>
    cases hv : s.get? id with
    | none => rw [registerClient_of_none hv]
    | some v =>
      cases hd : v.destroying with
      | true => rw [registerClient_of_destroying hv hd]
      | false => simp only [registerClient_of_get? hv hd, modify_nextName, Nat.le_refl]
  | release c =>
    rcases releaseClient_cases s c with he | ⟨id, he⟩
    · rw [he]
    · simp only [he, modify_nextName, Nat.le_refl]

/-- **What a change does to a vector.** One of four things, for every id. -/
theorem Change.evolves (h : Change W s s') (hs : s.Coherent) (id : VectorId) :
    Evolves W s s' id (s.get? id) (s'.get? id) := by
  cases h with
  | settings => exact .refl _
  | contents id₁ => exact evolves_modify s id₁ id fun v _ => .of_eq rfl rfl rfl rfl rfl
  | place hfresh _ hplace =>
    rw [hs.get?_place hplace]
    split
    · next hid =>
      rw [hid, hs.vacant_of_place hplace]
      exact .placed hfresh
    · exact .refl _
  | discard hv hfresh =>
    rw [get?_retire hv]
    split
    · next hid =>
      rw [hid, hv]
      exact .discarded hfresh
    · exact .refl _
  | schedule id₁ =>
    cases hv : s.get? id₁ with
    | none =>
      rw [schedule_of_none hv]
      exact .refl _
    | some v =>
      by_cases hp : v.state = .pending
      · rw [schedule_of_pending hv hp]
        exact .refl _
      · rw [schedule_of_not_pending hv hp]
        exact evolves_modify s id₁ id fun v _ => ⟨rfl, rfl, rfl, .inr (.inl ⟨rfl, rfl⟩), .inl (List.Sublist.refl _)⟩
  | takeBack hw =>
    refine evolves_modify s _ id fun v _ => ⟨rfl, rfl, rfl, ?_, .inl (List.Sublist.refl _)⟩
    by_cases hp : v.state = .pending
    · exact .inr (.inr ⟨hw, hp, by simp only [NamedVector.takeBack, hp, if_true]⟩)
    · exact .inl (by simp only [NamedVector.takeBack, hp, if_false])
  | policy id₁ => exact evolves_modify s id₁ id fun v _ => .of_eq rfl rfl rfl rfl rfl
  | register id₁ listens =>
    cases hv : s.get? id₁ with
    | none =>
      rw [registerClient_of_none hv]
      exact .refl _
    | some v =>
      cases hd : v.destroying with
      | true =>
        rw [registerClient_of_destroying hv hd]
        exact .refl _
      | false =>
        rw [registerClient_of_get? hv hd]
        refine evolves_modify { s with nextClient := s.nextClient + 1 } id₁ id fun w hw =>
          ⟨rfl, rfl, rfl, .inl rfl, .inr ⟨listens, ?_, rfl, by simp only [modify_nextClient], rfl⟩⟩
        rw [← hd]
        exact congrArg _ (Option.some.inj (hw.symm.trans hv))
  | release c =>
    rcases releaseClient_cases s c with he | ⟨id₁, he⟩
    · rw [he]
      exact .refl _
    · rw [he]
      exact evolves_modify s id₁ id fun v _ => ⟨rfl, rfl, rfl, .inl rfl, .inl List.eraseP_sublist⟩

end VectorEngine.Store
