/-
The vector an id names after each operation on the slots.

`get?_modify` and `get?_retire` say it for two of the three operations that write
to a slot; the third, which needs the free slots to be free, is with coherence.
Everything else about the store is unchanged by a `modify`.
-/
import Mathlib
import VectorEngine.Store.Client
import VectorEngine.Proofs.NameTable

namespace VectorEngine.Store

variable {s s' : Store} {id id' : VectorId} {v v' : NamedVector} {f g : NamedVector → NamedVector}

theorem get?_eq_some_iff : s.get? id = some v ↔ s.slots[id.index]? = some ⟨id.generation, some v⟩ := by
  unfold get?
  split
  · next slot hslot =>
    obtain ⟨generation, vector⟩ := slot
    rw [hslot]
    by_cases hg : generation = id.generation <;> simp [hg]
  · next hslot => simp [hslot]

theorem index_lt_of_get? (h : s.get? id = some v) : id.index < s.slots.length :=
  (List.getElem?_eq_some_iff.1 (get?_eq_some_iff.1 h)).1

/-- Two ids of vectors that share a slot are equal. -/
theorem eq_of_index_eq (h : s.get? id = some v) (h' : s.get? id' = some v') (hi : id.index = id'.index) :
    id = id' := by
  rw [get?_eq_some_iff] at h h'
  rw [hi, h'] at h
  obtain ⟨index, generation⟩ := id
  obtain ⟨index', generation'⟩ := id'
  simp only [Option.some.injEq, Slot.mk.injEq] at h
  simp_all

theorem get_eq_ok_iff : s.get id = .ok v ↔ s.get? id = some v := by
  unfold get
  split <;> simp_all

theorem get_of_get? (h : s.get? id = some v) : s.get id = .ok v := get_eq_ok_iff.2 h

theorem get_eq_error (h : s.get? id = none) : s.get id = .error (.notFound id.text) := by
  unfold get
  rw [h]

theorem lookup_eq_ok_iff {n : String} : s.lookup n = .ok id ↔ s.names.find? n = some id := by
  unfold lookup
  split <;> simp_all

/-! ## Replacing a vector by its image -/

theorem modify_of_get? (h : s.get? id = some v) :
    s.modify id f = { s with slots := s.slots.set id.index ⟨id.generation, some (f v)⟩ } := by
  simp only [modify, h]

theorem modify_of_none (h : s.get? id = none) : s.modify id f = s := by simp only [modify, h]

section Frame

variable (s id f)

@[simp] theorem modify_config : (s.modify id f).config = s.config := by unfold modify; split <;> rfl
@[simp] theorem modify_free : (s.modify id f).free = s.free := by unfold modify; split <;> rfl
@[simp] theorem modify_names : (s.modify id f).names = s.names := by unfold modify; split <;> rfl
@[simp] theorem modify_links : (s.modify id f).links = s.links := by unfold modify; split <;> rfl
@[simp] theorem modify_queue : (s.modify id f).queue = s.queue := by unfold modify; split <;> rfl
@[simp] theorem modify_functions : (s.modify id f).functions = s.functions := by unfold modify; split <;> rfl
@[simp] theorem modify_aggregates : (s.modify id f).aggregates = s.aggregates := by unfold modify; split <;> rfl
@[simp] theorem modify_nextClient : (s.modify id f).nextClient = s.nextClient := by unfold modify; split <;> rfl
@[simp] theorem modify_nextName : (s.modify id f).nextName = s.nextName := by unfold modify; split <;> rfl

end Frame

theorem get?_modify (s : Store) (id id' : VectorId) (f : NamedVector → NamedVector) :
    (s.modify id f).get? id' = if id' = id then (s.get? id).map f else s.get? id' := by
  cases h : s.get? id with
  | none =>
    rw [modify_of_none h]
    by_cases hid : id' = id <;> simp [hid, h]
  | some v =>
    rw [modify_of_get? h]
    ext w
    by_cases hid : id' = id
    · subst hid
      have hlt := index_lt_of_get? h
      simp [get?_eq_some_iff, hlt]
    · rw [if_neg hid, get?_eq_some_iff, get?_eq_some_iff, List.getElem?_set]
      split
      · next hi =>
        -- The slot is that of `id`, so its generation is not that of `id'`.
        have hg : id.generation ≠ id'.generation := fun hg => hid (by cases id; cases id'; simp_all)
        have hslot := get?_eq_some_iff.1 h
        rw [hi] at hslot
        simp [hslot, hg]
      · rfl

theorem get?_modify_self (h : s.get? id = some v) : (s.modify id f).get? id = some (f v) := by
  rw [get?_modify, if_pos rfl, h, Option.map_some]

theorem get?_modify_of_ne (h : id' ≠ id) : (s.modify id f).get? id' = s.get? id' := by
  rw [get?_modify, if_neg h]

theorem modify_modify : (s.modify id f).modify id g = s.modify id (g ∘ f) := by
  cases h : s.get? id with
  | none => simp only [modify_of_none h]
  | some v =>
    rw [modify_of_get? (f := g) (get?_modify_self h), modify_of_get? h, modify_of_get? h]
    simp [List.set_set]

theorem modify_congr (h : ∀ v, s.get? id = some v → f v = g v) : s.modify id f = s.modify id g := by
  cases hv : s.get? id with
  | none => rw [modify_of_none hv, modify_of_none hv]
  | some v => rw [modify_of_get? hv, modify_of_get? hv, h v hv]

theorem modify_eq_self (h : ∀ v, s.get? id = some v → f v = v) : s.modify id f = s := by
  cases hv : s.get? id with
  | none => rw [modify_of_none hv]
  | some v =>
    obtain ⟨hlt, hget⟩ := List.getElem?_eq_some_iff.1 (get?_eq_some_iff.1 hv)
    rw [modify_of_get? hv, h v hv, ← hget, List.set_getElem_self]

/-! ## Removing a vector -/

theorem retire_of_get? (h : s.get? id = some v) : s.retire id = { s with
    slots := s.slots.set id.index ⟨id.generation + 1, none⟩
    free := id.index :: s.free
    names := s.names.erase v.name
    links := s.links.filter fun l => !v.clients.any (·.id == l.1) } := by
  unfold retire
  rw [get?_eq_some_iff.1 h]

theorem get?_retire (h : s.get? id = some v) (id' : VectorId) :
    (s.retire id).get? id' = if id' = id then none else s.get? id' := by
  rw [retire_of_get? h]
  ext w
  have hlt := index_lt_of_get? h
  rw [get?_eq_some_iff, List.getElem?_set]
  by_cases hid : id' = id
  · simp [hid, hlt]
  · rw [if_neg hid, get?_eq_some_iff]
    split
    · next hi =>
      have hg : id.generation ≠ id'.generation := fun hg => hid (by cases id; cases id'; simp_all)
      have hslot := get?_eq_some_iff.1 h
      rw [hi] at hslot
      simp [hslot, hg]
    · rfl

end VectorEngine.Store
