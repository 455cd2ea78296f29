/-
Coherence of the slots, the free list and the names: which slots hold a vector
is told the same way by all three.

`Coherent` is kept by the operations that write to them (`Coherent.modify`,
`Coherent.place`, `Coherent.retire`), and from it follow the plain facts:
a name is one vector's, and the names are as many as the occupied slots.
-/
import Mathlib
import VectorEngine.Proofs.Store.Lookup

namespace VectorEngine.Store

variable {s s' : Store} {id id' : VectorId} {v v' : NamedVector}

structure Coherent (s : Store) : Prop where
  sorted : s.names.Sorted
  /-- A name is the id of the vector of that name. -/
  named : ∀ n id, s.names.find? n = some id ↔ ∃ v, s.get? id = some v ∧ v.name = n
  free_nodup : s.free.Nodup
  /-- The free slots are those without a vector. -/
  mem_free : ∀ i, i ∈ s.free ↔ ∃ slot, s.slots[i]? = some slot ∧ slot.vector = none

namespace Coherent

theorem get?_of_find? (h : s.Coherent) {n : String} (hn : s.names.find? n = some id) :
    ∃ v, s.get? id = some v ∧ v.name = n := (h.named n id).1 hn

theorem find?_of_get? (h : s.Coherent) (hv : s.get? id = some v) : s.names.find? v.name = some id :=
  (h.named _ _).2 ⟨v, hv, rfl⟩

theorem lookup_name (h : s.Coherent) (hv : s.get? id = some v) : s.lookup v.name = .ok id :=
  lookup_eq_ok_iff.2 (h.find?_of_get? hv)

/-- Two vectors never share a name. -/
theorem eq_of_name_eq (h : s.Coherent) (hv : s.get? id = some v) (hv' : s.get? id' = some v')
    (hn : v.name = v'.name) : id = id' :=
  Option.some.inj ((h.find?_of_get? hv).symm.trans (hn ▸ h.find?_of_get? hv'))

theorem get?_of_lookup (h : s.Coherent) {n : String} (hn : s.lookup n = .ok id) :
    ∃ v, s.get? id = some v ∧ v.name = n := h.get?_of_find? (lookup_eq_ok_iff.1 hn)

/-- A vector has one entry in the name table. -/
theorem entries_of_get? (h : s.Coherent) (hv : s.get? id = some v) :
    s.names.entries.filter (·.2 = id) = [(v.name, id)] := by
  have hnodup : s.names.entries.Nodup := h.sorted.names_nodup.of_map _
  refine List.perm_singleton.1 ((List.perm_ext_iff_of_nodup (hnodup.filter _) (List.nodup_singleton _)).2 fun e => ?_)
  obtain ⟨n, id'⟩ := e
  simp only [List.mem_filter, h.sorted.mem_entries, h.named, decide_eq_true_eq, List.mem_singleton, Prod.mk.injEq]
  constructor
  · rintro ⟨⟨w, hw, rfl⟩, rfl⟩
    rw [hv, Option.some.injEq] at hw
    exact ⟨hw ▸ rfl, rfl⟩
  · rintro ⟨rfl, rfl⟩
    exact ⟨⟨v, hv, rfl⟩, rfl⟩

/-! ## Counting -/

/-- No two names lead to one slot. -/
theorem nodup_index (h : s.Coherent) : (s.names.entries.map (·.2.index)).Nodup := by
  refine List.pairwise_map.2 (h.sorted.imp_of_mem fun {a b} ha hb hab hi => ?_)
  obtain ⟨v, hv, hvn⟩ := h.get?_of_find? (h.sorted.mem_entries.1 ha)
  obtain ⟨w, hw, hwn⟩ := h.get?_of_find? (h.sorted.mem_entries.1 hb)
  rw [eq_of_index_eq hv hw hi, hw, Option.some.injEq] at hv
  rw [← hvn, ← hwn, hv] at hab
  exact String.lt_irrefl _ hab

/-- The entries of the name table point to the occupied slots, each once. -/
theorem perm_occupied (h : s.Coherent) :
    (s.names.entries.map (·.2.index)).Perm ((s.slots.zipIdx.filter (·.1.vector.isSome)).map (·.2)) := by
  refine (List.perm_ext_iff_of_nodup h.nodup_index ?_).2 fun i => ?_
  · refine List.Nodup.sublist (List.filter_sublist.map _) ?_
    rw [List.zipIdx_map_snd]
    exact List.nodup_range'
  · simp only [List.mem_map, List.mem_filter]
    constructor
    · rintro ⟨⟨n, id⟩, hmem, rfl⟩
      obtain ⟨v, hv, -⟩ := h.get?_of_find? (h.sorted.mem_entries.1 hmem)
      exact ⟨(⟨id.generation, some v⟩, id.index), ⟨List.mem_zipIdx_iff_getElem?.2 (get?_eq_some_iff.1 hv), rfl⟩, rfl⟩
    · rintro ⟨⟨⟨generation, vector⟩, i⟩, ⟨hslot, hsome⟩, rfl⟩
      obtain ⟨v, rfl⟩ := Option.isSome_iff_exists.1 hsome
      have hv : s.get? ⟨i, generation⟩ = some v := get?_eq_some_iff.2 (List.mem_zipIdx_iff_getElem?.1 hslot)
      exact ⟨(v.name, ⟨i, generation⟩), h.sorted.mem_entries.2 (h.find?_of_get? hv), rfl⟩

/-- There are as many names as occupied slots. -/
theorem size_names (h : s.Coherent) : s.names.size = s.slots.countP (·.vector.isSome) := by
  calc s.names.size = (s.names.entries.map (·.2.index)).length := (List.length_map _).symm
    _ = ((s.slots.zipIdx.filter (·.1.vector.isSome)).map (·.2)).length := h.perm_occupied.length_eq
    _ = s.slots.zipIdx.countP (·.1.vector.isSome) := by rw [List.length_map, List.countP_eq_length_filter]
    _ = (s.slots.zipIdx.map (·.1)).countP (·.vector.isSome) := by rw [List.countP_map]; rfl
    _ = s.slots.countP (·.vector.isSome) := by rw [List.zipIdx_map_fst]

/-! ## Operations that keep it -/

theorem congr (h : s.Coherent) (hslots : s'.slots = s.slots) (hfree : s'.free = s.free)
    (hnames : s'.names = s.names) : s'.Coherent := by
  have hget : s'.get? = s.get? := by
    funext id
    simp only [get?, hslots]
  exact ⟨hnames ▸ h.sorted, by rw [hnames, hget]; exact h.named, hfree ▸ h.free_nodup,
    by rw [hfree, hslots]; exact h.mem_free⟩

theorem modify (h : s.Coherent) (id : VectorId) {f : NamedVector → NamedVector} (hf : ∀ v, (f v).name = v.name) :
    (s.modify id f).Coherent := by
  have hlive (n : String) (id' : VectorId) :
      (∃ v, (s.modify id f).get? id' = some v ∧ v.name = n) ↔ ∃ v, s.get? id' = some v ∧ v.name = n := by
    rw [get?_modify]
    split
    · next hid => simp [hid, hf]
    · rfl
  refine ⟨by simpa using h.sorted, fun n id' => ?_, by simpa using h.free_nodup, fun i => ?_⟩
  · rw [modify_names, hlive]
    exact h.named n id'
  · rw [modify_free, h.mem_free]
    cases hv : s.get? id with
    | none => rw [modify_of_none hv]
    | some v =>
      rw [modify_of_get? hv]
      have hslot := get?_eq_some_iff.1 hv
      by_cases hi : id.index = i
      · subst hi
        rw [List.getElem?_set_self (index_lt_of_get? hv), hslot]
        simp
      · simp [List.getElem?_set_ne hi]

end Coherent

/-! ## Placing a vector -/

/-- The two ways to place a vector: in the free slot in front, or in a new one. -/
theorem place_cases (h : s.place v = .ok (s', id)) :
    (∃ free, s.free = id.index :: free ∧ id.generation = (s.slots.getD id.index {}).generation ∧
      s' = { s with
        slots := s.slots.set id.index ⟨id.generation, some v⟩
        free := free
        names := s.names.insert v.name id }) ∨
    (s.free = [] ∧ id = ⟨s.slots.length, 0⟩ ∧
      s' = { s with slots := s.slots ++ [⟨0, some v⟩], names := s.names.insert v.name id }) := by
  unfold place at h
  split at h
  · next index free hfree =>
    simp only [Except.ok.injEq, Prod.mk.injEq] at h
    obtain ⟨rfl, rfl⟩ := h
    exact .inl ⟨free, hfree, rfl, rfl⟩
  · next hfree =>
    simp only at h
    split at h
    · cases h
    · simp only [Except.ok.injEq, Prod.mk.injEq] at h
      obtain ⟨rfl, rfl⟩ := h
      exact .inr ⟨hfree, rfl, rfl⟩

theorem place_names (h : s.place v = .ok (s', id)) : s'.names = s.names.insert v.name id := by
  rcases place_cases h with ⟨_, _, _, rfl⟩ | ⟨_, _, rfl⟩ <;> rfl

theorem place_queue (h : s.place v = .ok (s', id)) : s'.queue = s.queue := by
  rcases place_cases h with ⟨_, _, _, rfl⟩ | ⟨_, _, rfl⟩ <;> rfl

theorem place_nextClient (h : s.place v = .ok (s', id)) : s'.nextClient = s.nextClient := by
  rcases place_cases h with ⟨_, _, _, rfl⟩ | ⟨_, _, rfl⟩ <;> rfl

theorem place_nextName (h : s.place v = .ok (s', id)) : s'.nextName = s.nextName := by
  rcases place_cases h with ⟨_, _, _, rfl⟩ | ⟨_, _, rfl⟩ <;> rfl

namespace Coherent

theorem get?_place (hs : s.Coherent) (h : s.place v = .ok (s', id)) (id' : VectorId) :
    s'.get? id' = if id' = id then some v else s.get? id' := by
  ext w
  rw [get?_eq_some_iff]
  rcases place_cases h with ⟨free, hfree, hg, rfl⟩ | ⟨-, rfl, rfl⟩
  · obtain ⟨⟨generation, vector⟩, hslot, hvec⟩ := (hs.mem_free id.index).1 (by simp [hfree])
    simp only at hvec
    subst hvec
    obtain ⟨hlt, -⟩ := List.getElem?_eq_some_iff.1 hslot
    simp only [List.getD_eq_getElem?_getD, hslot, Option.getD_some] at hg
    by_cases hid : id' = id
    · simp [hid, hlt]
    · rw [if_neg hid, get?_eq_some_iff, List.getElem?_set]
      split
      · next hi =>
        have hne : id.generation ≠ id'.generation := fun hg' => hid (by cases id; cases id'; simp_all)
        rw [← hi]
        simp [hslot, hne]
      · rfl
  · by_cases hid : id' = ⟨s.slots.length, 0⟩
    · simp [hid]
    · rw [if_neg hid, get?_eq_some_iff, List.getElem?_append]
      split
      · rfl
      · next hlt =>
        have hnone : s.slots[id'.index]? = none := List.getElem?_eq_none (Nat.le_of_not_lt hlt)
        have hne : id'.index - s.slots.length = 0 → (0 : UInt32) ≠ id'.generation := by
          intro hi hg
          obtain ⟨index, generation⟩ := id'
          simp only [VectorId.mk.injEq, not_and] at hid hi hg hlt
          exact hid (by omega) hg.symm
        cases hi : id'.index - s.slots.length with
        | zero => simp [hnone, hne hi]
        | succ n => simp [hnone]

theorem vacant_of_place (hs : s.Coherent) (h : s.place v = .ok (s', id)) : s.get? id = none := by
  rcases place_cases h with ⟨free, hfree, -, -⟩ | ⟨-, rfl, -⟩
  · obtain ⟨slot, hslot, hvec⟩ := (hs.mem_free id.index).1 (by simp [hfree])
    simp [get?, hslot, hvec]
  · simp [get?]

theorem place (hs : s.Coherent) (hn : s.names.find? v.name = none) (h : s.place v = .ok (s', id)) : s'.Coherent := by
  have hget := hs.get?_place h
  have hvacant := hs.vacant_of_place h
  refine ⟨place_names h ▸ hs.sorted.insert _ _, fun n id' => ?_, ?_, fun i => ?_⟩
  · rw [place_names h, NameTable.find?_insert, hget]
    by_cases hid : id' = id
    · subst hid
      rw [if_pos rfl]
      split
      · next hvn => simp [hvn]
      · next hvn =>
        -- The old names do not lead to a vacant id.
        have hne : s.names.find? n ≠ some id' := fun hf => by
          obtain ⟨w, hw, -⟩ := hs.get?_of_find? hf
          simp [hvacant] at hw
        simp [hvn, hne]
    · rw [if_neg hid]
      split
      · next hvn =>
        subst hvn
        rw [← hs.named, hn]
        simp [Ne.symm hid]
      · exact hs.named n id'
  · rcases place_cases h with ⟨free, hfree, -, rfl⟩ | ⟨hfree, -, rfl⟩
    · exact (List.nodup_cons.1 (hfree ▸ hs.free_nodup)).2
    · exact hs.free_nodup
  · rcases place_cases h with ⟨free, hfree, -, rfl⟩ | ⟨hfree, -, rfl⟩
    · have hnd := List.nodup_cons.1 (hfree ▸ hs.free_nodup)
      have hmem := hs.mem_free i
      rw [hfree, List.mem_cons] at hmem
      by_cases hi : id.index = i
      · subst hi
        have hlt : id.index < s.slots.length := by
          obtain ⟨slot, hslot, -⟩ := hmem.1 (.inl rfl)
          exact (List.getElem?_eq_some_iff.1 hslot).1
        simp [hnd.1, hlt]
      · simp only [List.getElem?_set_ne hi]
        rw [← hmem]
        simp [Ne.symm hi]
    · have hnone : ¬∃ slot, s.slots[i]? = some slot ∧ slot.vector = none := by
        rw [← hs.mem_free, hfree]
        exact List.not_mem_nil
      simp only [hfree, List.not_mem_nil, false_iff]
      rintro ⟨slot, hslot, hvec⟩
      rw [List.getElem?_append] at hslot
      split at hslot
      · exact hnone ⟨slot, hslot, hvec⟩
      · cases hi : i - s.slots.length with
        | zero => simp [hi] at hslot; subst hslot; cases hvec
        | succ n => simp [hi] at hslot

/-! ## Removing a vector -/

theorem retire (hs : s.Coherent) (hv : s.get? id = some v) : (s.retire id).Coherent := by
  have hget := get?_retire hv
  have hslot := get?_eq_some_iff.1 hv
  rw [retire_of_get? hv] at hget ⊢
  refine ⟨hs.sorted.erase _, fun n id' => ?_, ?_, fun i => ?_⟩
  · rw [NameTable.find?_erase, hget]
    split
    · next hvn =>
      subst hvn
      simp only [reduceCtorEq, false_iff]
      rintro ⟨w, hw, hwn⟩
      split at hw
      · cases hw
      · next hne => exact hne (hs.eq_of_name_eq hw hv hwn)
    · next hvn =>
      rw [hs.named]
      split
      · next hid =>
        subst hid
        simp [hv, hvn]
      · rfl
  · refine List.nodup_cons.2 ⟨fun hmem => ?_, hs.free_nodup⟩
    obtain ⟨slot, hslot', hvec⟩ := (hs.mem_free _).1 hmem
    rw [hslot, Option.some.injEq] at hslot'
    subst hslot'
    cases hvec
  · rw [List.mem_cons, hs.mem_free]
    by_cases hi : id.index = i
    · subst hi
      simp [index_lt_of_get? hv]
    · simp [List.getElem?_set_ne hi, Ne.symm hi]

end Coherent

theorem coherent_empty : ({} : Store).Coherent :=
  ⟨NameTable.sorted_empty, by simp [get?], List.nodup_nil, by simp⟩

end VectorEngine.Store
