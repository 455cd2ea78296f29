/-
Looking a name up after each operation of a name table, and the order of its
entries: the names increase strictly, so a name has one entry at most.
-/
import Mathlib
import VectorEngine.NameTable

namespace VectorEngine.NameTable

variable {β : Type}

@[simp] theorem find?_empty (n : String) : (empty : NameTable β).find? n = none := rfl

theorem contains_eq_false {t : NameTable β} {n : String} : t.contains n = false ↔ t.find? n = none := by
  simp [contains]

theorem find?_insert (t : NameTable β) (n m : String) (x : β) :
    (t.insert n x).find? m = if n = m then some x else t.find? m := by
  obtain ⟨entries⟩ := t
  simp only [find?, insert]
  induction entries with
  | nil => by_cases h : n = m <;> simp [insertEntry, h]
  | cons e rest ih =>
    simp only [insertEntry]
    split
    · by_cases h : n = m <;> simp [List.find?_cons, h]
    split
    · next hn => subst hn; by_cases h : e.1 = m <;> simp [h]
    · next hn =>
      rw [List.find?_cons, List.find?_cons]
      by_cases he : e.1 = m
      · have hnm : n ≠ m := fun h => hn (h.trans he.symm)
        simp [he, hnm]
      · simp only [beq_eq_false_iff_ne.2 he]
        exact ih

theorem find?_erase (t : NameTable β) (n m : String) :
    (t.erase n).find? m = if n = m then none else t.find? m := by
  obtain ⟨entries⟩ := t
  simp only [find?, erase]
  induction entries with
  | nil => simp
  | cons e rest ih =>
    by_cases he : e.1 = n
    · rw [List.filter_cons_of_neg (by simp [he]), ih, List.find?_cons, he]
      by_cases h : n = m
      · simp [h]
      · simp [h, beq_eq_false_iff_ne.2 h]
    · rw [List.filter_cons_of_pos (by simpa using he), List.find?_cons, List.find?_cons]
      by_cases hm : e.1 = m
      · have hnm : n ≠ m := fun h => he (hm.trans h.symm)
        simp [hm, hnm]
      · rw [beq_eq_false_iff_ne.2 hm]
        exact ih

/-! ## The order of the entries -/

/-- The names of the entries increase. -/
def Sorted (t : NameTable β) : Prop := t.entries.Pairwise fun a b => a.1 < b.1

theorem sorted_empty : (empty : NameTable β).Sorted := List.Pairwise.nil

theorem mem_insertEntry {n : String} {x : β} {e : String × β} :
    ∀ {l : List (String × β)}, e ∈ insertEntry n x l → e = (n, x) ∨ e ∈ l
  | [], h => by simpa [insertEntry] using h
  | a :: l, h => by
    simp only [insertEntry] at h
    split at h
    · simpa using h
    split at h
    · rcases List.mem_cons.1 h with h | h
      · exact .inl h
      · exact .inr (List.mem_cons_of_mem _ h)
    · rcases List.mem_cons.1 h with h | h
      · exact .inr (h ▸ List.mem_cons_self)
      · exact (mem_insertEntry h).imp id (List.mem_cons_of_mem _)

theorem Sorted.insert {t : NameTable β} (h : t.Sorted) (n : String) (x : β) : (t.insert n x).Sorted := by
  obtain ⟨entries⟩ := t
  simp only [Sorted, NameTable.insert] at h ⊢
  induction entries with
  | nil => simp [insertEntry]
  | cons a l ih =>
    obtain ⟨ha, hl⟩ := List.pairwise_cons.1 h
    simp only [insertEntry]
    split
    · next hlt =>
      refine List.pairwise_cons.2 ⟨fun b hb => ?_, h⟩
      rcases List.mem_cons.1 hb with rfl | hb
      · exact hlt
      · exact String.lt_trans hlt (ha b hb)
    split
    · next heq => subst heq; exact List.pairwise_cons.2 ⟨ha, hl⟩
    · next hnlt hne =>
      refine List.pairwise_cons.2 ⟨fun b hb => ?_, ih hl⟩
      rcases mem_insertEntry hb with rfl | hb
      · exact Std.lt_of_le_of_ne (String.not_lt.1 hnlt) (Ne.symm hne)
      · exact ha b hb

theorem Sorted.erase {t : NameTable β} (h : t.Sorted) (n : String) : (t.erase n).Sorted := List.Pairwise.filter _ h

theorem Sorted.names_nodup {t : NameTable β} (h : t.Sorted) : t.names.Nodup :=
  List.pairwise_map.2 (h.imp fun hab heq => absurd (heq ▸ hab) (String.lt_irrefl _))

/-- A table holds the entries that looking up their names finds. -/
theorem Sorted.mem_entries {t : NameTable β} (h : t.Sorted) {n : String} {x : β} :
    (n, x) ∈ t.entries ↔ t.find? n = some x := by
  have hnd := h.names_nodup
  obtain ⟨entries⟩ := t
  simp only [names, find?, Option.map_eq_some_iff] at hnd ⊢
  constructor
  · intro hmem
    refine ⟨(n, x), ?_, rfl⟩
    induction entries with
    | nil => cases hmem
    | cons a l ih =>
      rw [List.map_cons, List.nodup_cons] at hnd
      rcases List.mem_cons.1 hmem with rfl | hmem
      · simp
      · have hne : a.1 ≠ n := fun he => hnd.1 (List.mem_map.2 ⟨(n, x), hmem, he.symm⟩)
        rw [List.find?_cons, beq_eq_false_iff_ne.2 hne]
        exact ih (List.Pairwise.of_cons h) hnd.2 hmem
  · rintro ⟨⟨m, y⟩, hfind, rfl⟩
    have hm : m = n := by simpa using List.find?_some hfind
    exact hm ▸ List.mem_of_find?_eq_some hfind

theorem contains_iff_mem_names {t : NameTable β} {n : String} : t.contains n = true ↔ n ∈ t.names := by
  simp [contains, find?, names, List.find?_isSome]

end VectorEngine.NameTable
