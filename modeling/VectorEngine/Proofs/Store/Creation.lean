/-
What creating a vector does: a name that is no vector's is chosen, and a vector
under it that nobody has asked anything of is placed.
-/
import Mathlib
import VectorEngine.Proofs.Number.Literal
import VectorEngine.Proofs.Outcome
import VectorEngine.Proofs.Store.Coherence

namespace VectorEngine

/-- A vector as it is created: without clients, and with nothing under way. -/
structure NamedVector.Fresh (v : NamedVector) : Prop where
  state : v.state = .idle
  clients : v.clients = []
  destroying : v.destroying = false
  notifying : v.notifying = false

namespace Store

variable {s s' : Store} {id : VectorId} {n : String} {name? : Option String} {e : Error}

theorem generatedName_injective : Function.Injective generatedName := by
  intro i j h
  exact Nat.repr_injective ((String.append_right_inj _).1 h)

/-- A generated name reads as a name. -/
theorem isName_generatedName (i : Nat) : Lexer.isName (generatedName i) = true := by
  have hchars : (generatedName i).toList = 'v' :: ("ector".toList ++ Nat.toDigits 10 i) := by
    rw [generatedName, String.toList_append, Nat.toString_eq_repr, Nat.toList_repr]
    rfl
  have hdigits : ∀ c ∈ Nat.toDigits 10 i, Lexer.isNameChar c = true := by
    intro c hc
    have hdigit : c.isDigit = true := Nat.isDigit_of_mem_toDigits (by decide) (by decide) hc
    have hascii : c.toNat < 128 := Nat.lt_of_le_of_lt (Decimal.toNat_of_isDigit hdigit).2 (by decide)
    simp [Lexer.isNameChar, Text.isAlphanumeric, hascii, Char.isAlphanum, hdigit]
  rw [Lexer.isName, hchars]
  dsimp only
  rw [List.all_append, List.all_eq_true.2 hdigits]
  decide

/-- Where the search for a free number stops: before it only numbers in use, and
at it a free one unless the tries have run out. -/
theorem freeNumber_cases (s : Store) : ∀ tries i, ∃ k ≤ tries, s.freeNumber tries i = i + k ∧
    (∀ j < k, s.names.contains (generatedName (i + j)) = true) ∧
    (k < tries → s.names.contains (generatedName (i + k)) = false)
  | 0, i => ⟨0, Nat.le_refl 0, rfl, fun _ hj => absurd hj (Nat.not_lt_zero _), fun h => absurd h (Nat.lt_irrefl 0)⟩
  | tries + 1, i => by
    rw [freeNumber]
    split
    · next hused =>
      obtain ⟨k, hk, heq, hbefore, hat⟩ := freeNumber_cases s tries (i + 1)
      refine ⟨k + 1, by omega, by omega, fun j hj => ?_, fun h => ?_⟩
      · cases j with
        | zero => exact hused
        | succ j =>
          have := hbefore j (by omega)
          rwa [Nat.add_assoc, Nat.add_comm 1 j] at this
      · have := hat (by omega)
        rwa [Nat.add_assoc, Nat.add_comm 1 k] at this
    · next hfree => exact ⟨0, by omega, rfl, fun _ hj => absurd hj (Nat.not_lt_zero _), fun _ => by simpa using hfree⟩

/-- With as many tries as there are names the search finds a free number: more
numbers than names cannot all be in use. -/
theorem contains_freeNumber (s : Store) (i : Nat) :
    s.names.contains (generatedName (s.freeNumber s.names.size i)) = false := by
  obtain ⟨k, hk, heq, hbefore, hat⟩ := freeNumber_cases s s.names.size i
  rw [heq]
  rcases Nat.lt_or_eq_of_le hk with hlt | hlast
  · exact hat hlt
  by_contra hused
  have hall : ∀ j ∈ List.range (k + 1), s.names.contains (generatedName (i + j)) = true := by
    intro j hj
    rcases Nat.lt_or_eq_of_le (Nat.le_of_lt_succ (List.mem_range.1 hj)) with hj | rfl
    · exact hbefore j hj
    · simpa using hused
  have hnodup : ((List.range (k + 1)).map fun j => generatedName (i + j)).Nodup :=
    List.nodup_range.map fun a b hab => Nat.add_left_cancel (generatedName_injective hab)
  have hsub : ((List.range (k + 1)).map fun j => generatedName (i + j)) ⊆ s.names.names := by
    intro n hn
    obtain ⟨j, hj, rfl⟩ := List.mem_map.1 hn
    exact NameTable.contains_iff_mem_names.1 (hall j hj)
  have hle := (hnodup.subperm hsub).length_le
  simp only [List.length_map, List.length_range, NameTable.names, NameTable.size] at hle hlast
  omega

theorem chooseName_store (s : Store) (name? : Option String) :
    ∃ m, (s.chooseName name?).1 = { s with nextName := m } := by
  unfold chooseName
  split
  · split <;> exact ⟨s.nextName, rfl⟩
  · exact ⟨_, rfl⟩

theorem chooseName_fresh (h : s.chooseName name? = (s', .ok n)) : s.names.find? n = none := by
  unfold chooseName at h
  split at h
  · next name =>
    split at h
    · simp at h
    · next hnone =>
      simp only [Prod.mk.injEq, Except.ok.injEq] at h
      obtain ⟨-, rfl⟩ := h
      unfold nameRefusal? at hnone
      split at hnone
      · cases hnone
      split at hnone
      · cases hnone
      · next hfree => exact NameTable.contains_eq_false.1 (by simpa using hfree)
  · simp only [Prod.mk.injEq, Except.ok.injEq] at h
    obtain ⟨-, rfl⟩ := h
    exact NameTable.contains_eq_false.1 (contains_freeNumber s _)

/-- A name is generated from the first free number on, which is passed then. -/
theorem chooseName_none (s : Store) : ∃ k ≤ s.names.size,
    (∀ j < k, s.names.contains (generatedName (s.nextName + j)) = true) ∧
      s.names.contains (generatedName (s.nextName + k)) = false ∧
      s.chooseName none = ({ s with nextName := s.nextName + k + 1 }, .ok (generatedName (s.nextName + k))) := by
  have hfree := contains_freeNumber s s.nextName
  obtain ⟨k, hk, heq, hbefore, -⟩ := freeNumber_cases s s.names.size s.nextName
  refine ⟨k, hk, hbefore, heq ▸ hfree, ?_⟩
  rw [chooseName, heq]

theorem chooseName_nextName (s : Store) (name? : Option String) : s.nextName ≤ (s.chooseName name?).1.nextName := by
  cases name? with
  | none =>
    obtain ⟨k, -, -, -, hchoose⟩ := chooseName_none s
    rw [hchoose]
    exact Nat.le_trans (Nat.le_add_right _ k) (Nat.le_succ _)
  | some name =>
    simp only [chooseName]
    split <;> exact Nat.le_refl _

/-- Under the name chosen a vector is placed. -/
theorem create_ok_iff {s₁ : Store} (hchoose : s.chooseName name? = (s₁, .ok n)) :
    s.create name? = (s', .ok id) ↔ ∃ series, Series.withCapacity s₁.config.defaultCapacity = .ok series ∧
      s₁.place { name := n, series := series, policy := s₁.config.policy } = .ok (s', id) := by
  rw [← bind_ok_iff]
  unfold create
  rw [hchoose]
  dsimp only
  split
  · next placed hplaced => simp [hplaced]
  · next e hplaced => simp [hplaced]

theorem create_nextName (s : Store) (name? : Option String) : s.nextName ≤ (s.create name?).1.nextName := by
  have hchosen := chooseName_nextName s name?
  rcases hcreate : s.create name? with ⟨s', e | id⟩
  · unfold create at hcreate
    split at hcreate
    · next hchoose =>
      cases hcreate
      rw [hchoose] at hchosen
      exact hchosen
    · next hchoose =>
      rw [hchoose] at hchosen
      dsimp only at hcreate
      split at hcreate <;> cases hcreate
      exact hchosen
  · rcases hchoose : s.chooseName name? with ⟨s₁, e | n⟩
    · rw [create, hchoose] at hcreate
      cases hcreate
    · obtain ⟨series, -, hplace⟩ := (create_ok_iff hchoose).1 hcreate
      rw [hchoose] at hchosen
      exact place_nextName hplace ▸ hchosen

/-- The counter for names has no part in the placing. -/
theorem place_counter (s : Store) (m : Nat) (v : NamedVector) : ({ s with nextName := m }).place v =
    (s.place v).map fun (s', id) => ({ s' with nextName := m }, id) := by
  unfold place
  cases s.free with
  | cons => rfl
  | nil =>
    dsimp only
    split <;> rfl

theorem create_error (h : s.create name? = (s', .error e)) : ∃ m, s' = { s with nextName := m } := by
  unfold create at h
  obtain ⟨m, hm⟩ := chooseName_store s name?
  split at h
  · next hchoose =>
    simp only [Prod.mk.injEq] at h
    exact ⟨m, by rw [← h.1, ← hm, hchoose]⟩
  · next hchoose =>
    dsimp only at h
    split at h
    · simp at h
    · simp only [Prod.mk.injEq] at h
      exact ⟨m, by rw [← h.1, ← hm, hchoose]⟩

theorem create_ok (h : s.create name? = (s', .ok id)) :
    ∃ m v, NamedVector.Fresh v ∧ s.names.find? v.name = none ∧ { s with nextName := m }.place v = .ok (s', id) := by
  unfold create at h
  obtain ⟨m, hm⟩ := chooseName_store s name?
  split at h
  · simp at h
  · next s₁ n hchoose =>
    dsimp only at h
    split at h
    · next placed hplaced =>
      simp only [Prod.mk.injEq, Except.ok.injEq] at h
      obtain ⟨rfl, rfl⟩ := h
      have hs₁ : s₁ = { s with nextName := m } := by rw [← hm, hchoose]
      cases hseries : Series.withCapacity s₁.config.defaultCapacity with
      | error e => rw [hseries] at hplaced; cases hplaced
      | ok series =>
        rw [hseries] at hplaced
        refine ⟨m, { name := n, series := series, policy := s₁.config.policy }, ⟨rfl, rfl, rfl, rfl⟩,
          chooseName_fresh hchoose, ?_⟩
        rw [← hs₁]
        exact hplaced
    · simp at h

/-- A new id named no vector before. -/
theorem vacant_of_create (hs : s.Coherent) (h : s.create name? = (s', .ok id)) : s.get? id = none := by
  obtain ⟨m, v, -, -, hplace⟩ := create_ok h
  have hm : ({ s with nextName := m } : Store).Coherent := hs.congr rfl rfl rfl
  exact hm.vacant_of_place hplace

/-- The vector created is the only one not there before. -/
theorem get?_of_create (hs : s.Coherent) (h : s.create name? = (s', .ok id)) :
    ∃ v, NamedVector.Fresh v ∧ ∀ id', s'.get? id' = if id' = id then some v else s.get? id' := by
  obtain ⟨m, v, hfresh, -, hplace⟩ := create_ok h
  have hm : ({ s with nextName := m } : Store).Coherent := hs.congr rfl rfl rfl
  exact ⟨v, hfresh, hm.get?_place hplace⟩

end Store
end VectorEngine
