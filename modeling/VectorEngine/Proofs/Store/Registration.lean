/-
Registrations: every client number is given out once, and registered with one
vector at most.
-/
import Mathlib
import VectorEngine.Proofs.Store.Evolution

namespace VectorEngine

/-! ## The next client of a fan-out -/

namespace Delivery

variable {registered waiting rest : List Client} {c : ClientId} {n k : Nat}

/-- The next client called is one of those waiting, is registered, and listens. -/
theorem nextListener_some (h : nextListener registered waiting n = (some (c, rest), k)) :
    ∃ skipped x, waiting = skipped ++ x :: rest ∧ x.id = c ∧ x.listens = true ∧ c ∈ registered.map (·.id) := by
  induction waiting generalizing n with
  | nil => cases h
  | cons x waiting ih =>
    simp only [nextListener] at h
    split at h
    · next hregistered =>
      split at h
      · next hlistens =>
        cases h
        refine ⟨[], x, rfl, rfl, hlistens, ?_⟩
        obtain ⟨y, hy, hyx⟩ := List.any_eq_true.1 hregistered
        exact List.mem_map.2 ⟨y, hy, by simpa using hyx⟩
      · obtain ⟨skipped, y, rfl, hy⟩ := ih h
        exact ⟨x :: skipped, y, rfl, hy⟩
    · obtain ⟨skipped, y, rfl, hy⟩ := ih h
      exact ⟨x :: skipped, y, rfl, hy⟩

/-- While a registered client that listens is waiting, a client is called. -/
theorem nextListener_of_mem {x : Client} (hx : x ∈ waiting) (hlistens : x.listens = true)
    (hregistered : x.id ∈ registered.map (·.id)) :
    ∃ c rest k, nextListener registered waiting n = (some (c, rest), k) := by
  induction waiting generalizing n with
  | nil => cases hx
  | cons y waiting ih =>
    simp only [nextListener]
    split
    · split
      · exact ⟨_, _, _, rfl⟩
      · next hsilent =>
        rcases List.mem_cons.1 hx with rfl | hx
        · exact absurd hlistens hsilent
        · exact ih hx
    · next hgone =>
      rcases List.mem_cons.1 hx with rfl | hx
      · obtain ⟨y, hy, hyx⟩ := List.mem_map.1 hregistered
        exact absurd (List.any_eq_true.2 ⟨y, hy, by simpa using hyx⟩) hgone
      · exact ih hx

end Delivery

namespace Store

variable {W : VectorId → Prop} {s s' : Store} {id : VectorId} {v v' : NamedVector}

/-- The numbers of the registrations are given out once each, to one vector. -/
structure Registered (s : Store) : Prop where
  below : ∀ id v, s.get? id = some v → ∀ c ∈ v.clients, c.id.number < s.nextClient
  nodup : ∀ id v, s.get? id = some v → (v.clients.map (·.id)).Nodup
  apart : ∀ id id' v v', s.get? id = some v → s.get? id' = some v' → ∀ c ∈ v.clients, ∀ c' ∈ v'.clients,
    c.id = c'.id → id = id'

/-- The vectors of `s'` are vectors of `s`, with the same clients. -/
structure Inherits (s s' : Store) : Prop where
  nextClient : s'.nextClient = s.nextClient
  vector : ∀ id v', s'.get? id = some v' → ∃ v, s.get? id = some v ∧ v'.clients = v.clients ∧
    (v.destroying = true → v'.destroying = true)

theorem Inherits.refl (s : Store) : s.Inherits s := ⟨rfl, fun _ v hv => ⟨v, hv, rfl, id⟩⟩

theorem inherits_modify (s : Store) (id : VectorId) {f : NamedVector → NamedVector}
    (hf : ∀ v, (f v).clients = v.clients) (hd : ∀ v, v.destroying = true → (f v).destroying = true) :
    s.Inherits (s.modify id f) where
  nextClient := modify_nextClient s id f
  vector id' v' hv' := by
    rw [get?_modify] at hv'
    split at hv'
    · next hid =>
      obtain ⟨v, hv, rfl⟩ := Option.map_eq_some_iff.1 hv'
      exact ⟨v, hid ▸ hv, hf v, hd v⟩
    · exact ⟨v', hv', rfl, fun h => h⟩

theorem inherits_retire (hv : s.get? id = some v) : s.Inherits (s.retire id) where
  nextClient := by rw [retire_of_get? hv]
  vector id' v' hv' := by
    rw [get?_retire hv] at hv'
    split at hv'
    · cases hv'
    · exact ⟨v', hv', rfl, fun h => h⟩

namespace Registered

theorem inherits (h : s.Registered) (hi : s.Inherits s') : s'.Registered where
  below id v' hv' c hc := by
    obtain ⟨v, hv, hclients, -⟩ := hi.vector id v' hv'
    rw [hi.nextClient]
    exact h.below id v hv c (hclients ▸ hc)
  nodup id v' hv' := by
    obtain ⟨v, hv, hclients, -⟩ := hi.vector id v' hv'
    exact hclients ▸ h.nodup id v hv
  apart id id' u' w' hu' hw' c hc c' hc' := by
    obtain ⟨u, hu, huc, -⟩ := hi.vector id u' hu'
    obtain ⟨w, hw, hwc, -⟩ := hi.vector id' w' hw'
    exact h.apart id id' u w hu hw c (huc ▸ hc) c' (hwc ▸ hc')

end Registered

/-- A client after a change was one before, or has just been registered. -/
theorem Change.mem_clients (h : Change W s s') (hs : s.Coherent) (hv' : s'.get? id = some v') {c : Client}
    (hc : c ∈ v'.clients) : (∃ v, s.get? id = some v ∧ c ∈ v.clients ∧ v'.destroying = v.destroying) ∨
      c.id = ⟨s.nextClient⟩ ∧ s'.nextClient = s.nextClient + 1 ∧ s'.links = (⟨s.nextClient⟩, id) :: s.links := by
  have he := h.evolves hs id
  rw [hv'] at he
  generalize s.get? id = o at he ⊢
  cases he with
  | placed hfresh =>
    rw [hfresh.clients] at hc
    cases hc
  | kept hkept =>
    rcases hkept.clients with hsub | ⟨listens, -, happend, hnext, hlinks⟩
    · exact .inl ⟨_, rfl, hsub.subset hc, hkept.destroying⟩
    · rw [happend] at hc
      rcases List.mem_append.1 hc with hc | hc
      · exact .inl ⟨_, rfl, hc, hkept.destroying⟩
      · rw [List.mem_singleton] at hc
        exact .inr ⟨hc ▸ rfl, hnext, hlinks⟩

theorem Registered.change (h : s.Registered) (hs : s.Coherent) (hc : Change W s s') : s'.Registered where
  below id v' hv' c hmem := by
    rcases hc.mem_clients hs hv' hmem with ⟨v, hv, hold, -⟩ | ⟨hnew, hnext, -⟩
    · exact Nat.lt_of_lt_of_le (h.below id v hv c hold) hc.nextClient
    · rw [hnew, hnext]
      exact Nat.lt_succ_self _
  nodup id v' hv' := by
    have he := hc.evolves hs id
    rw [hv'] at he
    generalize hv : s.get? id = o at he
    cases he with
    | placed hfresh => simp [hfresh.clients]
    | @kept v _ hkept =>
      rcases hkept.clients with hsub | ⟨listens, -, happend, -, -⟩
      · exact (h.nodup id v hv).sublist (hsub.map _)
      · rw [happend, List.map_append]
        refine List.nodup_append.2 ⟨h.nodup id v hv, by simp, fun a ha b hb => ?_⟩
        obtain ⟨c, hc, rfl⟩ := List.mem_map.1 ha
        have hb : b = ⟨s.nextClient⟩ := by simpa using hb
        rintro rfl
        have hlt := h.below id v hv c hc
        rw [hb] at hlt
        exact Nat.lt_irrefl _ hlt
  apart id id' u' w' hu' hw' c hmem c' hmem' hcc := by
    rcases hc.mem_clients hs hu' hmem with ⟨u, hu, hold, -⟩ | ⟨hnew, -, hlinks⟩ <;>
      rcases hc.mem_clients hs hw' hmem' with ⟨w, hw, hold', -⟩ | ⟨hnew', -, hlinks'⟩
    · exact h.apart id id' u w hu hw c hold c' hold' hcc
    · have hlt := h.below id u hu c hold
      rw [hcc, hnew'] at hlt
      exact absurd hlt (Nat.lt_irrefl _)
    · have hlt := h.below id' w hw c' hold'
      rw [← hcc, hnew] at hlt
      exact absurd hlt (Nat.lt_irrefl _)
    · rw [hlinks] at hlinks'
      exact congrArg Prod.snd (List.cons.inj hlinks').1

theorem registered_empty : ({} : Store).Registered := ⟨by simp [get?], by simp [get?], by simp [get?]⟩

end Store
end VectorEngine
