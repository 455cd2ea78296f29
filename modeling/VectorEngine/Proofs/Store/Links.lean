/-
The links of the registrations: `serverOf` leads from a client to the vector it
is registered with, and nowhere else.

Every change keeps `Linked`, the release of a registration included, which takes
the client from its vector together with the link.
-/
import Mathlib
import VectorEngine.Proofs.Store.Start
import VectorEngine.Proofs.Store.Registration

namespace VectorEngine.Store

variable {W : VectorId → Prop} {s s' : Store} {id id' : VectorId} {v : NamedVector} {c c' : ClientId}

/-- A link leads to the vector the client is registered with. -/
def Linked (s : Store) : Prop := ∀ c id, s.serverOf c = some id ↔ s.registers id c = true

theorem Linked.congr (h : s.Linked) (hlinks : s'.links = s.links)
    (hregisters : ∀ id c, s'.registers id c = s.registers id c) : s'.Linked := by
  intro c id
  rw [hregisters, ← h, serverOf, hlinks, serverOf]

/-- A client is registered with one vector at most. -/
theorem Linked.eq (h : s.Linked) (hid : s.registers id c = true) (hid' : s.registers id' c = true) : id = id' :=
  Option.some.inj (((h c id).2 hid).symm.trans ((h c id').2 hid'))

theorem Linked.serverOf_eq_none (h : s.Linked) (hno : ∀ id, s.registers id c = false) : s.serverOf c = none := by
  cases hserver : s.serverOf c with
  | none => rfl
  | some id =>
    have hregisters := (h c id).1 hserver
    rw [hno id] at hregisters
    cases hregisters

/-- Links are dropped by client. -/
theorem serverOf_filter (keep : ClientId → Bool) (hlinks : s'.links = s.links.filter fun l => keep l.1) (c : ClientId) :
    s'.serverOf c = if keep c then s.serverOf c else none := by
  have hboth : (fun l : ClientId × VectorId => decide (keep l.1 ∧ l.1 == c)) = fun l => keep c && l.1 == c := by
    funext l
    by_cases hl : l.1 = c <;> simp [hl]
  rw [serverOf, hlinks, List.find?_filter, hboth]
  cases keep c <;> simp [serverOf]

/-! ## Who is registered after a change -/

theorem registers_modify {f : NamedVector → NamedVector} (hf : ∀ v, (f v).clients = v.clients) (id' : VectorId)
    (c : ClientId) : (s.modify id f).registers id' c = s.registers id' c := by
  unfold registers
  rw [get?_modify]
  split
  · next hid =>
    rw [hid]
    cases s.get? id with
    | none => rfl
    | some v => simp [hf]
  · rfl

theorem registers_retire (hv : s.get? id = some v) (id' : VectorId) (c : ClientId) :
    (s.retire id).registers id' c = (decide (id' ≠ id) && s.registers id' c) := by
  unfold registers
  rw [get?_retire hv]
  by_cases hid : id' = id <;> simp [hid]

theorem registers_schedule (s : Store) (id id' : VectorId) (c : ClientId) :
    (s.schedule id).registers id' c = s.registers id' c := by
  cases hv : s.get? id with
  | none => rw [schedule_of_none hv]
  | some v =>
    by_cases hp : v.state = .pending
    · rw [schedule_of_pending hv hp]
    · rw [schedule_of_not_pending hv hp]
      exact registers_modify (f := fun v => { v with state := .pending }) (fun _ => rfl) id' c

theorem registers_place (hs : s.Coherent) (hfresh : v.Fresh) (h : s.place v = .ok (s', id)) (id' : VectorId)
    (c : ClientId) : s'.registers id' c = s.registers id' c := by
  unfold registers
  rw [hs.get?_place h]
  split
  · next hid => simp [hid, hs.vacant_of_place h, hfresh.clients]
  · rfl

theorem place_links (h : s.place v = .ok (s', id)) : s'.links = s.links := by
  rcases place_cases h with ⟨_, _, _, rfl⟩ | ⟨_, _, rfl⟩ <;> rfl

theorem schedule_links (s : Store) (id : VectorId) : (s.schedule id).links = s.links := by
  cases hv : s.get? id with
  | none => rw [schedule_of_none hv]
  | some v =>
    by_cases hp : v.state = .pending
    · rw [schedule_of_pending hv hp]
    · simp only [schedule_of_not_pending hv hp, modify_links]

/-! ## Removing a vector -/

theorem Linked.retire (h : s.Linked) (hv : s.get? id = some v) : (s.retire id).Linked := by
  intro c id'
  have hfilter : (s.retire id).links = s.links.filter fun l => !v.clients.any (·.id == l.1) := by rw [retire_of_get? hv]
  rw [serverOf_filter (fun c => !v.clients.any (·.id == c)) hfilter, registers_retire hv,
    ← registers_of_get? hv]
  cases hreg : s.registers id c with
  | false =>
    have hne : s.registers id' c = true → id' ≠ id := by
      rintro htrue rfl
      rw [hreg] at htrue
      cases htrue
    simpa [h c id'] using hne
  | true =>
    have hne : s.registers id' c = true → id' = id := fun hreg' => h.eq hreg' hreg
    simpa using fun hid => Bool.eq_false_iff.2 fun hreg' => hid (hne hreg')

/-! ## Registering -/

/-- A client that is registered has a number given out before. -/
theorem Registered.old (h : s.Registered) (hreg : s.registers id c = true) : c.number < s.nextClient := by
  obtain ⟨v, hv, hmem⟩ := registers_iff.1 hreg
  obtain ⟨x, hx, rfl⟩ := List.mem_map.1 hmem
  exact h.below id v hv x hx

theorem Registered.not_next (h : s.Registered) (id : VectorId) : s.registers id ⟨s.nextClient⟩ = false :=
  Bool.eq_false_iff.2 fun hreg => Nat.lt_irrefl _ (h.old hreg)

theorem Linked.register (h : s.Linked) (hr : s.Registered) (id : VectorId) (listens : Bool) :
    (s.registerClient id listens).1.Linked := by
  cases hv : s.get? id with
  | none =>
    rw [registerClient_of_none hv]
    exact h.congr rfl fun _ _ => rfl
  | some v =>
    cases hd : v.destroying with
    | true =>
      rw [registerClient_of_destroying hv hd]
      exact h.congr rfl fun _ _ => rfl
    | false =>
      rw [registerClient_of_get? hv hd]
      intro c id'
      let s₁ : Store := { s with nextClient := s.nextClient + 1 }
      let f : NamedVector → NamedVector := fun v => { v with clients := v.clients ++ [⟨⟨s.nextClient⟩, listens⟩] }
      have hv₁ : s₁.get? id = some v := hv
      show (List.find? (·.1 == c) ((⟨s.nextClient⟩, id) :: s.links)).map (·.2) = some id' ↔
        (s₁.modify id f).registers id' c = true
      have hreg : (s₁.modify id f).registers id' c =
          (s.registers id' c || decide (id' = id) && decide (⟨s.nextClient⟩ = c)) := by
        by_cases hid : id' = id
        · subst hid
          rw [registers_of_get? (get?_modify_self hv₁), registers_of_get? hv]
          simp [f, Bool.beq_eq_decide_eq]
        · simp only [registers, get?_modify_of_ne hid, hid, decide_false, Bool.false_and, Bool.or_false]
          rfl
      rw [hreg, List.find?_cons]
      by_cases hc : (⟨s.nextClient⟩ : ClientId) = c
      · subst hc
        simp [hr.not_next, eq_comm]
      · have hne : ((⟨s.nextClient⟩ : ClientId) == c) = false := by simpa using hc
        simpa only [hne, hc, serverOf, decide_false, Bool.and_false, Bool.or_false] using h c id'

/-! ## Releasing -/

/-- Releasing does nothing if the client is registered with no vector, and else
takes it from its vector. -/
theorem Linked.release_cases (h : s.Linked) (c : ClientId) :
    (∀ id, s.registers id c = false) ∧ (s.releaseClient c).1 = s ∨
    ∃ id v, s.get? id = some v ∧ s.registers id c = true ∧ (s.releaseClient c).1 =
      { s.modify id fun v => { v with clients := v.clients.eraseP (·.id == c) } with
        links := s.links.filter (·.1 != c) } := by
  unfold releaseClient
  split
  · next hserver =>
    refine .inl ⟨fun id => Bool.eq_false_iff.2 fun hreg => ?_, rfl⟩
    rw [← h, hserver] at hreg
    cases hreg
  · next server hserver =>
    obtain ⟨v, hv, -⟩ := registers_iff.1 ((h c server).1 hserver)
    have hany : v.clients.any (·.id == c) = true := registers_of_get? hv ▸ (h c server).1 hserver
    simp only [hv, hany, if_true]
    exact .inr ⟨server, v, hv, (h c server).1 hserver, by simp only [modify_links]⟩

/-- A client that stands once on a list is taken from it together with all of its
entries. -/
theorem eraseP_eq_filter {clients : List Client} (hnodup : (clients.map (·.id)).Nodup) (c : ClientId) :
    clients.eraseP (·.id == c) = clients.filter (·.id != c) := by
  induction clients with
  | nil => rfl
  | cons x clients ih =>
    obtain ⟨hx, hnodup⟩ := List.nodup_cons.1 hnodup
    by_cases hxc : x.id = c
    · subst hxc
      have hrest : clients.filter (·.id != x.id) = clients :=
        List.filter_eq_self.2 fun y hy => by simpa using fun he => hx (List.mem_map.2 ⟨y, hy, he⟩)
      rw [List.eraseP_cons_of_pos (by simp), List.filter_cons_of_neg (by simp), hrest]
    · rw [List.eraseP_cons_of_neg (by simpa using hxc), List.filter_cons_of_pos (by simpa using hxc), ih hnodup]

theorem any_eraseP {clients : List Client} (hnodup : (clients.map (·.id)).Nodup) (c c' : ClientId) :
    (clients.eraseP (·.id == c)).any (·.id == c') = (clients.any (·.id == c') && decide (c' ≠ c)) := by
  rw [eraseP_eq_filter hnodup, List.any_filter]
  by_cases hc : c' = c
  · subst hc
    simp
  · have hkept : ∀ x : Client, (x.id != c && x.id == c') = (x.id == c') := fun x => by
      by_cases hx : x.id = c' <;> simp [hx, hc]
    simp only [hkept, hc, ne_eq, not_false_eq_true, decide_true, Bool.and_true]

/-- After its release a client is registered with no vector; the others stay. -/
theorem registers_release (h : s.Linked) (hr : s.Registered) (c : ClientId) (id' : VectorId) (c' : ClientId) :
    (s.releaseClient c).1.registers id' c' = (s.registers id' c' && decide (c' ≠ c)) := by
  rcases h.release_cases c with ⟨hno, he⟩ | ⟨id, v, hv, hreg, he⟩
  · rw [he]
    by_cases hc : c' = c
    · simp [hc, hno]
    · simp [hc]
  · let f : NamedVector → NamedVector := fun v => { v with clients := v.clients.eraseP (·.id == c) }
    have hmodify : (s.releaseClient c).1.registers id' c' = (s.modify id f).registers id' c' := by rw [he]; rfl
    rw [hmodify]
    by_cases hid : id' = id
    · subst hid
      rw [registers_of_get? (get?_modify_self hv), registers_of_get? hv]
      exact any_eraseP (hr.nodup _ v hv) c c'
    · rw [registers, get?_modify_of_ne hid, ← registers]
      by_cases hc : c' = c
      · subst hc
        have hno : s.registers id' c' = false := Bool.eq_false_iff.2 fun hreg' => hid (h.eq hreg' hreg)
        simp [hno]
      · simp [hc]

theorem Linked.release (h : s.Linked) (hr : s.Registered) (c : ClientId) : (s.releaseClient c).1.Linked := by
  intro c' id'
  rw [registers_release h hr]
  rcases h.release_cases c with ⟨hno, he⟩ | ⟨id, v, -, -, he⟩
  · rw [he, h]
    by_cases hc : c' = c
    · simp [hc, hno]
    · simp [hc]
  · have hlinks : (s.releaseClient c).1.links = s.links.filter fun l => l.1 != c := by rw [he]
    rw [serverOf_filter (· != c) hlinks]
    by_cases hc : c' = c
    · simp [hc]
    · simpa [hc] using h c' id'

/-! ## All changes -/

theorem Linked.change (h : s.Linked) (hs : s.Coherent) (hr : s.Registered) (hc : Change W s s') : s'.Linked := by
  cases hc with
  | settings => exact h.congr rfl fun _ _ => rfl
  | contents id | takeBack | policy id => exact h.congr (modify_links s _ _) (registers_modify fun _ => rfl)
  | place hfresh _ hplace => exact h.congr (place_links hplace) (registers_place hs hfresh hplace)
  | discard hv => exact h.retire hv
  | schedule id => exact h.congr (schedule_links s id) (registers_schedule s id)
  | register id listens => exact h.register hr id listens
  | release c => exact h.release hr c

theorem Opening.linked {d? : Option Delivery} (ho : Opening s s' d?) (h : s.Linked) : s'.Linked := by
  cases ho with
  | nothing => exact h
  | update | destroy => exact h.congr (modify_links s _ _) (registers_modify fun _ => rfl)

theorem linked_empty : ({} : Store).Linked := by
  intro c id
  simp [serverOf, registers, get?]

end VectorEngine.Store
