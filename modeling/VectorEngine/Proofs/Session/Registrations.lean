/-
Registrations: what the link of a client says of it is so.

A client is registered in two places, on the list of its vector and by its link.
`Store.Linked` has the two agree; here are the order of the lists, which have new
clients at their end, and what a release takes away: the one entry and the one
link (`Linked.releaseClient`).
-/
import Mathlib
import VectorEngine.Proofs.Session.Persistence

namespace VectorEngine

/-- The vector without one of its clients. -/
def NamedVector.withoutClient (v : NamedVector) (c : ClientId) : NamedVector :=
  { v with clients := v.clients.filter (·.id != c) }

/-- The store without the registration of a client, and else as it is. -/
def Store.withoutClient (s : Store) (c : ClientId) : Store :=
  { s with
    slots := s.slots.map fun slot => { slot with vector := slot.vector.map (·.withoutClient c) }
    links := s.links.filter (·.1 != c) }

/-! ## Releasing -/

theorem NamedVector.withoutClient_eq_self {v : NamedVector} {c : ClientId} (h : v.clients.any (·.id == c) = false) :
    v.withoutClient c = v := by
  have hfilter : v.clients.filter (·.id != c) = v.clients :=
    List.filter_eq_self.2 fun x hx => by simpa using List.any_eq_false.1 h x hx
  rw [withoutClient, hfilter]

namespace Store

variable {W : VectorId → Prop} {s s' : Store} {id : VectorId} {v : NamedVector} {c : ClientId}

/-- A slot in which the client is not registered is as it is without the client. -/
theorem slot_without {slot : Slot} {i : Nat} (hslot : s.slots[i]? = some slot)
    (hno : s.registers ⟨i, slot.generation⟩ c = false) :
    { slot with vector := slot.vector.map (·.withoutClient c) } = slot := by
  obtain ⟨generation, vector⟩ := slot
  cases vector with
  | none => rfl
  | some v =>
    have hv : s.get? ⟨i, generation⟩ = some v := get?_eq_some_iff.2 hslot
    rw [registers_of_get? hv] at hno
    simp only [Option.map_some, NamedVector.withoutClient_eq_self hno]

theorem mem_links_iff : c ∈ s.links.map (·.1) ↔ ∃ id, s.serverOf c = some id := by
  constructor
  · intro hmem
    obtain ⟨l, hl, rfl⟩ := List.mem_map.1 hmem
    have hfound : (s.links.find? (·.1 == l.1)).isSome := List.find?_isSome.2 ⟨l, hl, by simp⟩
    obtain ⟨l', hl'⟩ := Option.isSome_iff_exists.1 hfound
    exact ⟨l'.2, by rw [serverOf, hl', Option.map_some]⟩
  · rintro ⟨id, hid⟩
    obtain ⟨l, hl, -⟩ := Option.map_eq_some_iff.1 hid
    have hlc : l.1 = c := by simpa using List.find?_some hl
    exact hlc ▸ List.mem_map.2 ⟨l, List.mem_of_find?_eq_some hl, rfl⟩

/-- Without a link there is nothing to take away. -/
theorem Linked.withoutClient_eq_self (h : s.Linked) (hnone : s.serverOf c = none) : s.withoutClient c = s := by
  have hslots : s.slots.map (fun slot => { slot with vector := slot.vector.map (·.withoutClient c) }) = s.slots := by
    refine (List.map_congr_left fun slot hslot => ?_).trans (List.map_id _)
    obtain ⟨i, hi⟩ := List.mem_iff_getElem?.1 hslot
    refine slot_without hi (Bool.eq_false_iff.2 fun hreg => ?_)
    rw [← h, hnone] at hreg
    cases hreg
  have hlinks : s.links.filter (·.1 != c) = s.links := by
    refine List.filter_eq_self.2 fun l hl => ?_
    have hno : c ∉ s.links.map (·.1) := fun hmem => by simpa [hnone] using mem_links_iff.1 hmem
    simpa using fun he => hno (List.mem_map.2 ⟨l, hl, he⟩)
  rw [withoutClient, hslots, hlinks]

/-- **What a release does.** It tells whether the client had a link, and takes away
the entry of the client and its link, and nothing else. -/
theorem Linked.releaseClient (h : s.Linked) (hr : s.Registered) (c : ClientId) :
    s.releaseClient c = (s.withoutClient c, (s.serverOf c).isSome) := by
  unfold Store.releaseClient
  cases hserver : s.serverOf c with
  | none => simp only [h.withoutClient_eq_self hserver, Option.isSome_none]
  | some id =>
    have hreg : s.registers id c = true := (h c id).1 hserver
    obtain ⟨v, hv, -⟩ := registers_iff.1 hreg
    have hslots : s.slots.set id.index ⟨id.generation, some { v with clients := v.clients.eraseP (·.id == c) }⟩ =
        s.slots.map fun slot => { slot with vector := slot.vector.map (·.withoutClient c) } := by
      refine List.ext_getElem? fun i => ?_
      rw [List.getElem?_map]
      by_cases hi : id.index = i
      · subst hi
        rw [List.getElem?_set_self (index_lt_of_get? hv), get?_eq_some_iff.1 hv, eraseP_eq_filter (hr.nodup id v hv)]
        rfl
      · rw [List.getElem?_set_ne hi]
        cases hslot : s.slots[i]? with
        | none => rfl
        | some slot =>
          have hno : s.registers ⟨i, slot.generation⟩ c = false :=
            Bool.eq_false_iff.2 fun hreg' => hi (congrArg VectorId.index (h.eq hreg hreg'))
          rw [Option.map_some, slot_without hslot hno]
    rw [registers_of_get? hv] at hreg
    simp only [hv, hreg, if_true, modify_of_get? hv, hslots, Option.isSome_some]
    rfl

/-! ## The order of the lists -/

/-- The clients of a vector stand in the order of their numbers, and a client has
one link at most. -/
structure Listed (s : Store) : Prop where
  ordered : ∀ id v, s.get? id = some v → (v.clients.map (·.id.number)).Pairwise (· < ·)
  single : (s.links.map (·.1)).Nodup

namespace Listed

theorem modify (h : s.Listed) (id : VectorId) {f : NamedVector → NamedVector} (hf : ∀ v, (f v).clients = v.clients) :
    (s.modify id f).Listed where
  ordered id' v' hv' := by
    rw [get?_modify] at hv'
    split at hv'
    · obtain ⟨v, hv, rfl⟩ := Option.map_eq_some_iff.1 hv'
      exact hf v ▸ h.ordered _ v hv
    · exact h.ordered id' v' hv'
  single := by simpa using h.single

theorem retire (h : s.Listed) (hv : s.get? id = some v) : (s.retire id).Listed where
  ordered id' v' hv' := by
    rw [get?_retire hv] at hv'
    split at hv'
    · cases hv'
    · exact h.ordered id' v' hv'
  single := by
    rw [retire_of_get? hv]
    exact h.single.sublist (List.filter_sublist.map _)

end Listed

/-- A change drops links, or adds that of a new client. -/
theorem Change.links (h : Change W s s') :
    s'.links.Sublist s.links ∨ ∃ id, s'.links = (⟨s.nextClient⟩, id) :: s.links := by
  cases h with
  | settings => exact .inl (.refl _)
  | contents | takeBack | policy => exact .inl (by rw [modify_links])
  | place _ _ hplace => exact .inl (by rw [place_links hplace])
  | discard hv =>
    rw [retire_of_get? hv]
    exact .inl List.filter_sublist
  | schedule id => exact .inl (by rw [schedule_links])
  | register id listens =>
    cases hv : s.get? id with
    | none =>
      rw [registerClient_of_none hv]
      exact .inl (.refl _)
    | some v =>
      cases hd : v.destroying with
      | true =>
        rw [registerClient_of_destroying hv hd]
        exact .inl (.refl _)
      | false =>
        rw [registerClient_of_get? hv hd]
        exact .inr ⟨id, rfl⟩
  | release c =>
    rcases releaseClient_cases s c with he | ⟨id, he⟩
    · rw [he]
      exact .inl (.refl _)
    · rw [he]
      exact .inl List.filter_sublist

theorem Listed.change (h : s.Listed) (hs : s.Coherent) (hr : s.Registered) (hl : s.Linked) (hc : Change W s s') :
    s'.Listed where
  ordered id v' hv' := by
    have he := hc.evolves hs id
    rw [hv'] at he
    generalize hv : s.get? id = o at he
    cases he with
    | placed hfresh => simp [hfresh.clients]
    | @kept v _ hkept =>
      rcases hkept.clients with hsub | ⟨listens, -, happend, -, -⟩
      · exact (h.ordered id v hv).sublist (hsub.map _)
      · rw [happend, List.map_append]
        refine List.pairwise_append.2 ⟨h.ordered id v hv, List.pairwise_singleton _ _, fun a ha b hb => ?_⟩
        obtain ⟨c, hmem, rfl⟩ := List.mem_map.1 ha
        obtain rfl : b = s.nextClient := by simpa using hb
        exact hr.below id v hv c hmem
  single := by
    rcases hc.links with hsub | ⟨id, hcons⟩
    · exact h.single.sublist (hsub.map _)
    · rw [hcons, List.map_cons]
      refine List.nodup_cons.2 ⟨fun hmem => ?_, h.single⟩
      obtain ⟨id', hserver⟩ := mem_links_iff.1 hmem
      exact absurd ((hl _ id').1 hserver) (by simp [hr.not_next])

theorem Listed.changes (h : s.Listed) (hs : s.Coherent) (hr : s.Registered) (hl : s.Linked) (hc : Changes W s s') :
    s'.Listed := by
  induction hc with
  | refl => exact h
  | tail hmid hc ih =>
    exact ih.change (Changes.coherent hmid hs) (hr.changes hs hmid) (hl.changes hs hr hmid) hc

end Store

theorem Move.listed {W : VectorId → Prop} {w w' : View} {c : Option (ClientId × ClientEvent)} {f : Option VectorId}
    (hm : Move W w c f w') (hw : w.Regular) (h : w.store.Listed) : w'.store.Listed := by
  cases hm with
  | begun F P hc ho =>
    have hmid := h.changes hw.sound.coherent hw.enrolled.registered hw.linked hc
    cases ho with
    | nothing => exact hmid
    | update | destroy => exact hmid.modify _ fun _ => rfl
  | pass => exact ⟨h.ordered, h.single⟩
  | ended s d F P =>
    cases hd : d.event.kind with
    | updated =>
      rw [Store.endDelivery_updated s hd]
      exact h.modify _ fun _ => rfl
    | destroyed =>
      obtain ⟨v, hv, -⟩ := hw.sound.dying d List.mem_cons_self hd
      rw [Store.endDelivery_destroyed s hd]
      exact h.retire hv
  | flush => exact h.modify _ fun _ => rfl
  | call | skip | passed => exact h

/-! ## What a program sees -/

namespace Session

/-- What the links tell a program is so. -/
structure Truthful (s : Session) : Prop where
  /-- A link leads to the vector on whose list the client stands. -/
  linked : ∀ c id, s.store.serverOf c = some id ↔ ∃ v, s.store.get? id = some v ∧ c ∈ v.clients.map (·.id)
  /-- No link is left of a client that stands on no list. -/
  detached : ∀ c, s.store.serverOf c = none ↔ ∀ id v, s.store.get? id = some v → c ∉ v.clients.map (·.id)
  /-- A client stands on the list of one vector at most. -/
  apart : ∀ c id id' v v', s.store.get? id = some v → s.store.get? id' = some v' →
    c ∈ v.clients.map (·.id) → c ∈ v'.clients.map (·.id) → id = id'
  /-- The clients of a vector stand in the order of their numbers, each once. -/
  ordered : ∀ id v, s.store.get? id = some v → (v.clients.map (·.id.number)).Pairwise (· < ·)
  single : (s.store.links.map (·.1)).Nodup
  /-- A new client gets a new number, and a link unless the vector is being
  destroyed. -/
  registers : ∀ id v listens, s.store.get? id = some v → ∃ store,
    s.submit (.registerClient id listens) =
        ({ s with store := store }, .finished (.ok (.client ⟨s.store.nextClient⟩))) ∧
      store.nextClient = s.store.nextClient + 1 ∧ s.store.serverOf ⟨s.store.nextClient⟩ = none ∧
      store.serverOf ⟨s.store.nextClient⟩ = if v.destroying then none else some id
  /-- A release tells whether there was a link, and takes away the entry and the
  link of the client alone. -/
  releases : ∀ c, s.submit (.releaseClient c) =
    ({ s with store := s.store.withoutClient c }, .finished (.ok (.flag (s.store.serverOf c).isSome)))

variable {s : Session} {id : VectorId} {v : NamedVector}

theorem submit_releaseClient (hw : s.view.Regular) (c : ClientId) : s.submit (.releaseClient c) =
    ({ s with store := s.store.withoutClient c }, .finished (.ok (.flag (s.store.serverOf c).isSome))) := by
  have hrelease : s.store.releaseClient c = (s.store.withoutClient c, (s.store.serverOf c).isSome) :=
    Store.Linked.releaseClient hw.linked hw.enrolled.registered c
  have hissue : s.issue (.releaseClient c) =
      s.put (s.store.withoutClient c) [.answer (.flag (s.store.serverOf c).isSome)] := by
    simp only [issue, hrelease]
    rfl
  rw [submit, hissue, resume_answer]

theorem submit_registerClient (hw : s.view.Regular) (hv : s.store.get? id = some v) (listens : Bool) : ∃ store,
    s.submit (.registerClient id listens) =
        ({ s with store := store }, .finished (.ok (.client ⟨s.store.nextClient⟩))) ∧
      store.nextClient = s.store.nextClient + 1 ∧ s.store.serverOf ⟨s.store.nextClient⟩ = none ∧
      store.serverOf ⟨s.store.nextClient⟩ = if v.destroying then none else some id := by
  have hnew : s.store.serverOf ⟨s.store.nextClient⟩ = none :=
    Store.Linked.serverOf_eq_none hw.linked hw.enrolled.registered.not_next
  have hanswer : (s.store.registerClient id listens).2 = .ok ⟨s.store.nextClient⟩ := by
    have hget : ({ s.store with nextClient := s.store.nextClient + 1 } : Store).get id = .ok v :=
      Store.get_of_get? (s := { s.store with nextClient := s.store.nextClient + 1 }) hv
    unfold Store.registerClient
    dsimp only
    rw [hget]
    cases hd : v.destroying <;> simp only [hd, if_true, Bool.false_eq_true, if_false]
  have hissue : s.issue (.registerClient id listens) =
      s.put (s.store.registerClient id listens).1 [.answer (.client ⟨s.store.nextClient⟩)] := by
    simp only [issue]
    split
    · next hreg =>
      rw [hreg] at hanswer
      cases hanswer
      rw [hreg]
      rfl
    · next hreg =>
      rw [hreg] at hanswer
      cases hanswer
  refine ⟨(s.store.registerClient id listens).1, by rw [submit, hissue, resume_answer], ?_, hnew, ?_⟩
  · cases hd : v.destroying with
    | true => rw [Store.registerClient_of_destroying hv hd]
    | false => simp only [Store.registerClient_of_get? hv hd, Store.modify_nextClient]
  · cases hd : v.destroying with
    | true =>
      rw [Store.registerClient_of_destroying hv hd]
      exact hnew
    | false =>
      rw [Store.registerClient_of_get? hv hd]
      simp [Store.serverOf]

end Session

/-- **Client handles tell the truth.** At every moment of every run a link leads
to the vector the client is registered with, and there is none of a client that is
not registered; a client stands on one list at most, once and behind those
registered before it; and a release is answered by whether there is a link, and
takes away the one entry. -/
theorem Run.truthful {s₀ : Session} {config : StoreConfig} {host : Host} {random : RandomSource}
    (hs₀ : Session.ofConfig config host random = .ok s₀) {steps : List Step} {m : Moment}
    (h : Run ⟨s₀, false⟩ steps m) : m.session.Truthful := by
  have hw : m.session.view.Regular := h.regular hs₀
  have hlisted : m.session.store.Listed := by
    refine (h.keeps (I := fun w => w.Regular ∧ w.store.Listed) (fun hw => hw.1.sound.coherent)
      (fun hm hw => ⟨hw.1.move hm, hm.listed hw.1 hw.2⟩) ⟨Run.start.regular hs₀, ?_⟩).2
    rw [Session.view_of_ofConfig hs₀]
    exact ⟨by simp [Store.get?], .nil⟩
  have hlinked : ∀ c id, m.session.store.serverOf c = some id ↔
      ∃ v, m.session.store.get? id = some v ∧ c ∈ v.clients.map (·.id) := fun c id =>
    (hw.linked c id).trans Store.registers_iff
  exact {
    linked := hlinked
    detached := fun c => by
      rw [Option.eq_none_iff_forall_ne_some]
      refine ⟨fun hno id v hv hc => hno id ((hlinked c id).2 ⟨v, hv, hc⟩), fun hno id hid => ?_⟩
      obtain ⟨v, hv, hc⟩ := (hlinked c id).1 hid
      exact hno id v hv hc
    apart := fun c id id' v v' hv hv' hc hc' =>
      Option.some.inj (((hlinked c id).2 ⟨v, hv, hc⟩).symm.trans ((hlinked c id').2 ⟨v', hv', hc'⟩))
    ordered := hlisted.ordered
    single := hlisted.single
    registers := fun id v listens hv => Session.submit_registerClient hw hv listens
    releases := Session.submit_releaseClient hw }

/-- The program has a vector with two clients destroyed; the first, being told, has
the second released and a third registered. -/
def Moment.releasedInside : List (Option Request) :=
  [some (.create none), none, some (.registerClient ⟨0, 0⟩ true), none, some (.registerClient ⟨0, 0⟩ true), none,
    some (.destroy ⟨0, 0⟩), none, some (.releaseClient ⟨2⟩), none, some (.registerClient ⟨0, 0⟩ true), none]

theorem Run.truthful_releasedInside :
    let s := (Moment.outcome ⟨.initial, false⟩ Moment.releasedInside).session
    [1, 2, 3].map (fun i => s.store.serverOf ⟨i⟩) = [some ⟨0, 0⟩, none, none] ∧ s.Truthful :=
  ⟨by decide +kernel, Run.truthful Session.ofConfig_initial (Moment.run_play (by decide +kernel))⟩

end VectorEngine
