/-
The store is coherent at every moment of every run, those at which a client is
called included.

A vector is removed at the end of the fan-out that tells its end, and in between
the clients may do anything. So coherence is kept together with what the fan-outs
under way say about the vectors being destroyed (`View.Sound`).
-/
import Mathlib
import VectorEngine.Proofs.Session.Run

namespace VectorEngine

/-- The fan-outs and the vectors being destroyed belong together. -/
structure View.Sound (w : View) : Prop where
  coherent : w.store.Coherent
  /-- A vector whose end is being told is there, and is being destroyed. -/
  dying : ∀ d ∈ w.fanOuts, d.event.kind = .destroyed →
    ∃ v, w.store.get? d.event.server = some v ∧ v.destroying = true ∧ v.notifying = true
  /-- The end of a vector being destroyed is being told. -/
  told : ∀ id v, w.store.get? id = some v → v.destroying = true → ∃ d ∈ w.fanOuts, d.event = ⟨id, .destroyed⟩
  /-- While the end of a vector is being told, only nested updates of it are. -/
  nested : w.fanOuts.Pairwise fun d dd => dd.event.kind = .destroyed → d.event.server = dd.event.server →
    d.nested = true ∧ d.event.kind = .updated

variable {W : VectorId → Prop} {w w' : View}

namespace Store

variable {s s' : Store} {id : VectorId} {v v' : NamedVector} {d : Delivery}

theorem endDelivery_updated (s : Store) (h : d.event.kind = .updated) :
    s.endDelivery d = s.modify d.event.server fun v =>
      { v with notifying := d.nested, state := if v.state = .notifying then .idle else v.state } := by
  unfold endDelivery
  rw [h]

theorem endDelivery_destroyed (s : Store) (h : d.event.kind = .destroyed) :
    s.endDelivery d = s.retire d.event.server := by
  unfold endDelivery
  rw [h]

theorem destroying_of_get?_modify {f : NamedVector → NamedVector} {id' : VectorId}
    (hv : (s.modify id f).get? id' = some v') (hf : ∀ v, (f v).destroying = v.destroying) (hd : v'.destroying = true) :
    ∃ v, s.get? id' = some v ∧ v.destroying = true := by
  rw [get?_modify] at hv
  split at hv
  · next hid =>
    obtain ⟨u, hu, rfl⟩ := Option.map_eq_some_iff.1 hv
    exact ⟨u, hid ▸ hu, hf u ▸ hd⟩
  · exact ⟨v', hv, hd⟩

/-- A vector being destroyed is kept by every change. -/
theorem Change.get?_of_destroying (h : Change W s s') (hs : s.Coherent) (hv : s.get? id = some v)
    (hd : v.destroying = true) : ∃ v', s'.get? id = some v' ∧ Kept W s s' id v v' := by
  have he := h.evolves hs id
  rw [hv] at he
  generalize s'.get? id = o at he
  cases he with
  | discarded hfresh => exact absurd (hfresh.destroying.symm.trans hd) (by simp)
  | kept hkept => exact ⟨_, rfl, hkept⟩

theorem Change.destroying_of_get? (h : Change W s s') (hs : s.Coherent) (hv : s'.get? id = some v')
    (hd : v'.destroying = true) : ∃ v, s.get? id = some v ∧ v.destroying = true := by
  have he := h.evolves hs id
  rw [hv] at he
  generalize s.get? id = o at he
  cases he with
  | placed hfresh => exact absurd (hfresh.destroying.symm.trans hd) (by simp)
  | kept hkept => exact ⟨_, rfl, hkept.destroying ▸ hd⟩

end Store

namespace View.Sound

variable {s s' mid : Store} {F : List Delivery} {P Q : List (List VectorId)}

/-- The idle passes are not looked at, nor the queue. -/
theorem congr (h : Sound ⟨s, F, P⟩) (hs : s'.Coherent) (hget : s'.get? = s.get?) : Sound ⟨s', F, Q⟩ :=
  ⟨hs, fun d hd hk => hget ▸ h.dying d hd hk, fun id v hv => h.told id v (hget ▸ hv), h.nested⟩

theorem change (h : Sound ⟨s, F, P⟩) (hc : Store.Change W s s') : Sound ⟨s', F, P⟩ where
  coherent := hc.coherent h.coherent
  dying d hd hk := by
    obtain ⟨v, hv, hdestroying, hnotifying⟩ := h.dying d hd hk
    obtain ⟨v', hv', hkept⟩ := hc.get?_of_destroying h.coherent hv hdestroying
    exact ⟨v', hv', hkept.destroying ▸ hdestroying, hkept.notifying ▸ hnotifying⟩
  told id v' hv' hd := by
    obtain ⟨v, hv, hdestroying⟩ := hc.destroying_of_get? h.coherent hv' hd
    exact h.told id v hv hdestroying
  nested := h.nested

theorem changes (h : Sound ⟨s, F, P⟩) (hc : Store.Changes W s s') : Sound ⟨s', F, P⟩ := by
  induction hc with
  | refl => exact h
  | tail _ hc ih => exact ih.change hc

/-- Starting a fan-out that tells a change: inside one that tells the end of the
vector, the vector is notifying. -/
theorem update (h : Sound ⟨s, F, P⟩) {id : VectorId} {v : NamedVector} (hv : s.get? id = some v) :
    Sound ⟨s.modify id NamedVector.opened,
      ⟨⟨id, .updated⟩, v.clients, v.notifying, 0⟩ :: F, Q⟩ where
  coherent := h.coherent.modify id fun _ => rfl
  dying d hd hk := by
    rcases List.mem_cons.1 hd with rfl | hd
    · cases hk
    · obtain ⟨u, hu, hdestroying, hnotifying⟩ := h.dying d hd hk
      rw [Store.get?_modify]
      split
      · next hid =>
        rw [← hid, hu]
        exact ⟨_, rfl, hdestroying, rfl⟩
      · exact ⟨u, hu, hdestroying, hnotifying⟩
  told id' v' hv' hd := by
    obtain ⟨u, hu, hdestroying⟩ := Store.destroying_of_get?_modify hv' (fun _ => rfl) hd
    obtain ⟨d, hmem, he⟩ := h.told id' u hu hdestroying
    exact ⟨d, List.mem_cons_of_mem _ hmem, he⟩
  nested := by
    refine List.pairwise_cons.2 ⟨fun dd hdd hk hserver => ⟨?_, rfl⟩, h.nested⟩
    obtain ⟨u, hu, -, hnotifying⟩ := h.dying dd hdd hk
    rw [← hserver, hv] at hu
    cases hu
    exact hnotifying

/-- Starting the fan-out that tells the end of a vector. -/
theorem destroy (h : Sound ⟨s, F, P⟩) {id : VectorId} {v : NamedVector} (hv : s.get? id = some v)
    (hd : v.destroying = false) :
    Sound ⟨s.modify id NamedVector.ended,
      ⟨⟨id, .destroyed⟩, v.clients, v.notifying, 0⟩ :: F, P⟩ where
  coherent := h.coherent.modify id fun _ => rfl
  dying d hmem hk := by
    rcases List.mem_cons.1 hmem with rfl | hmem
    · exact ⟨_, Store.get?_modify_self hv, rfl, rfl⟩
    · obtain ⟨u, hu, hdestroying, hnotifying⟩ := h.dying d hmem hk
      rw [Store.get?_modify]
      split
      · next hid =>
        rw [hv]
        exact ⟨_, rfl, rfl, rfl⟩
      · exact ⟨u, hu, hdestroying, hnotifying⟩
  told id' v' hv' hdestroying := by
    rw [Store.get?_modify] at hv'
    split at hv'
    · next hid =>
      subst hid
      exact ⟨_, List.mem_cons_self, rfl⟩
    · obtain ⟨d, hmem, he⟩ := h.told id' v' hv' hdestroying
      exact ⟨d, List.mem_cons_of_mem _ hmem, he⟩
  nested := by
    refine List.pairwise_cons.2 ⟨fun dd hdd hk hserver => ?_, h.nested⟩
    obtain ⟨u, hu, hdestroying, -⟩ := h.dying dd hdd hk
    rw [← hserver, hv] at hu
    cases hu
    exact absurd (hd.symm.trans hdestroying) (by simp)

/-- At its end a fan-out that tells a change gives back what it found. -/
theorem endUpdate {d : Delivery} (h : Sound ⟨s, d :: F, P⟩) (hd : d.event.kind = .updated) :
    Sound ⟨s.endDelivery d, F, P⟩ := by
  have hnested := List.pairwise_cons.1 h.nested
  rw [Store.endDelivery_updated s hd]
  refine ⟨h.coherent.modify _ fun _ => rfl, fun dd hdd hk => ?_, fun id v' hv' hdestroying => ?_, hnested.2⟩
  · obtain ⟨v, hv, hdestroying, hnotifying⟩ := h.dying dd (List.mem_cons_of_mem _ hdd) hk
    rw [Store.get?_modify]
    split
    · next hid =>
      rw [← hid, hv]
      exact ⟨_, rfl, hdestroying, (hnested.1 dd hdd hk hid.symm).1⟩
    · exact ⟨v, hv, hdestroying, hnotifying⟩
  · obtain ⟨v, hv, hdestroying⟩ := Store.destroying_of_get?_modify hv' (fun _ => rfl) hdestroying
    obtain ⟨dd, hdd, he⟩ := h.told id v hv hdestroying
    rcases List.mem_cons.1 hdd with rfl | hdd
    · rw [he] at hd
      cases hd
    · exact ⟨dd, hdd, he⟩

/-- A vector whose end has been told is removed. -/
theorem endDestroy {d : Delivery} (h : Sound ⟨s, d :: F, P⟩) (hd : d.event.kind = .destroyed) :
    Sound ⟨s.endDelivery d, F, P⟩ := by
  have hnested := List.pairwise_cons.1 h.nested
  obtain ⟨v, hv, -⟩ := h.dying d List.mem_cons_self hd
  rw [Store.endDelivery_destroyed s hd]
  refine ⟨h.coherent.retire hv, fun dd hdd hk => ?_, fun id v' hv' hdestroying => ?_, hnested.2⟩
  · have hne : dd.event.server ≠ d.event.server := fun he => by
      have hupdated := (hnested.1 dd hdd hk he.symm).2
      rw [hd] at hupdated
      cases hupdated
    rw [Store.get?_retire hv, if_neg hne]
    exact h.dying dd (List.mem_cons_of_mem _ hdd) hk
  · rw [Store.get?_retire hv] at hv'
    split at hv'
    · cases hv'
    · next hne =>
      obtain ⟨dd, hdd, he⟩ := h.told id v' hv' hdestroying
      rcases List.mem_cons.1 hdd with rfl | hdd
      · exact absurd (congrArg ClientEvent.server he).symm hne
      · exact ⟨dd, hdd, he⟩

theorem opening {d? : Option Delivery} (h : Sound ⟨s, F, P⟩) (ho : Store.Opening s s' d?) :
    Sound ⟨s', d?.toList ++ F, P⟩ := by
  cases ho with
  | nothing => exact h
  | update hv _ => exact h.update hv
  | destroy hv hd => exact h.destroy hv hd

/-- **Every move keeps the fan-outs and the vectors being destroyed together.** -/
theorem move {c : Option (ClientId × ClientEvent)} {f : Option VectorId} (h : w.Sound) (hm : Move W w c f w') :
    w'.Sound := by
  cases hm with
  | begun F P hc ho => exact (h.changes hc).opening ho
  | pass s F P => exact h.congr (h.coherent.congr rfl rfl rfl) rfl
  | @call s d v c waiting reached F P hv _ =>
    have hnested := List.pairwise_cons.1 h.nested
    refine ⟨h.coherent, fun dd hdd hk => ?_, fun id u hu hdestroying => ?_, List.pairwise_cons.2 hnested⟩
    · rcases List.mem_cons.1 hdd with rfl | hdd
      · exact h.dying d List.mem_cons_self hk
      · exact h.dying dd (List.mem_cons_of_mem _ hdd) hk
    · obtain ⟨dd, hdd, he⟩ := h.told id u hu hdestroying
      rcases List.mem_cons.1 hdd with rfl | hdd
      · exact ⟨_, List.mem_cons_self, he⟩
      · exact ⟨dd, List.mem_cons_of_mem _ hdd, he⟩
  | ended s d F P =>
    cases hd : d.event.kind with
    | updated => exact h.endUpdate hd
    | destroyed => exact h.endDestroy hd
  | flush F ids P hv _ => exact h.update hv
  | skip F ids P _ => exact h.congr h.coherent rfl
  | passed s F P => exact h.congr h.coherent rfl

end View.Sound

theorem Session.view_of_ofConfig {s₀ : Session} {config : StoreConfig} {host : Host} {random : RandomSource}
    (h : Session.ofConfig config host random = .ok s₀) : s₀.view = ⟨{ config := config }, [], []⟩ := by
  obtain ⟨store, hstore, h⟩ := bind_ok_iff.1 h
  cases h
  unfold Store.ofConfig at hstore
  split at hstore
  · cases hstore
  · cases hstore
    rfl

theorem View.sound_start (config : StoreConfig) : View.Sound ⟨{ config := config }, [], []⟩ :=
  ⟨Store.coherent_empty.congr rfl rfl rfl, by simp, by simp [Store.get?], .nil⟩

theorem Run.keeps_sound {start m : Moment} {steps : List Step} (h : Run start steps m)
    (hstart : start.session.view.Sound) : m.session.view.Sound :=
  h.keeps (fun hw => hw.coherent) (fun hm hw => hw.move hm) hstart

theorem Run.sound {s₀ : Session} {config : StoreConfig} {host : Host} {random : RandomSource}
    (hs₀ : Session.ofConfig config host random = .ok s₀)
    {steps : List Step} {m : Moment} (h : Run ⟨s₀, false⟩ steps m) : m.session.view.Sound :=
  h.keeps_sound (Session.view_of_ofConfig hs₀ ▸ View.sound_start config)

/-! ## Clearing the store -/

namespace Session

variable {s : Session}

/-- Every vector is destroyed, whatever the rank. -/
theorem mem_ranked (hs : s.store.Coherent) (rank : VectorId → Nat) {id : VectorId} :
    id ∈ s.ranked rank ↔ ∃ v, s.store.get? id = some v := by
  rw [ranked, List.mem_mergeSort, List.mem_map]
  constructor
  · rintro ⟨⟨n, id⟩, hentry, rfl⟩
    obtain ⟨v, hv, -⟩ := hs.get?_of_find? (hs.sorted.mem_entries.1 hentry)
    exact ⟨v, hv⟩
  · rintro ⟨v, hv⟩
    exact ⟨(v.name, id), hs.sorted.mem_entries.2 (hs.find?_of_get? hv), rfl⟩

/-- No vector is destroyed twice. -/
theorem nodup_ranked (hs : s.store.Coherent) (rank : VectorId → Nat) : (s.ranked rank).Nodup := by
  have hindex : ((s.store.names.entries.map (·.2)).map VectorId.index).Nodup := by
    rw [List.map_map]
    exact hs.nodup_index
  exact (List.mergeSort_perm _ _).nodup_iff.2 hindex.of_map

theorem pairwise_ranked (s : Session) (rank : VectorId → Nat) :
    (s.ranked rank).Pairwise fun a b => rank a ≤ rank b := by
  have htrans (a b c : VectorId) (hab : decide (rank a ≤ rank b) = true) (hbc : decide (rank b ≤ rank c) = true) :
      decide (rank a ≤ rank c) = true := decide_eq_true ((of_decide_eq_true hab).trans (of_decide_eq_true hbc))
  have htotal (a b : VectorId) : (decide (rank a ≤ rank b) || decide (rank b ≤ rank a)) = true := by
    simpa using Nat.le_total (rank a) (rank b)
  exact (List.pairwise_mergeSort htrans htotal _).imp of_decide_eq_true

/-- **The order is open**: any order of the vectors is that of some rank. -/
theorem exists_ranked_eq (hs : s.store.Coherent) {order : List VectorId} (hnodup : order.Nodup)
    (horder : ∀ id, id ∈ order ↔ ∃ v, s.store.get? id = some v) : ∃ rank, s.ranked rank = order := by
  have hperm : (s.ranked fun id => order.idxOf id).Perm order :=
    (List.perm_ext_iff_of_nodup (nodup_ranked hs _) hnodup).2 fun id => (mem_ranked hs _).trans (horder id).symm
  have hrising : order.Pairwise fun a b => order.idxOf a ≤ order.idxOf b := by
    refine List.pairwise_iff_getElem.2 fun i j hi hj hij => ?_
    rw [hnodup.idxOf_getElem, hnodup.idxOf_getElem]
    exact hij.le
  refine ⟨_, hperm.eq_of_pairwise (fun a b ha _ hab hba => ?_) (s.pairwise_ranked _) hrising⟩
  exact (List.idxOf_inj (hperm.mem_iff.1 ha)).1 (Nat.le_antisymm hab hba)

end Session

/-! ## What the parts of the store say of each other -/

/-- The slots, the names and the free list say the same. -/
structure Store.Agreement (s : Store) : Prop where
  /-- A name leads to an id just when the slot of the id holds, under its
  generation, a vector of that name. -/
  named : ∀ n id, s.names.find? n = some id ↔
    ∃ v, s.slots[id.index]? = some ⟨id.generation, some v⟩ ∧ v.name = n
  /-- Every vector has one entry in the name table, under its name. -/
  entry : ∀ i g v, s.slots[i]? = some ⟨g, some v⟩ → s.names.entries.filter (·.2 = ⟨i, g⟩) = [(v.name, ⟨i, g⟩)]
  /-- No two vectors share a name or an id. -/
  apart : ∀ i j g g' v v', s.slots[i]? = some ⟨g, some v⟩ → s.slots[j]? = some ⟨g', some v'⟩ →
    v.name = v'.name ∨ VectorId.mk i g = ⟨j, g'⟩ → i = j
  free_nodup : s.free.Nodup
  /-- The free list is made of the slots without a vector. -/
  free : ∀ i, i ∈ s.free ↔ ∃ slot, s.slots[i]? = some slot ∧ slot.vector = none
  /-- The length of the store is the number of slots with a vector. -/
  length : s.names.size = s.slots.countP (·.vector.isSome)

theorem Store.Coherent.agreement {s : Store} (h : s.Coherent) : s.Agreement where
  named n id := by
    rw [h.named]
    exact exists_congr fun v => and_congr_left fun _ => Store.get?_eq_some_iff
  entry i g v hslot := by
    have hv : s.get? ⟨i, g⟩ = some v := Store.get?_eq_some_iff.2 hslot
    exact h.entries_of_get? hv
  apart i j g g' v v' hslot hslot' hsame := by
    have hv : s.get? ⟨i, g⟩ = some v := Store.get?_eq_some_iff.2 hslot
    have hv' : s.get? ⟨j, g'⟩ = some v' := Store.get?_eq_some_iff.2 hslot'
    rcases hsame with hname | hid
    · exact congrArg VectorId.index (h.eq_of_name_eq hv hv' hname)
    · exact congrArg VectorId.index hid
  free_nodup := h.free_nodup
  free := h.mem_free
  length := h.size_names

/-- **The slots, the names and the free list agree at every moment of every
run.** The run may be any sequence of requests, asked from inside calls to
clients and nested to any depth as well, and the moment may be one at which a
client has just been called. -/
theorem Run.slots_names_free_agree {s₀ : Session} {config : StoreConfig} {host : Host} {random : RandomSource}
    (hs₀ : Session.ofConfig config host random = .ok s₀) {steps : List Step} {m : Moment}
    (h : Run ⟨s₀, false⟩ steps m) : m.session.store.Agreement :=
  (h.sound hs₀).coherent.agreement

/-- The program has a vector destroyed and creates another while the client of
the first is being told. -/
def Moment.destroyedMeanwhile : List (Option Request) :=
  [some (.create none), none, some (.registerClient ⟨0, 0⟩ true), none, some (.destroy ⟨0, 0⟩), none,
    some (.create none), none]

theorem Run.slots_names_free_agree_destroyedMeanwhile :
    calls (Moment.play ⟨.initial, false⟩ Moment.destroyedMeanwhile) = [(⟨1⟩, ⟨⟨0, 0⟩, .destroyed⟩)] ∧
      (Moment.outcome ⟨.initial, false⟩ Moment.destroyedMeanwhile).session.store.Agreement :=
  ⟨rfl, Run.slots_names_free_agree Session.ofConfig_initial (Moment.run_play rfl)⟩

end VectorEngine
