/-
The flags of a vector and the fan-outs under way.

A fan-out sets `notifying` at its start and gives back at its end what it found,
so the flag is set as long as a fan-out of the vector is under way. One that
outlives its vector gives back its flag to nobody, unless the generation of the
slot has come round meanwhile and the id names another vector; that takes
`2 ^ 32` removals inside one fan-out (`Store.Mirrored`).
-/
import Mathlib
import VectorEngine.Proofs.Session.FanOut

namespace VectorEngine

variable {W : VectorId → Prop} {w w' : View} {c : Option (ClientId × ClientEvent)} {f : Option VectorId}

/-! ## The flag of a vector -/

namespace Store

variable {s s' : Store} {id id' : VectorId} {v v' : NamedVector} {d : Delivery}

/-- The vector is there, and a fan-out of it is under way by its flag. -/
def Notifies (s : Store) (id : VectorId) : Prop := ∃ v, s.get? id = some v ∧ v.notifying = true

theorem Change.notifies_iff (h : Change W s s') (hs : s.Coherent) (id : VectorId) :
    s'.Notifies id ↔ s.Notifies id := by
  have he := h.evolves hs id
  unfold Notifies
  generalize s.get? id = o at he ⊢
  generalize s'.get? id = o' at he ⊢
  cases he with
  | absent => rfl
  | placed hfresh | discarded hfresh => simp [hfresh.notifying]
  | kept hkept => simp [hkept.notifying]

theorem Changes.notifies_iff (h : Changes W s s') (hs : s.Coherent) (id : VectorId) :
    s'.Notifies id ↔ s.Notifies id := by
  induction h with
  | refl => rfl
  | tail hmid hc ih => exact (hc.notifies_iff (Changes.coherent hmid hs) id).trans ih

/-- Only a vector whose fan-out is under way has the state that says so. -/
def StatesTrue (s : Store) : Prop := ∀ id v, s.get? id = some v → v.state = .notifying → v.notifying = true

theorem Change.statesTrue (h : Change W s s') (hs : s.Coherent) (ht : s.StatesTrue) : s'.StatesTrue := by
  intro id v' hv' hstate
  have he := h.evolves hs id
  rw [hv'] at he
  generalize hv : s.get? id = o at he
  cases he with
  | placed hfresh => exact absurd (hfresh.state.symm.trans hstate) (by simp)
  | kept hkept =>
    rcases hkept.state with hsame | ⟨hpending, -⟩ | ⟨-, -, hidle⟩
    · exact hkept.notifying ▸ ht id _ hv (hsame ▸ hstate)
    · exact absurd (hpending.symm.trans hstate) (by simp)
    · exact absurd (hidle.symm.trans hstate) (by simp)

theorem Changes.statesTrue (h : Changes W s s') (hs : s.Coherent) (ht : s.StatesTrue) : s'.StatesTrue := by
  induction h with
  | refl => exact ht
  | tail hmid hc ih => exact hc.statesTrue (Changes.coherent hmid hs) ih

theorem statesTrue_modify {f : NamedVector → NamedVector} (ht : s.StatesTrue)
    (hf : ∀ v, s.get? id = some v → (f v).state = .notifying → (f v).notifying = true) :
    (s.modify id f).StatesTrue := by
  intro id' v' hv' hstate
  rw [get?_modify] at hv'
  split at hv'
  · obtain ⟨v, hv, rfl⟩ := Option.map_eq_some_iff.1 hv'
    exact hf v hv hstate
  · exact ht id' v' hv' hstate

/-- A fan-out that starts sets the flag of its vector. -/
theorem notifies_modify {f : NamedVector → NamedVector} (hv : s.get? id = some v) (hf : (f v).notifying = true)
    (id' : VectorId) : (s.modify id f).Notifies id' ↔ id' = id ∨ s.Notifies id' := by
  unfold Notifies
  rw [get?_modify]
  by_cases hid : id' = id
  · subst hid
    simp [hv, hf]
  · simp [hid]

/-- A fan-out that ends gives back the flag it has found. -/
theorem notifies_endUpdate (hd : d.event.kind = .updated) (id : VectorId) : (s.endDelivery d).Notifies id ↔
    if id = d.event.server then d.nested = true ∧ ∃ v, s.get? id = some v else s.Notifies id := by
  rw [endDelivery_updated s hd, Notifies, get?_modify]
  split
  · next hid =>
    subst hid
    cases s.get? d.event.server <;> simp
  · rfl

theorem notifies_endDestroy (hd : d.event.kind = .destroyed) (hv : s.get? d.event.server = some v) (id : VectorId) :
    (s.endDelivery d).Notifies id ↔ id ≠ d.event.server ∧ s.Notifies id := by
  rw [endDelivery_destroyed s hd, Notifies, get?_retire hv]
  by_cases hid : id = d.event.server
  · simp [hid]
  · simp [hid, Notifies]

end Store

/-! ## A flag that is set has its fan-out -/

/-- What the flags say of the fan-outs under way. -/
structure View.Flagged (w : View) : Prop where
  called : ∀ id, w.store.Notifies id → ∃ d ∈ w.fanOuts, d.event.server = id
  state : w.store.StatesTrue
  /-- A fan-out that has found the flag set is inside another of the vector. -/
  nested : ∀ d F, d :: F <:+ w.fanOuts → d.nested = true → ∃ dd ∈ F, dd.event.server = d.event.server

namespace View.Flagged

variable {s s' mid : Store} {F : List Delivery} {P Q : List (List VectorId)} {id : VectorId} {v : NamedVector}

theorem changes (h : Flagged ⟨s, F, P⟩) (hs : s.Coherent) (hc : Store.Changes W s s') : Flagged ⟨s', F, Q⟩ :=
  ⟨fun id hn => h.called id ((hc.notifies_iff hs id).1 hn), hc.statesTrue hs h.state, h.nested⟩

theorem start (h : Flagged ⟨s, F, P⟩) {g : NamedVector → NamedVector} {kind : EventKind} (hv : s.get? id = some v)
    (hg : ∀ v, (g v).notifying = true) :
    Flagged ⟨s.modify id g, ⟨⟨id, kind⟩, v.clients, v.notifying, 0⟩ :: F, Q⟩ where
  called id' hn := by
    rcases (Store.notifies_modify hv (hg v) id').1 hn with rfl | hn
    · exact ⟨_, List.mem_cons_self, rfl⟩
    · obtain ⟨d, hd, he⟩ := h.called id' hn
      exact ⟨d, List.mem_cons_of_mem _ hd, he⟩
  state := Store.statesTrue_modify h.state fun v _ _ => hg v
  nested d F' hsuffix hnested := by
    rcases List.suffix_cons_iff.1 hsuffix with heq | hsuffix
    · obtain ⟨rfl, rfl⟩ := List.cons.inj heq
      exact h.called id ⟨v, hv, hnested⟩
    · exact h.nested d F' hsuffix hnested

theorem call {d : Delivery} {waiting : List Client} {reached : Nat} (h : Flagged ⟨s, d :: F, P⟩) :
    Flagged ⟨s, { d with waiting := waiting, reached := reached } :: F, P⟩ where
  called id hn := by
    obtain ⟨dd, hdd, he⟩ := h.called id hn
    rcases List.mem_cons.1 hdd with rfl | hdd
    · exact ⟨_, List.mem_cons_self, he⟩
    · exact ⟨dd, List.mem_cons_of_mem _ hdd, he⟩
  state := h.state
  nested dd F' hsuffix hnested := by
    rcases List.suffix_cons_iff.1 hsuffix with heq | hsuffix
    · obtain ⟨rfl, rfl⟩ := List.cons.inj heq
      exact h.nested d _ List.suffix_rfl hnested
    · exact h.nested dd F' (hsuffix.trans (List.suffix_cons d F)) hnested

theorem ended {d : Delivery} (h : Flagged ⟨s, d :: F, P⟩)
    (hlive : d.event.kind = .destroyed → ∃ v, s.get? d.event.server = some v) : Flagged ⟨s.endDelivery d, F, P⟩ := by
  have hbelow : ∀ dd F', dd :: F' <:+ F → dd.nested = true → ∃ dd' ∈ F', dd'.event.server = dd.event.server :=
    fun dd F' hsuffix => h.nested dd F' (hsuffix.trans (List.suffix_cons d F))
  -- The fan-out of another vector is not the one that ends.
  have hother : ∀ id, id ≠ d.event.server → s.Notifies id → ∃ dd ∈ F, dd.event.server = id := by
    intro id hid hn
    obtain ⟨dd, hdd, he⟩ := h.called id hn
    rcases List.mem_cons.1 hdd with rfl | hdd
    · exact absurd he.symm hid
    · exact ⟨dd, hdd, he⟩
  cases hd : d.event.kind with
  | updated =>
    refine ⟨fun id hn => ?_, ?_, hbelow⟩
    · have hn := (Store.notifies_endUpdate hd id).1 hn
      split at hn
      · next hid => exact hid ▸ h.nested d F List.suffix_rfl hn.1
      · next hid => exact hother id hid hn
    · rw [Store.endDelivery_updated s hd]
      refine Store.statesTrue_modify h.state fun v _ hstate => ?_
      dsimp only at hstate
      split at hstate
      · cases hstate
      · next hne => exact absurd hstate hne
  | destroyed =>
    obtain ⟨v, hv⟩ := hlive hd
    refine ⟨fun id hn => ?_, fun id u hu hstate => ?_, hbelow⟩
    · obtain ⟨hid, hn⟩ := (Store.notifies_endDestroy hd hv id).1 hn
      exact hother id hid hn
    · rw [Store.endDelivery_destroyed s hd, Store.get?_retire hv] at hu
      split at hu
      · cases hu
      · exact h.state id u hu hstate

/-- **Every move keeps a fan-out for each flag that is set.** -/
theorem move (h : w.Flagged) (hw : w.Sound) (hm : Move W w c f w') : w'.Flagged := by
  cases hm with
  | begun F P hc ho =>
    have hmid := h.changes (Q := P) hw.coherent hc
    cases ho with
    | nothing => exact hmid
    | update hv _ | destroy hv _ => exact hmid.start hv fun _ => rfl
  | pass s F P => exact ⟨h.called, h.state, h.nested⟩
  | call => exact h.call
  | ended s d F P =>
    refine h.ended fun hd => ?_
    obtain ⟨v, hv, -⟩ := hw.dying d List.mem_cons_self hd
    exact ⟨v, hv⟩
  | flush F ids P hv _ => exact h.start hv fun _ => rfl
  | skip | passed => exact ⟨h.called, h.state, h.nested⟩

end View.Flagged

/-! ## A fan-out has its flag set -/

/-- The fan-outs `G` of vectors in the slot, after `n` removals from it: each has
its vector in place with the flag set, or the slot has come to a later generation. -/
structure Store.Mirrored (s : Store) (G : List Delivery) (i n : Nat) : Prop where
  flag : ∀ d ∈ G, d.event.server.index = i → ∃ k ≤ n,
    s.generation i = d.event.server.generation + UInt32.ofNat k ∧ (k = 0 → s.Notifies d.event.server)
  nested : G.Pairwise fun d dd => d.event.server.index = i → d.event.server = dd.event.server → d.nested = true

namespace Store.Mirrored

variable {s s' : Store} {F G : List Delivery} {id : VectorId} {v : NamedVector} {i n k : Nat}

/-- Where the vector of a fan-out is in place, its flag is set. -/
theorem notifies (h : s.Mirrored G i n) (hround : n < 2 ^ 32) {d : Delivery} (hd : d ∈ G)
    (hi : d.event.server.index = i) (hv : s.get? d.event.server = some v) : s.Notifies d.event.server := by
  obtain ⟨k, hk, hgeneration, hflag⟩ := h.flag d hd hi
  refine hflag ?_
  by_contra hne
  rw [← hi, generation_of_get? hv] at hgeneration
  exact generation_add_ne (by omega) (by omega) hgeneration.symm

/-- Fan-outs keep their flags while `k` vectors are removed from the slot. -/
theorem carry (h : s.Mirrored F i n) (hG : G.Sublist F)
    (hgeneration : s'.generation i = s.generation i + UInt32.ofNat k)
    (hkeeps : k = 0 → ∀ d ∈ G, d.event.server.index = i → s.Notifies d.event.server → s'.Notifies d.event.server) :
    s'.Mirrored G i (n + k) where
  flag d hd hi := by
    obtain ⟨j, hj, hg, hflag⟩ := h.flag d (hG.subset hd) hi
    refine ⟨j + k, by omega, ?_, fun hzero => ?_⟩
    · rw [hgeneration, hg, UInt32.ofNat_add, UInt32.add_assoc]
    · exact hkeeps (by omega) d hd hi (hflag (by omega))
  nested := h.nested.sublist hG

/-- A fan-out starts: inside another of its vector it finds the flag set. -/
theorem start (h : s.Mirrored G i n) (hround : n < 2 ^ 32) {g : NamedVector → NamedVector} {kind : EventKind}
    (hv : s.get? id = some v) (hg : ∀ v, (g v).notifying = true) :
    (s.modify id g).Mirrored (⟨⟨id, kind⟩, v.clients, v.notifying, 0⟩ :: G) i n where
  flag d hd hi := by
    rcases List.mem_cons.1 hd with rfl | hd
    · refine ⟨0, Nat.zero_le _, ?_, fun _ => (notifies_modify hv (hg v) id).2 (.inl rfl)⟩
      rw [← hi, generation_of_get? (get?_modify_self hv)]
      simp
    · obtain ⟨k, hk, hgeneration, hflag⟩ := h.flag d hd hi
      refine ⟨k, hk, ?_, fun hzero => (notifies_modify hv (hg v) _).2 (.inr (hflag hzero))⟩
      rw [generation_modify]
      exact hgeneration
  nested := by
    refine List.pairwise_cons.2 ⟨fun dd hdd hi he => ?_, h.nested⟩
    dsimp only at he
    subst he
    obtain ⟨u, hu, hnotifying⟩ := h.notifies hround hdd hi hv
    rw [hv, Option.some.injEq] at hu
    exact hu ▸ hnotifying

theorem call {d : Delivery} {waiting : List Client} {reached : Nat} (h : s.Mirrored (d :: G) i n) :
    s.Mirrored ({ d with waiting := waiting, reached := reached } :: G) i n where
  flag dd hdd hi := by
    rcases List.mem_cons.1 hdd with rfl | hdd
    · exact h.flag d List.mem_cons_self hi
    · exact h.flag dd (List.mem_cons_of_mem _ hdd) hi
  nested := List.pairwise_cons.2 (List.pairwise_cons.1 h.nested)

/-- The end of a fan-out leaves the flags of those it is inside. -/
theorem ended {d : Delivery} (h : s.Mirrored (d :: G) i n)
    (hlive : d.event.kind = .destroyed → ∃ v, s.get? d.event.server = some v)
    (hgeneration : (s.endDelivery d).generation i = s.generation i + UInt32.ofNat k) :
    (s.endDelivery d).Mirrored G i (n + k) := by
  refine h.carry (List.sublist_cons_self d G) hgeneration fun hzero dd hdd hi hn => ?_
  cases hd : d.event.kind with
  | updated =>
    rw [notifies_endUpdate hd]
    split
    · next he =>
      obtain ⟨u, hu, -⟩ := hn
      exact ⟨(List.pairwise_cons.1 h.nested).1 dd hdd (he ▸ hi) he.symm, u, hu⟩
    · exact hn
  | destroyed =>
    obtain ⟨v, hv⟩ := hlive hd
    refine (notifies_endDestroy hd hv _).2 ⟨fun he => ?_, hn⟩
    -- The removal would have gone without a new generation.
    rw [endDelivery_destroyed s hd, generation_retire hv, if_pos (by rw [← hi, he]), hzero] at hgeneration
    simp at hgeneration

/-- **Every move keeps the flags of the innermost fan-outs**, while the generation
of the slot has not come round. -/
theorem move (h : w.store.Mirrored G i n) (hF : w.fanOuts = G ++ F) (hG : G ≠ [] ∨ F = []) (hw : w.Sound)
    (hm : Move W w c f w') (hgeneration : w'.store.generation i = w.store.generation i + UInt32.ofNat k)
    (hround : n + k < 2 ^ 32) : ∃ G', w'.fanOuts = G' ++ F ∧ w'.store.Mirrored G' i (n + k) := by
  -- What is on top is one of `G`.
  have htop : ∀ {d F₀}, d :: F₀ = G ++ F → ∃ G₀, G = d :: G₀ ∧ F₀ = G₀ ++ F := by
    intro d F₀ heq
    cases G with
    | nil =>
      rw [hG.resolve_left (fun hne => hne rfl)] at heq
      cases heq
    | cons d' G₀ =>
      obtain ⟨rfl, rfl⟩ := List.cons.inj heq
      exact ⟨G₀, rfl, rfl⟩
  cases hm with
  | @begun s mid s' d? F₀ P hc ho =>
    have hkeeps : ∀ id, s.Notifies id → mid.Notifies id := fun id => (hc.notifies_iff hw.coherent id).2
    dsimp only at hF
    subst hF
    cases ho with
    | nothing => exact ⟨G, rfl, h.carry (List.Sublist.refl G) hgeneration fun _ d _ _ => hkeeps _⟩
    | update hv _ | destroy hv _ =>
      rw [generation_modify] at hgeneration
      have hmid := h.carry (List.Sublist.refl G) hgeneration fun _ d _ _ => hkeeps _
      exact ⟨_ :: G, rfl, hmid.start hround hv fun _ => rfl⟩
  | @flush s id v F₀ ids P hv _ =>
    dsimp only at hF
    subst hF
    rw [generation_modify] at hgeneration
    have hcarried := h.carry (List.Sublist.refl G) hgeneration fun _ _ _ _ hn => hn
    exact ⟨_ :: G, rfl, hcarried.start hround hv fun _ => rfl⟩
  | @call _ d _ _ waiting reached F₀ P =>
    obtain ⟨G₀, rfl, rfl⟩ := htop hF
    have hcarried := h.carry (List.Sublist.refl (d :: G₀)) hgeneration fun _ _ _ _ hn => hn
    exact ⟨_ :: G₀, rfl, hcarried.call⟩
  | ended s d F₀ P =>
    obtain ⟨G₀, rfl, rfl⟩ := htop hF
    refine ⟨G₀, rfl, h.ended (fun hd => ?_) hgeneration⟩
    obtain ⟨v, hv, -⟩ := hw.dying d List.mem_cons_self hd
    exact ⟨v, hv⟩
  | pass | skip | passed => exact ⟨G, hF, h.carry (List.Sublist.refl G) hgeneration fun _ _ _ _ hn => hn⟩

end Store.Mirrored

/-- A fan-out has just started: the flag of its vector is set. -/
theorem Move.notifies_of_start {d : Delivery} (hm : Move W w c f w') (hd : w'.fanOuts = d :: w.fanOuts) :
    w'.store.Notifies d.event.server := by
  have hlength : w'.fanOuts.length = w.fanOuts.length + 1 := congrArg List.length hd
  cases hm with
  | begun F P _ ho =>
    cases ho with
    | nothing => simp at hlength
    | update hv _ | destroy hv _ =>
      obtain ⟨rfl, -⟩ := List.cons.inj hd
      exact (Store.notifies_modify hv rfl _).2 (.inl rfl)
  | flush _ _ _ hv _ =>
    obtain ⟨rfl, -⟩ := List.cons.inj hd
    exact (Store.notifies_modify hv rfl _).2 (.inl rfl)
  | ended => exact absurd hlength (by simp; omega)
  | pass | call | skip | passed => exact absurd hlength (by simp)

/-! ## Requests that wait -/

/-- A change to the vector is noted, and a flush scheduled unless its policy is
never to tell. -/
def Store.noted (s : Store) (id : VectorId) (policy : NotifyPolicy) : Store :=
  let changed := s.modify id fun v => { v with series := v.series.invalidate }
  if policy = .never then changed else changed.schedule id

namespace Session

variable {s : Session} {id : VectorId} {v : NamedVector}

/-- While a fan-out of the vector is under way a change calls nobody. -/
theorem submit_markDirty (hv : s.store.get? id = some v) (hn : v.notifying = true) :
    s.submit (.markDirty id) = ({ s with store := s.store.noted id v.policy }, .finished (.ok .done)) := by
  have hmark : s.store.markDirty id = .ok (s.store.noted id v.policy, none) := by
    refine bind_ok_iff.2 ⟨v, Store.get_of_get? hv, ?_⟩
    unfold Store.noted
    cases v.policy with
    | never | onIdle => rfl
    | always =>
      rw [hn]
      rfl
  have hissue : s.issue (.markDirty id) = s.put (s.store.noted id v.policy) [.answer .done] := by
    simp only [issue, beginDelivery, hmark]
    rfl
  rw [submit, hissue, resume_answer]

/-- While a fan-out of the vector is under way a demand to notify calls nobody. -/
theorem submit_notifyNow (hv : s.store.get? id = some v) (hn : v.notifying = true) :
    s.submit (.notifyNow id) = ({ s with store := s.store.schedule id }, .finished (.ok (.count 0))) := by
  have hnow : s.store.notifyNow id = .ok (s.store.schedule id, none) := by
    refine bind_ok_iff.2 ⟨v, Store.get_of_get? hv, ?_⟩
    rw [hn]
    rfl
  have hissue : s.issue (.notifyNow id) = s.put (s.store.schedule id) [.answerReached] := by
    simp only [issue, beginDelivery, hnow]
    rfl
  rw [submit, hissue]
  exact resume_of_tick_some rfl

end Session

/-! ## Runs -/

/-- A fan-out of the vector is under way. -/
def Session.Telling (s : Session) (id : VectorId) : Prop := ∃ d, .deliver d ∈ s.stack ∧ d.event.server = id

theorem Session.mem_fanOuts {s : Session} {d : Delivery} : d ∈ s.view.fanOuts ↔ .deliver d ∈ s.stack := by
  simp only [view, View.ofTasks, List.mem_filterMap]
  constructor
  · rintro ⟨t, ht, hd⟩
    cases t <;> cases hd
    exact ht
  · intro hd
    exact ⟨_, hd, rfl⟩

variable {start m m' : Moment} {steps back : List Step} {id : VectorId} {v : NamedVector}

theorem Run.flagged {s₀ : Session} {config : StoreConfig} {host : Host} {random : RandomSource}
    (hs₀ : Session.ofConfig config host random = .ok s₀) (h : Run ⟨s₀, false⟩ steps m) : m.session.view.Flagged := by
  have hboth := h.keeps (I := fun w => w.Sound ∧ w.Flagged) (fun hw => hw.1.coherent)
    (fun hm hw => ⟨hw.1.move hm, hw.2.move hw.1 hm⟩) ⟨?_, ?_⟩
  · exact hboth.2
  · exact Run.start.sound hs₀
  · rw [Session.view_of_ofConfig hs₀]
    refine ⟨fun id ⟨v, hv, _⟩ => ?_, fun id v hv _ => ?_, by simp⟩ <;> simp [Store.get?] at hv

/-- Fan-outs have their flags set as long as they are under way. -/
theorem Run.mirrored (hw : start.session.view.Sound) {F G : List Delivery} {i : Nat}
    (hF : start.session.view.fanOuts = G ++ F) (hmirrored : start.session.store.Mirrored G i 0) (h : Run start steps m)
    (hinside : F = [] ∨ ∀ step ∈ steps, F.length < step.before.session.view.fanOuts.length)
    (hround : vacated steps i < 2 ^ 32) :
    ∃ G', m.session.view.fanOuts = G' ++ F ∧ m.session.store.Mirrored G' i (vacated steps i) := by
  induction h with
  | start => exact ⟨G, hF, hmirrored⟩
  | @next steps m m' a hrun hnext ih =>
    have hsound := hrun.keeps_sound hw
    rw [vacated_append] at hround ⊢
    have hinside' := hinside.imp_right fun hall step hstep => hall step (List.mem_append_left _ hstep)
    obtain ⟨G', hF', hbefore⟩ := ih hinside' (by omega)
    refine hbefore.move hF' ?_ hsound (hnext.move hsound.coherent) (hnext.generation hsound.coherent i) hround
    refine hinside.symm.imp_left fun hall hnil => ?_
    have hlong := hall ⟨m, a, m'⟩ (by simp)
    rw [hF', hnil] at hlong
    exact Nat.lt_irrefl _ hlong

/-- A fan-out of the vector has started in these steps and is under way at `m`, and
the vector has not been removed since. -/
def TellsOf (steps : List Step) (m : Moment) (id : VectorId) : Prop :=
  ∃ front step back kind, steps = front ++ step :: back ∧ step.Starts ⟨id, kind⟩ ∧
    (∀ later ∈ back, step.after.session.stack.tail.length < later.before.session.stack.length) ∧
    step.after.session.stack.tail.length < m.session.stack.length ∧ vacated back id.index = 0

/-- A fan-out of a vector that is still there has its flag set. -/
theorem Run.notifies (hw : start.session.view.Regular) (h : Run start steps m) (ht : TellsOf steps m id) :
    m.session.store.Notifies id := by
  obtain ⟨front, step, back, kind, rfl, hstarts, hinside, hlong, hvacated⟩ := ht
  obtain ⟨hfront, hnext, hback⟩ := h.split
  have hbefore := hfront.keeps_regular hw
  have hm := hnext.move hbefore.sound.coherent
  have hafter := hbefore.move hm
  obtain ⟨d, v, rest, hstack, he, hstarted⟩ := hnext.started hbefore.sound.coherent hstarts
  obtain ⟨d₀, he₀, hd₀⟩ := hstarts
  have hnotifies : step.after.session.store.Notifies id := by
    have hn := hm.notifies_of_start hd₀
    rwa [he₀] at hn
  rw [hstack, List.tail_cons] at hinside hlong
  -- The fan-out is on the stack all the time.
  have hshape : ∀ {steps : List Step} {m : Moment}, Run step.after steps m →
      (∀ later ∈ steps, rest.length < later.before.session.stack.length) → rest.length < m.session.stack.length →
      ∃ G d', m.session.view.fanOuts = (G ++ [d']) ++ rest.filterMap Task.fanOut? ∧ d'.event = ⟨id, kind⟩ := by
    intro steps m hrun hinside hlong
    obtain ⟨above, d', hstack', hevent⟩ := hrun.under hafter hstack hstarted.begins.reached hinside hlong
    refine ⟨above.filterMap Task.fanOut?, d', ?_, hevent.trans he⟩
    rw [Session.fanOuts_of_stack hstack', List.append_assoc, List.singleton_append]
  have hstart : step.after.session.store.Mirrored [d] id.index 0 := by
    refine ⟨fun d' hd' _ => ?_, List.pairwise_singleton _ _⟩
    rw [List.mem_singleton] at hd'
    subst hd'
    have hv := hstarted.begins.server
    rw [he] at hv ⊢
    exact ⟨0, Nat.le_refl _, by rw [Store.generation_of_get? hv]; simp, fun _ => hnotifies⟩
  have hinner : ∀ later ∈ back,
      (rest.filterMap Task.fanOut?).length < later.before.session.view.fanOuts.length := by
    intro later hlater
    obtain ⟨before, after, rfl⟩ := List.append_of_mem hlater
    obtain ⟨G, d', hmid, -⟩ := hshape hback.split.1
      (fun st hst => hinside st (List.mem_append_left _ hst)) (hinside later (by simp))
    rw [hmid]
    simp only [List.length_append, List.length_singleton]
    omega
  have hfanOuts : step.after.session.view.fanOuts = [d] ++ rest.filterMap Task.fanOut? :=
    Session.fanOuts_of_stack (hstack.trans (List.nil_append _).symm)
  obtain ⟨G, hG, hmirrored⟩ := hback.mirrored hafter.sound hfanOuts hstart (.inr hinner) (by omega)
  obtain ⟨G', d', hend, hevent⟩ := hshape hback hinside hlong
  rw [hend] at hG
  have hmem : d' ∈ G := List.append_cancel_right hG ▸ by simp
  obtain ⟨k, hk, -, hflag⟩ := hmirrored.flag d' hmem (by rw [hevent])
  have hn := hflag (by omega)
  rwa [hevent] at hn

/-- Since a moment without fan-outs every fan-out has its flag set, as long as the
generation of the slot has not come round. -/
theorem Run.notifies_of_telling (hw : start.session.view.Sound) (hquiet : ∀ d, .deliver d ∉ start.session.stack)
    (h : Run start steps m) (hround : vacated steps id.index < 2 ^ 32) (hv : m.session.store.get? id = some v)
    (ht : m.session.Telling id) : m.session.store.Notifies id := by
  obtain ⟨d, hd, rfl⟩ := ht
  have hfanOuts : start.session.view.fanOuts = [] ++ [] :=
    List.eq_nil_iff_forall_not_mem.2 fun d hd => hquiet d (Session.mem_fanOuts.1 hd)
  have hnothing : start.session.store.Mirrored [] d.event.server.index 0 := ⟨by simp, .nil⟩
  obtain ⟨G, hG, hmirrored⟩ := h.mirrored hw hfanOuts hnothing (.inl rfl) hround
  rw [List.append_nil] at hG
  exact hmirrored.notifies hround (hG ▸ Session.mem_fanOuts.2 hd) rfl hv

namespace Session

variable {s : Session}

/-- A vector is being destroyed just when its end is being told. -/
theorem destroying_iff (hw : s.view.Sound) (hv : s.store.get? id = some v) :
    v.destroying = true ↔ ∃ d, .deliver d ∈ s.stack ∧ d.event = ⟨id, .destroyed⟩ := by
  constructor
  · intro hd
    obtain ⟨d, hmem, he⟩ := hw.told id v hv hd
    exact ⟨d, mem_fanOuts.1 hmem, he⟩
  · rintro ⟨d, hmem, he⟩
    obtain ⟨u, hu, hd, -⟩ := hw.dying d (mem_fanOuts.2 hmem) (by rw [he])
    rw [he] at hu
    obtain rfl := Option.some.inj (hv.symm.trans hu)
    exact hd

theorem telling_of_notifying (hf : s.view.Flagged) (hv : s.store.get? id = some v) (hn : v.notifying = true) :
    s.Telling id := by
  obtain ⟨d, hd, he⟩ := hf.called id ⟨v, hv, hn⟩
  exact ⟨d, mem_fanOuts.1 hd, he⟩

/-- Where no client is being called, no flag is set. -/
theorem flags_of_quiet (hw : s.view.Sound) (hf : s.view.Flagged) (hv : s.store.get? id = some v)
    (hquiet : ∀ d, .deliver d ∉ s.stack) :
    v.notifying = false ∧ v.destroying = false ∧ (v.state = .idle ∨ v.state = .pending) := by
  have hn : v.notifying = false := Bool.eq_false_iff.2 fun hn =>
    let ⟨d, hd, _⟩ := telling_of_notifying hf hv hn
    hquiet d hd
  have hd : v.destroying = false := Bool.eq_false_iff.2 fun hd =>
    let ⟨d, hmem, _⟩ := (destroying_iff hw hv).1 hd
    hquiet d hmem
  refine ⟨hn, hd, ?_⟩
  cases hstate : v.state with
  | idle => exact .inl rfl
  | pending => exact .inr rfl
  | notifying => exact absurd ((hf.state id v hv hstate).symm.trans hn) (by simp)

end Session

/-- What the flags of a vector say at a moment `m`, after the steps `back` since no
fan-out was under way. -/
structure MirrorsStack (back : List Step) (m : Moment) (id : VectorId) (v : NamedVector) : Prop where
  /-- The vector is being destroyed just when its end is being told. -/
  destroying : v.destroying = true ↔ ∃ d, .deliver d ∈ m.session.stack ∧ d.event = ⟨id, .destroyed⟩
  state : v.state = .notifying → v.notifying = true
  /-- A vector that is notifying has a fan-out under way. -/
  telling : v.notifying = true → m.session.Telling id
  /-- A vector that has a fan-out under way is notifying. -/
  told : TellsOf back m id → v.notifying = true
  /-- It is notifying just when there is a fan-out of its id, as long as the id is
  not that of a vector `2 ^ 32` removals ago. -/
  notifying : vacated back id.index < 2 ^ 32 → (v.notifying = true ↔ m.session.Telling id)
  /-- Inside a fan-out of the vector changes and demands to notify call nobody;
  they make the vector pending at most. -/
  deferred : TellsOf back m id →
    m.session.submit (.markDirty id) =
        ({ m.session with store := m.session.store.noted id v.policy }, .finished (.ok .done)) ∧
      m.session.submit (.notifyNow id) =
        ({ m.session with store := m.session.store.schedule id }, .finished (.ok (.count 0)))
  /-- Where no client is being called, no flag is set. -/
  quiet : (∀ d, .deliver d ∉ m.session.stack) →
    v.notifying = false ∧ v.destroying = false ∧ (v.state = .idle ∨ v.state = .pending)

/-- **The flags of a vector mirror the fan-outs under way.** At every moment of
every run, for every vector. -/
theorem Run.flags_mirror_stack {s₀ : Session} {config : StoreConfig} {host : Host} {random : RandomSource}
    (hs₀ : Session.ofConfig config host random = .ok s₀) (h : Run ⟨s₀, false⟩ steps m)
    (hquiet : ∀ d, .deliver d ∉ m.session.stack) (hback : Run m back m') (hv : m'.session.store.get? id = some v) :
    MirrorsStack back m' id v := by
  have hall := h.trans hback
  have hw := hall.sound hs₀
  have hflagged := hall.flagged hs₀
  have hflag : m'.session.store.Notifies id → v.notifying = true := by
    rintro ⟨u, hu, hn⟩
    rw [hv, Option.some.injEq] at hu
    exact hu ▸ hn
  have htold : TellsOf back m' id → v.notifying = true := fun ht =>
    hflag (hback.notifies (h.regular hs₀) ht)
  exact {
    destroying := Session.destroying_iff hw hv
    state := hflagged.state id v hv
    telling := Session.telling_of_notifying hflagged hv
    told := htold
    notifying := fun hround => ⟨Session.telling_of_notifying hflagged hv, fun ht =>
      hflag (hback.notifies_of_telling (h.sound hs₀) hquiet hround hv ht)⟩
    deferred := fun ht => ⟨Session.submit_markDirty hv (htold ht), Session.submit_notifyNow hv (htold ht)⟩
    quiet := Session.flags_of_quiet hw hflagged hv }

/-- The client that is told of a change has the vector destroyed, and is told the
end inside the fan-out that told the change. -/
def Moment.destroyedInside : List (Option Request) :=
  [some (.create none), none, some (.registerClient ⟨0, 0⟩ true), none, some (.notifyNow ⟨0, 0⟩), none,
    some (.destroy ⟨0, 0⟩), none]

theorem Run.flags_mirror_stack_destroyedInside :
    let m := Moment.outcome ⟨.initial, false⟩ Moment.destroyedInside
    let steps := Moment.play ⟨.initial, false⟩ Moment.destroyedInside
    ∃ v, m.session.store.get? ⟨0, 0⟩ = some v ∧ v.notifying = true ∧ v.destroying = true ∧
      MirrorsStack steps m ⟨0, 0⟩ v := by
  intro m steps
  have hrun : Run ⟨.initial, false⟩ steps m := Moment.run_play (by decide +kernel)
  have hquiet : ∀ d, .deliver d ∉ Session.initial.stack := fun d hd => by cases hd
  have hv : ∃ v, m.session.store.get? ⟨0, 0⟩ = some v ∧ v.notifying = true ∧ v.destroying = true := ⟨_, rfl, rfl, rfl⟩
  obtain ⟨v, hv, hn, hd⟩ := hv
  exact ⟨v, hv, hn, hd, Run.flags_mirror_stack Session.ofConfig_initial .start hquiet hrun hv⟩

end VectorEngine
