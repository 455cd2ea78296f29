/-
The end of a vector is the last its clients hear of it, unless an idle pass comes
to the vector while its end is being told.

A client that has been told the end is registered with no vector but the one
being destroyed, whose fan-out has passed it (`View.Gone`), so it is told the end
once. Updates of a vector being destroyed come from fan-outs inside the one that
tells its end, and those are started by idle passes alone (`View.Undisturbed`).
-/
import Mathlib
import VectorEngine.Proofs.Session.IdleFlush
import VectorEngine.Proofs.Store.Registration

namespace VectorEngine

variable {W : VectorId → Prop} {w w' : View} {f : Option VectorId}

namespace View

/-- The clients are registered once each, and wait once each in a fan-out. -/
structure Enrolled (w : View) : Prop where
  registered : w.store.Registered
  waiting : ∀ d ∈ w.fanOuts, (d.waiting.map (·.id)).Nodup

/-- No fan-out can call the client any more: it is registered, if at all, with a
vector being destroyed, and is not waiting to be told its end. -/
structure Gone (w : View) (c : ClientId) : Prop where
  old : c.number < w.store.nextClient
  passed : ∀ id v, w.store.get? id = some v → c ∈ v.clients.map (·.id) → v.destroying = true ∧
    ∀ d ∈ w.fanOuts, d.event = ⟨id, .destroyed⟩ → c ∉ d.waiting.map (·.id)

/-- Inside the fan-out that tells the end of the vector no client waits to be
told of a change. -/
def Undisturbed (w : View) (id : VectorId) : Prop :=
  w.fanOuts.Pairwise fun d dd => dd.event = ⟨id, .destroyed⟩ → d.event.server = id →
    ∀ x ∈ d.waiting, x.listens = false

end View

/-! ## The course of the fan-outs -/

/-- What a move does to the fan-outs: nothing, or one starts, calls a client or
ends. The vectors in between are those before, changed. -/
inductive Turn (W : VectorId → Prop) (f : Option VectorId) : Store → List Delivery → Store → List Delivery → Prop
  | keeps {s mid s' : Store} (F : List Delivery) : Store.Changes W s mid → mid.Inherits s' → Turn W f s F s' F
  | starts {s mid s' : Store} {d : Delivery} {v : NamedVector} (F : List Delivery) : Store.Changes W s mid →
    mid.get? d.event.server = some v → d.waiting = v.clients → (d.event.kind = .destroyed → v.destroying = false) →
    (d.event.kind = .updated → v.notifying = false ∨ f = some d.event.server ∧ mid = s) → mid.Inherits s' →
    Turn W f s F s' (d :: F)
  | calls (s : Store) {d : Delivery} {skipped waiting : List Client} {x : Client} (reached : Nat) (F : List Delivery) :
    d.waiting = skipped ++ x :: waiting → Turn W f s (d :: F) s ({ d with waiting := waiting, reached := reached } :: F)
  | ends {s s' : Store} (d : Delivery) (F : List Delivery) : s.Inherits s' → Turn W f s (d :: F) s' F

namespace Store

variable {s s' : Store} {d : Delivery}

theorem inherits_endDelivery {F : List Delivery} {P : List (List VectorId)} (h : View.Sound ⟨s, d :: F, P⟩) :
    s.Inherits (s.endDelivery d) := by
  cases hd : d.event.kind with
  | updated =>
    rw [endDelivery_updated s hd]
    exact inherits_modify s _ (fun _ => rfl) fun _ h => h
  | destroyed =>
    obtain ⟨v, hv, -⟩ := h.dying d List.mem_cons_self hd
    rw [endDelivery_destroyed s hd]
    exact inherits_retire hv

end Store

namespace Move

variable {c : Option (ClientId × ClientEvent)}

theorem turn (hm : Move W w c f w') (hw : w.Sound) : Turn W f w.store w.fanOuts w'.store w'.fanOuts := by
  cases hm with
  | begun F P hc ho =>
    cases ho with
    | nothing => exact .keeps F hc (.refl _)
    | update hv hn =>
      exact .starts F hc hv rfl (fun hk => by cases hk) (fun _ => .inl hn)
        (Store.inherits_modify _ _ (fun _ => rfl) fun _ h => h)
    | destroy hv hd =>
      exact .starts F hc hv rfl (fun _ => hd) (fun hk => by cases hk)
        (Store.inherits_modify _ _ (fun _ => rfl) fun _ _ => rfl)
  | pass s F P => exact .keeps F .refl ⟨rfl, fun id v hv => ⟨v, hv, rfl, fun h => h⟩⟩
  | call F P _ hnext =>
    obtain ⟨skipped, x, hwaiting, -⟩ := Delivery.nextListener_some hnext
    exact .calls _ _ F hwaiting
  | ended s d F P => exact .ends d F (Store.inherits_endDelivery hw)
  | flush F ids P hv _ =>
    exact .starts F .refl hv rfl (fun hk => by cases hk) (fun _ => .inr ⟨rfl, rfl⟩)
      (Store.inherits_modify _ _ (fun _ => rfl) fun _ h => h)
  | skip F ids P _ => exact .keeps F .refl (.refl _)
  | passed s F P => exact .keeps F .refl (.refl _)

/-- A call: who is called, and what is left of the fan-out. -/
theorem of_call {c : ClientId} {e : ClientEvent} (hm : Move W w (some (c, e)) f w') :
    ∃ s d F P v skipped x waiting reached, w = ⟨s, d :: F, P⟩ ∧ d.event = e ∧ s.get? e.server = some v ∧
      c ∈ v.clients.map (·.id) ∧ d.waiting = skipped ++ x :: waiting ∧ x.id = c ∧ x.listens = true ∧
      w' = ⟨s, { d with waiting := waiting, reached := reached } :: F, P⟩ := by
  cases hm with
  | @call s d v c waiting reached F P hv hnext =>
    obtain ⟨skipped, x, hwaiting, hx, hlistens, hmem⟩ := Delivery.nextListener_some hnext
    exact ⟨s, d, F, P, v, skipped, x, waiting, reached, rfl, rfl, hv, hmem, hwaiting, hx, hlistens, rfl⟩

end Move

/-- The end of a vector is told by one fan-out. -/
theorem View.Sound.not_twice {s : Store} {F : List Delivery} {P : List (List VectorId)} {d dd : Delivery}
    (h : Sound ⟨s, d :: F, P⟩) (hd : d.event.kind = .destroyed) (hdd : dd ∈ F) : dd.event ≠ d.event := by
  intro he
  have hupdated := ((List.pairwise_cons.1 h.nested).1 dd hdd (he ▸ hd) (he ▸ rfl)).2
  rw [hd] at hupdated
  cases hupdated

/-! ## Registrations -/

theorem Store.Registered.changes {s s' : Store} (h : s.Registered) (hs : s.Coherent) (hc : Store.Changes W s s') :
    s'.Registered := by
  induction hc with
  | refl => exact h
  | tail hmid hc ih => exact ih.change (Store.Changes.coherent hmid hs) hc

theorem Move.enrolled {c : Option (ClientId × ClientEvent)} (hm : Move W w c f w') (hw : w.Sound) (h : w.Enrolled) :
    w'.Enrolled := by
  have ht := hm.turn hw
  obtain ⟨s, F, P⟩ := w
  obtain ⟨s', F', P'⟩ := w'
  obtain ⟨hregistered, hwaiting⟩ := h
  cases ht with
  | keeps _ hc hi => exact ⟨(hregistered.changes hw.coherent hc).inherits hi, hwaiting⟩
  | starts _ hc hv hclients _ _ hi =>
    have hmid := hregistered.changes hw.coherent hc
    refine ⟨hmid.inherits hi, fun d hd => ?_⟩
    rcases List.mem_cons.1 hd with rfl | hd
    · exact hclients ▸ hmid.nodup _ _ hv
    · exact hwaiting d hd
  | @calls d skipped waiting x reached F heq =>
    refine ⟨hregistered, fun d' hd' => ?_⟩
    rcases List.mem_cons.1 hd' with rfl | hd'
    · have hsub : waiting.Sublist d.waiting :=
        heq ▸ (List.sublist_cons_self x waiting).trans (List.sublist_append_right _ _)
      exact (hwaiting d List.mem_cons_self).sublist (hsub.map _)
    · exact hwaiting d' (List.mem_cons_of_mem _ hd')
  | ends d _ hi => exact ⟨hregistered.inherits hi, fun d' hd' => hwaiting d' (List.mem_cons_of_mem _ hd')⟩

/-! ## Clients that have been told the end -/

namespace View.Gone

variable {s s' : Store} {F : List Delivery} {P : List (List VectorId)} {c : ClientId}

theorem change (h : Gone ⟨s, F, P⟩ c) (hs : s.Coherent) (hc : Store.Change W s s') : Gone ⟨s', F, P⟩ c where
  old := Nat.lt_of_lt_of_le h.old hc.nextClient
  passed id v' hv' hmem := by
    obtain ⟨x, hx, rfl⟩ := List.mem_map.1 hmem
    rcases hc.mem_clients hs hv' hx with ⟨v, hv, hold, hsame⟩ | ⟨hnew, -, -⟩
    · obtain ⟨hd, hpassed⟩ := h.passed id v hv (List.mem_map.2 ⟨x, hold, rfl⟩)
      exact ⟨hsame ▸ hd, hpassed⟩
    · have hlt := h.old
      rw [hnew] at hlt
      exact absurd hlt (Nat.lt_irrefl _)

theorem changes (h : Gone ⟨s, F, P⟩ c) (hs : s.Coherent) (hc : Store.Changes W s s') : Gone ⟨s', F, P⟩ c := by
  induction hc with
  | refl => exact h
  | tail hmid hc ih => exact ih.change (Store.Changes.coherent hmid hs) hc

theorem inherits (h : Gone ⟨s, F, P⟩ c) (hi : s.Inherits s') : Gone ⟨s', F, P⟩ c where
  old := hi.nextClient ▸ h.old
  passed id v' hv' hmem := by
    obtain ⟨v, hv, hclients, hd⟩ := hi.vector id v' hv'
    obtain ⟨hdestroying, hpassed⟩ := h.passed id v hv (hclients ▸ hmem)
    exact ⟨hd hdestroying, hpassed⟩

end View.Gone

/-- A client that has been told the end stays out of reach. -/
theorem Move.gone {c : Option (ClientId × ClientEvent)} {c' : ClientId} (hm : Move W w c f w') (hw : w.Sound)
    (h : w.Gone c') : w'.Gone c' := by
  have ht := hm.turn hw
  obtain ⟨s, F, P⟩ := w
  obtain ⟨s', F', P'⟩ := w'
  cases ht with
  | keeps _ hc hi =>
    have hmid := (h.changes hw.coherent hc).inherits hi
    exact ⟨hmid.old, hmid.passed⟩
  | @starts mid _ d v _ hc hv hclients hdestroy _ hi =>
    have hmid := h.changes hw.coherent hc
    have hend := hmid.inherits hi
    refine ⟨hend.old, fun id u hu hmem => ⟨(hend.passed id u hu hmem).1, fun d' hd' he => ?_⟩⟩
    rcases List.mem_cons.1 hd' with rfl | hd'
    · -- A vector whose end begins to be told was not being destroyed before.
      intro hwaits
      rw [he] at hv hdestroy
      rw [hclients] at hwaits
      exact absurd ((hmid.passed id v hv hwaits).1.symm.trans (hdestroy rfl)) (by simp)
    · exact (hend.passed id u hu hmem).2 d' hd' he
  | @calls d skipped waiting x reached F heq =>
    refine ⟨h.old, fun id u hu hmem => ?_⟩
    obtain ⟨hd, hpassed⟩ := h.passed id u hu hmem
    refine ⟨hd, fun d' hd' he => ?_⟩
    rcases List.mem_cons.1 hd' with rfl | hd'
    · intro hwaits
      refine hpassed d List.mem_cons_self he ?_
      rw [heq, List.map_append, List.map_cons]
      exact List.mem_append_right _ (List.mem_cons_of_mem _ hwaits)
    · exact hpassed d' (List.mem_cons_of_mem _ hd') he
  | ends d _ hi =>
    have hend := h.inherits hi
    exact ⟨hend.old, fun id u hu hmem => ⟨(hend.passed id u hu hmem).1, fun d' hd' he =>
      (hend.passed id u hu hmem).2 d' (List.mem_cons_of_mem _ hd') he⟩⟩

/-- Being told the end puts a client out of reach. -/
theorem Move.gone_of_end {c : ClientId} {id : VectorId} (hm : Move W w (some (c, ⟨id, .destroyed⟩)) f w')
    (hw : w.Sound) (h : w.Enrolled) : w'.Gone c := by
  obtain ⟨s, d, F, P, v, skipped, x, waiting, reached, rfl, he, hv, hmem, heq, rfl, -, rfl⟩ := hm.of_call
  obtain ⟨y, hy, hyx⟩ := List.mem_map.1 hmem
  have hdying : v.destroying = true := by
    obtain ⟨u, hu, hdestroying, -⟩ := hw.dying d List.mem_cons_self (by rw [he])
    rw [he, hv] at hu
    exact Option.some.inj hu ▸ hdestroying
  refine ⟨hyx ▸ h.registered.below id v hv y hy, fun id' u hu hmem' => ?_⟩
  obtain ⟨z, hz, hzx⟩ := List.mem_map.1 hmem'
  obtain rfl : id = id' := h.registered.apart id id' v u hv hu y hy z hz (hyx.trans hzx.symm)
  rw [hv, Option.some.injEq] at hu
  subst hu
  refine ⟨hdying, fun d' hd' he' => ?_⟩
  rcases List.mem_cons.1 hd' with rfl | hd'
  · have hnodup := h.waiting d List.mem_cons_self
    rw [heq, List.map_append, List.map_cons] at hnodup
    exact (List.nodup_cons.1 (List.nodup_append.1 hnodup).2.1).1
  · exact absurd (he'.trans he.symm) (hw.not_twice (by rw [he]) hd')

/-- A client out of reach is told at most of changes to a vector being destroyed. -/
theorem Move.updated_of_gone {c : ClientId} {e : ClientEvent} (hm : Move W w (some (c, e)) f w') (h : w.Gone c) :
    e.kind = .updated ∧ ∃ v, w.store.get? e.server = some v ∧ v.destroying = true := by
  obtain ⟨s, d, F, P, v, skipped, x, waiting, reached, rfl, he, hv, hmem, heq, rfl, -, rfl⟩ := hm.of_call
  obtain ⟨hd, hpassed⟩ := h.passed e.server v hv hmem
  refine ⟨?_, v, hv, hd⟩
  obtain ⟨server, kind⟩ := e
  cases kind with
  | updated => rfl
  | destroyed =>
    refine absurd ?_ (hpassed d List.mem_cons_self he)
    rw [heq]
    simp

/-! ## Updates while the end is being told -/

/-- Only an idle pass starts a fan-out to listening clients inside the one that
tells the end. -/
theorem Move.undisturbed {c : Option (ClientId × ClientEvent)} {id : VectorId} (hm : Move W w c f w') (hw : w.Sound)
    (h : w.Undisturbed id) : w'.Undisturbed id ∨ f = some id ∧ ∃ v, w.store.get? id = some v ∧ v.destroying = true ∧
      ∃ x ∈ v.clients, x.listens = true := by
  have ht := hm.turn hw
  obtain ⟨s, F, P⟩ := w
  obtain ⟨s', F', P'⟩ := w'
  cases ht with
  | keeps => exact .inl h
  | @starts mid _ d v _ hc hv hclients hdestroy hupdate _ =>
    by_cases hlistens : ∃ dd ∈ F, dd.event = ⟨id, .destroyed⟩ ∧ d.event.server = id ∧ ∃ x ∈ d.waiting, x.listens = true
    · obtain ⟨dd, hdd, hend, rfl, x, hx, hlistens⟩ := hlistens
      have hmid := hw.changes hc
      obtain ⟨u, hu, hdestroying, hnotifying⟩ := hmid.dying dd hdd (by rw [hend])
      rw [hend, hv, Option.some.injEq] at hu
      subst hu
      cases hk : d.event.kind with
      | destroyed => exact absurd ((hdestroy hk).symm.trans hdestroying) (by simp)
      | updated =>
        rcases hupdate hk with hidle | ⟨hflush, rfl⟩
        · exact absurd (hidle.symm.trans hnotifying) (by simp)
        · exact .inr ⟨hflush, v, hv, hdestroying, x, hclients ▸ hx, hlistens⟩
    · refine .inl (List.pairwise_cons.2 ⟨fun dd hdd hend hserver x hx => ?_, h⟩)
      by_contra hx'
      exact hlistens ⟨dd, hdd, hend, hserver, x, hx, by simpa using hx'⟩
  | @calls d skipped waiting x reached F heq =>
    obtain ⟨hd, hF⟩ := List.pairwise_cons.1 h
    refine .inl (List.pairwise_cons.2 ⟨fun dd hdd hend hserver y hy => hd dd hdd hend hserver y ?_, hF⟩)
    rw [heq]
    exact List.mem_append_right _ (List.mem_cons_of_mem _ hy)
  | ends => exact .inl (List.Pairwise.of_cons h)

/-- A change is told to clients of the vector, which is not being destroyed. -/
theorem Move.alive {c : ClientId} {id : VectorId} (hm : Move W w (some (c, ⟨id, .updated⟩)) f w') (hw : w.Sound)
    (h : w.Undisturbed id) : ∃ v, w.store.get? id = some v ∧ v.destroying = false ∧ c ∈ v.clients.map (·.id) := by
  obtain ⟨s, d, F, P, v, skipped, x, waiting, reached, rfl, he, hv, hmem, heq, rfl, hlistens, rfl⟩ := hm.of_call
  refine ⟨v, hv, ?_, hmem⟩
  by_contra hd
  obtain ⟨dd, hdd, hend⟩ := hw.told id v hv (by simpa using hd)
  rcases List.mem_cons.1 hdd with rfl | hdd
  · rw [hend] at he
    cases he
  · have hsilent := (List.pairwise_cons.1 h).1 dd hdd hend (by rw [he]) x (by simp [heq])
    exact absurd (hsilent.symm.trans hlistens) (by simp)

namespace Session

variable {s : Session} {id : VectorId} {v : NamedVector}

theorem tick_flush (h : s.flushing? = some id) (hv : s.store.get? id = some v) : ∃ rest, s.tick =
    ({ s with
      store := s.store.modify id NamedVector.opened
      stack := .deliver ⟨⟨id, .updated⟩, v.clients, v.notifying, 0⟩ :: rest }, none) := by
  obtain ⟨ids, flushed, rest, hstack, hpending⟩ := Store.flushing?_eq_some h
  refine ⟨.idlePass ids (flushed + 1) :: rest, ?_⟩
  simp only [tick, hstack, Store.tick, hpending, Store.beginDelivery_of_get? hv]
  rfl

/-- While a registered client that listens is waiting, the fan-out calls one. -/
theorem tick_deliver {d : Delivery} {rest : List Task} {x : Client} (hstack : s.stack = .deliver d :: rest)
    (hv : s.store.get? d.event.server = some v) (hx : x ∈ d.waiting) (hlistens : x.listens = true)
    (hregistered : x.id ∈ v.clients.map (·.id)) : ∃ c, s.tick.2 = some (.calling c d.event) := by
  obtain ⟨c, waiting, reached, hnext⟩ := Delivery.nextListener_of_mem hx hlistens hregistered
  refine ⟨c, ?_⟩
  simp only [tick, hstack, Store.tick, Store.stepDelivery, hv]
  rw [hnext]

end Session

/-! ## Runs -/

/-- What the client has been told, in order. -/
def told (steps : List Step) (c : ClientId) : List EventKind :=
  (calls steps).filterMap fun e => if e.1 = c then some e.2.kind else none

/-- The end of a vector is final: it is the last thing a client is told, and
changes are told of vectors that are not being destroyed, to their clients. -/
structure Final (steps : List Step) : Prop where
  order : ∀ c, ∃ n, told steps c = List.replicate n .updated ∨ told steps c = List.replicate n .updated ++ [.destroyed]
  alive : ∀ step ∈ steps, ∀ c id, step.act.called? = some (c, ⟨id, .updated⟩) →
    ∃ v, step.before.session.store.get? id = some v ∧ v.destroying = false ∧ c ∈ v.clients.map (·.id)

/-- An idle pass flushes the vector while its end is being told, and there is a
client to hear of it. -/
def Step.Disturbs (step : Step) (id : VectorId) : Prop :=
  step.Flushes id ∧ ∃ v, step.before.session.store.get? id = some v ∧ v.destroying = true ∧
    ∃ x ∈ v.clients, x.listens = true

variable {start m m' : Moment} {a : Act} {steps : List Step} {id : VectorId} {c : ClientId}

theorem told_append (steps : List Step) (step : Step) (c : ClientId) : told (steps ++ [step]) c = told steps c ++
    (step.act.called?.bind fun e => if e.1 = c then some e.2.kind else none).toList := by
  unfold told calls
  rw [List.filterMap_append, List.filterMap_append]
  cases h : step.act.called? with
  | none => simp [h]
  | some e => by_cases he : e.1 = c <;> simp [h, he]

/-- What the invariants ask of the first moment. -/
theorem View.enrolled_start (config : StoreConfig) : View.Enrolled ⟨{ config := config }, [], []⟩ :=
  ⟨Store.registered_empty.inherits ⟨rfl, fun _ v hv => ⟨v, hv, rfl, fun h => h⟩⟩, by simp⟩

theorem Run.enrolled {s₀ : Session} {config : StoreConfig} {host : Host} {random : RandomSource}
    (hs₀ : Session.ofConfig config host random = .ok s₀) (h : Run ⟨s₀, false⟩ steps m) : m.session.view.Enrolled := by
  have hstart := Session.view_of_ofConfig hs₀
  have hboth := h.keeps (I := fun w => w.Sound ∧ w.Enrolled) (fun hw => hw.1.coherent)
    (fun hm hw => ⟨hw.1.move hm, hm.enrolled hw.1 hw.2⟩)
    (hstart ▸ ⟨View.sound_start config, View.enrolled_start config⟩)
  exact hboth.2

section

variable {s₀ : Session} {config : StoreConfig} {host : Host} {random : RandomSource}
  (hs₀ : Session.ofConfig config host random = .ok s₀)

include hs₀

/-- A client that has been told the end is out of reach. -/
theorem Run.gone (h : Run ⟨s₀, false⟩ steps m) (hc : .destroyed ∈ told steps c) : m.session.view.Gone c := by
  induction h with
  | start => cases hc
  | @next steps m m' a hrun hnext ih =>
    have hw := hrun.sound hs₀
    have hm := hnext.move hw.coherent
    rw [told_append, List.mem_append] at hc
    rcases hc with hc | hc
    · exact hm.gone hw (ih hc)
    · rw [Option.mem_toList, Option.bind_eq_some_iff] at hc
      obtain ⟨⟨c', server, kind⟩, hcall, hc⟩ := hc
      split at hc
      · next heq =>
        cases hc
        subst heq
        rw [show a.called? = _ from hcall] at hm
        exact hm.gone_of_end hw (hrun.enrolled hs₀)
      · cases hc

theorem Run.undisturbed (h : Run ⟨s₀, false⟩ steps m) (hno : ∀ step ∈ steps, ¬step.Disturbs id) :
    m.session.view.Undisturbed id := by
  induction h with
  | start =>
    rw [View.Undisturbed, Session.view_of_ofConfig hs₀]
    exact .nil
  | @next steps m m' a hrun hnext ih =>
    have hw := hrun.sound hs₀
    rcases (hnext.move hw.coherent).undisturbed hw (ih fun step hstep => hno step (List.mem_append_left _ hstep)) with
      h | ⟨hflush, hv⟩
    · exact h
    · exact absurd ⟨hflush, hv⟩ (hno ⟨m, a, m'⟩ (by simp))

/-- Undisturbed, the end of every vector is final. -/
theorem Run.final (h : Run ⟨s₀, false⟩ steps m) (hno : ∀ step ∈ steps, ∀ id, ¬step.Disturbs id) : Final steps := by
  induction h with
  | start => exact ⟨fun c => ⟨0, .inl rfl⟩, fun step hstep => by cases hstep⟩
  | @next steps m m' a hrun hnext ih =>
    have hno' : ∀ step ∈ steps, ∀ id, ¬step.Disturbs id := fun step hstep => hno step (List.mem_append_left _ hstep)
    have hfinal := ih hno'
    have hw := hrun.sound hs₀
    have hm := hnext.move hw.coherent
    have halive : ∀ c id, a.called? = some (c, ⟨id, .updated⟩) →
        ∃ v, m.session.store.get? id = some v ∧ v.destroying = false ∧ c ∈ v.clients.map (·.id) := by
      intro c id hcall
      rw [hcall] at hm
      exact hm.alive hw (hrun.undisturbed hs₀ fun step hstep => hno' step hstep id)
    refine ⟨fun c => ?_, fun step hstep => ?_⟩
    · rw [told_append]
      cases hcall : a.called? with
      | none => simpa [hcall] using hfinal.order c
      | some e =>
        obtain ⟨c', server, kind⟩ := e
        by_cases hc : c' = c
        · subst hc
          rw [hcall] at hm
          obtain ⟨n, hupdates | hend⟩ := hfinal.order c'
          · cases kind with
            | updated => exact ⟨n + 1, .inl (by simp [hupdates, List.replicate_succ'])⟩
            | destroyed => exact ⟨n, .inr (by simp [hupdates])⟩
          · -- Called once more after its end, the client would be told of a change.
            obtain ⟨hk, v, hv, hd⟩ := hm.updated_of_gone (hrun.gone hs₀ (by rw [hend]; simp))
            obtain ⟨u, hu, hd', -⟩ := halive c' server (by rw [hcall, ← hk])
            obtain rfl := Option.some.inj (hv.symm.trans hu)
            exact absurd (hd'.symm.trans hd) (by simp)
        · simpa [hcall, hc] using hfinal.order c
    · rcases List.mem_append.1 hstep with hstep | hstep
      · exact hfinal.alive step hstep
      · rw [List.mem_singleton] at hstep
        subst hstep
        exact halive

/-- No client is told the end twice. -/
theorem Run.end_once (h : Run ⟨s₀, false⟩ steps m) (c : ClientId) : (told steps c).count .destroyed ≤ 1 := by
  induction h with
  | start => exact Nat.zero_le 1
  | @next steps m m' a hrun hnext ih =>
    rw [told_append, List.count_append]
    by_cases hc : .destroyed ∈ told steps c
    · -- What a client out of reach is told is not its end.
      have hlast : (Option.bind a.called? fun e => if e.1 = c then some e.2.kind else none) ≠ some .destroyed := by
        intro hlast
        obtain ⟨⟨c', e⟩, hcall, htold⟩ := Option.bind_eq_some_iff.1 hlast
        have hm := hnext.move (hrun.sound hs₀).coherent
        split at htold
        · next heq =>
          subst heq
          rw [hcall] at hm
          have hk := (hm.updated_of_gone (hrun.gone hs₀ hc)).1
          rw [Option.some.injEq, hk] at htold
          cases htold
        · cases htold
      have hzero : (Option.bind a.called? fun e =>
          if e.1 = c then some e.2.kind else none).toList.count .destroyed = 0 :=
        List.count_eq_zero.2 fun hmem => hlast (Option.mem_toList.1 hmem)
      exact hzero ▸ ih
    · rw [List.count_eq_zero.2 hc, Nat.zero_add]
      exact Nat.le_trans List.count_le_length (by cases Option.bind a.called? _ <;> simp)

end

/-- Where the engine has the turn, the next step is a unit of work. -/
theorem Next.work_of_busy {s : Session} (h : Next ⟨s, true⟩ a m') : a = .work s.tick.2 := by
  cases h with
  | work _ h => rw [h]

/-- After an idle pass has disturbed the end of a vector, one of its clients is
told of a change. -/
theorem Next.disturbs (h : Next m a m') (hd : Step.Disturbs ⟨m, a, m'⟩ id) : m'.busy = true ∧
    (∃ v, m'.session.store.get? id = some v ∧ v.destroying = true) ∧
      ∃ c, m'.session.tick.2 = some (.calling c ⟨id, .updated⟩) := by
  obtain ⟨hflush, v, hv, hdestroying, x, hx, hlistens⟩ := hd
  cases h with
  | ask => cases hflush
  | @work s s' _ busy h =>
    obtain ⟨rest, htick⟩ := Session.tick_flush (s := s) hflush hv
    rw [h, Prod.mk.injEq] at htick
    obtain ⟨hs', rfl⟩ := htick
    have hv' : s'.store.get? id = some v.opened := by
      rw [hs']
      exact Store.get?_modify_self hv
    have hstack : s'.stack = .deliver ⟨⟨id, .updated⟩, v.clients, v.notifying, 0⟩ :: rest := by rw [hs']
    exact ⟨rfl, ⟨_, hv', hdestroying⟩, Session.tick_deliver hstack hv' hx hlistens (List.mem_map.2 ⟨x, hx, rfl⟩)⟩

/-- **The end of a vector is final unless an idle pass comes to the vector while
its end is being told.** No client is told the end twice in any run. A run up to
a moment at which the program has the turn keeps the end of every vector final,
which is to say that no client is told anything after the end and no vector being
destroyed tells of changes, exactly if no idle pass has flushed a vector in the
course of being destroyed that has a client to call. -/
theorem Run.end_final_iff {s₀ : Session} {config : StoreConfig} {host : Host} {random : RandomSource}
    (hs₀ : Session.ofConfig config host random = .ok s₀) (h : Run ⟨s₀, false⟩ steps m) (hturn : m.busy = false) :
    (∀ c, (told steps c).count .destroyed ≤ 1) ∧ (Final steps ↔ ∀ step ∈ steps, ∀ id, ¬step.Disturbs id) := by
  refine ⟨h.end_once hs₀, fun hfinal step hstep id hd => ?_, h.final hs₀⟩
  obtain ⟨front, rest, rfl⟩ := List.append_of_mem hstep
  obtain ⟨-, hnext, hrest⟩ := h.split
  obtain ⟨hbusy, ⟨v, hv, hdestroying⟩, c, hcall⟩ := hnext.disturbs hd
  cases rest with
  | nil =>
    rw [hrest.eq_of_nil, hturn] at hbusy
    cases hbusy
  | cons second rest =>
    have hrest : Run step.after ([] ++ second :: rest) m := hrest
    obtain ⟨hstart, hsecond, -⟩ := hrest.split
    have hbefore : second.before = step.after := hstart.eq_of_nil.symm
    have hbusy' : second.before = ⟨step.after.session, true⟩ := by rw [hbefore, ← hbusy]
    rw [hbusy'] at hsecond
    have hcalled : second.act.called? = some (c, ⟨id, .updated⟩) := by
      rw [hsecond.work_of_busy, hcall]
      rfl
    obtain ⟨u, hu, halive, -⟩ := hfinal.alive second (by simp) c id hcalled
    rw [hbefore, hv, Option.some.injEq] at hu
    subst hu
    exact absurd (halive.symm.trans hdestroying) (by simp)

/-- The program has a vector destroyed; the client that is told has a change to
the vector noted and lets an idle pass run. -/
def Moment.idlePassInside : List (Option Request) :=
  [some (.create none), none, some (.registerClient ⟨0, 0⟩ true), none, some (.destroy ⟨0, 0⟩), none,
    some (.markDirty ⟨0, 0⟩), none, some .runIdle, none, none]

theorem Run.end_final_iff_idlePassInside :
    let steps := Moment.play ⟨.initial, false⟩ Moment.idlePassInside
    (told steps ⟨1⟩).count .destroyed ≤ 1 ∧ (Final steps ↔ ∀ step ∈ steps, ∀ id, ¬step.Disturbs id) := by
  intro steps
  have hrun : Run ⟨.initial, false⟩ steps (Moment.outcome ⟨.initial, false⟩ Moment.idlePassInside) :=
    Moment.run_play rfl
  have hiff := Run.end_final_iff Session.ofConfig_initial hrun rfl
  exact ⟨hiff.1 ⟨1⟩, hiff.2⟩

/-- The client is told of a change after the end. -/
theorem Run.not_final_idlePassInside :
    let steps := Moment.play ⟨.initial, false⟩ Moment.idlePassInside
    (∃ m, Run ⟨.initial, false⟩ steps m) ∧ told steps ⟨1⟩ = [.destroyed, .updated] ∧ ¬Final steps := by
  intro steps
  have htold : told steps ⟨1⟩ = [.destroyed, .updated] := rfl
  refine ⟨⟨_, Moment.run_play rfl⟩, htold, fun hfinal => ?_⟩
  obtain ⟨n, h | h⟩ := hfinal.order ⟨1⟩ <;> rw [htold] at h <;> cases n <;> simp [List.replicate_succ] at h

end VectorEngine
