/-
What lasts from one moment to the next.

The generation of a slot grows each time its vector is removed. A client that is
not registered with a vector never will be, and one that is stays so until it is
released or the vector is removed. All of it is read off the two lists of what
can happen (`Session.Issued`, `Store.Ticked`).
-/
import Mathlib
import VectorEngine.Proofs.Store.Links
import VectorEngine.Proofs.Session.Destruction

namespace VectorEngine

variable {W : VectorId → Prop} {w w' : View} {f : Option VectorId}

/-! ## Generations -/

namespace Store

variable {s s' : Store} {id : VectorId} {tasks tasks' : List Task} {signal? : Option Signal}

theorem retire_generation (s : Store) (id : VectorId) (i : Nat) :
    (s.retire id).generation i = s.generation i ∨ (s.retire id).generation i = s.generation i + 1 := by
  unfold retire
  split
  · exact .inl rfl
  · next slot hslot =>
    have hlt : id.index < s.slots.length := (List.getElem?_eq_some_iff.1 hslot).1
    have hset := generation_set s (j := i) (g := slot.generation + 1) none hlt
    have hgrown : ((s.slots.set id.index ⟨slot.generation + 1, none⟩).getD i {}).generation = s.generation i ∨
        ((s.slots.set id.index ⟨slot.generation + 1, none⟩).getD i {}).generation = s.generation i + 1 := by
      rw [hset]
      split
      · next hi =>
        refine .inr ?_
        rw [hi]
        simp [generation, hslot]
      · exact .inl rfl
    dsimp only
    split <;> exact hgrown

theorem generation_endDelivery (s : Store) (d : Delivery) (i : Nat) :
    (s.endDelivery d).generation i = s.generation i ∨ (s.endDelivery d).generation i = s.generation i + 1 := by
  cases hd : d.event.kind with
  | updated =>
    rw [endDelivery_updated s hd]
    exact .inl (generation_modify s _ _ i)
  | destroyed =>
    rw [endDelivery_destroyed s hd]
    exact retire_generation s _ i

theorem generation_releaseClient (s : Store) (c : ClientId) (i : Nat) :
    (s.releaseClient c).1.generation i = s.generation i := by
  rcases releaseClient_cases s c with he | ⟨id, he⟩
  · rw [he]
  · rw [he]
    exact generation_modify s id _ i

theorem Ticked.generation (h : Ticked s tasks s' tasks' signal?) (i : Nat) :
    s'.generation i = s.generation i ∨ s'.generation i = s.generation i + 1 := by
  cases h with
  | quiet | calls | passed | skips | finishes => exact .inl rfl
  | ends => exact generation_endDelivery s _ i
  | flushes => exact .inl (generation_modify s _ _ i)
  | works _ _ _ hst => exact .inl (hst.steady.generation i)

/-- A slot that has come to another generation does not have the vector of the id. -/
theorem get?_of_generation_ne (h : s.generation id.index ≠ id.generation) : s.get? id = none := by
  cases hv : s.get? id with
  | none => rfl
  | some v => exact absurd (generation_of_get? hv) h

end Store

theorem Session.Issued.generation {s : Store} {stack : List Task} {r : Request} {s' : Session}
    (h : Issued s stack r s') (i : Nat) :
    s'.store.generation i = s.generation i ∨ s'.store.generation i = s.generation i + 1 := by
  cases h with
  | started _ hst _ => exact .inl (hst.steady.generation i)
  | pass _ hstore _ => exact .inl (by rw [hstore]; rfl)
  | released _ hstore _ => exact .inl (by rw [hstore, Store.generation_releaseClient])
  | undone hsteady _ _ _ hstore _ _ =>
    rw [hstore, ← hsteady.generation i]
    exact Store.retire_generation _ _ i

/-- The vector of a slot is removed. -/
def Step.vacates (step : Step) (i : Nat) : Bool :=
  step.after.session.store.generation i != step.before.session.store.generation i

/-- How often the vector of a slot is removed. -/
def vacated (steps : List Step) (i : Nat) : Nat := steps.countP (·.vacates i)

/-- A generation comes round after `2 ^ 32` steps. -/
theorem generation_add_ne {g : UInt32} {n : Nat} (hpos : 0 < n) (hlt : n < 2 ^ 32) : g + UInt32.ofNat n ≠ g := by
  intro h
  have hnat := congrArg UInt32.toNat h
  rw [UInt32.toNat_add, UInt32.toNat_ofNat'] at hnat
  have := g.toNat_lt
  omega

section

variable {start m m' : Moment} {a : Act} {steps : List Step}

theorem vacated_append (front back : List Step) (i : Nat) :
    vacated (front ++ back) i = vacated front i + vacated back i := List.countP_append

theorem vacated_singleton (step : Step) (i : Nat) : vacated [step] i = if step.vacates i then 1 else 0 := by
  simp [vacated, List.countP_singleton]

theorem Next.generation (h : Next m a m') (hs : m.session.store.Coherent) (i : Nat) :
    m'.session.store.generation i =
      m.session.store.generation i + UInt32.ofNat (vacated [⟨m, a, m'⟩] i) := by
  have hgrown : m'.session.store.generation i = m.session.store.generation i ∨
      m'.session.store.generation i = m.session.store.generation i + 1 := by
    cases h with
    | ask s r => exact (Session.issue_issued hs r).generation i
    | work busy h => exact (Store.tick_ticked (Session.tick_eq h).1).generation i
  rw [vacated_singleton, Step.vacates]
  by_cases hsame : m'.session.store.generation i = m.session.store.generation i
  · simp [hsame]
  · simpa [hsame] using hgrown

/-- A slot has come to the generation it had, and one more for each removal. -/
theorem Run.generation (hsound : start.session.view.Sound) (h : Run start steps m) (i : Nat) :
    m.session.store.generation i = start.session.store.generation i + UInt32.ofNat (vacated steps i) := by
  induction h with
  | start => simp [vacated]
  | @next steps m m' a hrun hnext ih =>
    have hw := hrun.keeps_sound hsound
    rw [hnext.generation hw.coherent i, ih, vacated_append, UInt32.ofNat_add, UInt32.add_assoc]

end

/-! ## Clients that are not registered -/

namespace Store

variable {s s' : Store} {id : VectorId} {c : ClientId}

/-- The client is not registered with the vector, and its number is taken. -/
structure Parted (s : Store) (id : VectorId) (c : ClientId) : Prop where
  old : c.number < s.nextClient
  away : s.registers id c = false

theorem Change.parted (h : Change W s s') (hs : s.Coherent) (hp : s.Parted id c) : s'.Parted id c where
  old := Nat.lt_of_lt_of_le hp.old h.nextClient
  away := by
    refine Bool.eq_false_iff.2 fun hreg => ?_
    obtain ⟨v', hv', hmem⟩ := registers_iff.1 hreg
    obtain ⟨x, hx, rfl⟩ := List.mem_map.1 hmem
    rcases h.mem_clients hs hv' hx with ⟨v, hv, hold, -⟩ | ⟨hnew, -, -⟩
    · have hreg : s.registers id x.id = true := registers_iff.2 ⟨v, hv, List.mem_map.2 ⟨x, hold, rfl⟩⟩
      rw [hp.away] at hreg
      cases hreg
    · have hlt := hp.old
      rw [hnew] at hlt
      exact Nat.lt_irrefl _ hlt

theorem Changes.parted (h : Changes W s s') (hs : s.Coherent) (hp : s.Parted id c) : s'.Parted id c := by
  induction h with
  | refl => exact hp
  | tail hmid hc ih => exact hc.parted (Changes.coherent hmid hs) ih

theorem Changes.nextClient (h : Changes W s s') : s.nextClient ≤ s'.nextClient := by
  induction h with
  | refl => exact Nat.le_refl _
  | tail _ hc ih => exact Nat.le_trans ih hc.nextClient

theorem Inherits.parted (h : s.Inherits s') (hp : s.Parted id c) : s'.Parted id c where
  old := h.nextClient ▸ hp.old
  away := by
    refine Bool.eq_false_iff.2 fun hreg => ?_
    obtain ⟨v', hv', hmem⟩ := registers_iff.1 hreg
    obtain ⟨v, hv, hclients, -⟩ := h.vector id v' hv'
    have hreg : s.registers id c = true := registers_iff.2 ⟨v, hv, hclients ▸ hmem⟩
    rw [hp.away] at hreg
    cases hreg

end Store

namespace Move

variable {c : Option (ClientId × ClientEvent)} {id : VectorId} {c' : ClientId}

theorem parted (hm : Move W w c f w') (hw : w.Sound) (hp : w.store.Parted id c') : w'.store.Parted id c' := by
  have ht := hm.turn hw
  obtain ⟨s, F, P⟩ := w
  obtain ⟨s', F', P'⟩ := w'
  cases ht with
  | keeps _ hc hi => exact hi.parted (hc.parted hw.coherent hp)
  | starts _ hc _ _ _ _ hi => exact hi.parted (hc.parted hw.coherent hp)
  | calls => exact hp
  | ends _ _ hi => exact hi.parted hp

theorem nextClient (hm : Move W w c f w') (hw : w.Sound) : w.store.nextClient ≤ w'.store.nextClient := by
  have ht := hm.turn hw
  obtain ⟨s, F, P⟩ := w
  obtain ⟨s', F', P'⟩ := w'
  cases ht with
  | keeps _ hc hi => exact hi.nextClient ▸ hc.nextClient
  | starts _ hc _ _ _ _ hi => exact hi.nextClient ▸ hc.nextClient
  | calls => exact Nat.le_refl _
  | ends _ _ hi => exact Nat.le_of_eq hi.nextClient.symm

/-- A client is called of a vector it is registered with. -/
theorem registers_of_call {c : ClientId} {e : ClientEvent} (hm : Move W w (some (c, e)) f w') :
    w.store.registers e.server c = true := by
  obtain ⟨s, d, F, P, v, skipped, x, waiting, reached, rfl, -, hv, hmem, -⟩ := hm.of_call
  exact Store.registers_iff.2 ⟨v, hv, hmem⟩

end Move

theorem calls_append (front back : List Step) : calls (front ++ back) = calls front ++ calls back :=
  List.filterMap_append

/-- The numbers of clients are given out in their order. -/
theorem Run.nextClient {start m : Moment} {steps : List Step} (hsound : start.session.view.Sound)
    (h : Run start steps m) : start.session.store.nextClient ≤ m.session.store.nextClient := by
  induction h with
  | start => exact Nat.le_refl _
  | @next steps m m' a hrun hnext ih =>
    have hw := hrun.keeps_sound hsound
    exact Nat.le_trans ih ((hnext.move hw.coherent).nextClient hw)

/-- A client that is not registered with a vector never hears of it. -/
theorem Run.parted {start m : Moment} {steps : List Step} {id : VectorId} {c : ClientId}
    (hsound : start.session.view.Sound) (h : Run start steps m) (hp : start.session.store.Parted id c) :
    m.session.store.Parted id c ∧ ∀ e, (c, e) ∈ calls steps → e.server ≠ id := by
  induction h with
  | start => exact ⟨hp, by simp [calls]⟩
  | @next steps m m' a hrun hnext ih =>
    obtain ⟨hp, hcalls⟩ := ih
    have hw := hrun.keeps_sound hsound
    have hm := hnext.move hw.coherent
    refine ⟨hm.parted hw hp, fun e he => ?_⟩
    rw [calls_append, List.mem_append] at he
    rcases he with he | he
    · exact hcalls e he
    · rintro rfl
      have hcalled : a.called? = some (c, e) := by simpa [calls, eq_comm] using he
      rw [hcalled] at hm
      have hreg : m.session.store.registers e.server c = true := hm.registers_of_call
      rw [hp.away] at hreg
      cases hreg

/-- A client whose number is taken never hears of a vector that is gone, not even
if the id comes to name another vector. -/
theorem Run.unheard {start m : Moment} {steps : List Step} {id : VectorId} {c : ClientId}
    (hsound : start.session.view.Sound) (h : Run start steps m) (hold : c.number < start.session.store.nextClient)
    (hnone : start.session.store.get? id = none) : ∀ call ∈ calls steps, call.1 = c → call.2.server ≠ id := by
  rintro ⟨c, e⟩ hcall rfl
  exact (h.parted hsound ⟨hold, Store.registers_of_none hnone⟩).2 e hcall

/-! ## The links -/

theorem Store.Linked.changes {s s' : Store} (h : s.Linked) (hs : s.Coherent) (hr : s.Registered)
    (hc : Store.Changes W s s') : s'.Linked := by
  induction hc with
  | refl => exact h
  | tail hmid hc ih => exact ih.change (Store.Changes.coherent hmid hs) (hr.changes hs hmid) hc

/-- What holds at every moment: the parts of the store agree, and so do the
registrations, their links and the fan-outs under way. -/
structure View.Regular (w : View) : Prop where
  sound : w.Sound
  enrolled : w.Enrolled
  linked : w.store.Linked

theorem Move.linked {c : Option (ClientId × ClientEvent)} (hm : Move W w c f w') (hw : w.Regular) :
    w'.store.Linked := by
  have hl := hw.linked
  cases hm with
  | begun F P hc ho => exact ho.linked (hl.changes hw.sound.coherent hw.enrolled.registered hc)
  | pass => exact hl.congr rfl fun _ _ => rfl
  | ended s d F P =>
    cases hd : d.event.kind with
    | updated =>
      rw [Store.endDelivery_updated s hd]
      exact hl.congr (Store.modify_links s _ _) (Store.registers_modify fun _ => rfl)
    | destroyed =>
      obtain ⟨v, hv, -⟩ := hw.sound.dying d List.mem_cons_self hd
      rw [Store.endDelivery_destroyed s hd]
      exact hl.retire hv
  | flush => exact hl.congr (Store.modify_links _ _ _) (Store.registers_modify fun _ => rfl)
  | call | skip | passed => exact hl

theorem View.Regular.move {c : Option (ClientId × ClientEvent)} (h : w.Regular) (hm : Move W w c f w') : w'.Regular :=
  ⟨h.sound.move hm, hm.enrolled h.sound h.enrolled, hm.linked h⟩

namespace Run

variable {start m m' : Moment} {steps : List Step}

theorem keeps_regular (h : Run start steps m) (hstart : start.session.view.Regular) : m.session.view.Regular :=
  h.keeps (fun hw => hw.sound.coherent) (fun hm hw => hw.move hm) hstart

theorem regular {s₀ : Session} {config : StoreConfig} {host : Host} {random : RandomSource}
    (hs₀ : Session.ofConfig config host random = .ok s₀) (h : Run ⟨s₀, false⟩ steps m) : m.session.view.Regular := by
  refine h.keeps_regular ?_
  rw [Session.view_of_ofConfig hs₀]
  refine ⟨View.sound_start config, View.enrolled_start config, ?_⟩
  exact Store.linked_empty.congr rfl fun _ _ => rfl

end Run

/-! ## Vectors that stay -/

namespace Store

variable {s s' : Store} {id : VectorId} {v : NamedVector} {c : ClientId}

/-- The vector is removed, or stays with its name and its clients, but those
that `out` takes away. -/
def Lasts (out : ClientId → Prop) (s s' : Store) (id : VectorId) (v : NamedVector) : Prop :=
  s'.get? id = none ∨ ∃ v', s'.get? id = some v' ∧ v'.name = v.name ∧
    ∀ c, s.registers id c = true → s'.registers id c = true ∨ out c

variable {out : ClientId → Prop}

theorem Steady.lasts (h : s.Steady s') (hv : s.get? id = some v) : Lasts out s s' id v := by
  obtain ⟨v', hv', hname, hclients⟩ := h.vector id v hv
  refine .inr ⟨v', hv', hname, fun c hreg => .inl ?_⟩
  rw [registers_of_get? hv] at hreg
  rw [registers_of_get? hv']
  obtain ⟨x, hx, hxc⟩ := List.any_eq_true.1 hreg
  exact List.any_eq_true.2 ⟨x, hclients.subset hx, hxc⟩

theorem endDelivery_lasts {d : Delivery} (hlive : d.event.kind = .destroyed → ∃ u, s.get? d.event.server = some u)
    (hv : s.get? id = some v) :
    Lasts out s (s.endDelivery d) id v := by
  cases hd : d.event.kind with
  | updated =>
    rw [endDelivery_updated s hd]
    refine Steady.lasts ?_ hv
    exact steady_modify s _ (fun _ => rfl) fun _ => List.prefix_rfl
  | destroyed =>
    obtain ⟨u, hu⟩ := hlive hd
    rw [endDelivery_destroyed s hd]
    by_cases hid : id = d.event.server
    · exact .inl (by rw [get?_retire hu, if_pos hid])
    · refine .inr ⟨v, by rw [get?_retire hu, if_neg hid, hv], rfl, fun c hreg => .inl ?_⟩
      simpa [registers_retire hu, hid] using hreg

theorem releaseClient_lasts (hl : s.Linked) (hr : s.Registered) (c : ClientId) (hv : s.get? id = some v)
    (hout : out c) : Lasts out s (s.releaseClient c).1 id v := by
  have hname : ∃ v', (s.releaseClient c).1.get? id = some v' ∧ v'.name = v.name := by
    rcases releaseClient_cases s c with he | ⟨id', he⟩
    · exact ⟨v, by rw [he, hv], rfl⟩
    · rw [he]
      by_cases hid : id = id'
      · subst hid
        exact ⟨_, get?_modify_self hv, rfl⟩
      · exact ⟨v, (get?_modify_of_ne hid).trans hv, rfl⟩
  obtain ⟨v', hv', hname⟩ := hname
  refine .inr ⟨v', hv', hname, fun c' hreg => ?_⟩
  by_cases hc : c' = c
  · exact .inr (hc ▸ hout)
  · exact .inl (by rw [registers_release hl hr, hreg]; simpa using hc)

theorem Ticked.lasts {tasks tasks' : List Task} {signal? : Option Signal} (h : Ticked s tasks s' tasks' signal?)
    (hw : View.Sound (.ofTasks s tasks)) (hv : s.get? id = some v) : Lasts out s s' id v := by
  cases h with
  | quiet | calls | passed | skips | finishes => exact (Steady.refl s).lasts hv
  | @ends d =>
    refine endDelivery_lasts (fun hd => ?_) hv
    obtain ⟨u, hu, -⟩ := hw.dying d (by simp [View.ofTasks]) hd
    exact ⟨u, hu⟩
  | flushes => exact (opened_steady s _).lasts hv
  | works _ _ _ hst => exact hst.steady.lasts hv

end Store

/-- The client is released. -/
def Act.Releases (a : Act) (c : ClientId) : Prop := a = .ask (.releaseClient c)

section

variable {start m m' : Moment} {a : Act} {steps : List Step} {id : VectorId} {v : NamedVector}

/-- **What becomes of a vector in a step.** It is removed, or keeps its name and
its clients but a released one. -/
theorem Next.lasts (h : Next m a m') (hw : m.session.view.Regular) (hv : m.session.store.get? id = some v) :
    Store.Lasts a.Releases m.session.store m'.session.store id v := by
  cases h with
  | ask s r =>
    cases Session.issue_issued hw.sound.coherent r with
    | started _ hst _ => exact hst.steady.lasts hv
    | pass _ hstore _ =>
      rw [hstore]
      exact ((Store.Steady.refl s.store).congr rfl).lasts hv
    | released hr hstore _ =>
      rw [hstore]
      exact Store.releaseClient_lasts hw.linked hw.enrolled.registered _ hv (by rw [Act.Releases, hr])
    | @undone s₁ id₁ u _ hsteady hnone hu _ hstore _ _ =>
      have hne : id ≠ id₁ := by
        rintro rfl
        rw [hnone] at hv
        cases hv
      have hlasts : Store.Lasts (Act.Releases (.ask r)) s.store s₁ id v := hsteady.lasts hv
      rcases hlasts with hgone | ⟨v', hv', hname, hregisters⟩
      · exact .inl (by rw [hstore, Store.get?_retire hu, if_neg hne, hgone])
      · refine .inr ⟨v', by rw [hstore, Store.get?_retire hu, if_neg hne, hv'], hname, fun c hreg => ?_⟩
        refine (hregisters c hreg).imp_left fun hreg' => ?_
        rw [hstore, Store.registers_retire hu, hreg']
        simpa using hne
  | work busy h => exact (Store.tick_ticked (Session.tick_eq h).1).lasts hw.sound hv

end
end VectorEngine
