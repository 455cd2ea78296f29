/-
The end of a vector, from the call that begins to tell it to the removal.

While the end is being told the vector stays, with its name, and loses clients by
their release only (`Run.telling`). So each client is told once unless it was
released before its turn, and no link leads to the vector afterwards. Its id
stays without a vector until the generation of its slot comes round.
-/
import Mathlib
import VectorEngine.Proofs.Session.FanOut

namespace VectorEngine

variable {start m m' m₁ m₂ : Moment} {a : Act} {steps during : List Step} {id : VectorId} {v : NamedVector}
  {e : ClientEvent} {d : Delivery} {rest : List Task}

/-- The client is released in the step. -/
def Step.releases (step : Step) (c : ClientId) : Bool :=
  match step.act with
  | .ask (.releaseClient c') => c' == c
  | _ => false

/-- The client was released before its turn. -/
def Visit.released (t : Visit) : Bool := t.earlier.any (·.releases t.client.id)

theorem Step.releases_iff {step : Step} {c : ClientId} : step.releases c = true ↔ step.act.Releases c := by
  unfold releases Act.Releases
  split
  · next c' hact => simp [hact]
  · next hne =>
    simp only [Bool.false_eq_true, false_iff]
    exact hne c

/-! ## Telling the end -/

/-- The end of the vector has just begun to be told, with `rest` to do after it. -/
structure Ending (m₁ : Moment) (id : VectorId) (v : NamedVector) (d : Delivery) (rest : List Task) : Prop where
  regular : m₁.session.view.Regular
  stack : m₁.session.stack = .deliver d :: rest
  event : d.event = ⟨id, .destroyed⟩
  begins : d.Begins m₁.session.store v

theorem Ending.get? (h : Ending m₁ id v d rest) : m₁.session.store.get? id = some v := by
  have hserver := h.begins.server
  rwa [h.event] at hserver

/-- Asked to destroy a vector, the engine begins to tell its end. -/
theorem Next.starts_end (h : Next m (.ask (.destroy id)) m₁) (hv : m.session.store.get? id = some v)
    (hd : v.destroying = false) : Step.Starts ⟨m, .ask (.destroy id), m₁⟩ ⟨id, .destroyed⟩ ∧
      m₁.session.stack.tail = .answer .done :: m.session.stack := by
  cases h with
  | ask s r =>
    have hissue := Session.issue_destroy (s := s) hv hd
    exact ⟨⟨_, rfl, by simp only [hissue]; rfl⟩, by simp only [hissue]; rfl⟩

/-- The vector whose end has begun to be told is the one before, being destroyed. -/
theorem Next.ending (h : Next m a m₁) (hw : m.session.view.Regular) (hst : Step.Starts ⟨m, a, m₁⟩ ⟨id, .destroyed⟩)
    (hv : m.session.store.get? id = some v) : ∃ d rest, Ending m₁ id v.ended d rest := by
  obtain ⟨d, u, rest, hstack, he, hstarted⟩ := h.started hw.sound.coherent hst
  refine ⟨d, rest, hw.move (h.move hw.sound.coherent), hstack, he, ?_⟩
  have hstore := hstarted.ending (by rw [he])
  have hu := hstarted.begins.server
  rw [he] at hu hstore
  rw [hstore, Store.get?_modify_self hv, Option.some.injEq] at hu
  exact hu ▸ hstarted.begins

/-- While the end of a vector is being told, its fan-out is under way and the
vector is there. -/
theorem Run.under_end (hend : Ending m₁ id v d rest) (h : Run m₁ steps m)
    (hinside : ∀ step ∈ steps, rest.length < step.before.session.stack.length)
    (hlong : rest.length < m.session.stack.length) :
    (∃ front d', m.session.stack = front ++ .deliver d' :: rest ∧ d'.event = ⟨id, .destroyed⟩) ∧
      ∃ u, m.session.store.get? id = some u ∧ u.destroying = true := by
  obtain ⟨front, d', hstack, hevent⟩ := h.under hend.regular hend.stack hend.begins.reached hinside hlong
  rw [hend.event] at hevent
  refine ⟨⟨front, d', hstack, hevent⟩, ?_⟩
  have hsound := (h.keeps_regular hend.regular).sound
  obtain ⟨u, hu, hd, -⟩ := hsound.dying d' (Session.mem_fanOuts_of_stack hstack) (by rw [hevent])
  rw [hevent] at hu
  exact ⟨u, hu, hd⟩

/-- A client that has its number is registered after a step just when it was before
and is not released, as long as the vector stays. -/
theorem Next.registers_eq (h : Next m a m') (hw : m.session.view.Regular) {u : NamedVector} {c : ClientId}
    (hv : m.session.store.get? id = some v) (hu : m'.session.store.get? id = some u)
    (hold : c.number < m.session.store.nextClient) :
    m'.session.store.registers id c = (m.session.store.registers id c && !Step.releases ⟨m, a, m'⟩ c) := by
  rcases h.lasts hw hv with hgone | ⟨-, -, -, hkeeps⟩
  · rw [hgone] at hu
    cases hu
  cases hreleases : Step.releases ⟨m, a, m'⟩ c with
  | true =>
    obtain rfl : a = .ask (.releaseClient c) := Step.releases_iff.1 hreleases
    cases h with
    | ask s r =>
      have haway : (s.store.releaseClient c).1.registers id c = (s.store.registers id c && decide (c ≠ c)) :=
        Store.registers_release hw.linked hw.enrolled.registered c id c
      refine haway.trans ?_
      simp
  | false =>
    rw [Bool.not_false, Bool.and_true]
    cases hnow : m.session.store.registers id c with
    | true =>
      refine (hkeeps c hnow).resolve_right fun hout => ?_
      rw [Step.releases_iff.2 hout] at hreleases
      cases hreleases
    | false => exact ((h.move hw.sound.coherent).parted hw.sound ⟨hold, hnow⟩).away

/-- **While the end of a vector is being told** it keeps its name, and its clients
are those registered at the start but the released ones. -/
theorem Run.telling (hend : Ending m₁ id v d rest) (h : Run m₁ steps m)
    (hinside : ∀ step ∈ steps, rest.length < step.before.session.stack.length)
    (hlong : rest.length < m.session.stack.length) :
    ∃ u, m.session.store.get? id = some u ∧ u.name = v.name ∧ ∀ c, m₁.session.store.registers id c = true →
      m.session.store.registers id c = !steps.any (·.releases c) := by
  induction h with
  | start => exact ⟨v, hend.get?, rfl, fun c hreg => by rw [hreg]; rfl⟩
  | @next steps m m' a hrun hnext ih =>
    have hw := hrun.keeps_regular hend.regular
    obtain ⟨u, hu, hname, hregisters⟩ :=
      ih (fun step hstep => hinside step (List.mem_append_left _ hstep)) (hinside ⟨m, a, m'⟩ (by simp))
    obtain ⟨-, u', hu', -⟩ := (hrun.next hnext).under_end hend hinside hlong
    refine ⟨u', hu', ?_, fun c hreg => ?_⟩
    · rcases hnext.lasts hw hu with hgone | ⟨u'', hu'', hname', -⟩
      · rw [hgone] at hu'
        cases hu'
      · rw [hu', Option.some.injEq] at hu''
        rw [hu'', hname', hname]
    · have hold : c.number < m.session.store.nextClient :=
        Nat.lt_of_lt_of_le (hend.regular.enrolled.registered.old hreg) (hrun.nextClient hend.regular.sound)
      rw [hnext.registers_eq hw hu hu' hold, hregisters c hreg, List.any_append, List.any_cons, List.any_nil,
        Bool.or_false, Bool.not_or]

/-! ## Who is told -/

theorem Store.Ticked.top_of_call {s s' : Store} {tasks tasks' : List Task} {signal? : Option Signal} {c : ClientId}
    (h : Ticked s tasks s' tasks' signal?) (hcall : signal? >>= Signal.called? = some (c, e)) :
    ∃ d rest, tasks = .deliver d :: rest ∧ d.event = e := by
  cases h with
  | quiet | ends | passed | flushes | skips | works | finishes => cases hcall
  | calls rest =>
    cases hcall
    exact ⟨_, rest, rfl, rfl⟩

/-- A call comes from the fan-out on top of the stack. -/
theorem Next.top_of_call {c : ClientId} (h : Next m a m') (hcall : a.called? = some (c, e)) :
    ∃ d rest, m.session.stack = .deliver d :: rest ∧ d.event = e := by
  cases h with
  | ask => cases hcall
  | work busy h => exact (Store.tick_ticked (Session.tick_eq h).1).top_of_call hcall

/-- While the end of a vector is being told, no other fan-out begins to tell it. -/
theorem Run.end_not_again (hend : Ending m₁ id v d rest) (h : Run m₁ steps m)
    (hinside : ∀ step ∈ steps, rest.length < step.before.session.stack.length)
    (hlong : rest.length < m.session.stack.length) (hnext : Next m a m') :
    ¬Step.Starts ⟨m, a, m'⟩ ⟨id, .destroyed⟩ := by
  rintro ⟨d'', he, hF⟩
  obtain ⟨⟨front, d', hstack, hevent⟩, -⟩ := h.under_end hend hinside hlong
  have hw := (h.keeps_regular hend.regular).sound
  have hsound := hw.move (hnext.move hw.coherent)
  have hview : m'.session.view = ⟨m'.session.store, d'' :: m.session.view.fanOuts, m'.session.view.passes⟩ := by
    rw [← hF]
    rfl
  exact (hview ▸ hsound).not_twice (by rw [he]) (Session.mem_fanOuts_of_stack hstack) (hevent.trans he.symm)

/-- While the end of a vector is being told, a call that tells it is one of this
fan-out. -/
theorem Run.end_call (hend : Ending m₁ id v d rest) (h : Run m₁ steps m)
    (hinside : ∀ step ∈ steps, rest.length < step.before.session.stack.length)
    (hlong : rest.length < m.session.stack.length) (hnext : Next m a m') :
    a.called?.filter (·.2 = ⟨id, .destroyed⟩) = Step.callAt ⟨m, a, m'⟩ rest.length := by
  obtain ⟨⟨front, d', hstack, hevent⟩, -⟩ := h.under_end hend hinside hlong
  have hw := (h.keeps_regular hend.regular).sound
  have htop : ∀ c, a.called? = some (c, ⟨id, .destroyed⟩) → front = [] := by
    intro c hcall
    obtain ⟨top, below, hstack', htop⟩ := hnext.top_of_call hcall
    cases front with
    | nil => rfl
    | cons x front =>
      rw [hstack, List.cons_append, List.cons.injEq] at hstack'
      obtain ⟨rfl, rfl⟩ := hstack'
      have hview : m.session.view = ⟨m.session.store, top :: (front ++ .deliver d' :: rest).filterMap Task.fanOut?,
          m.session.view.passes⟩ := by
        simp [Session.view, View.ofTasks, hstack]
      exact absurd (hevent.trans htop.symm) ((hview ▸ hw).not_twice (by rw [htop]) (by simp))
  unfold Step.callAt
  cases hcalled : a.called? with
  | none => simp
  | some call =>
    obtain ⟨c, e⟩ := call
    by_cases he : e = ⟨id, .destroyed⟩
    · subst he
      simp [hstack, htop c hcalled]
    · -- The call is not one that tells the end, so it is not one of this fan-out.
      refine (Option.filter_some_neg (by simpa using he)).trans (if_neg fun hlength => he ?_).symm
      have hnil : front = [] := by
        refine List.length_eq_zero_iff.1 ?_
        rw [hstack, List.length_append, List.length_cons] at hlength
        omega
      obtain ⟨top, below, hstack', htop⟩ := hnext.top_of_call hcalled
      rw [hstack, hnil, List.nil_append, List.cons.injEq, Task.deliver.injEq] at hstack'
      rw [← htop, ← hstack'.1, hevent]

/-- The store at a visit is that of the moment its step was taken. -/
theorem mem_visits {depth : Nat} {t : Visit} (ht : t ∈ visits depth steps) :
    ∃ step back, steps = t.earlier ++ step :: back ∧ t.store = step.before.session.store := by
  have hafter : ∀ (steps earlier : List Step), t ∈ visitsAfter depth earlier steps →
      ∃ front step back, steps = front ++ step :: back ∧ t.earlier = earlier ++ front ∧
        t.store = step.before.session.store := by
    intro steps
    induction steps with
    | nil => simp [visitsAfter]
    | cons first steps ih =>
      intro earlier ht
      rcases List.mem_append.1 ht with ht | ht
      · obtain ⟨x, -, rfl⟩ := List.mem_map.1 ht
        exact ⟨[], first, steps, rfl, by simp, rfl⟩
      · obtain ⟨front, step, back, rfl, hearlier, hstore⟩ := ih _ ht
        exact ⟨first :: front, step, back, rfl, by simp [hearlier], hstore⟩
  obtain ⟨front, step, back, rfl, hearlier, hstore⟩ := hafter steps [] ht
  exact ⟨step, back, by rw [hearlier, List.nil_append], hstore⟩

/-! ## After the end -/

/-- A client is called of a vector it is registered with at that moment. -/
theorem Run.registers_of_call (hw : start.session.view.Sound) (h : Run start steps m) {c : ClientId}
    (hcall : (c, e) ∈ calls steps) :
    ∃ front step back, steps = front ++ step :: back ∧ step.before.session.store.registers e.server c = true := by
  obtain ⟨step, hstep, hcalled⟩ := List.mem_filterMap.1 hcall
  obtain ⟨front, back, rfl⟩ := List.append_of_mem hstep
  obtain ⟨hfront, hnext, -⟩ := h.split
  have hm := hnext.move (hfront.keeps_sound hw).coherent
  rw [hcalled] at hm
  exact ⟨front, step, back, rfl, hm.registers_of_call⟩

/-- A slot that has lost its vector does not have it again before its generation
has come round. -/
theorem Run.lost (hw : start.session.view.Sound)
    (hgone : start.session.store.generation id.index = id.generation + 1) (h : Run start steps m)
    (hround : vacated steps id.index + 1 < 2 ^ 32) : m.session.store.get? id = none := by
  refine Store.get?_of_generation_ne ?_
  have hsum : m.session.store.generation id.index = id.generation + UInt32.ofNat (1 + vacated steps id.index) := by
    rw [h.generation hw id.index, hgone, UInt32.ofNat_add, ← UInt32.add_assoc]
    rfl
  rw [hsum]
  exact generation_add_ne (by omega) (by omega)

/-- Until then nobody hears of the vector. -/
theorem Run.silent (hw : start.session.view.Sound)
    (hgone : start.session.store.generation id.index = id.generation + 1) (h : Run start steps m)
    (hround : vacated steps id.index + 1 < 2 ^ 32) : ∀ call ∈ calls steps, call.2.server ≠ id := by
  rintro ⟨c, e⟩ hcall rfl
  obtain ⟨front, step, back, rfl, hregisters⟩ := h.registers_of_call hw hcall
  rw [vacated_append] at hround
  rw [Store.registers_of_none (h.split.1.lost hw hgone (by omega))] at hregisters
  cases hregisters

/-- A client that is called has a number given out before. -/
theorem Run.called_old (hw : start.session.view.Regular) (h : Run start steps m) {call : ClientId × ClientEvent}
    (hcall : call ∈ calls steps) : call.1.number < m.session.store.nextClient := by
  obtain ⟨front, step, back, rfl, hregisters⟩ := h.registers_of_call hw.sound hcall
  have hbefore := h.split.1.keeps_regular hw
  exact Nat.lt_of_lt_of_le (hbefore.enrolled.registered.old hregisters) (h.from_step.nextClient hbefore.sound)

/-- A client that is registered nowhere, its number given out, has no link and is
never called. -/
theorem Run.never_called (hw : start.session.view.Regular) {c : ClientId}
    (hparted : ∀ id, start.session.store.Parted id c) (h : Run start steps m) :
    m.session.store.serverOf c = none ∧ ∀ call ∈ calls steps, call.1 ≠ c := by
  refine ⟨(h.keeps_regular hw).linked.serverOf_eq_none fun id => (h.parted hw.sound (hparted id)).1.away, ?_⟩
  rintro ⟨c, e⟩ hcall rfl
  exact (h.parted hw.sound (hparted e.server)).2 e hcall rfl

/-- A registration with a vector being destroyed is not one with any vector. -/
theorem Next.detached {listens : Bool} (h : Next m (.ask (.registerClient id listens)) m')
    (hw : m.session.view.Regular) (hv : m.session.store.get? id = some v) (hd : v.destroying = true) :
    m'.session.stack = .answer (.client ⟨m.session.store.nextClient⟩) :: m.session.stack ∧
      ∀ id', m'.session.store.Parted id' ⟨m.session.store.nextClient⟩ := by
  cases h with
  | ask s r =>
    have hregister : s.store.registerClient id listens =
        ({ s.store with nextClient := s.store.nextClient + 1 }, .ok ⟨s.store.nextClient⟩) := by
      unfold Store.registerClient
      dsimp only
      rw [Store.get_of_get? (s := { s.store with nextClient := s.store.nextClient + 1 }) hv]
      simp only [hd, if_true]
    have hissue : s.issue (.registerClient id listens) =
        { s with store.nextClient := s.store.nextClient + 1 }.finish (.client ⟨s.store.nextClient⟩) := by
      simp only [Session.issue, hregister]
    refine ⟨by simp only [hissue]; rfl, fun id' => ?_⟩
    simp only [hissue]
    exact ⟨Nat.lt_succ_self _, hw.enrolled.registered.not_next id'⟩

/-! ## From the call to the removal -/

/-- The vector `v`, whose end has begun to be told at `m₁`, is removed at `m₂`. -/
structure Farewell (id : VectorId) (v : NamedVector) (m₁ : Moment) (during : List Step) (m₂ : Moment) : Prop where
  /-- Each client registered at the call has its turn once, in the order of
  registration. -/
  order : (v.clients.map (·.id)).Nodup ∧ (visits m₁.session.stack.tail.length during).map (·.client) = v.clients
  /-- In all that happens meanwhile, fan-outs inside this one included, the end is
  told to those that listen and are not released before their turn, once each. -/
  told : (calls during).filter (·.2 = ⟨id, .destroyed⟩) =
    ((visits m₁.session.stack.tail.length during).filter fun t => t.client.listens && !t.released).map
      fun t => (t.client.id, ⟨id, .destroyed⟩)
  /-- Destroying the vector again meanwhile tells nobody. -/
  once : ∀ step ∈ during, ¬step.Starts ⟨id, .destroyed⟩
  /-- A client registered meanwhile is given a registration without a link, and is
  never called. -/
  newcomers : ∀ step ∈ during, ∀ listens, step.act = .ask (.registerClient id listens) →
    step.after.session.stack = .answer (.client ⟨step.before.session.store.nextClient⟩) :: step.before.session.stack ∧
      step.after.session.store.serverOf ⟨step.before.session.store.nextClient⟩ = none ∧
      ∀ later m₃, Run m₂ later m₃ → m₃.session.store.serverOf ⟨step.before.session.store.nextClient⟩ = none ∧
        ∀ call ∈ calls (during ++ later), call.1 ≠ ⟨step.before.session.store.nextClient⟩
  removed : m₂.session.store.get id = .error (.notFound id.text)
  nameFree : m₂.session.store.names.find? v.name = none
  /-- No registration is linked to the vector. -/
  unlinked : ∀ c, m₂.session.store.serverOf c ≠ some id
  /-- Nobody hears of the id until the generation of its slot has come round. -/
  silent : ∀ later m₃, Run m₂ later m₃ → vacated later id.index + 1 < 2 ^ 32 →
    m₃.session.store.get? id = none ∧ ∀ call ∈ calls later, call.2.server ≠ id

/-- The last step of telling the end removes the vector. -/
theorem Run.removes (hend : Ending m₁ id v d rest) (h : Above rest.length m₁ during m₂) :
    ∃ (s : Store) (u : NamedVector), s.get? id = some u ∧ u.name = v.name ∧ m₂.session.store = s.retire id := by
  obtain ⟨hrun, hinside, hleft⟩ := h
  rcases List.eq_nil_or_concat during with rfl | ⟨front, step, rfl⟩
  · rw [← hrun.eq_of_nil, hend.stack] at hleft
    simp at hleft
  rw [List.concat_eq_append] at hrun hinside
  obtain ⟨hfront, hnext, hlast⟩ := hrun.split
  obtain rfl := hlast.eq_of_nil
  have hinside' := fun st hst => hinside st (List.mem_append_left _ hst)
  obtain ⟨⟨above, d', hstack, hevent⟩, -⟩ := hfront.under_end hend hinside' (hinside step (by simp))
  obtain ⟨u, hu, hname, -⟩ := hfront.telling hend hinside' (hinside step (by simp))
  have hcoherent := (hfront.keeps_regular hend.regular).sound.coherent
  obtain ⟨visited, waiting, reached, -, -, -, -, ⟨above', hstack'⟩ | ⟨-, -, hstore⟩⟩ := hnext.course hcoherent hstack
  · rw [hstack'] at hleft
    simp at hleft
    omega
  · refine ⟨step.before.session.store, u, hu, hname, ?_⟩
    rw [hstore, Store.endDelivery_destroyed _ (by rw [hevent]), hevent]

/-- What there is at each step while the end is being told. -/
theorem Above.at_step (h : Above rest.length m₁ during m₂) {front back : List Step} {step : Step}
    (hsplit : during = front ++ step :: back) : Run m₁ front step.before ∧ Next step.before step.act step.after ∧
      Run step.after back m₂ ∧ (∀ st ∈ front, rest.length < st.before.session.stack.length) ∧
        rest.length < step.before.session.stack.length := by
  obtain ⟨hrun, hinside, -⟩ := h
  subst hsplit
  obtain ⟨hfront, hstep, hback⟩ := hrun.split
  exact ⟨hfront, hstep, hback, fun st hst => hinside st (List.mem_append_left _ hst), hinside step (by simp)⟩

/-- Each client has its turn, and stays until then unless it is released. -/
theorem Ending.visits (hend : Ending m₁ id v d rest) (h : Above rest.length m₁ during m₂) :
    Course ⟨id, .destroyed⟩ v.clients [] rest.length during ∧
      (∀ t ∈ visits rest.length during, t.stays id = !t.released) ∧
      ∃ reached, m₂.session.stack = Task.report reached rest := by
  obtain ⟨hstack, hcourse⟩ := h.course hend.regular hend.stack hend.begins.reached
  rw [hend.event, hend.begins.waiting] at hcourse
  refine ⟨hcourse, fun t ht => ?_, _, hstack⟩
  have hmem : t.client ∈ v.clients := by
    have horder := hcourse.order
    rw [List.append_nil] at horder
    exact horder ▸ List.mem_map.2 ⟨t, ht, rfl⟩
  have hregistered : m₁.session.store.registers id t.client.id = true :=
    Store.registers_iff.2 ⟨v, hend.get?, List.mem_map.2 ⟨t.client, hmem, rfl⟩⟩
  obtain ⟨step, back, hsplit, hstore⟩ := mem_visits ht
  obtain ⟨hfront, -, -, hinside, hlong⟩ := h.at_step hsplit
  obtain ⟨-, -, -, hregisters⟩ := hfront.telling hend hinside hlong
  rw [Visit.stays, hstore, hregisters _ hregistered]
  rfl

/-- The end is told to the clients that listen and are not released. -/
theorem Ending.told (hend : Ending m₁ id v d rest) (h : Above rest.length m₁ during m₂) :
    (calls during).filter (·.2 = ⟨id, .destroyed⟩) =
      ((VectorEngine.visits rest.length during).filter fun t => t.client.listens && !t.released).map
        fun t => (t.client.id, ⟨id, .destroyed⟩) := by
  obtain ⟨hcourse, hstays, -⟩ := hend.visits h
  calc (calls during).filter (·.2 = ⟨id, .destroyed⟩)
      = during.filterMap fun step => step.act.called?.filter (·.2 = ⟨id, .destroyed⟩) := List.filter_filterMap
    _ = callsAt rest.length during := List.filterMap_congr fun step hstep => by
      obtain ⟨front, back, hsplit⟩ := List.append_of_mem hstep
      obtain ⟨hfront, hnext, -, hinside, hlong⟩ := h.at_step hsplit
      exact hfront.end_call hend hinside hlong hnext
    _ = ((VectorEngine.visits rest.length during).filter fun t => t.client.listens && t.stays id).map
          fun t => (t.client.id, ⟨id, .destroyed⟩) := hcourse.called
    _ = _ := congrArg _ (List.filter_congr fun t ht => by rw [hstays t ht])

/-- A client registered meanwhile is registered nowhere, and never called. -/
theorem Ending.newcomer (hend : Ending m₁ id v d rest) (h : Above rest.length m₁ during m₂) {step : Step}
    (hstep : step ∈ during) {listens : Bool} (hact : step.act = .ask (.registerClient id listens)) {c : ClientId}
    (hc : c = ⟨step.before.session.store.nextClient⟩) :
    step.after.session.stack = .answer (.client c) :: step.before.session.stack ∧
      step.after.session.store.serverOf c = none ∧ ∀ later m₃, Run m₂ later m₃ →
        m₃.session.store.serverOf c = none ∧ ∀ call ∈ calls (during ++ later), call.1 ≠ c := by
  obtain ⟨front, back, rfl⟩ := List.append_of_mem hstep
  obtain ⟨hfront, hnext, hback, hinside, hlong⟩ := h.at_step rfl
  obtain ⟨-, u, hu, hd⟩ := hfront.under_end hend hinside hlong
  have hbefore := hfront.keeps_regular hend.regular
  have hafter := hbefore.move (hnext.move hbefore.sound.coherent)
  rw [hact] at hnext
  obtain ⟨hanswer, hparted⟩ := hnext.detached hbefore hu hd
  rw [← hc] at hanswer hparted
  refine ⟨hanswer, (Run.start.never_called hafter hparted).1, fun later m₃ hlater => ?_⟩
  obtain ⟨hlink, hcalls⟩ := (hback.trans hlater).never_called hafter hparted
  refine ⟨hlink, fun call hcall he => ?_⟩
  rw [List.append_assoc, List.cons_append, ← List.singleton_append, calls_append, calls_append] at hcall
  rcases List.mem_append.1 hcall with hcall | hcall
  · have hlt := hfront.called_old hend.regular hcall
    rw [he, hc] at hlt
    exact Nat.lt_irrefl _ hlt
  rcases List.mem_append.1 hcall with hcall | hcall
  · simp [calls, hact, Act.called?] at hcall
  · exact hcalls call hcall he

/-- **The end of a vector is told to everybody once.** Whatever destroys a vector
that is not being destroyed yet, and whatever its clients do when they are told,
the end reaches each client in turn unless it was released before, the vector is
gone afterwards, and nobody hears of it again. -/
theorem Run.farewell {s₀ : Session} {config : StoreConfig} {host : Host} {random : RandomSource}
    (hs₀ : Session.ofConfig config host random = .ok s₀)
    (h : Run ⟨s₀, false⟩ steps m) (hv : m.session.store.get? id = some v) (hd : v.destroying = false)
    (hnext : Next m a m₁) (hdestroy : a = .ask (.destroy id) ∨ Step.Starts ⟨m, a, m₁⟩ ⟨id, .destroyed⟩)
    (hduring : Above m₁.session.stack.tail.length m₁ during m₂) :
    Farewell id v m₁ during m₂ ∧ (a = .ask (.destroy id) → m₂.session.stack = .answer .done :: m.session.stack) := by
  have hstarts : Step.Starts ⟨m, a, m₁⟩ ⟨id, .destroyed⟩ := by
    rcases hdestroy with rfl | hstarts
    · exact (hnext.starts_end hv hd).1
    · exact hstarts
  obtain ⟨d, rest, hend⟩ := hnext.ending (h.regular hs₀) hstarts hv
  obtain rfl : m₁.session.stack.tail = rest := by rw [hend.stack, List.tail_cons]
  obtain ⟨hcourse, -, reached, hstack⟩ := hend.visits hduring
  obtain ⟨s, u, hu, hname, hstore⟩ := Run.removes hend hduring
  have hw₂ := hduring.run.keeps_regular hend.regular
  have hnone : m₂.session.store.get? id = none := by rw [hstore, Store.get?_retire hu, if_pos rfl]
  refine ⟨⟨⟨?_, ?_⟩, hend.told hduring, fun step hstep => ?_, fun step hstep listens hact => ?_,
    Store.get_eq_error hnone, ?_, fun c hserver => ?_, fun later m₃ hlater hround => ?_⟩, ?_⟩
  · exact hend.regular.enrolled.registered.nodup id v.ended hend.get?
  · rw [← List.append_nil (List.map _ _)]
    exact hcourse.order
  · obtain ⟨front, back, hsplit⟩ := List.append_of_mem hstep
    obtain ⟨hfront, hstep, -, hinside, hlong⟩ := hduring.at_step hsplit
    exact hfront.end_not_again hend hinside hlong hstep
  · exact hend.newcomer hduring hstep hact rfl
  · have hfree : (s.names.erase u.name).find? v.name = none := by
      rw [NameTable.find?_erase]
      exact if_pos hname
    rw [hstore, Store.retire_of_get? hu]
    exact hfree
  · obtain ⟨w, hlive, -⟩ := Store.registers_iff.1 ((hw₂.linked c id).1 hserver)
    exact absurd (hnone.symm.trans hlive) (by simp)
  · have hgone : m₂.session.store.generation id.index = id.generation + 1 := by
      rw [hstore, Store.generation_retire hu, if_pos rfl, Store.generation_of_get? hu]
    exact ⟨hlater.lost hw₂.sound hgone hround, hlater.silent hw₂.sound hgone hround⟩
  · rintro rfl
    rw [hstack, (hnext.starts_end hv hd).2, Task.report_of_ne _ (by simp)]

/-- The client that is told first releases the second, has the vector destroyed
again and registers another client. -/
def Moment.whileEnding : List (Option Request) :=
  [none, some (.releaseClient ⟨2⟩), none, some (.destroy ⟨0, 0⟩), none, some (.registerClient ⟨0, 0⟩ true), none, none]

theorem Run.farewell_destroyedAgain :
    let m := Moment.outcome ⟨.initial, false⟩ Moment.threeClients
    let m₁ := m.outcome [some (.destroy ⟨0, 0⟩)]
    let m₂ := m₁.outcome Moment.whileEnding
    calls (m₁.play Moment.whileEnding) = [(⟨1⟩, ⟨⟨0, 0⟩, .destroyed⟩)] ∧
      ∃ v, m.session.store.get? ⟨0, 0⟩ = some v ∧ Farewell ⟨0, 0⟩ v m₁ (m₁.play Moment.whileEnding) m₂ ∧
        m₂.session.stack = [.answer .done] := by
  intro m m₁ m₂
  have hrun : Run ⟨.initial, false⟩ (Moment.play ⟨.initial, false⟩ Moment.threeClients) m :=
    Moment.run_play (by decide +kernel)
  have hnext : Next m (.ask (.destroy ⟨0, 0⟩)) m₁ := Moment.next_step (some (.destroy ⟨0, 0⟩)) rfl
  have hduring : Above m₁.session.stack.tail.length m₁ (m₁.play Moment.whileEnding) m₂ :=
    Moment.above_play (by decide +kernel) (by decide +kernel) (by decide +kernel)
  have hv : ∃ v, m.session.store.get? ⟨0, 0⟩ = some v ∧ v.destroying = false := ⟨_, rfl, rfl⟩
  obtain ⟨v, hv, hd⟩ := hv
  obtain ⟨hfarewell, hdone⟩ := Run.farewell Session.ofConfig_initial hrun hv hd hnext (.inl rfl) hduring
  exact ⟨by decide +kernel, v, hv, hfarewell, hdone rfl⟩

end VectorEngine
