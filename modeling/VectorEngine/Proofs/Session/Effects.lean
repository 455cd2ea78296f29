/-
What a command that succeeds comes to, when the clients that are called do
nothing.

It leaves alone the vectors that are not its targets (`Session.Executed.others`).
If all it does is look, it leaves everything alone (`Session.Executed.looks`); and
if it changes contents, each of its targets is noted and told as its policy asks,
once, however often it was named (`Session.Executed.changes`).
-/
import Mathlib
import VectorEngine.Proofs.Session.Confinement
import VectorEngine.Proofs.Session.Reentrancy

namespace VectorEngine

/-- A change to each of the vectors has been noted and told as its policy asks,
once. -/
structure Store.NotedOnce (s : Store) (ids : List VectorId) (told : List (ClientId × ClientEvent)) (s' : Store) :
    Prop where
  distinct : ids.Nodup
  /-- The listening clients of the vectors with the policy `always` are told at
  once, and nobody else is told anything. -/
  calls : told = ids.flatMap s.updates
  once : told.Nodup
  /-- The vectors with the policy `onIdle` are put into the queue, unless they are
  there. -/
  queue : s'.queue = s.queue ++ ids.filter s.enqueues
  vectors : ∀ id ∈ ids, ∃ v series, s.get? id = some v ∧ s'.get? id = some { v.settle with series := series }

/-- What a command that succeeds tells, and what it makes of the store. -/
structure Command.Effects (c : Command) (s : Store) (told : List (ClientId × ClientEvent)) (s' : Store) : Prop where
  others : ∀ id v, s.get? id = some v → id ∉ s.targets c → s'.get? id = some v
  looks : c.kind = .looks → s' = s ∧ told = []
  /-- There is a target for each of the names. -/
  named : c.kind = .changes → ∀ n ∈ c.targets, ∃ id ∈ s.targets c, s.names.find? n = some id
  changes : c.kind = .changes → s.NotedOnce (s.targets c) told s'

namespace Store

variable {s s' : Store} {c : Command} {id : VectorId} {v : NamedVector} {ids : List VectorId} {tasks rest : List Task}

/-- No call is made twice: a client is registered with a vector once. -/
theorem updates_nodup (hs : s.Registered) (hids : ids.Nodup) : (ids.flatMap s.updates).Nodup := by
  refine List.nodup_flatMap.2 ⟨fun id _ => ?_, hids.imp fun hne call hcall hcall' => hne ?_⟩
  · unfold updates
    split
    · next v hv =>
      split
      · have hlistening : ((v.clients.filter (·.listens)).map (·.id)).Nodup :=
          (hs.nodup id v hv).sublist (List.filter_sublist.map _)
        refine List.Nodup.of_map Prod.fst ?_
        rwa [List.map_map]
      · exact .nil
    · exact .nil
  · have hevent := (event_of_mem_updates hcall).symm.trans (event_of_mem_updates hcall')
    exact congrArg ClientEvent.server hevent

theorem Edited.notedOnce {edited : Store} (h : s.Edited edited) (hs : s.Registered) (hids : ids.Nodup)
    (hthere : ∀ id ∈ ids, ∃ v, s.get? id = some v) :
    s.NotedOnce ids (ids.flatMap s.updates) (edited.settleAll ids) where
  distinct := hids
  calls := rfl
  once := updates_nodup hs hids
  queue := by
    have henqueues : ids.filter edited.enqueues = ids.filter s.enqueues := List.filter_congr fun id hid =>
      let ⟨_, hv⟩ := hthere id hid
      h.enqueues hv
    rw [settleAll_queue hids, henqueues, h.queue]
  vectors id hid :=
    let ⟨v, hv⟩ := hthere id hid
    let ⟨series, hv'⟩ := h.settled hids hid hv
    ⟨v, series, hv, hv'⟩

/-- Every name that is looked up leads to a vector. -/
theorem find?_of_lookupAll : ∀ {names : List String} {ids : List VectorId}, s.lookupAll names = .ok ids →
    ∀ n ∈ names, ∃ id ∈ ids, s.names.find? n = some id
  | [], _, _ => by simp
  | n :: names, _, h => by
    rw [lookupAll, List.mapM_cons] at h
    obtain ⟨id, hid, h⟩ := bind_ok_iff.1 h
    obtain ⟨ids, hids, h⟩ := bind_ok_iff.1 h
    cases h
    refine List.forall_mem_cons.2 ⟨⟨id, List.mem_cons_self, lookup_eq_ok_iff.1 hid⟩, fun n' hn' => ?_⟩
    obtain ⟨id', hid', hfind⟩ := find?_of_lookupAll hids n' hn'
    exact ⟨id', List.mem_cons_of_mem _ hid', hfind⟩

theorem Writes.there (h : s.Writes rest ids s' tasks) : ∀ id ∈ ids, ∃ v, s.get? id = some v := by
  cases h with
  | nothing => simp
  | one _ h => exact List.forall_mem_singleton.2 (get?_of_updating h)
  | several hthere _ => exact List.forall_mem_map.2 hthere

/-- What answers a command looks only at whether its vector is there. -/
theorem Answering.mono (h : s.Answering rest) (hthere : ∀ id v, s.get? id = some v → ∃ v', s'.get? id = some v') :
    s'.Answering rest := by
  unfold Answering at h ⊢
  split at h
  · trivial
  · obtain ⟨v, hv⟩ := h
    exact hthere _ v hv
  · obtain ⟨v, hv⟩ := h
    exact hthere _ v hv
  · exact h.elim

theorem Answering.report (h : s.Answering rest) (n : Nat) (base : List Task) :
    Task.report n (rest ++ base) = rest ++ base := by
  unfold Answering at h
  split at h
  · rfl
  · rfl
  · rfl
  · exact h.elim

end Store

namespace Session

variable {s s₁ s' : Session} {c : Command} {ids : List VectorId} {store : Store} {tasks rest : List Task}
  {told : List (ClientId × ClientEvent)} {r : Except Error Answer} {a : Answer}

/-! ## Writing -/

/-- What is written is told and settled, unless the room runs out. -/
theorem served_writes (h : s.store.Writes rest ids store tasks) (hids : ids.Nodup)
    (hquiet : ∀ id v, s.store.get? id = some v → v.notifying = false) (ha : s.store.Answering rest) (base : List Task) :
    (∃ e, (s.doing store (tasks ++ base)).Served [] (.error e) (s.doing store base)) ∨
      ∃ edited a, s.store.Edited edited ∧ (s.doing store (tasks ++ base)).Served (ids.flatMap s.store.updates) (.ok a)
        (s.doing (edited.settleAll ids) base) := by
  have hanswer : ∀ {edited}, s.store.Edited edited → ∃ a, (s.doing (edited.settleAll ids) (rest ++ base)).Served []
      (.ok a) (s.doing (edited.settleAll ids) base) := fun hedited =>
    Served.answering (ha.mono fun id v hv => hedited.stays hids hv) base
  cases h with
  | nothing =>
    obtain ⟨a, h⟩ := hanswer (.refl s.store)
    exact .inr ⟨s.store, a, .refl s.store, h⟩
  | @one _ _ id change h =>
    obtain ⟨⟨store, d?⟩, hupdate, h⟩ := bind_ok_iff.1 h
    obtain ⟨edited, hedit, hmark⟩ := bind_ok_iff.1 hupdate
    cases h
    have hedited : s.store.Edited edited := (Store.Edited.refl s.store).edit hedit
    obtain ⟨v, -, hv, -⟩ := Store.edit_cases hedit
    obtain ⟨series, hv'⟩ := hedited.vectors id v hv
    obtain ⟨a, h⟩ := hanswer hedited
    have hnoted := Served.noted hv' (hquiet id v hv) hmark (fun n => ha.report n base) h
    rw [hedited.updates hv] at hnoted
    refine .inr ⟨edited, a, hedited, ?_⟩
    rwa [Task.delivering_append, List.flatMap_singleton, ← List.append_nil (s.store.updates id)]
  | @several _ _ writes hthere h =>
    obtain ⟨rfl, rfl | ⟨e, -, rfl⟩⟩ := Store.writing_cases h
    · have hedited := Store.writeAll_edited s.store writes
      have hthere : ∀ id ∈ writes.map (·.1), ∃ v, s.store.get? id = some v := List.forall_mem_map.2 hthere
      obtain ⟨a, h⟩ := hanswer hedited
      have hmarked := Served.markEach hids (fun id hid => by
        obtain ⟨v, hv⟩ := hthere id hid
        obtain ⟨series, hv'⟩ := hedited.vectors id v hv
        exact ⟨_, hv', hquiet id v hv⟩) h
      have hupdates : (writes.map (·.1)).flatMap (s.store.writeAll writes).1.updates =
          (writes.map (·.1)).flatMap s.store.updates := List.flatMap_congr fun id hid =>
        let ⟨_, hv⟩ := hthere id hid
        hedited.updates hv
      rw [List.append_nil, hupdates] at hmarked
      exact .inr ⟨_, a, hedited, hmarked⟩
    · exact .inl ⟨e, .refuse s _ e base⟩

/-- Writing that succeeds is told and settled. -/
theorem Served.notedOnce (hserved : (s.put store tasks).Served told (.ok a) s')
    (h : s.store.Writes rest ids store tasks) (hids : ids.Nodup) (ha : s.store.Answering rest)
    (hquiet : ∀ id v, s.store.get? id = some v → v.notifying = false) (hs : s.store.Registered) :
    s.store.NotedOnce ids told s'.store := by
  rcases served_writes h hids hquiet ha s.stack with ⟨e, herror⟩ | ⟨edited, a', hedited, hok⟩
  · cases (hserved.unique herror).2.1
  · obtain ⟨rfl, -, rfl⟩ := hserved.unique hok
    exact hedited.notedOnce hs hids h.there

/-! ## Commands -/

theorem Served.answered (h : (s.put store [.answer a]).Served told r s') : s'.store = store ∧ told = [] := by
  have hfinish : (s.put store [.answer a]).Served [] (.ok a) (s.doing store s.stack) := Served.finish rfl
  obtain ⟨rfl, -, rfl⟩ := h.unique hfinish
  exact ⟨rfl, rfl⟩

theorem Served.not_failed {e : Error} : ¬(s.fail e).Served told (.ok a) s' := by
  intro h
  cases (h.unique (.refuse s s.store e s.stack)).2.1

namespace Executed

theorem others (h : Executed s c s₁) (hs : s.store.Coherent) (hw : s₁.view.Sound) (hstack : s.stack = [])
    (hserved : s₁.Served told r s') {id : VectorId} {v : NamedVector} (hv : s.store.get? id = some v)
    (hid : id ∉ s.store.targets c) : s'.store.get? id = some v := by
  have hconfined := h.confined hs (by simp [hstack]) fun id hid => hid
  have hoff : ¬(s.store.get? id = none ∨ id ∈ s.store.targets c) := by simp [hv, hid]
  rw [hserved.off hw hconfined.within hoff, hconfined.off id hoff, hv]

theorem looks (h : Executed s c s₁) (hkind : c.kind = .looks) (hserved : s₁.Served told (.ok a) s') :
    s'.store = s.store ∧ told = [] := by
  cases h with
  | created hc | uncreated hc | assigned _ hc =>
    subst hc
    cases hkind
  | evaluated => exact hserved.answered
  | begun _ hform =>
    cases hform with
    | looks => exact hserved.answered
    | destroys => cases hkind
    | @notifies _ _ _ _ action hne =>
      cases action <;> first | exact absurd rfl hne | cases hkind
    | changes hchanges => cases hkind.symm.trans hchanges
  | failed => exact absurd hserved Served.not_failed

/-- A command that changes contents writes to its targets, all of which are found. -/
theorem writes (h : Executed s c s₁) (hkind : c.kind = .changes) (hserved : s₁.Served told (.ok a) s') :
    ∃ traces ids rest store tasks, s.store.lookupAll c.targets = .ok ids ∧ s.store.Answering rest ∧
      s.store.Writes rest ids.eraseDups store tasks ∧ s₁ = { s with traces := traces }.put store tasks := by
  cases h with
  | created hc | uncreated hc | evaluated _ _ hc =>
    subst hc
    cases hkind
  | assigned traces hc hid h =>
    subst hc
    have ha : s.store.Answering Store.quietly := trivial
    exact ⟨traces, _, _, _, _, Store.lookupAll_singleton hid, ha, .one (.setValues _) h, rfl⟩
  | begun _ hform =>
    cases hform with
    | looks _ hlooks => cases hkind.symm.trans hlooks
    | destroys => cases hkind
    | @notifies _ _ _ _ action => cases action <;> cases hkind
    | changes _ hids ha h => exact ⟨s.traces, _, _, _, _, hids, ha, h, rfl⟩
  | failed => exact absurd hserved Served.not_failed

theorem named (h : Executed s c s₁) (hkind : c.kind = .changes) (hserved : s₁.Served told (.ok a) s') :
    ∀ n ∈ c.targets, ∃ id ∈ s.store.targets c, s.store.names.find? n = some id := by
  obtain ⟨_, ids, _, _, _, hids, -⟩ := h.writes hkind hserved
  intro n hn
  obtain ⟨id, hid, hfind⟩ := Store.find?_of_lookupAll hids n hn
  exact ⟨id, Store.targets_of_lookupAll hids ▸ List.mem_eraseDups.2 hid, hfind⟩

theorem changes (h : Executed s c s₁) (hkind : c.kind = .changes) (hserved : s₁.Served told (.ok a) s')
    (hquiet : ∀ id v, s.store.get? id = some v → v.notifying = false) (hs : s.store.Registered) :
    s.store.NotedOnce (s.store.targets c) told s'.store := by
  obtain ⟨traces, ids, rest, store, tasks, hids, ha, hwrites, rfl⟩ := h.writes hkind hserved
  rw [Store.targets_of_lookupAll hids]
  exact hserved.notedOnce (s := { s with traces := traces }) hwrites (Store.eraseDups_nodup ids) ha hquiet hs

end Executed
end Session

/-- **Commands touch their targets, and have each told once.** In a store reached
by any run, while no client is being called and if none that is called does
anything, a command that succeeds leaves the vectors that are not its targets as
they were, every field of them, and everything if all it does is look; and if it
changes contents, each vector it names is told and settled as its policy asks,
once, however often it is named. -/
theorem Run.targets_told_once {s₀ s s' : Session} {config : StoreConfig} {host : Host} {random : RandomSource}
    (hs₀ : Session.ofConfig config host random = .ok s₀) {steps : List Step} (h : Run ⟨s₀, false⟩ steps ⟨s, false⟩)
    (hstack : s.stack = []) {c : Command} {told : List (ClientId × ClientEvent)} {a : Answer}
    (hserved : (s.issue (.command c)).Served told (.ok a) s') : c.Effects s.store told s'.store := by
  have hw : s.view.Sound := h.sound hs₀
  have hflagged : s.view.Flagged := h.flagged hs₀
  have hs : s.store.Registered := (h.enrolled hs₀).registered
  have hexecuted : s.Executed c (s.issue (.command c)) := Session.execute_executed hw.coherent c
  have hissued : (s.issue (.command c)).view.Sound := hw.move (Session.issue_move hw.coherent (.command c))
  have hquiet : ∀ id v, s.store.get? id = some v → v.notifying = false := fun _ _ hv =>
    (Session.flags_of_quiet hw hflagged hv (by simp [hstack])).1
  exact {
    others := fun _ _ hv hid => hexecuted.others hw.coherent hissued hstack hserved hv hid
    looks := fun hkind => hexecuted.looks hkind hserved
    named := fun hkind => hexecuted.named hkind hserved
    changes := fun hkind => hexecuted.changes hkind hserved hquiet hs }

/-- A session with two vectors, the first of which has a listening client that is
told at once. -/
def Session.twoPolicies : Session :=
  (Moment.outcome ⟨.initial, false⟩ [some (.create none), none, some (.create none), none,
    some (.registerClient ⟨0, 0⟩ true), none, some (.setPolicy ⟨0, 0⟩ .always), none]).session

/-- Sorts two vectors, each of them named twice. -/
def Command.sortTwice : Command :=
  .sort [Store.generatedName 2, Store.generatedName 1] [Store.generatedName 1, Store.generatedName 2] {}

/-- The session in which `sortTwice` is asked for and so much work is done. -/
def Session.sortingTwice (work : Nat) : Session :=
  (Moment.outcome ⟨.twoPolicies, false⟩ (some (.command .sortTwice) :: List.replicate work none)).session

theorem Session.served_sortTwice :
    ∃ a, (sortingTwice 0).Served [(⟨1⟩, ⟨⟨0, 0⟩, .updated⟩)] (.ok a) (sortingTwice 6) := by
  have hmore : ∀ {s : Session}, s.tick.2.isNone = true → s.resume = s.tick.1.resume := fun h =>
    resume_of_tick_none (Prod.ext rfl (Option.isNone_iff_eq_none.1 h))
  have hmarked : (sortingTwice 0).resume = (sortingTwice 1).resume := hmore (by decide +kernel)
  have hqueued : (sortingTwice 1).resume = (sortingTwice 2).resume := hmore (by decide +kernel)
  have hcalled : (sortingTwice 2).tick = (sortingTwice 3, some (.calling ⟨1⟩ ⟨⟨0, 0⟩, .updated⟩)) := by
    have hcall : (sortingTwice 2).tick.2 >>= Signal.called? = some (⟨1⟩, ⟨⟨0, 0⟩, .updated⟩) := by decide +kernel
    obtain ⟨signal, hsignal, hcall⟩ := Option.bind_eq_some_iff.1 hcall
    cases signal with
    | calling =>
      cases hcall
      exact Prod.ext rfl hsignal
    | finished | quiet => cases hcall
  have htold : (sortingTwice 3).resume = (sortingTwice 4).resume := hmore (by decide +kernel)
  have hall : (sortingTwice 4).resume = (sortingTwice 5).resume := hmore (by decide +kernel)
  obtain ⟨a, hanswered⟩ : ∃ a, (sortingTwice 5).tick = (sortingTwice 6, some (.finished (.ok a))) := by
    have hsome : ((sortingTwice 5).tick.2 >>= Signal.answer?).isSome = true := by decide +kernel
    obtain ⟨a, hanswer⟩ := Option.isSome_iff_exists.1 hsome
    obtain ⟨signal, hsignal, hanswer⟩ := Option.bind_eq_some_iff.1 hanswer
    exact ⟨a, Prod.ext rfl (hsignal.trans (congrArg some (Signal.answer?_eq_some hanswer)))⟩
  have hlast : (sortingTwice 3).Served [] (.ok a) (sortingTwice 6) :=
    .congr (.finished (resume_of_tick_some hanswered)) (htold.trans hall)
  exact ⟨a, .congr (.called (resume_of_tick_some hcalled) hlast) (hmarked.trans hqueued)⟩

theorem Run.targets_told_once_sortTwice :
    Session.twoPolicies.store.targets .sortTwice = [⟨1, 0⟩, ⟨0, 0⟩] ∧ Command.sortTwice.kind = .changes ∧
      Command.sortTwice.Effects Session.twoPolicies.store [(⟨1⟩, ⟨⟨0, 0⟩, .updated⟩)]
        (Session.sortingTwice 6).store := by
  have hrun : Run ⟨.initial, false⟩ _ ⟨.twoPolicies, false⟩ := Moment.run_play rfl
  obtain ⟨a, hserved⟩ := Session.served_sortTwice
  exact ⟨by decide +kernel, rfl, Run.targets_told_once Session.ofConfig_initial hrun rfl hserved⟩

end VectorEngine
