/-
What a command that fails leaves behind, in a store none of whose clients listens.

Nothing is changed by a command that fails (`Session.Executed.spares`), but for
two: one that destroys vectors and has one of them listed twice, and one that
writes to several vectors and runs out of room in between.
-/
import Mathlib
import VectorEngine.Proofs.Session.Silence

namespace VectorEngine

/-- What can be seen of a vector besides its values. -/
def NamedVector.settings (v : NamedVector) : String × Int × NotifyPolicy × NotifyState × List Client :=
  (v.name, v.series.offset, v.policy, v.state, v.clients)

/-- What can be seen of a vector. -/
def NamedVector.visible (v : NamedVector) : List Float × String × Int × NotifyPolicy × NotifyState × List Client :=
  (v.series.values, v.settings)

/-- The same vectors under the same names, with the same to be seen of each, and
the same flushes waiting. -/
structure Store.Unchanged (s s' : Store) : Prop where
  names : ∀ n, s'.names.find? n = s.names.find? n
  vectors : ∀ id, (s'.get? id).map NamedVector.visible = (s.get? id).map NamedVector.visible
  queue : s'.queue = s.queue

/-- The command destroys vectors, all there, and names one of them twice. -/
def Command.ListedTwice (s : Store) (c : Command) : Prop :=
  ∃ names ids, c = .destroy names ∧ s.lookupAll names = .ok ids ∧ ¬names.Nodup

/-- The command runs out of room when one of its vectors has other values
already. -/
def Command.StopsMidway (s : Store) (c : Command) : Prop :=
  ∃ s' n, s.begin c = .ok (s', [.refuse (.outOfMemory n)]) ∧
    ∃ id v v', s.get? id = some v ∧ s'.get? id = some v' ∧ v'.series.values ≠ v.series.values

/-! ## Room for values -/

theorem Buffer.setCapacity_error {b : Buffer} {n : Nat} {e : Error} (h : b.setCapacity n = .error e) :
    ∃ m, e = .outOfMemory m := by
  unfold setCapacity at h
  split at h
  · split at h
    · cases h
      exact ⟨n, rfl⟩
    · cases h
  · split at h <;> cases h

theorem Buffer.grownCapacity_error {n : Nat} {e : Error} (h : grownCapacity n = .error e) :
    ∃ m, e = .outOfMemory m := by
  unfold grownCapacity at h
  split at h
  · cases h
  · cases h
    exact ⟨n, rfl⟩

theorem Buffer.changeLength_error {b : Buffer} {n : Nat} {e : Error} (h : b.changeLength n = .error e) :
    ∃ m, e = .outOfMemory m := by
  unfold changeLength at h
  split at h
  · rcases bind_error_iff.1 h with h | ⟨grown, -, h⟩
    · rcases bind_error_iff.1 h with h | ⟨capacity, -, h⟩
      · exact grownCapacity_error h
      · exact setCapacity_error h
    · cases h
  · cases h

/-- Room is all that can be missing for values. -/
theorem Series.setValues_error {series : Series} {values : List Float} {e : Error}
    (h : series.setValues values = .error e) : ∃ n, e = .outOfMemory n := by
  have hassign : series.buffer.assign values = .error e := map_error_iff.1 h
  rcases bind_error_iff.1 hassign with h | ⟨sized, -, h⟩
  · exact Buffer.changeLength_error h
  · cases h

theorem Series.setValues_offset {series series' : Series} {values : List Float}
    (h : series.setValues values = .ok series') : series'.offset = series.offset := by
  obtain ⟨b, -, rfl⟩ := map_ok_iff.1 h
  rfl

namespace Store

variable {s s' s'' : Store} {id : VectorId} {v : NamedVector} {rest tasks : List Task}

theorem Unchanged.refl (s : Store) : s.Unchanged s := ⟨fun _ => rfl, fun _ => rfl, rfl⟩

/-! ## Writing to several vectors -/

/-- Nothing but values is changed. -/
structure Rewritten (s s' : Store) : Prop where
  names : s'.names = s.names
  queue : s'.queue = s.queue
  vectors : ∀ id, (s'.get? id).map NamedVector.settings = (s.get? id).map NamedVector.settings

theorem Rewritten.edit {id : VectorId} {values : List Float} (h : s.Rewritten s')
    (hedit : s'.edit id (Series.setValues values) = .ok s'') : s.Rewritten s'' := by
  obtain ⟨v, series, hv, hseries, rfl⟩ := edit_cases hedit
  refine ⟨(modify_names ..).trans h.names, (modify_queue ..).trans h.queue, fun id' => ?_⟩
  rw [← h.vectors, get?_modify]
  split
  · next hid =>
    rw [hid, hv]
    simp only [Option.map_some, NamedVector.settings, Series.setValues_offset hseries]
  · rfl

theorem writeAll_rewritten (s : Store) (writes : List (VectorId × List Float)) : s.Rewritten (s.writeAll writes).1 :=
  writeAll_keeps (P := s.Rewritten) (fun _ _ _ _ hs hedit => hs.edit hedit) ⟨rfl, rfl, fun _ => rfl⟩

theorem Rewritten.unchanged (h : s.Rewritten s')
    (hvalues : ∀ id v v', s.get? id = some v → s'.get? id = some v' → v'.series.values = v.series.values) :
    s.Unchanged s' := by
  refine ⟨fun n => by rw [h.names], fun id => ?_, h.queue⟩
  have hsettings := h.vectors id
  cases hv : s.get? id with
  | none => rw [hv] at hsettings; simpa using hsettings
  | some v =>
    rw [hv, Option.map_some, Option.map_eq_some_iff] at hsettings
    obtain ⟨v', hv', hsettings⟩ := hsettings
    simp only [hv', Option.map_some, NamedVector.visible]
    rw [hsettings, hvalues id v v' hv hv']

/-- Vectors that are there can only lack room. -/
theorem writeAll_error {e : Error} : ∀ {s : Store} {writes : List (VectorId × List Float)},
    (∀ w ∈ writes, ∃ v, s.get? w.1 = some v) → s.writeAll writes = (s', some e) → ∃ n, e = .outOfMemory n
  | s, [], _, h => by
    rw [writeAll] at h
    cases h
  | s, (id, values) :: writes, hthere, h => by
    unfold writeAll at h
    split at h
    · next s₁ hedit =>
      refine writeAll_error (fun w hw => ?_) h
      obtain ⟨v, hv⟩ := hthere w (List.mem_cons_of_mem _ hw)
      obtain ⟨v', hv', -⟩ := (edit_alike hedit).get? hv
      exact ⟨v', hv'⟩
    · next e' hedit =>
      cases h
      obtain ⟨v, hv⟩ := hthere (id, values) List.mem_cons_self
      rcases bind_error_iff.1 hedit with h | ⟨u, hu, h⟩
      · rw [get_of_get? hv] at h
        cases h
      rcases bind_error_iff.1 h with h | ⟨series, -, h⟩
      · exact Series.setValues_error h
      · cases h

/-! ## Creating vectors -/

theorem create_error_unchanged {name? : Option String} {e : Error} (h : s.create name? = (s', .error e)) :
    s.Unchanged s' := by
  obtain ⟨m, rfl⟩ := create_error h
  exact ⟨fun _ => rfl, fun _ => rfl, rfl⟩

theorem create_ok_silent {name? : Option String} (hc : s.Coherent) (hs : s.Silent)
    (h : s.create name? = (s', .ok id)) : s'.Silent ∧ ∃ v, s'.get? id = some v := by
  obtain ⟨v, hfresh, hget⟩ := get?_of_create hc h
  refine ⟨fun id' u hu => ?_, v, by rw [hget, if_pos rfl]⟩
  rw [hget] at hu
  split at hu
  · cases hu
    simp [hfresh.clients]
  · exact hs id' u hu

/-- Removing a vector just created leaves nothing of it. -/
theorem create_retire_unchanged {name? : Option String} (hc : s.Coherent) (h : s.create name? = (s', .ok id)) :
    s.Unchanged (s'.retire id) := by
  obtain ⟨m, v, hfresh, hn, hplace⟩ := create_ok h
  have hm : ({ s with nextName := m } : Store).Coherent := hc.congr rfl rfl rfl
  have hv : s'.get? id = some v := by rw [hm.get?_place hplace, if_pos rfl]
  have hvacant : s.get? id = none := hm.vacant_of_place hplace
  refine ⟨fun n => ?_, fun id' => ?_, ?_⟩
  · rw [retire_of_get? hv, place_names hplace]
    simp only [NameTable.find?_erase, NameTable.find?_insert]
    split
    · next hvn => rw [← hvn, hn]
    · rfl
  · rw [get?_retire hv, hm.get?_place hplace]
    split
    · next hid => rw [hid, hvacant]
    · rfl
  · have hqueue := place_queue hplace
    rw [retire_of_get? hv]
    exact hqueue

theorem createWithLength_error_unchanged {name? : Option String} {length? : Option Nat} {e : Error}
    (hc : s.Coherent) (h : s.createWithLength name? length? = (s', .error e)) : s.Unchanged s' := by
  unfold createWithLength at h
  split at h
  · next hcreate =>
    cases h
    exact create_error_unchanged hcreate
  · next s₁ id hcreate =>
    dsimp only at h
    split at h
    · cases h
    · split at h
      · cases h
      · cases h
        exact create_retire_unchanged hc hcreate

theorem createWithLength_ok_harmless {name? : Option String} {length? : Option Nat} (hc : s.Coherent) (hs : s.Silent)
    (h : s.createWithLength name? length? = (s', .ok tasks)) : s'.Silent ∧ s'.Harmless tasks := by
  unfold createWithLength at h
  split at h
  · cases h
  · next s₁ id hcreate =>
    obtain ⟨hs₁, v, hv⟩ := create_ok_silent hc hs hcreate
    have hnamed : s₁.Harmless [.answer (.reply (.name v.name))] := trivial
    simp only [hv] at h
    split at h
    · cases h
      exact ⟨hs₁, hnamed⟩
    · split at h
      · next hupdating =>
        cases h
        obtain ⟨ha, hharmless⟩ := updating_harmless hs₁ hupdating hnamed
        exact ⟨hs₁.alike ha, hharmless⟩
      · cases h

/-! ## Commands -/

theorem lookupAll_there {names : List String} {ids : List VectorId} (hc : s.Coherent)
    (h : s.lookupAll names = .ok ids) : ∀ id ∈ ids, ∃ v, s.get? id = some v := by
  intro id hid
  obtain ⟨n, -, hn⟩ := mem_of_mapM_ok h id hid
  obtain ⟨v, hv, -⟩ := hc.get?_of_lookup hn
  exact ⟨v, hv⟩

/-- Different names lead to different vectors. -/
theorem lookupAll_nodup (hc : s.Coherent) : ∀ {names : List String} {ids : List VectorId},
    s.lookupAll names = .ok ids → names.Nodup → ids.Nodup
  | [], ids, h, _ => by
    cases h
    exact .nil
  | n :: names, ids, h, hnodup => by
    rw [lookupAll, List.mapM_cons] at h
    obtain ⟨id, hid, h⟩ := bind_ok_iff.1 h
    obtain ⟨ids', hids, h⟩ := bind_ok_iff.1 h
    cases h
    obtain ⟨hn, hnodup⟩ := List.nodup_cons.1 hnodup
    refine List.nodup_cons.2 ⟨fun hmem => hn ?_, lookupAll_nodup hc hids hnodup⟩
    obtain ⟨n', hn', hid'⟩ := mem_of_mapM_ok hids id hmem
    obtain ⟨v, hv, hname⟩ := hc.get?_of_lookup hid
    obtain ⟨v', hv', hname'⟩ := hc.get?_of_lookup hid'
    rw [hv, Option.some.injEq] at hv'
    rw [← hname, hv', hname']
    exact hn'

theorem notifying_harmless {action : NotifyAction} (hs : s.Silent) (h : s.notifying id action = .ok (s', tasks)) :
    s.Alike s' ∧ s'.Harmless tasks := by
  have hquiet : ∀ s : Store, s.Harmless quietly := fun _ => trivial
  cases action with
  | policy p =>
    obtain ⟨s₁, h₁, h⟩ := bind_ok_iff.1 h
    cases h
    obtain ⟨v, -, h₁⟩ := bind_ok_iff.1 h₁
    cases h₁
    exact ⟨alike_modify s id fun _ => rfl, hquiet _⟩
  | now =>
    obtain ⟨⟨s₁, d?⟩, h₁, h⟩ := bind_ok_iff.1 h
    cases h
    exact notifyNow_harmless hs h₁ (hquiet s)
  | cancel =>
    obtain ⟨⟨s₁, pending⟩, h₁, h⟩ := bind_ok_iff.1 h
    cases h
    exact ⟨cancelNotify_eq h₁ ▸ alike_modify s id fun _ => rfl, hquiet _⟩
  | pending =>
    obtain ⟨pending, -, h⟩ := bind_ok_iff.1 h
    cases h
    exact ⟨.refl s, trivial⟩

end Store

/-! ## Sessions -/

namespace Session

variable {s s' : Session} {c : Command} {e : Error}

/-- If the work begun ends with an error, it leaves nothing changed of `store`. -/
def Spares (t : Session) (store : Store) : Prop :=
  ∀ s' e, t.resume = (s', .finished (.error e)) → store.Unchanged s'.store

theorem spares_refuse {store store' : Store} (h : store.Unchanged store') :
    (s.put store' [.refuse e]).Spares store := by
  intro s' e' hresume
  rw [resume_refuse] at hresume
  cases hresume
  exact h

theorem spares_fail : (s.fail e).Spares s.store := spares_refuse (.refl s.store)

/-- Harmless work has no error to end with. -/
theorem spares_harmless {store store' : Store} {tasks : List Task} (hs : store'.Silent) (h : store'.Harmless tasks) :
    (s.put store' tasks).Spares store := by
  intro s' e hresume
  obtain ⟨store₁, rest, a, hadvance⟩ := Store.advance_harmless hs (h.append s.stack)
  simp only [resume, put, hadvance, Prod.mk.injEq] at hresume
  cases hresume.2

theorem spares_alike {store : Store} {tasks : List Task} (hs : s.store.Silent)
    (h : s.store.Alike store ∧ store.Harmless tasks) : (s.put store tasks).Spares s.store :=
  spares_harmless (hs.alike h.1) h.2

/-- Writing spares the store, unless it stops when values are changed already. -/
theorem writes_spares {store' : Store} {ids : List VectorId} {rest tasks : List Task} (hs : s.store.Silent)
    (hrest : s.store.Harmless rest) (h : s.store.Writes rest ids store' tasks)
    (hmidway : ∀ n, tasks = [.refuse (.outOfMemory n)] → ∀ id v v', s.store.get? id = some v →
      store'.get? id = some v' → v'.series.values = v.series.values) : (s.put store' tasks).Spares s.store := by
  cases h with
  | nothing => exact spares_harmless hs hrest
  | one _ h => exact spares_alike hs (Store.updating_harmless hs h hrest)
  | @several _ _ writes hthere h =>
    obtain ⟨rfl, rfl | ⟨e, he, rfl⟩⟩ := Store.writing_cases h
    · have ha := Store.writeAll_alike s.store writes
      have hharmless : (s.store.writeAll writes).1.Harmless rest := hrest.alike ha
      exact spares_alike hs ⟨ha, hharmless⟩
    · obtain ⟨n, rfl⟩ := Store.writeAll_error hthere (Prod.ext rfl he)
      exact spares_refuse ((Store.writeAll_rewritten s.store writes).unchanged (hmidway n rfl))

/-- **A command that fails changes nothing** unless it has a vector listed twice
or stops midway. -/
theorem Executed.spares (h : Executed s c s') (hc : s.store.Coherent) (hs : s.store.Silent)
    (htwice : ¬c.ListedTwice s.store) (hmidway : ¬c.StopsMidway s.store) : s'.Spares s.store := by
  have hquiet : s.store.Harmless Store.quietly := trivial
  cases h with
  | created _ h =>
    obtain ⟨hs', hharmless⟩ := Store.createWithLength_ok_harmless hc hs h
    exact spares_harmless hs' hharmless
  | uncreated _ h => exact spares_refuse (Store.createWithLength_error_unchanged hc h)
  | evaluated traces values =>
    have hharmless : s.store.Harmless [.answer (.reply (.list values))] := trivial
    exact spares_harmless (s := { s with traces := traces }) hs hharmless
  | assigned traces _ _ h =>
    exact spares_alike (s := { s with traces := traces }) hs (Store.updating_harmless hs h hquiet)
  | @begun store tasks h hform =>
    cases hform with
    | looks a =>
      have hharmless : s.store.Harmless [.answer a] := trivial
      exact spares_harmless hs hharmless
    | @destroys names ids hids =>
      intro s' e hresume
      obtain ⟨store', r, hadvance, -, herror⟩ := Store.advance_destroyNamed hs ids s.stack
      simp only [resume, put, List.singleton_append, hadvance, Prod.mk.injEq, Signal.finished.injEq] at hresume
      obtain ⟨id, hid, -, hnodup⟩ := herror e hresume.2
      refine absurd (Store.lookupAll_nodup hc hids ?_) (hnodup (Store.lookupAll_there hc hids id hid))
      by_contra hnames
      exact htwice ⟨names, ids, rfl, hids, hnames⟩
    | notifies _ _ hnotifying => exact spares_alike hs (Store.notifying_harmless hs hnotifying)
    | changes _ _ hanswering hwrites =>
      refine writes_spares hs hanswering.harmless hwrites fun n htasks id v v' hv hv' => ?_
      by_contra hvalues
      subst htasks
      exact hmidway ⟨store, n, h, id, v, v', hv, hv', hvalues⟩
  | failed traces e => exact spares_fail (s := { s with traces := traces })

/-- A vector listed twice is destroyed, and then found gone. -/
theorem changed_of_listedTwice (hc : s.store.Coherent) (hs : s.store.Silent) (h : c.ListedTwice s.store)
    (hresume : (s.execute c).resume = (s', .finished (.error e))) : ¬s.store.Unchanged s'.store := by
  obtain ⟨names, ids, rfl, hids, -⟩ := h
  have hbegin : s.execute (.destroy names) = s.put s.store [.destroyNamed ids] := by
    simp only [execute, Store.begin, hids]
    rfl
  obtain ⟨store', r, hadvance, -, herror⟩ := Store.advance_destroyNamed hs ids s.stack
  rw [hbegin] at hresume
  simp only [resume, put, List.singleton_append, hadvance, Prod.mk.injEq, Signal.finished.injEq] at hresume
  obtain ⟨rfl, rfl⟩ := hresume
  obtain ⟨id, hid, hgone, -⟩ := herror e rfl
  obtain ⟨v, hv⟩ := Store.lookupAll_there hc hids id hid
  intro hunchanged
  have hvectors := hunchanged.vectors id
  rw [hgone, hv] at hvectors
  cases hvectors

theorem changed_of_stopsMidway (h : c.StopsMidway s.store)
    (hresume : (s.execute c).resume = (s', .finished (.error e))) : ¬s.store.Unchanged s'.store := by
  obtain ⟨store, n, hbegin, id, v, v', hv, hv', hvalues⟩ := h
  have hexecute : s.execute c = s.put store [.refuse (.outOfMemory n)] := by
    unfold execute
    split
    · cases hbegin
    · cases hbegin
    · cases hbegin
    · simp only [begin, hbegin]
  rw [hexecute, resume_refuse] at hresume
  cases hresume
  intro hunchanged
  have hvectors := hunchanged.vectors id
  rw [hv, hv', Option.map_some, Option.map_some, Option.some.injEq] at hvectors
  exact hvalues (congrArg Prod.fst hvectors)

end Session

/-- **A command that fails changes nothing, but for two.** In a store reached by
any run, none of whose clients listens, a command that ends with an error leaves
the vectors, all that can be seen of them, and the flushes waiting as they were,
unless it destroys vectors and has one listed twice, or writes to several and
runs out of room in between; then it does not. -/
theorem Run.failed_unchanged_iff {s₀ s s' : Session} {config : StoreConfig} {host : Host} {random : RandomSource}
    (hs₀ : Session.ofConfig config host random = .ok s₀) {steps : List Step} (h : Run ⟨s₀, false⟩ steps ⟨s, false⟩)
    (hs : s.store.Silent) {c : Command} {e : Error} (hc : s.submit (.command c) = (s', .finished (.error e))) :
    s.store.Unchanged s'.store ↔ ¬c.ListedTwice s.store ∧ ¬c.StopsMidway s.store := by
  have hcoherent : s.store.Coherent := (h.sound hs₀).coherent
  constructor
  · intro hunchanged
    exact ⟨fun htwice => Session.changed_of_listedTwice hcoherent hs htwice hc hunchanged,
      fun hmidway => Session.changed_of_stopsMidway hmidway hc hunchanged⟩
  · rintro ⟨htwice, hmidway⟩
    exact (Session.execute_executed hcoherent c).spares hcoherent hs htwice hmidway s' e hc

/-- A session with one vector, that has no clients. -/
def Session.oneVector : Session := (Moment.outcome ⟨.initial, false⟩ [some (.create none), none]).session

theorem Session.oneVector_silent : oneVector.store.Silent := by
  have hempty : ({} : Store).Silent := fun id v hv => by cases hv
  have hcreate : ({} : Store).create none = (oneVector.store, .ok ⟨0, 0⟩) := rfl
  exact (Store.create_ok_silent Store.coherent_empty hempty hcreate).1

/-- Destroys the vector, and then the vector. -/
def Command.destroyTwice : Command := .destroy [Store.generatedName 1, Store.generatedName 1]

/-- The session in which `destroyTwice` is asked for and so much work is done. -/
def Session.destroyingTwice (work : Nat) : Session :=
  (Moment.outcome ⟨.oneVector, false⟩ (some (.command .destroyTwice) :: List.replicate work none)).session

theorem Session.submit_destroyTwice :
    oneVector.submit (.command .destroyTwice) =
      (destroyingTwice 3, .finished (.error (.notFound (VectorId.text ⟨0, 0⟩)))) := by
  have hbegun : (destroyingTwice 0).tick = (destroyingTwice 1, none) := rfl
  have hgone : (destroyingTwice 1).tick = (destroyingTwice 2, none) := rfl
  have hfailed : (destroyingTwice 2).tick =
      (destroyingTwice 3, some (.finished (.error (.notFound (VectorId.text ⟨0, 0⟩))))) := rfl
  calc
    oneVector.submit (.command .destroyTwice) = (destroyingTwice 0).resume := rfl
    _ = (destroyingTwice 1).resume := resume_of_tick_none hbegun
    _ = (destroyingTwice 2).resume := resume_of_tick_none hgone
    _ = _ := resume_of_tick_some hfailed

theorem Run.failed_unchanged_iff_destroyTwice :
    Session.oneVector.store.Unchanged (Session.destroyingTwice 3).store ↔
      ¬Command.destroyTwice.ListedTwice Session.oneVector.store ∧
        ¬Command.destroyTwice.StopsMidway Session.oneVector.store := by
  have hrun : Run ⟨.initial, false⟩ _ ⟨.oneVector, false⟩ := Moment.run_play rfl
  exact Run.failed_unchanged_iff Session.ofConfig_initial hrun Session.oneVector_silent Session.submit_destroyTwice

/-- The command fails, and the vector is gone. -/
theorem Run.not_unchanged_destroyTwice :
    (∃ steps, Run ⟨.initial, false⟩ steps ⟨.oneVector, false⟩) ∧ Session.oneVector.store.Silent ∧
      (∃ e, Session.oneVector.submit (.command .destroyTwice) = (Session.destroyingTwice 3, .finished (.error e))) ∧
      ¬Session.oneVector.store.Unchanged (Session.destroyingTwice 3).store := by
  refine ⟨⟨_, Moment.run_play rfl⟩, Session.oneVector_silent,
    ⟨_, Session.submit_destroyTwice⟩, fun h => ?_⟩
  have hvectors := h.vectors ⟨0, 0⟩
  cases hvectors

end VectorEngine
