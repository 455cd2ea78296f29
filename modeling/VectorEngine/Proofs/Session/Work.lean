/-
What a request begins with, and what a unit of work does.

`Issued` lists what a request can do before the first unit of work, and `Ticked`
what a unit of work can do. Everything else about sessions follows from the two:
what happens to the vectors (`Move`), and what becomes of the work under way.
-/
import Mathlib
import VectorEngine.Session
import VectorEngine.Proofs.Store.Start

namespace VectorEngine

/-- The request takes back a pending flush of the vector. -/
def Request.TakesBack (s : Store) (r : Request) (id : VectorId) : Prop :=
  match r with
  | .cancelNotify id' | .setPolicy id' .never => id' = id
  | .command c => c.TakesBack s id
  | _ => False

/-- The request asks for a fan-out at once, whatever the policy. -/
def Request.NotifiesNow : Request → Prop
  | .notifyNow _ => True
  | .command c => c.NotifiesNow
  | _ => False

/-! ## Requests -/

/-- What a request does at once to the store and to the tasks under way. -/
inductive Session.Issued (s : Store) (stack : List Task) (r : Request) (s' : Session) : Prop
  | started {tasks : List Task} : Store.Begun (r.TakesBack s) s s'.store tasks →
    Store.Start r.NotifiesNow s s'.store tasks → s'.stack = tasks ++ stack → Issued s stack r s'
  | pass : r = .runIdle → s'.store = { s with queue := [] } → s'.stack = .idlePass s.queue 0 :: stack →
    Issued s stack r s'
  | released {c : ClientId} {b : Bool} : r = .releaseClient c → s'.store = (s.releaseClient c).1 →
    s'.stack = .answer (.flag b) :: stack → Issued s stack r s'
  /-- A vector is created and, as it cannot be given its length, removed again. -/
  | undone {s₁ : Store} {id : VectorId} {v : NamedVector} {e : Error} : s.Steady s₁ → s.get? id = none →
    s₁.get? id = some v → v.clients = [] → s'.store = s₁.retire id → Store.Changes (r.TakesBack s) s s'.store →
    s'.stack = .refuse e :: stack → Issued s stack r s'

namespace Session

variable {s : Session} {r : Request}

theorem put_issued {store : Store} {tasks : List Task} (hb : Store.Begun (r.TakesBack s.store) s.store store tasks)
    (hst : Store.Start r.NotifiesNow s.store store tasks) : Issued s.store s.stack r (s.put store tasks) :=
  .started hb hst rfl

theorem put_inert_issued {store : Store} {t : Task} (hc : Store.Changes (r.TakesBack s.store) s.store store)
    (hst : s.store.Steady store) (ht : t.Inert) : Issued s.store s.stack r (s.put store [t]) :=
  have hi : ∀ t' ∈ [t], t'.Inert := by simpa using ht
  put_issued (.of_changes hc hi) (.quiet hst hi)

theorem fail_issued (s : Session) (r : Request) (e : Error) : Issued s.store s.stack r (s.fail e) :=
  put_inert_issued .refl (.refl _) trivial

theorem finish_issued (s : Session) (r : Request) (a : Answer) : Issued s.store s.stack r (s.finish a) :=
  put_inert_issued .refl (.refl _) trivial

theorem settings_issued (s : Session) (r : Request) (functions : FunctionTable) (aggregates : Aggregates) :
    Issued s.store s.stack r (s.put { s.store with functions, aggregates } [.answer .done]) :=
  put_inert_issued (.single (.settings s.store functions aggregates (le_refl _)))
    ((Store.Steady.refl s.store).congr rfl) trivial

theorem begin_issued {begun : Except Error (Store × List Task)}
    (h : ∀ store tasks, begun = .ok (store, tasks) → Store.Begun (r.TakesBack s.store) s.store store tasks ∧
      Store.Start r.NotifiesNow s.store store tasks) : Issued s.store s.stack r (s.begin begun) := by
  unfold begin
  split
  · next store tasks =>
    obtain ⟨hb, hst⟩ := h store tasks rfl
    exact put_issued hb hst
  · exact fail_issued s r _

theorem beginDelivery_issued {begun : Except Error (Store × Option Delivery)} {tasks : List Task}
    (h : ∀ store d?, begun = .ok (store, d?) →
      Store.Begun (r.TakesBack s.store) s.store store (Task.delivering d? tasks) ∧
        Store.Start r.NotifiesNow s.store store (Task.delivering d? tasks)) :
    Issued s.store s.stack r (s.beginDelivery tasks begun) := by
  refine begin_issued fun store ts hbegun => ?_
  obtain ⟨⟨store', d?⟩, hok, he⟩ := map_ok_iff.1 hbegun
  cases he
  exact h _ d? hok

/-- Evaluating an expression changes the traces at most. -/
theorem evaluate_fst (s : Session) (source : String) :
    ∃ traces, (s.evaluate source).1 = { s with traces := traces } := by
  unfold evaluate
  split
  · exact ⟨_, rfl⟩
  · exact ⟨s.traces, rfl⟩

theorem evaluating_cases (s : Session) (source : String) (next : Session → List Float → Session) :
    ∃ traces, (∃ values, s.evaluating source next = next { s with traces := traces } values) ∨
      ∃ e, s.evaluating source next = { s with traces := traces }.fail e := by
  obtain ⟨traces, htraces⟩ := evaluate_fst s source
  refine ⟨traces, ?_⟩
  unfold evaluating
  rw [← htraces]
  split
  · next s₁ values he => exact .inl ⟨values, by rw [he]⟩
  · next s₁ e he => exact .inr ⟨e, by rw [he]⟩

/-- Assigning the values of an expression is an update, once they are known. -/
theorem assign_cases (s : Session) (id : VectorId) (source : String) (rest : List Task) :
    ∃ traces, (∃ values store tasks, s.store.updating id (Series.setValues values) rest = .ok (store, tasks) ∧
        s.assign id source rest = { s with traces := traces }.put store tasks) ∨
      ∃ e, s.assign id source rest = { s with traces := traces }.fail e := by
  unfold assign
  split
  · next e _ => exact ⟨s.traces, .inr ⟨e, rfl⟩⟩
  · obtain ⟨traces, ⟨values, h⟩ | ⟨e, h⟩⟩ := evaluating_cases s source fun s values =>
      s.begin (s.store.updating id (Series.setValues values) rest)
    · refine ⟨traces, ?_⟩
      rw [h]
      unfold begin
      split
      · next store tasks hupdating => exact .inl ⟨values, store, tasks, hupdating, rfl⟩
      · next e _ => exact .inr ⟨e, rfl⟩
    · exact ⟨traces, .inr ⟨e, h⟩⟩

theorem evaluating_issued {source : String} {next : Session → List Float → Session}
    (h : ∀ traces values, Issued s.store s.stack r (next { s with traces := traces } values)) :
    Issued s.store s.stack r (s.evaluating source next) := by
  obtain ⟨traces, ⟨values, he⟩ | ⟨e, he⟩⟩ := evaluating_cases s source next
  · exact he ▸ h traces values
  · exact he ▸ fail_issued { s with traces := traces } r e

theorem assign_issued {id : VectorId} {source : String} {rest : List Task} (hi : ∀ t ∈ rest, t.Inert) :
    Issued s.store s.stack r (s.assign id source rest) := by
  obtain ⟨traces, ⟨values, store, tasks, hupdating, he⟩ | ⟨e, he⟩⟩ := assign_cases s id source rest
  · exact he ▸ put_issued (s := { s with traces := traces }) (Store.updating_begun hupdating hi)
      (Store.updating_start (.refl _) hupdating hi)
  · exact he ▸ fail_issued { s with traces := traces } r e

/-- What a command does at once to the session. -/
inductive Executed (s : Session) (c : Command) : Session → Prop
  | created {name? : Option String} {length? : Option Nat} {store : Store} {tasks : List Task} :
    c = .create name? length? → s.store.createWithLength name? length? = (store, .ok tasks) →
    Executed s c (s.put store tasks)
  | uncreated {name? : Option String} {length? : Option Nat} {store : Store} {e : Error} :
    c = .create name? length? → s.store.createWithLength name? length? = (store, .error e) →
    Executed s c (s.put store [.refuse e])
  | evaluated {source : String} (traces : Traces) (values : List Float) : c = .expression none source →
    Executed s c ({ s with traces := traces }.finish (.reply (.list values)))
  | assigned {target source : String} {id : VectorId} {values : List Float} {store : Store} {tasks : List Task}
    (traces : Traces) : c = .expression (some target) source → s.store.lookup target = .ok id →
    s.store.updating id (Series.setValues values) Store.quietly = .ok (store, tasks) →
    Executed s c ({ s with traces := traces }.put store tasks)
  | begun {store : Store} {tasks : List Task} : s.store.begin c = .ok (store, tasks) → s.store.Form c store tasks →
    Executed s c (s.put store tasks)
  | failed (traces : Traces) (e : Error) : Executed s c ({ s with traces := traces }.fail e)

/-- **What a command does at once.** -/
theorem execute_executed (hs : s.store.Coherent) (c : Command) : Executed s c (s.execute c) := by
  unfold execute
  split
  · split
    · next h => exact .created rfl h
    · next h => exact .uncreated rfl h
  · next source =>
    obtain ⟨traces, ⟨values, he⟩ | ⟨e, he⟩⟩ := evaluating_cases s source fun s values =>
      s.finish (.reply (.list values))
    · exact he ▸ .evaluated traces values rfl
    · exact he ▸ .failed traces e
  · next target source =>
    split
    · next id hid =>
      obtain ⟨traces, ⟨values, store, tasks, hupdating, he⟩ | ⟨e, he⟩⟩ := assign_cases s id source Store.quietly
      · exact he ▸ .assigned traces rfl hid hupdating
      · exact he ▸ .failed traces e
    · exact .failed s.traces _
  · next hcreate hvalues hassign =>
    have hexpression : ∀ target? source, c ≠ .expression target? source := by
      rintro (- | target) source rfl
      · exact hvalues source rfl
      · exact hassign target source rfl
    unfold begin
    split
    · next h => exact .begun h (Store.begin_form hs hcreate hexpression h)
    · exact .failed s.traces _

theorem Executed.issued {s' : Session} {c : Command} (h : Executed s c s') (hs : s.store.Coherent) :
    Issued s.store s.stack (.command c) s' := by
  cases h with
  | created hc h =>
    subst hc
    exact put_issued (Store.createWithLength_ok hs h) (Store.createWithLength_start hs h)
  | @uncreated name? length? store e hc h =>
    subst hc
    let r : Request := .command (.create name? length?)
    have hchanges := Store.createWithLength_error (W := r.TakesBack s.store) hs h
    rcases Store.createWithLength_undone hs h with hsteady | ⟨s₁, id, v, hsteady, hnone, hv, hclients, hretire⟩
    · exact put_inert_issued hchanges hsteady trivial
    · exact .undone hsteady hnone hv hclients hretire hchanges rfl
  | evaluated traces values => exact finish_issued { s with traces := traces } _ _
  | assigned traces _ _ h =>
    have hi : ∀ t ∈ Store.quietly, t.Inert := by simp [Store.quietly, Task.Inert]
    exact put_issued (s := { s with traces := traces }) (Store.updating_begun h hi)
      (Store.updating_start (.refl _) h hi)
  | begun _ h => exact put_issued h.begun h.start
  | failed traces e => exact fail_issued { s with traces := traces } _ e

theorem writes_issued {begun : Except Error (Store × List Task)}
    (h : ∀ store tasks, begun = .ok (store, tasks) →
      ∃ rest ids, (∀ t ∈ rest, t.Inert) ∧ Store.Writes s.store rest ids store tasks) :
    Issued s.store s.stack r (s.begin begun) := by
  refine begin_issued fun store tasks hbegun => ?_
  obtain ⟨rest, ids, hi, hw⟩ := h store tasks hbegun
  exact ⟨hw.begun hi, hw.start hi⟩

/-- **What a request begins with.** -/
theorem issue_issued (hs : s.store.Coherent) (r : Request) : Issued s.store s.stack r (s.issue r) := by
  have hdone : ∀ t ∈ [Task.answer .done], t.Inert := by simp [Task.Inert]
  cases r with
  | create name? =>
    have hc := Store.create_changes (W := Request.TakesBack s.store (.create name?)) s.store name?
    have hst : s.store.Steady (s.store.create name?).1 := Store.create_steady hs
    simp only [issue]
    split
    · next store id h =>
      rw [h] at hc hst
      exact put_inert_issued hc hst trivial
    · next store e h =>
      rw [h] at hc hst
      exact put_inert_issued hc hst trivial
  | destroy id =>
    exact beginDelivery_issued fun store d? h =>
      ⟨Store.beginDestroy_begun h hdone, Store.beginDestroy_start h hdone⟩
  | clear => exact put_issued (.of_changes .refl (by simp [Task.Inert])) (.quiet (.refl _) (by simp [Task.Inert]))
  | edit id change =>
    refine begin_issued fun store tasks h => ?_
    obtain ⟨store', hedit, he⟩ := map_ok_iff.1 h
    cases he
    exact ⟨.of_changes (.single (Store.edit_change hedit)) hdone, .quiet (Store.edit_steady hedit) hdone⟩
  | update id change =>
    exact beginDelivery_issued fun store d? h =>
      ⟨Store.update_begun h hdone, Store.update_start (.refl _) h hdone⟩
  | readExtrema id =>
    refine begin_issued fun store tasks h => ?_
    obtain ⟨⟨e, store'⟩, hread, he⟩ := map_ok_iff.1 h
    cases he
    have hi : ∀ t ∈ [Task.answer (.extrema e)], t.Inert := by simp [Task.Inert]
    exact ⟨.of_changes (.single (Store.readExtrema_change hread)) hi, .quiet (Store.readExtrema_steady hread) hi⟩
  | markDirty id =>
    exact beginDelivery_issued fun store d? h =>
      ⟨Store.markDirty_begun h hdone, Store.markDirty_start (.refl _) h hdone⟩
  | setPolicy id policy =>
    refine begin_issued fun store tasks h => ?_
    obtain ⟨store', hset, he⟩ := map_ok_iff.1 h
    cases he
    refine ⟨.of_changes (Store.setPolicy_changes hset ?_) hdone, .quiet (Store.setPolicy_steady hset) hdone⟩
    rintro rfl
    rfl
  | notifyNow id =>
    have hi : ∀ t ∈ [Task.answerReached], t.Inert := by simp [Task.Inert]
    exact beginDelivery_issued fun store d? h =>
      ⟨Store.notifyNow_begun h hi, Store.notifyNow_start h trivial hi⟩
  | cancelNotify id =>
    refine begin_issued fun store tasks h => ?_
    obtain ⟨⟨store', pending⟩, hcancel, he⟩ := map_ok_iff.1 h
    cases he
    have hi : ∀ t ∈ [Task.answer (.flag pending)], t.Inert := by simp [Task.Inert]
    exact ⟨.of_changes (.single (Store.cancelNotify_change hcancel rfl)) hi,
      .quiet (Store.cancelNotify_steady hcancel) hi⟩
  | runIdle => exact .pass rfl rfl rfl
  | registerClient id listens =>
    have hc : Store.Change (Request.TakesBack s.store (.registerClient id listens)) s.store
        (s.store.registerClient id listens).1 := .register s.store id listens
    have hst := Store.registerClient_steady s.store id listens
    simp only [issue]
    split
    · next store c h =>
      rw [h] at hc hst
      exact put_inert_issued (.single hc) hst trivial
    · next store e h =>
      rw [h] at hc hst
      exact put_inert_issued (.single hc) hst trivial
  | releaseClient client => exact .released rfl rfl rfl
  | registerFunction name function => exact settings_issued s _ (s.store.functions.insert name function) _
  | unregisterFunction name => exact settings_issued s _ (s.store.functions.erase name) _
  | registerAggregate name aggregate => exact settings_issued s _ _ (s.store.aggregates.insert name aggregate)
  | applyFunction function values =>
    let drawn : Session := { s with traces.generator := (function.apply values s.traces.generator).2 }
    simp only [issue]
    split
    · exact finish_issued drawn _ _
    · exact fail_issued drawn _ _
  | evaluate source => exact evaluating_issued fun traces values => finish_issued { s with traces := traces } _ _
  | evaluateParsed e =>
    have hsame : (s.evaluateParsed e).1.store = s.store ∧ (s.evaluateParsed e).1.stack = s.stack := ⟨rfl, rfl⟩
    simp only [issue]
    split
    · next s₁ values h =>
      rw [h] at hsame
      exact hsame.1 ▸ hsame.2 ▸ finish_issued s₁ _ _
    · next s₁ e h =>
      rw [h] at hsame
      exact hsame.1 ▸ hsame.2 ▸ fail_issued s₁ _ _
  | assign id source => exact assign_issued hdone
  | dup =>
    refine writes_issued fun store tasks h => ?_
    rcases Store.dup_cases h with ⟨-, rfl, rfl⟩ | ⟨-, h⟩
    · exact ⟨_, _, hdone, .nothing⟩
    · exact ⟨_, _, hdone, h⟩
  | merge => exact writes_issued fun store tasks h => ⟨_, _, hdone, Store.merge_writes h⟩
  | split => exact writes_issued fun store tasks h => ⟨_, _, hdone, Store.split_writes h⟩
  | normalize => exact writes_issued fun store tasks h => ⟨_, _, hdone, Store.normalize_writes h⟩
  | populate => exact writes_issued fun store tasks h => ⟨_, _, hdone, Store.populate_writes h⟩
  | sort =>
    refine writes_issued fun store tasks h => ?_
    obtain ⟨n, h⟩ := Store.sort_writes h
    exact ⟨_, _, by simp [Task.Inert], h⟩
  | spectrum =>
    refine writes_issued fun store tasks h => ?_
    obtain ⟨n, h⟩ := Store.spectrum_writes h
    exact ⟨_, _, by simp [Task.Inert], h⟩
  | signal => exact writes_issued fun store tasks h => ⟨_, _, hdone, Store.signal_writes h⟩
  | command c => exact (execute_executed hs c).issued hs

end Session

/-! ## Units of work -/

/-- The vector a task turns to next, and what is left of the task then. -/
inductive Task.Turns : Task → VectorId → Task → Prop
  | markEach (id : VectorId) (ids : List VectorId) : Turns (.markEach (id :: ids)) id (.markEach ids)
  | destroyAll (id : VectorId) (ids : List VectorId) : Turns (.destroyAll (id :: ids)) id (.destroyAll ids)
  | destroyNamed (id : VectorId) (ids : List VectorId) : Turns (.destroyNamed (id :: ids)) id (.destroyNamed ids)

theorem Task.Turns.inert {t t' : Task} {id : VectorId} (h : t.Turns id t') : t'.Inert := by cases h <;> trivial

namespace Store

theorem isPending_eq_true {s : Store} {id : VectorId} :
    s.isPending id = .ok true ↔ ∃ v, s.get? id = some v ∧ v.state = .pending := by
  unfold isPending
  rw [bind_ok_iff]
  refine exists_congr fun v => ?_
  rw [get_eq_ok_iff]
  refine and_congr_right fun _ => ⟨fun h => ?_, fun h => ?_⟩
  · exact of_decide_eq_true (Except.ok.inj h)
  · exact congrArg Except.ok (decide_eq_true h)

/-- A unit of work on an inert task. -/
inductive Worked (s : Store) (t : Task) (rest : List Task) : Store → List Task → Option Signal → Prop
  | drops : Worked s t rest s rest none
  | answers (r : Except Error Answer) : Worked s t rest s rest (some (.finished r))
  | passes {id : VectorId} {t' : Task} : t.Turns id t' → Worked s t rest s (t' :: rest) none
  | marks {id : VectorId} {t' : Task} {s' : Store} {d? : Option Delivery} : t.Turns id t' →
    s.markDirty id = .ok (s', d?) → Worked s t rest s' (Task.delivering d? (t' :: rest)) none
  | destroys {id : VectorId} {t' : Task} {s' : Store} {d? : Option Delivery} : t.Turns id t' →
    s.beginDestroy id = .ok (s', d?) → Worked s t rest s' (Task.delivering d? (t' :: rest)) none

theorem tick_worked {s s' : Store} {t : Task} {rest tasks : List Task} {signal? : Option Signal}
    (h : s.tick (t :: rest) = (s', tasks, signal?)) (ht : t.Inert) : Worked s t rest s' tasks signal? := by
  cases t with
  | deliver | idlePass => exact ht.elim
  | markEach ids =>
    cases ids with
    | nil =>
      cases h
      exact .drops
    | cons id ids =>
      simp only [tick] at h
      split at h
      · next hmark =>
        cases h
        exact .marks (.markEach id ids) hmark
      · cases h
        exact .passes (.markEach id ids)
  | destroyAll ids =>
    cases ids with
    | nil =>
      cases h
      exact .drops
    | cons id ids =>
      simp only [tick] at h
      split at h
      · next hdestroy =>
        cases h
        exact .destroys (.destroyAll id ids) hdestroy
      · cases h
        exact .passes (.destroyAll id ids)
  | destroyNamed ids =>
    cases ids with
    | nil =>
      cases h
      exact .answers _
    | cons id ids =>
      simp only [tick] at h
      split at h
      · next hdestroy =>
        cases h
        exact .destroys (.destroyNamed id ids) hdestroy
      · cases h
        exact .answers _
  | answer | refuse | answerReached | answerLength | answerOffset =>
    cases h
    exact .answers _

/-- What a unit of work does to the store and to the tasks. -/
inductive Ticked (s : Store) : List Task → Store → List Task → Option Signal → Prop
  | quiet : Ticked s [] s [] (some .quiet)
  | calls {d : Delivery} {v : NamedVector} {c : ClientId} {waiting : List Client} {reached : Nat}
    (rest : List Task) : s.get? d.event.server = some v →
    Delivery.nextListener v.clients d.waiting d.reached = (some (c, waiting), reached) →
    Ticked s (.deliver d :: rest) s (.deliver { d with waiting := waiting, reached := reached } :: rest)
      (some (.calling c d.event))
  | ends {d : Delivery} {reached : Nat} (rest : List Task) : s.stepDelivery d = .ended reached →
    Ticked s (.deliver d :: rest) (s.endDelivery d) (Task.report reached rest) none
  | passed (flushed : Nat) (rest : List Task) :
    Ticked s (.idlePass [] flushed :: rest) s (.answer (.count flushed) :: rest) none
  | flushes {id : VectorId} {v : NamedVector} (ids : List VectorId) (flushed : Nat) (rest : List Task) :
    s.get? id = some v → v.state = .pending →
    Ticked s (.idlePass (id :: ids) flushed :: rest) (s.modify id NamedVector.opened)
      (.deliver ⟨⟨id, .updated⟩, v.clients, v.notifying, 0⟩ :: .idlePass ids (flushed + 1) :: rest) none
  | skips {id : VectorId} (ids : List VectorId) (flushed : Nat) (rest : List Task) :
    (∀ v, s.get? id = some v → v.state ≠ .pending) →
    Ticked s (.idlePass (id :: ids) flushed :: rest) s (.idlePass ids flushed :: rest) none
  | works {t : Task} {s' : Store} {tasks : List Task} (rest : List Task) : t.Inert →
    Begun (fun _ => False) s s' tasks → Start False s s' tasks → Ticked s (t :: rest) s' (tasks ++ rest) none
  | finishes {t : Task} {r : Except Error Answer} (rest : List Task) : t.Inert →
    Ticked s (t :: rest) s rest (some (.finished r))

variable {s s' : Store}

/-- An inert task that leaves the store as it is, with others in its place. -/
theorem Ticked.replaced (s : Store) {t : Task} (tasks rest : List Task) (ht : t.Inert)
    (hi : ∀ t ∈ tasks, t.Inert) : Ticked s (t :: rest) s (tasks ++ rest) none :=
  .works rest ht (.of_changes .refl hi) (.quiet (.refl s) hi)

theorem Ticked.dropped (s : Store) {t : Task} (rest : List Task) (ht : t.Inert) : Ticked s (t :: rest) s rest none :=
  .replaced s [] rest ht (by simp)

theorem Ticked.delivering {t t' : Task} {d? : Option Delivery} (rest : List Task) (ht : t.Inert)
    (hb : Begun (fun _ => False) s s' (Task.delivering d? [t']))
    (hst : Start False s s' (Task.delivering d? [t'])) :
    Ticked s (t :: rest) s' (Task.delivering d? (t' :: rest)) none := by
  have h := Ticked.works rest ht hb hst
  cases d? <;> exact h

theorem Worked.ticked {t : Task} {rest tasks : List Task} {signal? : Option Signal}
    (h : Worked s t rest s' tasks signal?) (ht : t.Inert) : Ticked s (t :: rest) s' tasks signal? := by
  cases h with
  | drops => exact .dropped s rest ht
  | answers => exact .finishes rest ht
  | passes hturn => exact .replaced s [_] rest ht (List.forall_mem_singleton.2 hturn.inert)
  | marks hturn hmark =>
    have hi := List.forall_mem_singleton.2 hturn.inert
    exact .delivering rest ht (markDirty_begun hmark hi) (markDirty_start (.refl s) hmark hi)
  | destroys hturn hdestroy =>
    have hi := List.forall_mem_singleton.2 hturn.inert
    exact .delivering rest ht (beginDestroy_begun hdestroy hi) (beginDestroy_start hdestroy hi)

/-- **What a unit of work does.** -/
theorem tick_ticked {tasks tasks' : List Task} {signal? : Option Signal} (h : s.tick tasks = (s', tasks', signal?)) :
    Ticked s tasks s' tasks' signal? := by
  cases tasks with
  | nil =>
    cases h
    exact .quiet
  | cons t rest =>
    cases t with
    | deliver d =>
      simp only [tick] at h
      split at h
      · next client afterwards hstep =>
        cases h
        unfold stepDelivery at hstep
        split at hstep
        · cases hstep
        · next v hv =>
          split at hstep
          · next hnext =>
            cases hstep
            exact .calls rest hv hnext
          · cases hstep
      · next hstep =>
        cases h
        exact .ends rest hstep
    | idlePass ids flushed =>
      cases ids with
      | nil =>
        cases h
        exact .passed flushed rest
      | cons id ids =>
        simp only [tick] at h
        split at h
        · next hpending =>
          obtain ⟨v, hv, hp⟩ := isPending_eq_true.1 hpending
          rw [beginDelivery_of_get? hv] at h
          cases h
          exact .flushes ids flushed rest hv hp
        · next hpending =>
          cases h
          exact .skips ids flushed rest fun v hv hp => hpending (isPending_eq_true.2 ⟨v, hv, hp⟩)
    | markEach | destroyAll | destroyNamed | answer | refuse | answerReached | answerLength | answerOffset =>
      exact (tick_worked h trivial).ticked trivial

end Store
end VectorEngine
