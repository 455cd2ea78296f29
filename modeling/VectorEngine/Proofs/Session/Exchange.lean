/-
From a request to its answer.

In an exchange the program asks for something, and the engine works on that and on
whatever the clients it calls ask for meanwhile, until the request is answered. What
is answered is settled when the request is made, for the task that answers stays at
the bottom (`Exchange.result_eq`). What a vector holds is settled then too, if nobody
asks for a change or for its end meanwhile: the rest is telling clients
(`Exchange.contents`).
-/
import Mathlib
import VectorEngine.Proofs.Store.Contents
import VectorEngine.Proofs.Session.Stack

namespace VectorEngine

/-- The request is for the end of the vector. -/
def Request.Destroys (s : Store) (r : Request) (id : VectorId) : Prop :=
  match r with
  | .destroy id' => id' = id
  | .clear _ => True
  | .command (.destroy names) => ∃ n ∈ names, s.lookup n = .ok id
  | _ => False

/-- The request changes nothing that a vector holds, and is for the end of none. -/
def Request.Spares (s : Session) (r : Request) : Prop :=
  ∀ id c, s.store.contents? id = some c → (s.issue r).store.contents? id = some c ∧ ¬r.Destroys s.store id

/-- If it is the program that acts, it changes no vector and asks for the end of none. -/
def Step.Spares (step : Step) : Prop := ∀ r, step.act = .ask r → r.Spares step.before.session

/-- The task leads to the end of the vector. -/
def Task.Destroys (t : Task) (id : VectorId) : Prop :=
  match t with
  | .deliver d => d.event = ⟨id, .destroyed⟩
  | .destroyAll ids | .destroyNamed ids => id ∈ ids
  | _ => False

/-- None of the tasks leads to the end of the vector. -/
def Task.Spare (tasks : List Task) (id : VectorId) : Prop := ∀ t ∈ tasks, ¬t.Destroys id

variable {id id' : VectorId} {tasks rest : List Task} {d? : Option Delivery}

/-! ## Requests -/

namespace Task

theorem spare_nil : Spare [] id := List.forall_mem_nil _

theorem spare_cons {t : Task} : Spare (t :: tasks) id ↔ ¬t.Destroys id ∧ Spare tasks id := List.forall_mem_cons

theorem spare_append : Spare (tasks ++ rest) id ↔ Spare tasks id ∧ Spare rest id := List.forall_mem_append

theorem spare_singleton {t : Task} (h : ¬t.Destroys id) : Spare [t] id := List.forall_mem_singleton.2 h

theorem destroys_destroyAll {ids : List VectorId} : (destroyAll ids).Destroys id ↔ id ∈ ids := Iff.rfl

theorem destroys_destroyNamed {ids : List VectorId} : (destroyNamed ids).Destroys id ↔ id ∈ ids := Iff.rfl

theorem spare_answer (a : Answer) : Spare [.answer a] id := spare_singleton not_false

theorem spare_delivering (hd : ∀ d, d? = some d → d.event ≠ ⟨id, .destroyed⟩) (h : Spare rest id) :
    Spare (delivering d? rest) id := by
  cases d? with
  | none => exact h
  | some d => exact spare_cons.2 ⟨hd d rfl, h⟩

/-- The report changes one task at most, into an answer. -/
theorem report_cons (reached : Nat) (t : Task) (rest : List Task) :
    report reached (t :: rest) = t :: rest ∨ report reached (t :: rest) = .answer (.count reached) :: rest := by
  by_cases ht : t = .answerReached
  · subst ht
    exact .inr rfl
  · exact .inl (report_of_ne reached ht rest)

end Task

namespace Store

variable {s s' : Store}

theorem markDirty_spare (h : s.markDirty id' = .ok (s', d?)) (hrest : Task.Spare rest id) :
    Task.Spare (Task.delivering d? rest) id := by
  refine Task.spare_delivering (fun d hd he => ?_) hrest
  obtain ⟨v, s₁, -, -, ⟨rfl, -⟩ | ⟨rfl, -⟩ | ⟨-, -, rfl⟩⟩ := markDirty_cases h
  · cases hd
  · cases hd
  · cases hd
    cases he

theorem notifyNow_spare (h : s.notifyNow id' = .ok (s', d?)) (hrest : Task.Spare rest id) :
    Task.Spare (Task.delivering d? rest) id := by
  refine Task.spare_delivering (fun d hd he => ?_) hrest
  obtain ⟨v, -, ⟨rfl, -⟩ | ⟨-, -, rfl⟩⟩ := notifyNow_cases h
  · cases hd
  · cases hd
    cases he

theorem beginDestroy_spare (h : s.beginDestroy id' = .ok (s', d?)) (hid : id' ≠ id) (hrest : Task.Spare rest id) :
    Task.Spare (Task.delivering d? rest) id := by
  refine Task.spare_delivering (fun d hd he => ?_) hrest
  obtain ⟨v, -, ⟨-, rfl, -⟩ | ⟨-, -, rfl⟩⟩ := beginDestroy_cases h
  · cases hd
  · cases hd
    cases he
    exact hid rfl

theorem update_spare {change : Series → Except Error Series} (h : s.update id' change = .ok (s', d?))
    (hrest : Task.Spare rest id) : Task.Spare (Task.delivering d? rest) id := by
  obtain ⟨s₁, -, hmark⟩ := bind_ok_iff.1 h
  exact markDirty_spare hmark hrest

theorem updating_spare {change : Series → Except Error Series} (h : s.updating id' change rest = .ok (s', tasks))
    (hrest : Task.Spare rest id) : Task.Spare tasks id := by
  obtain ⟨⟨s₁, d?⟩, hupdate, htasks⟩ := bind_ok_iff.1 h
  cases htasks
  exact update_spare hupdate hrest

theorem Writes.spare {ids : List VectorId} (h : Writes s rest ids s' tasks) (hrest : Task.Spare rest id) :
    Task.Spare tasks id := by
  cases h with
  | nothing => exact hrest
  | one _ h => exact updating_spare h hrest
  | several _ h =>
    obtain ⟨-, rfl | ⟨e, -, rfl⟩⟩ := writing_cases h
    · exact Task.spare_cons.2 ⟨not_false, hrest⟩
    · exact Task.spare_singleton not_false

theorem notifying_spare {action : NotifyAction} (h : s.notifying id' action = .ok (s', tasks)) :
    Task.Spare tasks id := by
  cases action with
  | now =>
    obtain ⟨⟨s₁, d?⟩, hnotify, htasks⟩ := bind_ok_iff.1 h
    cases htasks
    exact notifyNow_spare hnotify (Task.spare_answer _)
  | policy | cancel | pending =>
    obtain ⟨_, -, htasks⟩ := bind_ok_iff.1 h
    cases htasks
    exact Task.spare_answer _

theorem Answering.spare (h : s.Answering rest) : Task.Spare rest id := by
  unfold Answering at h
  split at h
  · exact Task.spare_answer _
  · exact Task.spare_singleton not_false
  · exact Task.spare_singleton not_false
  · exact h.elim

theorem createWithLength_spare {name? : Option String} {length? : Option Nat}
    (h : s.createWithLength name? length? = (s', .ok tasks)) : Task.Spare tasks id := by
  unfold createWithLength at h
  split at h
  · cases h
  · dsimp only at h
    split at h
    · cases h
      split
      · exact Task.spare_answer _
      · exact Task.spare_nil
    · split at h
      · next hupdating =>
        cases h
        refine updating_spare hupdating ?_
        split
        · exact Task.spare_answer _
        · exact Task.spare_nil
      · cases h

end Store

namespace Session

variable {s : Session}

/-- Tasks are put in front, none of which leads to the end of the vector. -/
def Adds (s s' : Session) (id : VectorId) : Prop := ∃ tasks, s'.stack = tasks ++ s.stack ∧ Task.Spare tasks id

theorem put_adds (store : Store) (h : Task.Spare tasks id) : Adds s (s.put store tasks) id := ⟨tasks, rfl, h⟩

theorem fail_adds (e : Error) : Adds s (s.fail e) id := put_adds s.store (Task.spare_singleton not_false)

theorem begin_adds {begun : Except Error (Store × List Task)}
    (h : ∀ store tasks, begun = .ok (store, tasks) → Task.Spare tasks id) : Adds s (s.begin begun) id := by
  unfold begin
  split
  · next store tasks => exact put_adds store (h store tasks rfl)
  · exact fail_adds _

theorem beginDelivery_adds {begun : Except Error (Store × Option Delivery)}
    (h : ∀ store d?, begun = .ok (store, d?) → Task.Spare (Task.delivering d? rest) id) :
    Adds s (s.beginDelivery rest begun) id := by
  refine begin_adds fun store tasks hbegun => ?_
  obtain ⟨⟨store', d?⟩, hok, he⟩ := map_ok_iff.1 hbegun
  cases he
  exact h store d? hok

theorem beginMap_adds {α : Type} {begun : Except Error α} {f : α → Store × List Task}
    (h : ∀ a, Task.Spare (f a).2 id) : Adds s (s.begin (begun.map f)) id := by
  refine begin_adds fun store tasks hbegun => ?_
  obtain ⟨a, -, he⟩ := map_ok_iff.1 hbegun
  have hspare := h a
  rwa [he] at hspare

theorem writes_adds {begun : Except Error (Store × List Task)} (h : ∀ store tasks, begun = .ok (store, tasks) →
    ∃ a ids, Store.Writes s.store [.answer a] ids store tasks) : Adds s (s.begin begun) id := by
  refine begin_adds fun store tasks hbegun => ?_
  obtain ⟨a, ids, hwrites⟩ := h store tasks hbegun
  exact hwrites.spare (Task.spare_answer a)

theorem execute_adds (hs : s.store.Coherent) {c : Command} (hc : ¬Request.Destroys s.store (.command c) id) :
    Adds s (s.execute c) id := by
  have hexecuted := execute_executed hs c
  generalize s.execute c = s' at hexecuted ⊢
  cases hexecuted with
  | created _ hcreate => exact put_adds _ (Store.createWithLength_spare hcreate)
  | uncreated => exact put_adds _ (Task.spare_singleton not_false)
  | evaluated => exact ⟨_, rfl, Task.spare_answer _⟩
  | assigned _ _ _ hupdating => exact ⟨_, rfl, Store.updating_spare hupdating (Task.spare_answer _)⟩
  | begun _ hform =>
    refine put_adds _ ?_
    cases hform with
    | looks => exact Task.spare_answer _
    | @destroys names ids hids =>
      refine Task.spare_singleton fun hid => hc ?_
      obtain ⟨n, hn, hlookup⟩ := Store.mem_of_mapM_ok hids id hid
      exact ⟨n, hn, hlookup⟩
    | notifies _ _ hnotify => exact Store.notifying_spare hnotify
    | changes _ _ hanswering hwrites => exact hwrites.spare hanswering.spare
  | failed => exact ⟨_, rfl, Task.spare_singleton not_false⟩

/-- **A request puts tasks in front; they lead to the end of a vector only if that is
what is asked for.** -/
theorem issue_adds (hs : s.store.Coherent) {r : Request} (hr : ¬r.Destroys s.store id) : Adds s (s.issue r) id := by
  cases r with
  | create name? =>
    simp only [issue]
    split
    · exact ⟨_, rfl, Task.spare_answer _⟩
    · exact ⟨_, rfl, Task.spare_singleton not_false⟩
  | destroy id' =>
    exact beginDelivery_adds fun store d? h => Store.beginDestroy_spare h hr (Task.spare_answer _)
  | clear => exact absurd trivial hr
  | edit | readExtrema | setPolicy | cancelNotify => exact beginMap_adds fun _ => Task.spare_answer _
  | update => exact beginDelivery_adds fun store d? h => Store.update_spare h (Task.spare_answer _)
  | markDirty => exact beginDelivery_adds fun store d? h => Store.markDirty_spare h (Task.spare_answer _)
  | notifyNow =>
    exact beginDelivery_adds fun store d? h => Store.notifyNow_spare h (Task.spare_singleton not_false)
  | runIdle => exact ⟨_, rfl, Task.spare_singleton not_false⟩
  | registerClient =>
    simp only [issue]
    split
    · exact ⟨_, rfl, Task.spare_answer _⟩
    · exact ⟨_, rfl, Task.spare_singleton not_false⟩
  | releaseClient | registerFunction | unregisterFunction | registerAggregate => exact ⟨_, rfl, Task.spare_answer _⟩
  | applyFunction =>
    simp only [issue]
    split
    · exact ⟨_, rfl, Task.spare_answer _⟩
    · exact ⟨_, rfl, Task.spare_singleton not_false⟩
  | evaluate source =>
    obtain ⟨traces, ⟨values, he⟩ | ⟨e, he⟩⟩ := evaluating_cases s source fun s values => s.finish (.values values)
    · exact ⟨_, congrArg Session.stack he, Task.spare_answer _⟩
    · exact ⟨_, congrArg Session.stack he, Task.spare_singleton not_false⟩
  | evaluateParsed e =>
    have hstack : (s.evaluateParsed e).1.stack = s.stack := rfl
    simp only [issue]
    split
    · next s₁ values h =>
      rw [h] at hstack
      exact ⟨[.answer (.values values)], congrArg _ hstack, Task.spare_answer _⟩
    · next s₁ error h =>
      rw [h] at hstack
      exact ⟨[.refuse error], congrArg _ hstack, Task.spare_singleton not_false⟩
  | assign id' source =>
    obtain ⟨traces, ⟨values, store, tasks, hupdating, he⟩ | ⟨e, he⟩⟩ := assign_cases s id' source [.answer .done]
    · exact ⟨_, congrArg Session.stack he, Store.updating_spare hupdating (Task.spare_answer _)⟩
    · exact ⟨_, congrArg Session.stack he, Task.spare_singleton not_false⟩
  | dup =>
    refine begin_adds fun store tasks h => ?_
    obtain ⟨-, -, rfl⟩ | ⟨-, hwrites⟩ := Store.dup_cases h
    · exact Task.spare_answer _
    · exact hwrites.spare (Task.spare_answer _)
  | merge => exact writes_adds fun store tasks h => ⟨_, _, Store.merge_writes h⟩
  | split => exact writes_adds fun store tasks h => ⟨_, _, Store.split_writes h⟩
  | normalize => exact writes_adds fun store tasks h => ⟨_, _, Store.normalize_writes h⟩
  | populate => exact writes_adds fun store tasks h => ⟨_, _, Store.populate_writes h⟩
  | sort =>
    refine writes_adds fun store tasks h => ?_
    obtain ⟨rows, hwrites⟩ := Store.sort_writes h
    exact ⟨_, _, hwrites⟩
  | spectrum =>
    refine writes_adds fun store tasks h => ?_
    obtain ⟨n, hwrites⟩ := Store.spectrum_writes h
    exact ⟨_, _, hwrites⟩
  | signal => exact writes_adds fun store tasks h => ⟨_, _, Store.signal_writes h⟩
  | command c => exact execute_adds hs hr

end Session

/-! ## Units of work -/

namespace Store

variable {s s' : Store} {t : Task} {tasks' : List Task} {signal? : Option Signal}

theorem endDelivery_contents {d : Delivery} (hlive : d.event.kind = .destroyed → ∃ v, s.get? d.event.server = some v)
    (hd : d.event ≠ ⟨id, .destroyed⟩) : (s.endDelivery d).contents? id = s.contents? id := by
  cases hk : d.event.kind with
  | updated =>
    rw [endDelivery_updated s hk]
    exact contents?_modify s _ id fun _ => rfl
  | destroyed =>
    obtain ⟨v, hv⟩ := hlive hk
    have hne : id ≠ d.event.server := fun he => hd (by rw [he, ← hk])
    rw [endDelivery_destroyed s hk, contents?, get?_retire hv, if_neg hne]
    rfl

/-- Another vector is destroyed, before the rest of the task. -/
theorem beginDestroy_leaves (h : s.beginDestroy id' = .ok (s', d?)) (hid : id' ≠ id) (ht : ¬t.Destroys id) :
    s'.contents? id = s.contents? id ∧ ∃ new, Task.delivering d? (t :: rest) = new ++ rest ∧ Task.Spare new id :=
  ⟨contents?_beginDestroy h id, _, (Task.delivering_append d? [t] rest).symm,
    beginDestroy_spare h hid (Task.spare_singleton ht)⟩

/-- A vector that is destroyed in its turn is one of those the task leads to the end of. -/
theorem tick_inert_spare (h : s.tick (t :: rest) = (s', tasks', signal?)) (hi : t.Inert) (ht : ¬t.Destroys id) :
    s'.contents? id = s.contents? id ∧ ∃ new, tasks' = new ++ rest ∧ Task.Spare new id := by
  cases t with
  | deliver | idlePass => exact hi.elim
  | answer | refuse | answerReached | answerLength | answerOffset =>
    cases h
    exact ⟨rfl, [], rfl, Task.spare_nil⟩
  | markEach ids =>
    cases ids with
    | nil =>
      cases h
      exact ⟨rfl, [], rfl, Task.spare_nil⟩
    | cons id' ids =>
      simp only [tick] at h
      split at h
      · next hmark =>
        cases h
        exact ⟨contents?_markDirty hmark id, _, (Task.delivering_append _ [_] rest).symm,
          markDirty_spare hmark (Task.spare_singleton not_false)⟩
      · cases h
        exact ⟨rfl, [_], rfl, Task.spare_singleton not_false⟩
  | destroyAll ids =>
    cases ids with
    | nil =>
      cases h
      exact ⟨rfl, [], rfl, Task.spare_nil⟩
    | cons id' ids =>
      rw [Task.destroys_destroyAll, List.mem_cons, not_or] at ht
      simp only [tick] at h
      split at h
      · next hdestroy =>
        cases h
        exact beginDestroy_leaves hdestroy (Ne.symm ht.1) ht.2
      · cases h
        exact ⟨rfl, [_], rfl, Task.spare_singleton ht.2⟩
  | destroyNamed ids =>
    cases ids with
    | nil =>
      cases h
      exact ⟨rfl, [], rfl, Task.spare_nil⟩
    | cons id' ids =>
      rw [Task.destroys_destroyNamed, List.mem_cons, not_or] at ht
      simp only [tick] at h
      split at h
      · next hdestroy =>
        cases h
        exact beginDestroy_leaves hdestroy (Ne.symm ht.1) ht.2
      · cases h
        exact ⟨rfl, [], rfl, Task.spare_nil⟩

/-- **A unit of work that does not lead to the end of the vector leaves what it holds.** -/
theorem tick_spare (hlive : ∀ d, t = .deliver d → d.event.kind = .destroyed → ∃ v, s.get? d.event.server = some v)
    (h : s.tick (t :: rest) = (s', tasks', signal?)) (ht : ¬t.Destroys id) : s'.contents? id = s.contents? id ∧
      ((∃ new, tasks' = new ++ rest ∧ Task.Spare new id) ∨ ∃ reached, tasks' = Task.report reached rest) := by
  by_cases hi : t.Inert
  · obtain ⟨hcontents, hnew⟩ := tick_inert_spare h hi ht
    exact ⟨hcontents, .inl hnew⟩
  · cases tick_ticked h with
    | calls => exact ⟨rfl, .inl ⟨[_], rfl, Task.spare_singleton ht⟩⟩
    | ends => exact ⟨endDelivery_contents (hlive _ rfl) ht, .inr ⟨_, rfl⟩⟩
    | passed | skips => exact ⟨rfl, .inl ⟨[_], rfl, Task.spare_singleton not_false⟩⟩
    | flushes =>
      refine ⟨contents?_modify s _ id NamedVector.opened_contents, .inl ⟨[_, _], rfl, ?_⟩⟩
      refine Task.spare_cons.2 ⟨fun he => ?_, Task.spare_singleton not_false⟩
      cases he
    | works _ hinert | finishes _ hinert => exact absurd hinert hi

end Store

variable {start m m' : Moment} {a : Act} {steps : List Step} {c : Contents} {depth : Nat}

/-- The vector holds `c`, and of the tasks above the `depth` outermost ones none leads
to its end. -/
structure Moment.Keeps (m : Moment) (id : VectorId) (c : Contents) (depth : Nat) : Prop where
  contents : m.session.store.contents? id = some c
  spare : ∃ front base, m.session.stack = front ++ base ∧ base.length = depth ∧ Task.Spare front id

/-- A step above the outermost tasks leaves what the vector holds. -/
theorem Next.keeps (h : Next m a m') (hs : m.session.view.Sound) (hinside : depth < m.session.stack.length)
    (hspares : Step.Spares ⟨m, a, m'⟩) (hkeeps : m.Keeps id c depth) : m'.Keeps id c depth := by
  obtain ⟨front, base, hstack, hbase, hfront⟩ := hkeeps.spare
  cases h with
  | ask s r =>
    obtain ⟨hcontents, hdestroys⟩ := hspares r rfl id c hkeeps.contents
    obtain ⟨tasks, htasks, hspare⟩ := Session.issue_adds hs.coherent hdestroys
    refine ⟨hcontents, tasks ++ front, base, ?_, hbase, Task.spare_append.2 ⟨hspare, hfront⟩⟩
    rw [htasks, hstack, List.append_assoc]
  | @work s s' signal? busy htick =>
    cases front with
    | nil =>
      rw [hstack, List.nil_append, hbase] at hinside
      exact absurd hinside (lt_irrefl _)
    | cons t front =>
      obtain ⟨ht, hfront⟩ := Task.spare_cons.1 hfront
      have htick := (Session.tick_eq htick).1
      rw [hstack, List.cons_append] at htick
      have hlive : ∀ d, t = .deliver d → d.event.kind = .destroyed → ∃ v, s.store.get? d.event.server = some v := by
        intro d hd hk
        subst hd
        obtain ⟨v, hv, -⟩ := hs.dying d (Session.mem_fanOuts_of_stack (hstack.trans (List.nil_append _).symm)) hk
        exact ⟨v, hv⟩
      obtain ⟨hcontents, hnew⟩ := Store.tick_spare hlive htick ht
      refine ⟨hcontents.trans hkeeps.contents, ?_⟩
      obtain ⟨new, htasks, hspare⟩ | ⟨reached, htasks⟩ := hnew
      · exact ⟨new ++ front, base, by rw [htasks, List.append_assoc], hbase, Task.spare_append.2 ⟨hspare, hfront⟩⟩
      · cases front with
        | nil => exact ⟨[], Task.report reached base, htasks, by rw [Task.length_report, hbase], Task.spare_nil⟩
        | cons x front =>
          obtain ⟨-, hrest⟩ := Task.spare_cons.1 hfront
          rw [List.cons_append] at htasks
          obtain hreport | hreport := Task.report_cons reached x (front ++ base)
          · exact ⟨x :: front, base, htasks.trans hreport, hbase, hfront⟩
          · exact ⟨_ :: front, base, htasks.trans hreport, hbase, Task.spare_cons.2 ⟨not_false, hrest⟩⟩

/-- **A run above the outermost tasks leaves what the vector holds**, if nobody asks for
a change. -/
theorem Run.keeps_contents (h : Run start steps m) (hs : start.session.view.Sound)
    (hinside : ∀ step ∈ steps, depth < step.before.session.stack.length) (hspares : ∀ step ∈ steps, step.Spares)
    (hkeeps : start.Keeps id c depth) : m.Keeps id c depth := by
  induction h with
  | start => exact hkeeps
  | next hrun hnext ih =>
    obtain ⟨hinside, hlast⟩ := List.forall_mem_append.1 hinside
    obtain ⟨hspares, hstep⟩ := List.forall_mem_append.1 hspares
    exact hnext.keeps (hrun.keeps_sound hs) (hlast _ (List.mem_singleton_self _)) (hstep _ (List.mem_singleton_self _))
      (ih hinside hspares)

/-! ## Working off -/

namespace Task

/-- All that is done in the task is to answer. -/
def Answers (t : Task) (result : Except Error Answer) : Prop :=
  t ≠ .answerReached ∧ ∀ s rest, Store.tick s (t :: rest) = (s, rest, some (.finished result))

theorem answers_answer (a : Answer) : (answer a).Answers (.ok a) := ⟨nofun, fun _ _ => rfl⟩

theorem answers_refuse (e : Error) : (refuse e).Answers (.error e) := ⟨nofun, fun _ _ => rfl⟩

/-- The outermost of the tasks answers. -/
def Conclude (tasks : List Task) (result : Except Error Answer) : Prop :=
  ∃ front t, tasks = front ++ [t] ∧ t.Answers result

variable {result : Except Error Answer}

theorem Answers.conclude {t : Task} (h : t.Answers result) : Conclude [t] result := ⟨[], t, rfl, h⟩

theorem Conclude.cons (h : Conclude tasks result) (t : Task) : Conclude (t :: tasks) result := by
  obtain ⟨front, last, htasks, hlast⟩ := h
  exact ⟨t :: front, last, by rw [htasks, List.cons_append], hlast⟩

theorem Conclude.delivering (h : Conclude tasks result) (d? : Option Delivery) :
    Conclude (delivering d? tasks) result := by
  cases d? with
  | none => exact h
  | some d => exact h.cons (.deliver d)

end Task

theorem Store.updating_conclude {s s' : Store} {change : Series → Except Error Series} {result : Except Error Answer}
    (hrest : Task.Conclude rest result) (h : s.updating id change rest = .ok (s', tasks)) :
    Task.Conclude tasks result := by
  obtain ⟨⟨s₁, d?⟩, -, htasks⟩ := bind_ok_iff.1 h
  cases htasks
  exact hrest.delivering d?

theorem Store.Writes.conclude {s s' : Store} {ids : List VectorId} {result : Except Error Answer}
    (h : Writes s rest ids s' tasks) (hrest : Task.Conclude rest result) : ∃ result, Task.Conclude tasks result := by
  cases h with
  | nothing => exact ⟨result, hrest⟩
  | one _ h => exact ⟨result, updating_conclude hrest h⟩
  | several _ h =>
    obtain ⟨-, rfl | ⟨e, -, rfl⟩⟩ := writing_cases h
    · exact ⟨result, hrest.cons _⟩
    · exact ⟨.error e, (Task.answers_refuse e).conclude⟩

/-- The clients that the fan-out on top has still to turn to. -/
def Task.waiting : List Task → Nat
  | .deliver d :: _ => d.waiting.length
  | _ => 0

/-- Every unit of work leaves less to do, fewer tasks, or fewer clients to turn to. -/
theorem Store.tick_less {s s' : Store} {t : Task} {tasks' : List Task} {signal? : Option Signal}
    (h : s.tick (t :: rest) = (s', tasks', signal?)) : Task.totalWeight tasks' < Task.totalWeight (t :: rest) ∨
      Task.totalWeight tasks' = Task.totalWeight (t :: rest) ∧ (tasks'.length < (t :: rest).length ∨
        tasks'.length = (t :: rest).length ∧ Task.waiting tasks' < Task.waiting (t :: rest)) := by
  cases signal? with
  | none => exact .inl (tick_lighter h)
  | some signal =>
    have hticked := tick_ticked h
    cases hticked with
    | calls _ _ hnext =>
      refine .inr ⟨rfl, .inr ⟨rfl, ?_⟩⟩
      obtain ⟨skipped, x, hwaiting, -⟩ := Delivery.nextListener_some hnext
      simp only [Task.waiting, hwaiting, List.length_append, List.length_cons]
      omega
    | finishes =>
      simp only [Task.totalWeight, List.length_cons]
      omega

theorem Run.works_off {s : Session} {front base : List Task} {t : Task} {result : Except Error Answer}
    (hs : s.view.Sound) (ht : t.Answers result) (hstack : s.stack = front ++ t :: base) (busy : Bool) :
    ∃ during m', Run ⟨s, busy⟩ during m' ∧ m'.session.stack = base ∧
      (∀ step ∈ during, base.length < step.before.session.stack.length ∧ ∀ r, step.act ≠ .ask r) ∧
      ∃ init last, during = init ++ [last] ∧ last.act = .work (some (.finished result)) := by
  rcases htick : s.tick with ⟨s', signal?⟩
  have hnext : Next ⟨s, busy⟩ (.work signal?) ⟨s', signal?.isNone⟩ := .work busy htick
  have hlong : base.length < s.stack.length := by
    rw [hstack, List.length_append, List.length_cons]
    omega
  have hfirst : ∀ step ∈ [(⟨⟨s, busy⟩, .work signal?, ⟨s', signal?.isNone⟩⟩ : Step)],
      base.length < step.before.session.stack.length ∧ ∀ r, step.act ≠ .ask r := by
    refine List.forall_mem_singleton.2 ⟨hlong, fun r hask => ?_⟩
    cases hask
  cases front with
  | nil =>
    have htask := (Session.tick_eq htick).1
    rw [hstack, List.nil_append, ht.2, Prod.mk.injEq, Prod.mk.injEq] at htask
    exact ⟨_, _, Run.next .start hnext, htask.2.1.symm, hfirst, [], _, rfl, by rw [← htask.2.2]⟩
  | cons x front =>
    obtain ⟨front', hstack'⟩ := hnext.beneath hs.coherent hstack ht.1 (.inl (List.cons_ne_nil x front))
    have hless := (Session.tick_eq htick).1
    rw [hstack, List.cons_append] at hless
    have hless := Store.tick_less hless
    have hs' : s'.view.Sound := (Run.next .start hnext).keeps_sound hs
    obtain ⟨during, m', hrun, hleft, hduring, init, last, rfl, hlast⟩ := Run.works_off hs' ht hstack' signal?.isNone
    refine ⟨_, m', (Run.next .start hnext).trans hrun, hleft, List.forall_mem_append.2 ⟨hfirst, hduring⟩, _, last,
      (List.append_assoc _ init [last]).symm, hlast⟩
termination_by (Task.totalWeight s.stack, s.stack.length, Task.waiting s.stack)
decreasing_by
  rw [hstack, List.cons_append]
  simp only [Prod.lex_def]
  exact hless

/-! ## Exchanges -/

/-- The program asks at `m`, and `m'` is where it has been answered. -/
structure Exchange (m : Moment) (r : Request) (during : List Step) (m' : Moment) (result : Except Error Answer) :
    Prop where
  turn : m.busy = false
  above : Above m.session.stack.length ⟨m.session.issue r, true⟩ during m'
  answered : ∃ front last, during = front ++ [last] ∧ last.act = .work (some (.finished result))

namespace Exchange

variable {r : Request} {during : List Step} {result : Except Error Answer}

/-- An exchange is part of the run it is in. -/
theorem run (h : Exchange m r during m' result) (hrun : Run start steps m) :
    Run start (steps ++ (⟨m, .ask r, ⟨m.session.issue r, true⟩⟩ :: during)) m' := by
  obtain ⟨s, busy⟩ := m
  have hturn : busy = false := h.turn
  subst hturn
  have hasked := hrun.next (.ask s r)
  have hall := hasked.trans h.above.run
  rwa [List.append_assoc] at hall

/-- The program has the turn again. -/
theorem returned (h : Exchange m r during m' result) : m'.busy = false := by
  obtain ⟨front, last, rfl, hlast⟩ := h.answered
  obtain ⟨-, hnext, hrest⟩ := h.above.run.split
  rw [← hrest.eq_of_nil]
  generalize last.before = before at hnext
  generalize last.after = after at hnext
  rw [hlast] at hnext
  cases hnext
  rfl

theorem sound_issue (h : Exchange m r during m' result) (hs : m.session.view.Sound) :
    (m.session.issue r).view.Sound := by
  obtain ⟨s, busy⟩ := m
  have hturn : busy = false := h.turn
  subst hturn
  exact (Run.next .start (.ask s r)).keeps_sound hs

theorem sound (h : Exchange m r during m' result) (hs : m.session.view.Sound) : m'.session.view.Sound :=
  h.above.run.keeps_sound (h.sound_issue hs)

/-- **The answer is that of the task at the bottom.** -/
theorem result_eq (h : Exchange m r during m' result) (hs : m.session.view.Sound) {front : List Task} {t : Task}
    {result' : Except Error Answer} (ht : t.Answers result')
    (hstack : (m.session.issue r).stack = front ++ t :: m.session.stack) : result = result' := by
  -- Either the task is still to be done, or it has just been.
  have hdone : ∀ {steps : List Step} {m₁ : Moment}, Run ⟨m.session.issue r, true⟩ steps m₁ →
      (∀ step ∈ steps, m.session.stack.length < step.before.session.stack.length) →
      (∃ front, m₁.session.stack = front ++ t :: m.session.stack) ∨
        m₁.session.stack = m.session.stack ∧
          ∀ init last, steps = init ++ [last] → last.act = .work (some (.finished result')) := by
    intro steps m₁ hrun hinside
    induction hrun with
    | start => exact .inl ⟨front, hstack⟩
    | @next steps m₁ m₂ a hrun hnext ih =>
      obtain ⟨hbefore, hlast⟩ := List.forall_mem_append.1 hinside
      have hlong := hlast _ (List.mem_singleton_self _)
      obtain ⟨front, hfront⟩ | ⟨hleft, -⟩ := ih hbefore
      · by_cases hbottom : front ≠ [] ∨ ∃ r, a = .ask r
        · have hcoherent := (hrun.keeps_sound (h.sound_issue hs)).coherent
          exact .inl (hnext.beneath hcoherent hfront ht.1 hbottom)
        · obtain ⟨hnil, hwork⟩ := not_or.1 hbottom
          rw [not_not.1 hnil, List.nil_append] at hfront
          cases hnext with
          | ask s r => exact absurd ⟨r, rfl⟩ hwork
          | @work s s' signal? busy htick =>
            have htask := (Session.tick_eq htick).1
            rw [hfront, ht.2, Prod.mk.injEq, Prod.mk.injEq] at htask
            refine .inr ⟨htask.2.1.symm, fun init last heq => ?_⟩
            obtain ⟨-, hstep⟩ := List.append_singleton_inj.1 heq
            rw [← hstep, ← htask.2.2]
      · rw [hleft] at hlong
        exact absurd hlong (lt_irrefl _)
  obtain ⟨init, last, hduring, hlast⟩ := h.answered
  obtain ⟨front, hfront⟩ | ⟨-, hact⟩ := hdone h.above.run h.above.inside
  · have hleft := h.above.left
    rw [hfront, List.length_append, List.length_cons] at hleft
    omega
  · have heq := hlast.symm.trans (hact init last hduring)
    cases heq
    rfl

/-- A request that is begun with some tasks is answered by the outermost. -/
theorem result_of_put (h : Exchange m r during m' result) (hs : m.session.view.Sound) {store : Store} {tasks : List Task}
    {result' : Except Error Answer} (hissue : m.session.issue r = m.session.put store tasks)
    (htasks : Task.Conclude tasks result') : result = result' := by
  obtain ⟨front, t, rfl, ht⟩ := htasks
  have hstack : (m.session.issue r).stack = front ++ t :: m.session.stack := by
    rw [hissue]
    exact List.append_assoc front [t] _
  exact h.result_eq hs ht hstack

/-- A request that only has its answer left to give is answered in one unit of work. -/
theorem answered_at_once (h : Exchange m r during m' result) (hs : m.session.view.Sound) {store : Store} {t : Task}
    {result' : Except Error Answer} (ht : t.Answers result') (hissue : m.session.issue r = m.session.put store [t]) :
    result = result' ∧ m' = ⟨{ m.session with store }, false⟩ ∧
      during = [⟨⟨m.session.put store [t], true⟩, .work (some (.finished result')), m'⟩] := by
  refine ⟨h.result_of_put hs hissue ht.conclude, ?_⟩
  have hdone : (m.session.put store [t]).tick = ({ m.session with store }, some (.finished result')) := by
    rw [Session.tick, Session.put, List.singleton_append, ht.2]
  have hrun := h.above.run
  rw [hissue] at hrun
  cases during with
  | nil =>
    obtain ⟨front, last, hnil, -⟩ := h.answered
    simp at hnil
  | cons step rest =>
    obtain ⟨before, act, after⟩ := step
    obtain ⟨rfl, hnext, hrest⟩ := hrun.first
    cases hnext with
    | work _ htick =>
      cases htick.symm.trans hdone
      cases rest with
      | nil =>
        obtain rfl := hrest.eq_of_nil
        exact ⟨rfl, rfl⟩
      | cons step rest =>
        have hlong := h.above.inside step (by simp)
        rw [hrest.first.1] at hlong
        exact absurd hlong (lt_irrefl _)

/-- A request that leaves nothing to do but answer leaves everything as it was. -/
theorem told (h : Exchange m r during m' result) (hs : m.session.view.Sound) {t : Task}
    {result' : Except Error Answer} (ht : t.Answers result')
    (hissue : m.session.issue r = m.session.put m.session.store [t]) : result = result' ∧ m' = m := by
  obtain ⟨hresult, hsame, -⟩ := h.answered_at_once hs ht hissue
  exact ⟨hresult, hsame.trans (by rw [← h.turn])⟩

/-- **A request that fails at once leaves everything as it was.** -/
theorem refused (h : Exchange m r during m' result) (hs : m.session.view.Sound) {e : Error}
    (hissue : m.session.issue r = m.session.fail e) : result = .error e ∧ m' = m :=
  h.told hs (Task.answers_refuse e) hissue

/-- **What a vector holds is settled when the request is made**, unless others ask for
changes before it is answered. -/
theorem contents (h : Exchange m r during m' result) (hs : m.session.view.Sound)
    (hspares : ∀ step ∈ during, step.Spares) (hr : ¬r.Destroys m.session.store id)
    (hc : (m.session.issue r).store.contents? id = some c) : m'.session.store.contents? id = some c := by
  obtain ⟨tasks, htasks, hspare⟩ := Session.issue_adds hs.coherent hr
  have hkeeps : Moment.Keeps ⟨m.session.issue r, true⟩ id c m.session.stack.length :=
    ⟨hc, tasks, m.session.stack, htasks, rfl, hspare⟩
  exact (h.above.run.keeps_contents (h.sound_issue hs) h.above.inside hspares hkeeps).contents

/-- An exchange during which nobody changes a vector, or asks for its end. -/
def Calm (m : Moment) (r : Request) (m' : Moment) (result : Except Error Answer) : Prop :=
  ∃ during, Exchange m r during m' result ∧ ∀ step ∈ during, step.Spares

/-- A request that is begun is answered, if the clients that are called ask for nothing. -/
theorem Calm.exists_of_put (hturn : m.busy = false) (hs : m.session.view.Sound) {store : Store} {tasks : List Task}
    (hissue : m.session.issue r = m.session.put store tasks) (htasks : Task.Conclude tasks result) :
    ∃ m', Calm m r m' result := by
  obtain ⟨s, busy⟩ := m
  subst hturn
  obtain ⟨front, t, rfl, ht⟩ := htasks
  have hstack : (s.issue r).stack = front ++ t :: s.stack := by
    rw [hissue]
    exact List.append_assoc front [t] _
  have hissue : (s.issue r).view.Sound := (Run.next .start (.ask s r)).keeps_sound hs
  obtain ⟨during, m', hrun, hleft, hduring, hanswered⟩ := Run.works_off hissue ht hstack true
  have habove : Above s.stack.length ⟨s.issue r, true⟩ during m' :=
    ⟨hrun, fun step hstep => (hduring step hstep).1, congrArg List.length hleft⟩
  refine ⟨m', during, ⟨rfl, habove, hanswered⟩, fun step hstep r hask => ?_⟩
  exact absurd hask ((hduring step hstep).2 r)

/-- An operation that answers after its writes is answered. -/
theorem Calm.exists_of_begin (hturn : m.busy = false) (hs : m.session.view.Sound)
    {begun : Except Error (Store × List Task)} (hissue : m.session.issue r = m.session.begin begun)
    (hbegun : ∀ store tasks, begun = .ok (store, tasks) →
      ∃ a ids, Store.Writes m.session.store [.answer a] ids store tasks) : ∃ m' result, Calm m r m' result := by
  cases begun with
  | ok begun =>
    obtain ⟨a, ids, hwrites⟩ := hbegun _ _ rfl
    obtain ⟨result, hresult⟩ := hwrites.conclude (Task.answers_answer a).conclude
    obtain ⟨m', hcalm⟩ := Calm.exists_of_put hturn hs hissue hresult
    exact ⟨m', result, hcalm⟩
  | error e =>
    obtain ⟨m', hcalm⟩ := Calm.exists_of_put hturn hs hissue (Task.answers_refuse e).conclude
    exact ⟨m', _, hcalm⟩

/-- An exchange by a script, the last unit of work of which answers. -/
theorem of_script {script : List (Option Request)} {a : Answer} (hturn : m.busy = false)
    (hadmits : (m.step (some r)).after.admits (script ++ [none]) = true)
    (hinside : (m.step (some r)).after.staysAbove m.session.stack.length (script ++ [none]) = true)
    (hleft : ((m.step (some r)).after.outcome (script ++ [none])).session.stack.length = m.session.stack.length)
    (hlast : ((m.step (some r)).after.outcome script).session.tick.2.bind Signal.answer? = some a) :
    Exchange m r ((m.step (some r)).after.play (script ++ [none])) ((m.step (some r)).after.outcome (script ++ [none]))
      (.ok a) := by
  refine ⟨hturn, Moment.above_play hadmits hinside hleft, _, _, Moment.play_concat _ script none, ?_⟩
  obtain ⟨signal, hsignal, hanswer⟩ := Option.bind_eq_some_iff.1 hlast
  rw [Signal.answer?_eq_some hanswer] at hsignal
  exact congrArg Act.work hsignal

/-- The engine answers in `n + 1` units of work, while nobody else asks for anything. -/
theorem Calm.of_work {n : Nat} {a : Answer} (hturn : m.busy = false)
    (hinside : (m.step (some r)).after.staysAbove m.session.stack.length (List.replicate (n + 1) none) = true)
    (hleft : ((m.step (some r)).after.outcome (List.replicate (n + 1) none)).session.stack.length =
      m.session.stack.length)
    (hlast : ((m.step (some r)).after.outcome (List.replicate n none)).session.tick.2.bind Signal.answer? = some a) :
    Calm m r ((m.step (some r)).after.outcome (List.replicate (n + 1) none)) (.ok a) := by
  have hadmits := Moment.admits_work (m.step (some r)).after (n + 1)
  refine ⟨(m.step (some r)).after.play (List.replicate (n + 1) none), ?_, fun step hstep r hask => ?_⟩
  · rw [List.replicate_succ'] at hadmits hinside hleft ⊢
    exact of_script hturn hadmits hinside hleft hlast
  · obtain ⟨signal?, hwork⟩ := Moment.work_of_mem_play hstep
    rw [hwork] at hask
    cases hask

end Exchange
end VectorEngine
