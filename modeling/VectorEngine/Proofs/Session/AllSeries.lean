/-
What the series of a store keep.

The engine changes the contents of a vector through operations on its series only.
So a property that lasts (`Series.Lasting`) holds of all vectors at every moment of
a run, as long as what the program itself does to the contents keeps it
(`Run.allSeries`).
-/
import Mathlib
import VectorEngine.Proofs.Series
import VectorEngine.Proofs.Session.Persistence

namespace VectorEngine

namespace Store

/-- Every series of the store has the property. -/
def AllSeries (P : Series → Prop) (s : Store) : Prop := ∀ slot ∈ s.slots, ∀ v, slot.vector = some v → P v.series

variable {P : Series → Prop} {s s' : Store} {id : VectorId} {v : NamedVector} {tasks rest : List Task}

namespace AllSeries

theorem get? (h : s.AllSeries P) (hv : s.get? id = some v) : P v.series :=
  h _ (List.mem_of_getElem? (get?_eq_some_iff.1 hv)) v rfl

theorem congr (h : s.AllSeries P) (hslots : s'.slots = s.slots) : s'.AllSeries P := by
  intro slot hslot
  exact h slot (hslots ▸ hslot)

/-- Writing to a slot what is right. -/
theorem set {i : Nat} {slot : Slot} (h : s.AllSeries P) (hslots : s'.slots = s.slots.set i slot)
    (hslot : ∀ v, slot.vector = some v → P v.series) : s'.AllSeries P := by
  intro slot' hmem
  rw [hslots] at hmem
  rcases List.mem_or_eq_of_mem_set hmem with hold | rfl
  · exact h slot' hold
  · exact hslot

theorem modify (h : s.AllSeries P) {f : NamedVector → NamedVector}
    (hf : ∀ v, s.get? id = some v → P v.series → P (f v).series) : (s.modify id f).AllSeries P := by
  cases hv : s.get? id with
  | none => rwa [modify_of_none hv]
  | some v =>
    rw [modify_of_get? hv]
    refine h.set rfl fun w hw => ?_
    obtain rfl := Option.some.inj hw
    exact hf v hv (h.get? hv)

/-- What does not touch the contents. -/
theorem frame (h : s.AllSeries P) (id : VectorId) {f : NamedVector → NamedVector} (hf : ∀ v, (f v).series = v.series) :
    (s.modify id f).AllSeries P := h.modify fun v _ hv => by rwa [hf]

theorem schedule (h : s.AllSeries P) (id : VectorId) : (s.schedule id).AllSeries P := by
  unfold Store.schedule
  split
  · exact h
  · split
    · exact h
    · refine congr (s := s.modify id _) ?_ rfl
      exact h.frame id fun _ => rfl

theorem retire (h : s.AllSeries P) (id : VectorId) : (s.retire id).AllSeries P := by
  unfold Store.retire
  split
  · exact h
  · dsimp only
    split
    · exact h.set rfl (by simp)
    · exact h.set rfl (by simp)

theorem endDelivery (h : s.AllSeries P) (d : Delivery) : (s.endDelivery d).AllSeries P := by
  cases hd : d.event.kind with
  | updated =>
    rw [endDelivery_updated s hd]
    exact h.frame _ fun _ => rfl
  | destroyed =>
    rw [endDelivery_destroyed s hd]
    exact h.retire _

/-! ## Clients and notification -/

theorem registerClient (h : s.AllSeries P) (id : VectorId) (listens : Bool) :
    (s.registerClient id listens).1.AllSeries P := by
  unfold Store.registerClient
  dsimp only
  split
  · exact h.congr rfl
  · split
    · exact h.congr rfl
    · have hcounted : ({ s with nextClient := s.nextClient + 1 } : Store).AllSeries P := h.congr rfl
      refine congr (s := Store.modify _ id _) ?_ rfl
      exact hcounted.frame id fun _ => rfl

theorem releaseClient (h : s.AllSeries P) (c : ClientId) : (s.releaseClient c).1.AllSeries P := by
  rcases releaseClient_cases s c with he | ⟨id, he⟩
  · rwa [he]
  · rw [he]
    refine congr (s := s.modify id _) ?_ rfl
    exact h.frame id fun _ => rfl

theorem setPolicy {p : NotifyPolicy} (h : s.AllSeries P) (hset : s.setPolicy id p = .ok s') : s'.AllSeries P := by
  obtain ⟨v, -, hset⟩ := bind_ok_iff.1 hset
  cases hset
  exact h.frame id fun _ => rfl

theorem cancelNotify {pending : Bool} (h : s.AllSeries P) (hcancel : s.cancelNotify id = .ok (s', pending)) :
    s'.AllSeries P := by
  rw [cancelNotify_eq hcancel]
  exact h.frame id fun _ => rfl

theorem notifyNow {d? : Option Delivery} (h : s.AllSeries P) (hnotify : s.notifyNow id = .ok (s', d?)) :
    s'.AllSeries P := by
  obtain ⟨v, -, ⟨-, rfl⟩ | ⟨-, rfl, -⟩⟩ := notifyNow_cases hnotify
  · exact h.schedule id
  · exact h.frame id fun _ => rfl

theorem beginDestroy {d? : Option Delivery} (h : s.AllSeries P) (hdestroy : s.beginDestroy id = .ok (s', d?)) :
    s'.AllSeries P := by
  obtain ⟨v, -, ⟨-, -, rfl⟩ | ⟨-, rfl, -⟩⟩ := beginDestroy_cases hdestroy
  · exact h
  · exact h.frame id fun _ => rfl

theorem notifying {action : NotifyAction} (h : s.AllSeries P) (hnotify : s.notifying id action = .ok (s', tasks)) :
    s'.AllSeries P := by
  cases action with
  | policy p =>
    obtain ⟨s₁, hset, hnotify⟩ := bind_ok_iff.1 hnotify
    cases hnotify
    exact h.setPolicy hset
  | now =>
    obtain ⟨⟨s₁, d?⟩, hnow, hnotify⟩ := bind_ok_iff.1 hnotify
    cases hnotify
    exact h.notifyNow hnow
  | cancel =>
    obtain ⟨⟨s₁, pending⟩, hcancel, hnotify⟩ := bind_ok_iff.1 hnotify
    cases hnotify
    exact h.cancelNotify hcancel
  | pending =>
    obtain ⟨pending, -, hnotify⟩ := bind_ok_iff.1 hnotify
    cases hnotify
    exact h

/-! ## Contents -/

theorem edit {change : Series → Except Error Series} (h : s.AllSeries P)
    (hchange : ∀ t t', P t → change t = .ok t' → P t') (hedit : s.edit id change = .ok s') : s'.AllSeries P := by
  obtain ⟨v, series, hv, hseries, rfl⟩ := edit_cases hedit
  exact h.modify fun _ _ _ => hchange _ _ (h.get? hv) hseries

/-- Noting a change forgets the extrema, so before it only the rest need be right. -/
theorem markDirty {d? : Option Delivery}
    (h : (s.modify id fun v => { v with series := v.series.invalidate }).AllSeries P)
    (hmark : s.markDirty id = .ok (s', d?)) : s'.AllSeries P := by
  obtain ⟨v, s₁, -, rfl, ⟨-, rfl, -⟩ | ⟨-, rfl⟩ | ⟨-, rfl, -⟩⟩ := markDirty_cases hmark
  · exact h
  · exact h.schedule id
  · exact h.frame id fun _ => rfl

theorem update {change : Series → Except Error Series} {d? : Option Delivery} (h : s.AllSeries P)
    (hchange : ∀ t t', P t → change t = .ok t' → P t'.invalidate) (hupdate : s.update id change = .ok (s', d?)) :
    s'.AllSeries P := by
  obtain ⟨s₁, hedit, hmark⟩ := bind_ok_iff.1 hupdate
  obtain ⟨v, series, hv, hseries, rfl⟩ := edit_cases hedit
  refine markDirty ?_ hmark
  rw [modify_modify]
  exact h.modify fun _ _ _ => hchange _ _ (h.get? hv) hseries

section

variable (hP : Series.Lasting P)

include hP

theorem readExtrema {e : Extrema} (h : s.AllSeries P) (hread : s.readExtrema id = .ok (e, s')) : s'.AllSeries P := by
  obtain ⟨v, hv, hread⟩ := bind_ok_iff.1 hread
  cases hread
  exact h.modify fun _ _ _ => hP.readExtrema (h.get? (get_eq_ok_iff.1 hv))

theorem invalidate (h : s.AllSeries P) (id : VectorId) :
    (s.modify id fun v => { v with series := v.series.invalidate }).AllSeries P :=
  h.modify fun _ _ hv => hP.invalidate hv

theorem updating {o : Series.Operation} (h : s.AllSeries P) (hupdating : s.updating id o.apply rest = .ok (s', tasks)) :
    s'.AllSeries P := by
  obtain ⟨⟨s₁, d?⟩, hupdate, hupdating⟩ := bind_ok_iff.1 hupdating
  cases hupdating
  exact h.update (fun t t' ht hchange => hP.invalidate (hP.apply ht hchange)) hupdate

theorem writing {writes : List (VectorId × List Float)} (h : s.AllSeries P)
    (hwriting : s.writing writes rest = (s', tasks)) : s'.AllSeries P := by
  obtain ⟨rfl, -⟩ := writing_cases hwriting
  refine writeAll_keeps (P := AllSeries P) (fun w _ s₁ s₂ hs₁ hedit => ?_) h
  exact hs₁.edit (fun t t' ht hset => hP.apply (o := .setValues w.2) ht hset) hedit

theorem writes {ids : List VectorId} (h : s.AllSeries P) (hwrites : Writes s rest ids s' tasks) : s'.AllSeries P := by
  cases hwrites with
  | nothing => exact h
  | one o hupdating => exact h.updating hP hupdating
  | several _ hwriting => exact h.writing hP hwriting

theorem form {c : Command} (h : s.AllSeries P) (hform : Form s c s' tasks) : s'.AllSeries P := by
  cases hform with
  | looks | destroys => exact h
  | notifies _ _ hnotify => exact h.notifying hnotify
  | changes _ _ _ hwrites => exact h.writes hP hwrites

end

/-! ## Creation -/

theorem place (h : s.AllSeries P) (hv : P v.series) (hplace : s.place v = .ok (s', id)) : s'.AllSeries P := by
  have hslot : ∀ w, some v = some w → P w.series := fun w hw => Option.some.inj hw ▸ hv
  rcases place_cases hplace with ⟨free, -, -, rfl⟩ | ⟨-, -, rfl⟩
  · exact h.set rfl hslot
  · intro slot hmem
    rcases List.mem_append.1 hmem with hold | hnew
    · exact h slot hold
    · obtain rfl := List.mem_singleton.1 hnew
      exact hslot

theorem create (hP : Series.Lasting P) (h : s.AllSeries P) (name? : Option String) :
    (s.create name?).1.AllSeries P := by
  obtain ⟨m, hm⟩ := chooseName_store s name?
  have hchosen : (s.chooseName name?).1.AllSeries P := h.congr (by rw [hm])
  unfold Store.create
  split
  · next hchoose => rwa [hchoose] at hchosen
  · next hchoose =>
    rw [hchoose] at hchosen
    dsimp only
    split
    · next hplaced =>
      obtain ⟨series, hseries, hplace⟩ := bind_ok_iff.1 hplaced
      exact hchosen.place (hP.new hseries) hplace
    · exact hchosen

theorem createWithLength (hP : Series.Lasting P) (h : s.AllSeries P) (name? : Option String) (length? : Option Nat) :
    (s.createWithLength name? length?).1.AllSeries P := by
  have hcreate := h.create hP name?
  unfold Store.createWithLength
  split
  · next hcreated => rwa [hcreated] at hcreate
  · next s₁ id hcreated =>
    rw [hcreated] at hcreate
    dsimp only
    split
    · exact hcreate
    · split
      · next n _ store tasks hupdating => exact hcreate.updating hP (o := .setLength _) hupdating
      · exact hcreate.retire id

/-! ## Units of work -/

theorem tick {tasks' : List Task} {signal? : Option Signal} (hP : Series.Lasting P) (h : s.AllSeries P)
    (htick : s.tick tasks = (s', tasks', signal?)) : s'.AllSeries P := by
  cases tasks with
  | nil =>
    cases htick
    exact h
  | cons t rest =>
    by_cases ht : t.Inert
    · cases tick_worked htick ht with
      | drops | answers | passes => exact h
      | marks _ hmark => exact markDirty (h.invalidate hP _) hmark
      | destroys _ hdestroy => exact h.beginDestroy hdestroy
    · cases tick_ticked htick with
      | calls | passed | skips => exact h
      | ends => exact h.endDelivery _
      | flushes => exact h.frame _ fun _ => rfl
      | works _ hinert | finishes _ hinert => exact absurd hinert ht

end AllSeries
end Store

/-! ## Sessions -/

namespace Session

variable {P : Series → Prop} {s : Session}

theorem begin_allSeries {begun : Except Error (Store × List Task)} (h : s.store.AllSeries P)
    (hbegun : ∀ store tasks, begun = .ok (store, tasks) → store.AllSeries P) : (s.begin begun).store.AllSeries P := by
  unfold begin
  split
  · exact hbegun _ _ rfl
  · exact h

theorem beginMap_allSeries {α : Type} {begun : Except Error α} {f : α → Store × List Task} (h : s.store.AllSeries P)
    (hbegun : ∀ a, begun = .ok a → (f a).1.AllSeries P) : (s.begin (begun.map f)).store.AllSeries P := by
  refine begin_allSeries h fun store tasks hok => ?_
  obtain ⟨a, ha, he⟩ := map_ok_iff.1 hok
  have hstore : (f a).1 = store := by rw [he]
  exact hstore ▸ hbegun a ha

theorem assign_allSeries (hP : Series.Lasting P) (h : s.store.AllSeries P) (id : VectorId) (source : String)
    (rest : List Task) : (s.assign id source rest).store.AllSeries P := by
  obtain ⟨traces, ⟨values, store, tasks, hupdating, he⟩ | ⟨e, he⟩⟩ := assign_cases s id source rest
  · rw [he]
    exact h.updating hP (o := .setValues values) hupdating
  · rwa [he]

theorem execute_allSeries (hP : Series.Lasting P) (hs : s.store.Coherent) (h : s.store.AllSeries P) (c : Command) :
    (s.execute c).store.AllSeries P := by
  have hexecuted := execute_executed hs c
  generalize s.execute c = s' at hexecuted ⊢
  cases hexecuted with
  | @created name? length? store tasks _ hcreate =>
    have hcreated := h.createWithLength hP name? length?
    rwa [hcreate] at hcreated
  | @uncreated name? length? store e _ hcreate =>
    have hcreated := h.createWithLength hP name? length?
    rwa [hcreate] at hcreated
  | evaluated | failed => exact h
  | @assigned _ _ _ values _ _ _ _ _ hupdating => exact h.updating hP (o := .setValues values) hupdating
  | begun _ hform => exact h.form hP hform

end Session

/-- What the program does to the contents of a vector by itself keeps the property;
in an update, after which the extrema are forgotten, it need be so only then. -/
def Request.Keeps (P : Series → Prop) : Request → Prop
  | .edit _ change => ∀ t t', P t → change t = .ok t' → P t'
  | .update _ change => ∀ t t', P t → change t = .ok t' → P t'.invalidate
  | _ => True

/-- **What a request does at once** keeps the property. -/
theorem Session.issue_allSeries {P : Series → Prop} {s : Session} {r : Request} (hP : Series.Lasting P)
    (hs : s.store.Coherent) (h : s.store.AllSeries P) (hr : r.Keeps P) : (s.issue r).store.AllSeries P := by
  cases r with
  | create name? =>
    have hcreate := h.create hP name?
    simp only [issue]
    split
    · next hcreated => rwa [hcreated] at hcreate
    · next hcreated => rwa [hcreated] at hcreate
  | destroy => exact beginMap_allSeries h fun _ hdestroy => h.beginDestroy hdestroy
  | edit => exact beginMap_allSeries h fun _ hedit => h.edit hr hedit
  | update => exact beginMap_allSeries h fun _ hupdate => h.update hr hupdate
  | readExtrema => exact beginMap_allSeries h fun _ hread => h.readExtrema hP hread
  | markDirty => exact beginMap_allSeries h fun _ hmark => Store.AllSeries.markDirty (h.invalidate hP _) hmark
  | setPolicy => exact beginMap_allSeries h fun _ hset => h.setPolicy hset
  | notifyNow => exact beginMap_allSeries h fun _ hnotify => h.notifyNow hnotify
  | cancelNotify => exact beginMap_allSeries h fun _ hcancel => h.cancelNotify hcancel
  | clear => exact h
  | runIdle | registerFunction | unregisterFunction | registerAggregate => exact h.congr rfl
  | registerClient id listens =>
    have hregister := h.registerClient id listens
    simp only [issue]
    split
    · next hregistered => rwa [hregistered] at hregister
    · next hregistered => rwa [hregistered] at hregister
  | releaseClient client => exact h.releaseClient client
  | applyFunction =>
    simp only [issue]
    split
    · exact h
    · exact h
  | evaluate source =>
    show (s.evaluating source _).store.AllSeries P
    obtain ⟨traces, ⟨values, he⟩ | ⟨e, he⟩⟩ := evaluating_cases s source fun s values => s.finish (.values values)
    · rwa [he]
    · rwa [he]
  | evaluateParsed e =>
    have hevaluate : (s.evaluateParsed e).1.store.AllSeries P := h
    simp only [issue]
    split
    · next hevaluated => rwa [hevaluated] at hevaluate
    · next hevaluated => rwa [hevaluated] at hevaluate
  | assign id source => exact assign_allSeries hP h id source _
  | dup =>
    refine begin_allSeries h fun store tasks hdup => ?_
    rcases Store.dup_cases hdup with ⟨-, rfl, -⟩ | ⟨-, hwrites⟩
    · exact h
    · exact h.writes hP hwrites
  | merge => exact begin_allSeries h fun _ _ hok => h.writes hP (Store.merge_writes hok)
  | split => exact begin_allSeries h fun _ _ hok => h.writes hP (Store.split_writes hok)
  | normalize => exact begin_allSeries h fun _ _ hok => h.writes hP (Store.normalize_writes hok)
  | populate => exact begin_allSeries h fun _ _ hok => h.writes hP (Store.populate_writes hok)
  | sort =>
    refine begin_allSeries h fun _ _ hok => ?_
    obtain ⟨rows, hwrites⟩ := Store.sort_writes hok
    exact h.writes hP hwrites
  | spectrum =>
    refine begin_allSeries h fun _ _ hok => ?_
    obtain ⟨n, hwrites⟩ := Store.spectrum_writes hok
    exact h.writes hP hwrites
  | signal => exact begin_allSeries h fun _ _ hok => h.writes hP (Store.signal_writes hok)
  | command c => exact execute_allSeries hP hs h c

/-! ## Runs -/

/-- What the program asks for in a step keeps the property. -/
def Act.Keeps (P : Series → Prop) : Act → Prop
  | .ask r => r.Keeps P
  | .work _ => True

/-- What the program does to the contents by itself, in updates as well, is made of
operations and readings. -/
def Request.ByUses : Request → Prop
  | .edit _ change | .update _ change => Series.MadeOfUses change
  | _ => True

def Act.ByUses : Act → Prop
  | .ask r => r.ByUses
  | .work _ => True

section

variable {P : Series → Prop} {m m' : Moment} {a : Act} {steps : List Step} {s₀ : Session}
  {config : StoreConfig} {host : Host} {random : RandomSource}

theorem Next.allSeries (hP : Series.Lasting P) (h : Next m a m') (hs : m.session.store.Coherent) (ha : a.Keeps P)
    (hm : m.session.store.AllSeries P) : m'.session.store.AllSeries P := by
  cases h with
  | ask s r => exact Session.issue_allSeries hP hs hm ha
  | work busy htick => exact hm.tick hP (Session.tick_eq htick).1

/-- **A property that lasts holds of every vector at every moment of a run**, if
what the program does to the contents by itself keeps it. -/
theorem Run.allSeries (hP : Series.Lasting P) (hs₀ : Session.ofConfig config host random = .ok s₀)
    (h : Run ⟨s₀, false⟩ steps m) (hkeeps : ∀ step ∈ steps, step.act.Keeps P) : m.session.store.AllSeries P := by
  induction h with
  | start =>
    have hstore : s₀.store = { config := config } := congrArg View.store (Session.view_of_ofConfig hs₀)
    intro slot hslot
    rw [hstore] at hslot
    cases hslot
  | @next steps m m' a hrun hnext ih =>
    rw [List.forall_mem_append, List.forall_mem_singleton] at hkeeps
    exact hnext.allSeries hP (hrun.sound hs₀).coherent hkeeps.2 (ih hkeeps.1)

theorem Act.ByUses.keeps (hP : Series.Lasting P) (h : a.ByUses) : a.Keeps P := by
  cases a with
  | work => trivial
  | ask r =>
    cases r with
    | edit id change =>
      intro t t' ht hchange
      obtain ⟨us, rfl⟩ := h t t' hchange
      exact hP.uses ht us
    | update id change =>
      intro t t' ht hchange
      obtain ⟨us, rfl⟩ := h t t' hchange
      exact hP.invalidate (hP.uses ht us)
    | _ => trivial

/-- **Every vector's series is one in use**, at every moment of a run in which the
program does to the contents by itself what operations and readings do. So its
buffer is sound and one that storage can be had for (`Series.InUse.stored`). -/
theorem Run.inUse (hs₀ : Session.ofConfig config host random = .ok s₀) (h : Run ⟨s₀, false⟩ steps m)
    (huses : ∀ step ∈ steps, step.act.ByUses) : m.session.store.AllSeries Series.InUse :=
  h.allSeries Series.lasting_inUse hs₀ fun step hstep => (huses step hstep).keeps Series.lasting_inUse

end
end VectorEngine
