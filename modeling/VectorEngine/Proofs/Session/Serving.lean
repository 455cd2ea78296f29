/-
Requests served to their end by clients that do nothing when they are called.

What is told and what comes of it is determined (`Session.Served.unique`), and it
is found one unit of work at a time. Changes to several vectors, noted one after
the other, are told in that order and settle each of the vectors
(`Session.Served.markEach`).
-/
import Mathlib
import VectorEngine.Proofs.Store.Settling
import VectorEngine.Proofs.Session.Coherence

namespace VectorEngine

namespace Session

/-- The session with a store and work of its own. -/
def doing (s : Session) (store : Store) (stack : List Task) : Session := { s with store := store, stack := stack }

/-- The work under way is done up to an answer. The clients that are called do
nothing. -/
inductive Served : Session → List (ClientId × ClientEvent) → Except Error Answer → Session → Prop
  | finished {s s' : Session} {r : Except Error Answer} : s.resume = (s', .finished r) → Served s [] r s'
  | called {s s₁ s' : Session} {c : ClientId} {e : ClientEvent} {told : List (ClientId × ClientEvent)}
    {r : Except Error Answer} : s.resume = (s₁, .calling c e) → Served s₁ told r s' → Served s ((c, e) :: told) r s'

variable {s s₁ s' s'' : Session} {store store' : Store} {stack stack' rest : List Task} {id : VectorId}
  {told told' : List (ClientId × ClientEvent)} {r r' : Except Error Answer}

theorem tick_doing {signal? : Option Signal} (h : store.tick stack = (store', stack', signal?)) :
    (s.doing store stack).tick = (s.doing store' stack', signal?) := by simp only [tick, doing, h]

namespace Served

/-- There is one outcome. -/
theorem unique (h : Served s told r s') (h' : Served s told' r' s'') : told = told' ∧ r = r' ∧ s' = s'' := by
  induction h generalizing told' with
  | finished hresume =>
    cases h' with
    | finished hresume' =>
      cases hresume.symm.trans hresume'
      exact ⟨rfl, rfl, rfl⟩
    | called hresume' => cases hresume.symm.trans hresume'
  | called hresume _ ih =>
    cases h' with
    | finished hresume' => cases hresume.symm.trans hresume'
    | called hresume' h' =>
      cases hresume.symm.trans hresume'
      obtain ⟨rfl, rfl, rfl⟩ := ih h'
      exact ⟨rfl, rfl, rfl⟩

theorem congr (h : Served s₁ told r s') (hresume : s.resume = s₁.resume) : Served s told r s' := by
  cases h with
  | finished h => exact .finished (hresume.trans h)
  | called h h' => exact .called (hresume.trans h) h'

/-! ## One unit of work -/

theorem work (ht : store.tick stack = (store', stack', none)) (h : (s.doing store' stack').Served told r s') :
    (s.doing store stack).Served told r s' :=
  h.congr (resume_of_tick_none (tick_doing ht))

theorem call {c : ClientId} {e : ClientEvent} (ht : store.tick stack = (store', stack', some (.calling c e)))
    (h : (s.doing store' stack').Served told r s') : (s.doing store stack).Served ((c, e) :: told) r s' :=
  .called (resume_of_tick_some (tick_doing ht)) h

theorem finish (ht : store.tick stack = (store', stack', some (.finished r))) :
    (s.doing store stack).Served [] r (s.doing store' stack') :=
  .finished (resume_of_tick_some (tick_doing ht))

theorem refuse (s : Session) (store : Store) (e : Error) (stack : List Task) :
    (s.doing store (.refuse e :: stack)).Served [] (.error e) (s.doing store stack) := finish rfl

/-- Tasks that answer a command give the answer. -/
theorem answering (ha : store.Answering rest) (stack : List Task) :
    ∃ a, (s.doing store (rest ++ stack)).Served [] (.ok a) (s.doing store stack) := by
  unfold Store.Answering at ha
  split at ha
  · exact ⟨_, finish rfl⟩
  · obtain ⟨v, hv⟩ := ha
    refine ⟨.reply (.scalar (Float.ofNat v.series.length)), finish ?_⟩
    simp only [List.cons_append, List.nil_append, Store.tick, Store.get_of_get? hv, Except.map]
  · obtain ⟨v, hv⟩ := ha
    refine ⟨.reply (.scalar (Exact.intToFloat v.series.offset)), finish ?_⟩
    simp only [List.cons_append, List.nil_append, Store.tick, Store.get_of_get? hv, Except.map]
  · exact ha.elim

/-! ## Telling and noting changes -/

/-- A fan-out whose clients are all registered calls each that listens, in turn. -/
theorem deliver {e : ClientEvent} {nested : Bool} {u : NamedVector} (hu : store.get? e.server = some u)
    (hrest : ∀ n, Task.report n rest = rest)
    (h : (s.doing (store.endDelivery ⟨e, [], nested, 0⟩) rest).Served told r s') (waiting : List Client)
    (hwaiting : ∀ x ∈ waiting, x.id ∈ u.clients.map (·.id)) (reached : Nat) :
    (s.doing store (.deliver ⟨e, waiting, nested, reached⟩ :: rest)).Served
      ((waiting.filter (·.listens)).map (fun x => (x.id, e)) ++ told) r s' := by
  induction waiting generalizing reached with
  | nil =>
    have htick : store.tick (.deliver ⟨e, [], nested, reached⟩ :: rest) =
        (store.endDelivery ⟨e, [], nested, 0⟩, rest, none) := by
      simp only [Store.tick, Store.stepDelivery, hu, Delivery.nextListener, hrest]
      rfl
    exact work htick h
  | cons x waiting ih =>
    have hregistered : u.clients.any (·.id == x.id) = true := by
      obtain ⟨y, hy, hyx⟩ := List.mem_map.1 (hwaiting x List.mem_cons_self)
      exact List.any_eq_true.2 ⟨y, hy, by simpa using hyx⟩
    have hothers := ih fun y hy => hwaiting y (List.mem_cons_of_mem _ hy)
    cases hlistens : x.listens with
    | true =>
      have htick : store.tick (.deliver ⟨e, x :: waiting, nested, reached⟩ :: rest) =
          (store, .deliver ⟨e, waiting, nested, reached + 1⟩ :: rest, some (.calling x.id e)) := by
        simp only [Store.tick, Store.stepDelivery, hu, Delivery.nextListener, hregistered, hlistens, if_true]
      rw [List.filter_cons_of_pos hlistens, List.map_cons, List.cons_append]
      exact call htick (hothers (reached + 1))
    | false =>
      rw [List.filter_cons_of_neg (by simp [hlistens])]
      -- A client that does not listen is counted on the way to the next.
      have hstep : store.stepDelivery ⟨e, x :: waiting, nested, reached⟩ =
          store.stepDelivery ⟨e, waiting, nested, reached + 1⟩ := by
        simp only [Store.stepDelivery, hu, Delivery.nextListener, hregistered, hlistens, if_true, Bool.false_eq_true,
          if_false]
      refine (hothers (reached + 1)).congr (resume_congr ?_)
      simp only [tick, doing, Store.tick, hstep]
      rfl

/-- **A change that has been noted is told and settled.** -/
theorem noted {v : NamedVector} {d? : Option Delivery} (hv : store.get? id = some v) (hn : v.notifying = false)
    (hmark : store.markDirty id = .ok (store', d?)) (hrest : ∀ n, Task.report n rest = rest)
    (h : (s.doing (store.settle id) rest).Served told r s') :
    (s.doing store' (Task.delivering d? rest)).Served (store.updates id ++ told) r s' := by
  rcases Store.markDirty_settle hv hn with ⟨hsettle, hnobody⟩ | ⟨s₁, u, hsettle, hu, hclients, hend, hupdates⟩
  · rw [hmark] at hsettle
    cases hsettle
    exact hnobody ▸ h
  · rw [hmark] at hsettle
    cases hsettle
    rw [hupdates]
    rw [← hend] at h
    exact deliver hu hrest h v.clients (fun x hx => hclients ▸ List.mem_map.2 ⟨x, hx, rfl⟩) 0

/-- **Changes noted one after the other are told in that order.** -/
theorem markEach {ids : List VectorId} (hids : ids.Nodup)
    (hquiet : ∀ id ∈ ids, ∃ v, store.get? id = some v ∧ v.notifying = false)
    (h : (s.doing (store.settleAll ids) rest).Served told r s') :
    (s.doing store (.markEach ids :: rest)).Served (ids.flatMap store.updates ++ told) r s' := by
  induction ids generalizing store with
  | nil => exact work rfl h
  | cons id ids ih =>
    obtain ⟨hid, hids⟩ := List.nodup_cons.1 hids
    obtain ⟨v, hv, hn⟩ := hquiet id List.mem_cons_self
    have hothers : ∀ id' ∈ ids, (store.settle id).get? id' = store.get? id' := fun id' hid' =>
      Store.get?_settle_of_ne fun he => hid (he ▸ hid')
    have hupdates : ids.flatMap (store.settle id).updates = ids.flatMap store.updates :=
      List.flatMap_congr fun id' hid' => Store.updates_congr (hothers id' hid')
    have hrest : (s.doing (store.settle id) (.markEach ids :: rest)).Served (ids.flatMap store.updates ++ told)
        r s' := by
      rw [← hupdates]
      refine ih hids (fun id' hid' => ?_) h
      rw [hothers id' hid']
      exact hquiet id' (List.mem_cons_of_mem _ hid')
    obtain ⟨⟨store', d?⟩, hmark⟩ : ∃ p, store.markDirty id = .ok p := by
      rcases Store.markDirty_settle hv hn with ⟨hmark, -⟩ | ⟨_, _, hmark, -⟩ <;> exact ⟨_, hmark⟩
    have htick : store.tick (.markEach (id :: ids) :: rest) =
        (store', Task.delivering d? (.markEach ids :: rest), none) := by simp only [Store.tick, hmark]
    rw [List.flatMap_cons, List.append_assoc]
    exact work htick (noted hv hn hmark (fun _ => rfl) hrest)

end Served
end Session
end VectorEngine
