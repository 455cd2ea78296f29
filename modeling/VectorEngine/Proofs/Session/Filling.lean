/-
Requests that change one vector, or none.

All that can go wrong with a change, no values or no room, goes wrong at once, and then
everything is as before; else the vector has what the change has made of it, and only
clients are told of it (`Moment.tells_or_leaves`). Values that are put into a vector are
computed from what is there before anything is written, so the vector may be one of those
they are computed from.
-/
import Mathlib
import VectorEngine.Proofs.Session.Exchange

namespace VectorEngine

/-- Asked at `m`, the request is answered, and nothing is changed. -/
structure Moment.Tells (m : Moment) (r : Request) (result : Except Error Answer) : Prop where
  answered : m.busy = false → Exchange.Calm m r m result
  told : ∀ {during m' result'}, Exchange m r during m' result' → result' = result ∧ m' = m

/-- Asked at `m`, the request leaves a series in the vector `id`, and is answered with `a`. -/
structure Moment.Leaves (m : Moment) (r : Request) (id : VectorId) (series : Series) (a : Answer) : Prop where
  answered : m.busy = false → ∃ m' result, Exchange.Calm m r m' result
  result : ∀ {during m' result}, Exchange m r during m' result → result = .ok a
  /-- The other vectors are as they were, unless somebody changes one meanwhile. -/
  contents : ∀ {m' result}, Exchange.Calm m r m' result → ∀ id' c, m.session.store.contents? id' = some c →
    m'.session.store.contents? id' =
      some (if id' = id then { c with values := series.values, offset := series.offset } else c)

/-- Asked at `m`, the request puts computed values into the vector `target`, and does
nothing else. -/
structure Moment.Fills (m : Moment) (r : Request) (target : VectorId) (computed : Except Error (List Float)) :
    Prop where
  /-- It is answered, if the clients that are called ask for nothing. -/
  answered : m.busy = false → ∃ m' result, Exchange.Calm m r m' result
  /-- It succeeds exactly if there are values, and the vector is there with room for them. -/
  done_iff : ∀ {during m' result}, Exchange m r during m' result →
    (result = .ok .done ↔ ∃ values, computed = .ok values ∧ m.session.store.HasRoom target values.length)
  /-- If it fails, everything is as it was. -/
  failed : ∀ {during m' result}, Exchange m r during m' result → result ≠ .ok .done →
    (∃ e, result = .error e) ∧ m' = m
  /-- If there are no values, it fails for that reason. -/
  refused : ∀ {e during m' result}, computed = .error e → Exchange m r during m' result → result = .error e
  /-- If it succeeds, the vector holds the values and the others what they held, unless
  somebody changes one meanwhile. -/
  filled : ∀ {values m'}, computed = .ok values → Exchange.Calm m r m' (.ok .done) →
    ∀ id c, m.session.store.contents? id = some c →
      m'.session.store.contents? id = some (if id = target then { c with values } else c)

namespace Moment

variable {m : Moment} {r : Request} {target : VectorId} {computed : Except Error (List Float)}

/-- A request that leaves nothing to do but answer. -/
theorem tells_of_put (hs : m.session.view.Sound) {t : Task} {result : Except Error Answer} (ht : t.Answers result)
    (hissue : m.session.issue r = m.session.put m.session.store [t]) : m.Tells r result := by
  refine ⟨fun hturn => ?_, fun h => h.told hs ht hissue⟩
  obtain ⟨m', during, hexchange, hspares⟩ := Exchange.Calm.exists_of_put hturn hs hissue ht.conclude
  obtain ⟨-, rfl⟩ := hexchange.told hs ht hissue
  exact ⟨during, hexchange, hspares⟩

/-- **A request for a change of one vector** leaves there what the change makes of it, or
nothing is changed. -/
theorem tells_or_leaves (hs : m.session.view.Sound) (hr : ∀ id, ¬r.Destroys m.session.store id) {id : VectorId}
    {change : Series → Except Error Series} {a : Answer}
    (hissue : m.session.issue r = m.session.begin (m.session.store.updating id change [.answer a])) :
    (∃ e, m.Tells r (.error e) ∧
      ¬∃ v series, m.session.store.get? id = some v ∧ change v.series = .ok series) ∨
    ∃ v series, m.session.store.get? id = some v ∧ change v.series = .ok series ∧ m.Leaves r id series a := by
  rw [← Store.change_ok_iff, ← Store.updating_ok_iff_edit]
  cases hupdating : m.session.store.updating id change [.answer a] with
  | error e =>
    rw [hupdating] at hissue
    exact .inl ⟨e, tells_of_put hs (Task.answers_refuse e) hissue, fun ⟨begun, h⟩ => nomatch h⟩
  | ok begun =>
    rw [hupdating] at hissue
    have hissue : m.session.issue r = m.session.put begun.1 begun.2 := hissue
    have hconclude := Store.updating_conclude (Task.answers_answer a).conclude hupdating
    obtain ⟨s₁, hedit, hnoted⟩ := Store.updating_edit hupdating
    obtain ⟨v, series, hv, hchange, hcontents⟩ := Store.edit_contents hedit
    refine .inr ⟨v, series, hv, hchange, fun hturn => ?_, fun h => h.result_of_put hs hissue hconclude, ?_⟩
    · obtain ⟨m', hcalm⟩ := Exchange.Calm.exists_of_put hturn hs hissue hconclude
      exact ⟨m', _, hcalm⟩
    · rintro m' result ⟨during, h, hspares⟩ id' c hc
      refine h.contents hs hspares (hr id') ?_
      rw [hissue]
      show begun.1.contents? id' = _
      rw [hnoted, hcontents]
      split
      · next hid =>
        rw [hid, Store.contents?_of_get? hv, Option.some.injEq] at hc
        subst hc
        rfl
      · exact hc

/-- A request that is refused. -/
theorem Tells.fills {e : Error} (h : m.Tells r (.error e))
    (hnone : ∀ values, computed = .ok values → ¬m.session.store.HasRoom target values.length)
    (hreason : ∀ e', computed = .error e' → e = e') : m.Fills r target computed := by
  constructor
  · exact fun hturn => ⟨m, _, h.answered hturn⟩
  · intro during m' result hexchange
    obtain ⟨hresult, -⟩ := h.told hexchange
    exact iff_of_false (by simp [hresult]) fun ⟨values, hvalues, hroom⟩ => hnone values hvalues hroom
  · intro during m' result hexchange _
    obtain ⟨hresult, hsame⟩ := h.told hexchange
    exact ⟨⟨e, hresult⟩, hsame⟩
  · intro e' during m' result he hexchange
    obtain ⟨hresult, -⟩ := h.told hexchange
    rw [hresult, hreason e' he]
  · intro values m' hvalues hcalm
    obtain ⟨during, hexchange, -⟩ := hcalm
    cases (h.told hexchange).1

/-- A request that writes values. -/
theorem Leaves.fills {v : NamedVector} {series : Series} {values : List Float} (h : m.Leaves r target series .done)
    (hv : m.session.store.get? target = some v) (hset : v.series.setValues values = .ok series) :
    m.Fills r target (.ok values) := by
  obtain ⟨hvalues, hoffset⟩ := Series.setValues_values hset
  constructor
  · exact h.answered
  · intro during m' result hexchange
    exact iff_of_true (h.result hexchange) ⟨values, rfl, v, hv, Series.setValues_ok_iff.1 ⟨series, hset⟩⟩
  · intro during m' result hexchange hne
    exact absurd (h.result hexchange) hne
  · intro e during m' result he
    cases he
  · intro values' m' hsame hcalm id c hc
    obtain rfl := Except.ok.inj hsame
    rw [h.contents hcalm id c hc]
    split
    · next hid =>
      rw [hid, Store.contents?_of_get? hv, Option.some.injEq] at hc
      rw [hvalues, hoffset, ← hc]
      rfl
    · rfl

/-- **A request that begins by writing computed values** puts them into the vector. -/
theorem fills_of_issue (hs : m.session.view.Sound) (hr : ∀ id, ¬r.Destroys m.session.store id)
    (hissue : m.session.issue r = m.session.begin
      (computed >>= fun values => m.session.store.updating target (Series.setValues values) [.answer .done])) :
    m.Fills r target computed := by
  cases hcomputed : computed with
  | error e =>
    rw [hcomputed] at hissue
    exact (tells_of_put hs (Task.answers_refuse e) hissue).fills (fun _ h => nomatch h) fun _ h => Except.error.inj h
  | ok values =>
    rw [hcomputed] at hissue
    obtain ⟨e, htells, hnone⟩ | ⟨v, series, hv, hset, hleaves⟩ := tells_or_leaves hs hr hissue
    · refine htells.fills (fun values' h hroom => ?_) (fun _ h => nomatch h)
      obtain rfl := Except.ok.inj h
      exact hnone (Store.change_ok_iff.1 (Store.edit_ok_iff.2 hroom))
    · exact hleaves.fills hv hset

namespace Fills

variable {m' : Moment} {id : VectorId} {values xs : List Float} {result : Except Error Answer}

/-- Without values it is answered with the reason, and nothing is changed. -/
theorem calm_of_error (h : m.Fills r target computed) (hturn : m.busy = false) {e : Error} (he : computed = .error e) :
    Exchange.Calm m r m (.error e) := by
  obtain ⟨m', result, during, hexchange, hspares⟩ := h.answered hturn
  obtain rfl := h.refused he hexchange
  obtain ⟨-, rfl⟩ := h.failed hexchange (fun hdone => nomatch hdone)
  exact ⟨during, hexchange, hspares⟩

/-- The values are read back. -/
theorem values_of_target (h : m.Fills r target computed) (hvalues : computed = .ok values)
    (hcalm : Exchange.Calm m r m' (.ok .done)) : m'.session.store.valuesOf target = .ok values := by
  obtain ⟨during, hexchange, hspares⟩ := hcalm
  obtain ⟨values', -, hroom⟩ := (h.done_iff hexchange).1 rfl
  obtain ⟨c, hc⟩ := Store.has_iff.1 hroom.has
  refine Store.valuesOf_ok_iff.2 ⟨_, h.filled hvalues ⟨during, hexchange, hspares⟩ target c hc, ?_⟩
  rw [if_pos rfl]

/-- Another vector keeps its values, whether the request succeeds or not. -/
theorem values_of_ne (h : m.Fills r target computed) (hcalm : Exchange.Calm m r m' result) (hid : id ≠ target)
    (hxs : m.session.store.valuesOf id = .ok xs) : m'.session.store.valuesOf id = .ok xs := by
  obtain ⟨during, hexchange, hspares⟩ := hcalm
  by_cases hdone : result = .ok .done
  · subst hdone
    obtain ⟨values, hvalues, -⟩ := (h.done_iff hexchange).1 rfl
    obtain ⟨c, hc, rfl⟩ := Store.valuesOf_ok_iff.1 hxs
    refine Store.valuesOf_ok_iff.2 ⟨_, h.filled hvalues ⟨during, hexchange, hspares⟩ id c hc, ?_⟩
    rw [if_neg hid]
  · rw [(h.failed hexchange hdone).2, hxs]

end Fills

/-- Two vectors; a client is told of every change to the first. -/
def attended : List (Option Request) :=
  [some (.create none), none, some (.create none), none, some (.registerClient ⟨0, 0⟩ true), none,
    some (.setPolicy ⟨0, 0⟩ .always), none, some (.edit ⟨0, 0⟩ (Series.setValues [1.0])), none,
    some (.edit ⟨1, 0⟩ (Series.setValues [2.0, nan, 4.0])), none]

theorem run_attended : Run ⟨.initial, false⟩ (play ⟨.initial, false⟩ attended) (outcome ⟨.initial, false⟩ attended) :=
  run_play (by decide +kernel)

end Moment
end VectorEngine
