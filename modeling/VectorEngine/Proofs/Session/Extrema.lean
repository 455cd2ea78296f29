/-
What the vectors of a store remember of their extrema.

Reading the extrema of a vector is the only thing that makes it remember them.
Whatever writes to a vector forgets them, be it an operation of the store or
what the program does to the contents by itself. So at no moment of a run is the
answer to that reading out of date.
-/
import Mathlib
import VectorEngine.Proofs.Extrema
import VectorEngine.Proofs.Session.AllSeries

namespace VectorEngine

/-- What the program does to the contents of a vector by itself is made of
operations and readings. -/
def Request.UsesSeries : Request → Prop
  | .edit _ change => ∀ t t', change t = .ok t' → ∃ us, t' = t.uses us
  | _ => True

/-- What the program asks for in a step does to the contents only what operations
and readings do. -/
def Act.UsesSeries : Act → Prop
  | .ask r => r.UsesSeries
  | .work _ => True

/-- An update may do anything to the contents. -/
theorem Act.UsesSeries.keeps {a : Act} (h : a.UsesSeries) : a.Keeps Series.Recalls := by
  cases a with
  | work => trivial
  | ask r =>
    cases r with
    | edit id change =>
      intro t t' ht hchange
      obtain ⟨us, rfl⟩ := h t t' hchange
      exact Series.lasting_recalls.uses ht us
    | update id change => exact fun t t' _ _ => Series.recalls_of_none rfl
    | _ => trivial

theorem Run.recalls {config : StoreConfig} {host : Host} {random : RandomSource} {s₀ : Session} {steps : List Step}
    {m : Moment} (hs₀ : Session.ofConfig config host random = .ok s₀) (h : Run ⟨s₀, false⟩ steps m)
    (huses : ∀ step ∈ steps, step.act.UsesSeries) : m.session.store.AllSeries Series.Recalls :=
  h.allSeries Series.lasting_recalls hs₀ fun step hstep => (huses step hstep).keeps

/-- **Extrema are never out of date.** Whatever operations a series has been
through, and wherever they were read on the way, the extrema read are those of its
values. So they are of every vector of a store, at every moment of every run in
which the program does to the contents by itself only what those operations do. -/
theorem extrema_current :
    (∀ {capacity : Nat} {s : Series} (us : List Series.Use), Series.withCapacity capacity = .ok s →
      (s.uses us).readExtrema.1.Describes (s.uses us).values) ∧
    ∀ {config : StoreConfig} {host : Host} {random : RandomSource} {s₀ : Session} {steps : List Step} {m : Moment},
      Session.ofConfig config host random = .ok s₀ → Run ⟨s₀, false⟩ steps m → (∀ step ∈ steps, step.act.UsesSeries) →
      ∀ id v, m.session.store.get? id = some v →
        ∃ e s', m.session.store.readExtrema id = .ok (e, s') ∧ e.Describes v.series.values := by
  constructor
  · intro capacity s us hnew
    exact (Series.lasting_recalls.uses (Series.lasting_recalls.new hnew) us).describes
  · intro config host random s₀ steps m hs₀ hrun huses id v hv
    have hread : m.session.store.readExtrema id = .ok (v.series.readExtrema.1,
        m.session.store.modify id fun w => { w with series := v.series.readExtrema.2 }) := by
      rw [Store.readExtrema, Store.get_of_get? hv]
      rfl
    exact ⟨_, _, hread, ((hrun.recalls hs₀ huses).get? hv).describes⟩

/-- The program changes a vector, reads its extrema, and writes below the smallest
value without telling anybody. -/
def Moment.undercut : List (Option Request) :=
  [some (.create none), none, some (.update ⟨0, 0⟩ (Series.setValues [3.0, nan, -1.0])), none,
    some (.readExtrema ⟨0, 0⟩), none,
    some (.edit ⟨0, 0⟩ fun t => .ok (t.uses [.read, .change (.set 0 (-5.0)), .change (.removeSpan 2 9)])), none]

theorem Moment.usesSeries_undercut : ∀ step ∈ play ⟨.initial, false⟩ undercut, step.act.UsesSeries := by
  simp only [undercut, play, List.forall_mem_cons, List.not_mem_nil, false_imp_iff, implies_true, and_true]
  refine ⟨trivial, trivial, trivial, trivial, trivial, trivial, fun t t' h => ?_, trivial⟩
  exact ⟨_, (Except.ok.inj h).symm⟩

/-- A series whose largest value is read and then cut off, and the vector above. -/
theorem extrema_current_undercut :
    let cut := (⟨⟨Buffer.blanks 2, 0⟩, 0, none⟩ : Series).uses
      [.change (.append [1.0, 7.0]), .read, .change (.set 5 9.0), .change (.setLength 1)]
    let m := Moment.outcome ⟨.initial, false⟩ Moment.undercut
    (cut.values = [1.0] ∧ cut.readExtrema.1.Describes cut.values) ∧
      ∃ v, m.session.store.get? ⟨0, 0⟩ = some v ∧ v.series.values = [-5.0, nan, -1.0] ∧
        ∃ e s', m.session.store.readExtrema ⟨0, 0⟩ = .ok (e, s') ∧ e.Describes v.series.values := by
  intro cut m
  have hcut : cut.values = [1.0] := by decide +kernel
  have hnew : Series.withCapacity 2 = .ok ⟨⟨Buffer.blanks 2, 0⟩, 0, none⟩ := by decide +kernel
  have hrun : Run ⟨.initial, false⟩ (Moment.play ⟨.initial, false⟩ Moment.undercut) m :=
    Moment.run_play (by decide +kernel)
  have hvalues : (m.session.store.get? ⟨0, 0⟩).map (·.series.values) = some [-5.0, nan, -1.0] := by decide +kernel
  obtain ⟨v, hv, hvalues⟩ := Option.map_eq_some_iff.1 hvalues
  exact ⟨⟨hcut, extrema_current.1 _ hnew⟩, v, hv, hvalues,
    extrema_current.2 Session.ofConfig_initial hrun Moment.usesSeries_undercut ⟨0, 0⟩ v hv⟩

end VectorEngine
