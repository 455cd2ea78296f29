/-
Sequences that run as far as their stop.

In exact arithmetic, measured in steps, a value is beyond the stop by its number minus
the distance from start to stop (`beyond_eq`). So the floor of that distance and the slack
is the number of the last value that is beyond the stop by no more than the slack
(`within_iff`), whichever way the steps go. The number of values is settled before
anything is written: to fill a series is to count and then to put the values there
(`Series.fillSequence_eq`).
-/
import VectorEngine.Proofs.Number.Unrounded
import VectorEngine.Proofs.Series
import VectorEngine.Proofs.Session.Filling

namespace VectorEngine
namespace Sequence

open Element

variable {a b d : ℝ} {start stop step : Unrounded} {n : ℕ}

/-! ## The values that are not beyond the stop -/

/-- How far the value `i` steps from `start` is beyond `stop`, the way the steps go. -/
noncomputable def beyond (start stop step : ℝ) (i : ℕ) : ℝ := SignType.sign step * (start + i * step - stop)

/-- The value is beyond `stop` by no more than a billionth of a step. -/
def Within (start stop step : ℝ) (i : ℕ) : Prop := beyond start stop step i ≤ 1 / 10 ^ 9 * |step|

theorem beyond_eq (hd : d ≠ 0) (i : ℕ) : beyond a b d i = (i - (b - a) / d) * |d| := by
  have hstep : a + i * d - b = (i - (b - a) / d) * d := by
    field_simp
    ring
  calc beyond a b d i = (i - (b - a) / d) * (SignType.sign d * d) := by
        rw [beyond, hstep]
        ring
    _ = (i - (b - a) / d) * |d| := by rw [sign_mul_self]

/-- How many values are not beyond the stop. -/
noncomputable def count (start stop step : ℝ) : ℕ := ⌊(stop - start) / step + 1 / 10 ^ 9⌋₊ + 1

theorem within_iff (hd : d ≠ 0) (hreach : -(1 / 10 ^ 9) ≤ (b - a) / d) (i : ℕ) :
    Within a b d i ↔ i < count a b d := by
  have hfloor : 0 ≤ (b - a) / d + 1 / 10 ^ 9 := neg_le_iff_add_nonneg.1 hreach
  rw [Within, beyond_eq hd, mul_le_mul_iff_of_pos_right (abs_pos.2 hd), sub_le_iff_le_add', count, Nat.lt_succ_iff,
    Nat.le_floor_iff hfloor]

/-- The number of values is all there is to say of which are not beyond the stop. -/
theorem eq_count (hd : d ≠ 0) (hreach : -(1 / 10 ^ 9) ≤ (b - a) / d) (h : ∀ i, Within a b d i ↔ i < n) :
    n = count a b d := by
  have hsame (i : ℕ) : i < n ↔ i < count a b d := (h i).symm.trans (within_iff hd hreach i)
  exact le_antisymm (le_of_forall_lt fun i hi => (hsame i).1 hi) (le_of_forall_lt fun i hi => (hsame i).2 hi)

/-! ## Counting -/

theorem slack_eq : (slack : Unrounded) = .real (1 / 10 ^ 9) := by
  rw [slack, Unrounded.one_eq, Unrounded.ofNat_eq, Unrounded.real_div (by norm_num)]
  norm_num

/-- A step that is not a number other than zero. -/
theorem terms_badStep (h : ∀ d, d ≠ 0 → step ≠ .real d) :
    terms start stop step = .error (.invalidArg "step" .badStep) := by
  refine if_pos ?_
  cases step with
  | real d =>
    have hzero : d = 0 := by
      by_contra hd
      exact h d hd rfl
    simp [hzero]
  | infinite negative | blank => simp [isFinite]

/-- A start or a stop that is not a number. -/
theorem terms_unbounded (hd : d ≠ 0) (h : ∀ a b, ¬(start = .real a ∧ stop = .real b)) :
    terms start stop (.real d) = .error (.invalidArg "start" .unboundedSequence) := by
  have hbounds : (!isFinite start || !isFinite stop) = true := by
    cases start with
    | real a =>
      cases stop with
      | real b => exact absurd ⟨rfl, rfl⟩ (h a b)
      | infinite negative | blank => rfl
    | infinite negative | blank => rfl
  rw [terms, if_neg (by simp [hd]), if_pos hbounds]

theorem terms_real (hd : d ≠ 0) : terms (Unrounded.real a) (.real b) (.real d) =
    if (b - a) / d < -(1 / 10 ^ 9) then .error (.invalidArg "step" .stepAway)
    else if count a b d < Buffer.sizeLimit then .ok (count a b d)
    else .error (.outOfMemory Buffer.unbounded) := by
  have hsteps : (Unrounded.real b - .real a) / .real d + slack = .real ((b - a) / d + 1 / 10 ^ 9) := by
    rw [slack_eq, Unrounded.real_sub, Unrounded.real_div hd, Unrounded.real_add]
  have haway : less (Unrounded.real ((b - a) / d + 1 / 10 ^ 9)) zero = true ↔ (b - a) / d < -(1 / 10 ^ 9) := by
    rw [Unrounded.zero_eq, Unrounded.less_real, decide_eq_true_iff, lt_neg_iff_add_neg]
  have hfloor : floor? (Unrounded.real ((b - a) / d + 1 / 10 ^ 9)) = some ⌊(b - a) / d + 1 / 10 ^ 9⌋ := rfl
  rw [terms, if_neg (by simp [hd]), if_neg (by simp)]
  simp only [hsteps, hfloor, Int.floor_toNat]
  exact if_congr haway rfl rfl

/-- What comes of counting the values of a sequence. -/
structure Counts (start stop step : Unrounded) (outcome : Except Error ℕ) : Prop where
  badStep : (∀ d, d ≠ 0 → step ≠ .real d) → outcome = .error (.invalidArg "step" .badStep)
  unbounded : ∀ d, d ≠ 0 → step = .real d → (∀ a b, ¬(start = .real a ∧ stop = .real b)) →
    outcome = .error (.invalidArg "start" .unboundedSequence)
  away : ∀ a b d, d ≠ 0 → start = .real a → stop = .real b → step = .real d → (b - a) / d < -(1 / 10 ^ 9) →
    outcome = .error (.invalidArg "step" .stepAway)
  /-- There are as many values as are not beyond the stop, and at least one, unless a
  word cannot count them. -/
  reaches : ∀ a b d, d ≠ 0 → start = .real a → stop = .real b → step = .real d → -(1 / 10 ^ 9) ≤ (b - a) / d →
    ∃ n, 0 < n ∧ (∀ i, Within a b d i ↔ i < n) ∧
      outcome = if n < Buffer.sizeLimit then .ok n else .error (.outOfMemory Buffer.unbounded)

theorem terms_counts (start stop step : Unrounded) : Counts start stop step (terms start stop step) := by
  constructor
  · exact terms_badStep
  · rintro d hd rfl hbounds
    exact terms_unbounded hd hbounds
  · rintro a b d hd rfl rfl rfl haway
    rw [terms_real hd, if_pos haway]
  · rintro a b d hd rfl rfl rfl hreach
    refine ⟨count a b d, Nat.succ_pos _, within_iff hd hreach, ?_⟩
    rw [terms_real hd, if_neg hreach.not_gt]

/-- Which sequences there are. -/
theorem terms_ok_iff : terms (Unrounded.real a) (.real b) (.real d) = .ok n ↔
    d ≠ 0 ∧ -(1 / 10 ^ 9) ≤ (b - a) / d ∧ (∀ i, Within a b d i ↔ i < n) ∧ n < Buffer.sizeLimit := by
  have hcounts := terms_counts (Unrounded.real a) (.real b) (.real d)
  by_cases hd : d = 0
  · have hbad := hcounts.badStep fun d' hd' hsame => hd' (Unrounded.real.inj hsame ▸ hd)
    exact iff_of_false (by simp [hbad]) fun h => h.1 hd
  by_cases hreach : -(1 / 10 ^ 9) ≤ (b - a) / d
  · rw [terms_real hd, if_neg hreach.not_gt]
    constructor
    · intro h
      split at h
      · next hfits =>
        obtain rfl := Except.ok.inj h
        exact ⟨hd, hreach, within_iff hd hreach, hfits⟩
      · cases h
    · rintro ⟨-, -, hwithin, hfits⟩
      obtain rfl := eq_count hd hreach hwithin
      exact if_pos hfits
  · have haway := hcounts.away a b d hd rfl rfl rfl (not_le.1 hreach)
    exact iff_of_false (by simp [haway]) fun h => hreach h.2.1

/-! ## The values -/

theorem values_real (a d : ℝ) (n : ℕ) :
    values (.real a) (.real d) n = (List.range n).map fun (i : ℕ) => Unrounded.real (a + i * d) := rfl

theorem length_values {α : Type} [Element α] (start step : α) (n : ℕ) : (values start step n).length = n := by
  simp [values]

end Sequence

/-! ## Filling a series -/

namespace Series

variable {s s' : Series} {start stop step : Float}

theorem fillSequence_eq (s : Series) (start stop step : Float) : s.fillSequence start stop step =
    Sequence.terms start stop step >>= fun n => s.setValues (Sequence.values start step n) := by
  refine congrArg (Sequence.terms start stop step >>= ·) (funext fun n => ?_)
  rw [changeLength, setValues, Buffer.assign, Sequence.length_values]
  cases s.buffer.changeLength n <;> rfl

theorem fillSequence_ok_iff : (∃ s', s.fillSequence start stop step = .ok s') ↔
    ∃ n, Sequence.terms start stop step = .ok n ∧ s.buffer.HasRoom n := by
  rw [fillSequence_eq]
  constructor
  · intro ⟨s', h⟩
    obtain ⟨n, hn, hset⟩ := bind_ok_iff.1 h
    have hroom := setValues_ok_iff.1 ⟨s', hset⟩
    rw [Sequence.length_values] at hroom
    exact ⟨n, hn, hroom⟩
  · intro ⟨n, hn, hroom⟩
    rw [← Sequence.length_values start step n] at hroom
    obtain ⟨s', hset⟩ := setValues_ok_iff.2 hroom
    exact ⟨s', bind_ok_iff.2 ⟨n, hn, hset⟩⟩

theorem fillSequence_values (h : s.fillSequence start stop step = .ok s') :
    ∃ n, Sequence.terms start stop step = .ok n ∧ s'.values = Sequence.values start step n := by
  rw [fillSequence_eq] at h
  obtain ⟨n, hn, hset⟩ := bind_ok_iff.1 h
  exact ⟨n, hn, (setValues_values hset).1⟩

end Series

/-! ## In a session -/

/-- The values of the sequence that a vector is to be filled with, if the vector is there. -/
def Store.sequence (s : Store) (id : VectorId) (start stop step : Float) : Except Error (List Float) := do
  let _ ← s.get id
  return Sequence.values start step (← Sequence.terms start stop step)

theorem Store.update_fillSequence (s : Store) (id : VectorId) (start stop step : Float) :
    s.update id (Series.fillSequence start stop step) =
      s.sequence id start stop step >>= fun values => s.update id (Series.setValues values) := by
  cases hget : s.get id with
  | error e => simp only [update, edit, sequence, hget, bind, Except.bind]
  | ok v =>
    have hfill := Series.fillSequence_eq v.series start stop step
    cases hterms : Sequence.terms start stop step with
    | error e =>
      rw [hterms] at hfill
      simp only [update, edit, sequence, hget, hfill, hterms, bind, Except.bind]
    | ok n =>
      rw [hterms] at hfill
      simp only [update, edit, sequence, hget, hfill, hterms, bind, Except.bind, pure, Except.pure]

theorem Moment.fills_sequence {m : Moment} (hs : m.session.view.Sound) (id : VectorId) (start stop step : Float) :
    m.Fills (.update id (Series.fillSequence start stop step)) id (m.session.store.sequence id start stop step) := by
  refine fills_of_issue hs (fun _ => not_false) (congrArg m.session.begin ?_)
  rw [Store.update_fillSequence]
  cases m.session.store.sequence id start stop step with
  | error e => rfl
  | ok values =>
    show Except.map _ (m.session.store.update id (Series.setValues values)) = m.session.store.updating _ _ _
    rw [Store.updating]
    cases m.session.store.update id (Series.setValues values) <;> rfl

/-- **A sequence runs exactly as far as its stop.** In exact arithmetic there is one if
the step is a number other than zero that does not lead away from the stop, and its values
are all that are not beyond the stop by more than a billionth of a step; else counting
them fails. A series filled with a sequence holds its values and nothing of what was there
before. At every moment of a run, filling a vector puts the values there, and nothing is
changed if it fails. -/
theorem Run.sequence_reaches_stop :
    (∀ (a b d : ℝ) n, Sequence.terms (Unrounded.real a) (.real b) (.real d) = .ok n ↔
      d ≠ 0 ∧ -(1 / 10 ^ 9) ≤ (b - a) / d ∧ (∀ i, Sequence.Within a b d i ↔ i < n) ∧ n < Buffer.sizeLimit) ∧
    (∀ start stop step : Unrounded, Sequence.Counts start stop step (Sequence.terms start stop step)) ∧
    (∀ (a d : ℝ) n, Sequence.values (Unrounded.real a) (.real d) n =
      (List.range n).map fun (i : ℕ) => Unrounded.real (a + i * d)) ∧
    (∀ capacity s us start stop step, Series.withCapacity capacity = .ok s →
      ((∃ s', (s.uses us).fillSequence start stop step = .ok s') ↔
        ∃ n, Sequence.terms start stop step = .ok n ∧ (s.uses us).buffer.HasRoom n) ∧
      ∀ s', (s.uses us).fillSequence start stop step = .ok s' → s'.buffer.Sound ∧
        ∃ n, Sequence.terms start stop step = .ok n ∧ s'.values = Sequence.values start step n) ∧
    ∀ config host random s₀ steps m, Session.ofConfig config host random = .ok s₀ → Run ⟨s₀, false⟩ steps m →
      ∀ id start stop step,
      m.Fills (.update id (Series.fillSequence start stop step)) id (m.session.store.sequence id start stop step) := by
  refine ⟨fun a b d n => Sequence.terms_ok_iff, Sequence.terms_counts, Sequence.values_real, ?_, ?_⟩
  · intro capacity s us start stop step hs
    have hsound := Series.uses_sound hs us
    exact ⟨Series.fillSequence_ok_iff, fun s' h => ⟨Series.fillSequence_sound hsound h, Series.fillSequence_values h⟩⟩
  · intro config host random s₀ steps m hs₀ hrun id start stop step
    exact Moment.fills_sequence (hrun.sound hs₀) id start stop step

/-- A start beyond its stop by less than the slack, a sequence that goes down, in a series
and in a session, and a step of zero. -/
theorem Run.sequence_reaches_stop_downwards :
    let m := Moment.outcome ⟨.initial, false⟩ Moment.attended
    let change := Series.fillSequence 3.0 1.0 (-1.0)
    Sequence.terms (Unrounded.real 0) (.real (1 / 10 ^ 10)) (.real (-1)) = .ok 1 ∧
    (∃ s, change (({} : Series).uses [.change (.append [5.0, 5.0, 5.0, 5.0])]) = .ok s ∧ s.buffer.Sound ∧
      s.values = [3.0, 2.0, 1.0]) ∧
    (∃ m₁, Exchange.Calm m (.update ⟨0, 0⟩ change) m₁ (.ok .done) ∧
      m₁.session.store.valuesOf ⟨0, 0⟩ = .ok [3.0, 2.0, 1.0]) ∧
    Exchange.Calm m (.update ⟨0, 0⟩ (Series.fillSequence 3.0 1.0 0.0)) m (.error (.invalidArg "step" .badStep)) := by
  intro m change
  obtain ⟨hexact, -, -, hseries, hruns⟩ := Run.sequence_reaches_stop
  have hfills := hruns _ _ _ _ _ m Session.ofConfig_initial Moment.run_attended ⟨0, 0⟩
  have hcalm : Exchange.Calm m (.update ⟨0, 0⟩ change) _ (.ok .done) :=
    .of_work (n := 2) (by decide +kernel) (by decide +kernel) (by decide +kernel) (by decide +kernel)
  refine ⟨?_, ?_, ⟨_, hcalm, ?_⟩, ?_⟩
  · have hone : Sequence.count 0 (1 / 10 ^ 10) (-1) = 1 := congrArg (· + 1) (Nat.floor_eq_zero.2 (by norm_num))
    have hwithin (i : ℕ) : Sequence.Within 0 (1 / 10 ^ 10) (-1) i ↔ i < 1 :=
      hone ▸ Sequence.within_iff (by norm_num) (by norm_num) i
    exact (hexact 0 (1 / 10 ^ 10) (-1) 1).2 ⟨by norm_num, by norm_num, hwithin, by decide⟩
  · obtain ⟨hok, hholds⟩ := hseries 0 {} [.change (.append [5.0, 5.0, 5.0, 5.0])] 3.0 1.0 (-1.0) rfl
    have hthree : Sequence.terms (3.0 : Float) 1.0 (-1.0) = .ok 3 := by decide +kernel
    obtain ⟨s, hs⟩ := hok.2 ⟨3, hthree, Buffer.hasRoom_of_le _ (by decide)⟩
    obtain ⟨hsound, n, hn, hvalues⟩ := hholds s hs
    obtain rfl := Except.ok.inj (hthree.symm.trans hn)
    exact ⟨s, hs, hsound, hvalues.trans (by decide +kernel)⟩
  · exact (hfills 3.0 1.0 (-1.0)).values_of_target (by decide +kernel) hcalm
  · exact (hfills 3.0 1.0 0.0).calm_of_error (by decide +kernel) (by decide +kernel)

end VectorEngine
