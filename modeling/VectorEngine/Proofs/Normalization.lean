/-
Rescaling to the unit interval.

In exact arithmetic the smallest and the largest finite value of a vector are real
numbers, unless it has no finite value. If they differ, the values are moved by the
smallest and divided by the distance (`rescaled`), which keeps their order, takes the two
to 0 and 1, and leaves blanks and infinities alone. So rescaling again moves by 0 and
divides by 1.
-/
import VectorEngine.Proofs.Quartiles
import VectorEngine.Proofs.Session.Filling

namespace VectorEngine
namespace Statistics

variable {y : List Unrounded} {low high a : ℝ} {v : Unrounded}

/-! ## The extrema -/

/-- The finite values, which are real numbers. -/
def reals (y : List Unrounded) : Set ℝ := {a | .real a ∈ y}

theorem mem_reals : a ∈ reals y ↔ .real a ∈ y := Iff.rfl

theorem finite_ne_nil (h : a ∈ reals y) : finite y ≠ [] := List.ne_nil_of_mem (List.mem_filter.2 ⟨h, rfl⟩)

theorem mem_reals_of_finite (h : .real a ∈ finite y) : a ∈ reals y := (List.mem_filter.1 h).1

theorem exists_isLeast (h : finite y ≠ []) : ∃ low, min y = .real low ∧ IsLeast (reals y) low := by
  obtain ⟨hmem, -⟩ := min_spec unrounded_ranks h
  obtain ⟨low, hlow, hle⟩ := min_real h
  rw [hlow] at hmem
  exact ⟨low, hlow, mem_reals_of_finite hmem, fun a ha => hle a (mem_sortedReals.2 (List.mem_filter.2 ⟨ha, rfl⟩))⟩

theorem exists_isGreatest (h : finite y ≠ []) : ∃ high, max y = .real high ∧ IsGreatest (reals y) high := by
  obtain ⟨hmem, -⟩ := max_spec unrounded_ranks h
  obtain ⟨high, hhigh, hle⟩ := max_real h
  rw [hhigh] at hmem
  exact ⟨high, hhigh, mem_reals_of_finite hmem, fun a ha => hle a (mem_sortedReals.2 (List.mem_filter.2 ⟨ha, rfl⟩))⟩

theorem min_eq_real (h : IsLeast (reals y) low) : min y = .real low := by
  obtain ⟨least, hleast, h'⟩ := exists_isLeast (finite_ne_nil h.1)
  rw [hleast, h'.unique h]

theorem max_eq_real (h : IsGreatest (reals y) high) : max y = .real high := by
  obtain ⟨greatest, hgreatest, h'⟩ := exists_isGreatest (finite_ne_nil h.1)
  rw [hgreatest, h'.unique h]

/-! ## Rescaling one value -/

/-- The value on the scale on which `low` is 0 and `high` is 1. -/
noncomputable def rescaled (low high : ℝ) (v : Unrounded) : Unrounded := (v - .real low) / .real (high - low)

theorem rescaled_real (h : low < high) (a : ℝ) : rescaled low high (.real a) = .real ((a - low) / (high - low)) := by
  rw [rescaled, Unrounded.real_sub, Unrounded.real_div (sub_pos.2 h).ne']

theorem rescaled_blank : rescaled low high .blank = .blank := rfl

theorem rescaled_infinite (h : low < high) (negative : Bool) :
    rescaled low high (.infinite negative) = .infinite negative := by
  have hpos : ¬high - low < 0 := (sub_pos.2 h).not_gt
  show Unrounded.infinite (negative != decide (high - low < 0)) = _
  rw [decide_eq_false hpos, Bool.bne_false]

/-- Only real numbers become real numbers. -/
theorem rescaled_eq_real_iff (h : low < high) {r : ℝ} :
    rescaled low high v = .real r ↔ ∃ a, v = .real a ∧ (a - low) / (high - low) = r := by
  cases v with
  | real a => simp [rescaled_real h]
  | infinite negative => simp [rescaled_infinite h]
  | blank => simp [rescaled_blank]

theorem rescaled_eq_blank_iff (h : low < high) : rescaled low high v = .blank ↔ v = .blank := by
  cases v with
  | real a => simp [rescaled_real h]
  | infinite negative => simp [rescaled_infinite h]
  | blank => simp [rescaled_blank]

theorem rescaled_zero_one (v : Unrounded) : rescaled 0 1 v = v := by
  cases v with
  | real a => rw [rescaled_real zero_lt_one, sub_zero, sub_zero, div_one]
  | infinite negative => exact rescaled_infinite zero_lt_one negative
  | blank => rfl

/-! ## Rescaling a vector -/

/-- There are two different finite values. -/
def Varied (y : List Unrounded) : Prop := ∃ a ∈ reals y, ∃ b ∈ reals y, a ≠ b

theorem Varied.extrema (h : Varied y) : ∃ low high, IsLeast (reals y) low ∧ IsGreatest (reals y) high ∧ low < high := by
  obtain ⟨a, ha, b, hb, hne⟩ := h
  obtain ⟨low, -, hlow⟩ := exists_isLeast (finite_ne_nil ha)
  obtain ⟨high, -, hhigh⟩ := exists_isGreatest (finite_ne_nil ha)
  refine ⟨low, high, hlow, hhigh, ?_⟩
  obtain hlt | hgt := lt_or_gt_of_ne hne
  · exact (hlow.2 ha).trans_lt (hlt.trans_le (hhigh.2 hb))
  · exact (hlow.2 hb).trans_lt (hgt.trans_le (hhigh.2 ha))

/-- A vector with different finite values is rescaled by its extrema. -/
theorem normalize_of_lt (hlow : IsLeast (reals y) low) (hhigh : IsGreatest (reals y) high) (h : low < high) :
    normalize y = y.map (rescaled low high) := by
  have hne : ¬high - low = 0 := (sub_pos.2 h).ne'
  simp only [normalize, min_eq_real hlow, max_eq_real hhigh, Unrounded.real_sub, Unrounded.isFinite_real,
    Unrounded.zero_eq, Unrounded.same_real, hne, decide_false, Bool.not_true, Bool.or_false]
  rfl

theorem normalize_of_not_varied (h : ¬Varied y) : normalize y = y := by
  by_cases hsome : finite y = []
  · rw [normalize, min_blank hsome, max_blank hsome]
    rfl
  · obtain ⟨low, hmin, hlow⟩ := exists_isLeast hsome
    obtain ⟨high, hmax, hhigh⟩ := exists_isGreatest hsome
    have hsame : high = low := by
      by_contra hne
      exact h ⟨high, hhigh.1, low, hlow.1, hne⟩
    simp [normalize, hmin, hmax, hsame]

/-- Rescaled values range from 0 to 1. -/
theorem extrema_rescaled (hlow : IsLeast (reals y) low) (hhigh : IsGreatest (reals y) high) (h : low < high) :
    IsLeast (reals (y.map (rescaled low high))) 0 ∧ IsGreatest (reals (y.map (rescaled low high))) 1 := by
  have hpos := sub_pos.2 h
  have hmem {r : ℝ} : r ∈ reals (y.map (rescaled low high)) ↔ ∃ a ∈ reals y, (a - low) / (high - low) = r := by
    simp only [mem_reals, List.mem_map, rescaled_eq_real_iff h]
    constructor
    · rintro ⟨_, ha, a, rfl, hr⟩
      exact ⟨a, ha, hr⟩
    · rintro ⟨a, ha, hr⟩
      exact ⟨_, ha, a, rfl, hr⟩
  refine ⟨⟨hmem.2 ⟨low, hlow.1, by simp⟩, fun r hr => ?_⟩, hmem.2 ⟨high, hhigh.1, div_self hpos.ne'⟩, fun r hr => ?_⟩
  · obtain ⟨a, ha, rfl⟩ := hmem.1 hr
    exact div_nonneg (sub_nonneg.2 (hlow.2 ha)) hpos.le
  · obtain ⟨a, ha, rfl⟩ := hmem.1 hr
    exact (div_le_one hpos).2 (sub_le_sub_right (hhigh.2 ha) low)

/-- Rescaling twice is rescaling once. -/
theorem normalize_normalize (y : List Unrounded) : normalize (normalize y) = normalize y := by
  by_cases h : Varied y
  · obtain ⟨low, high, hlow, hhigh, hlt⟩ := h.extrema
    obtain ⟨hzero, hone⟩ := extrema_rescaled hlow hhigh hlt
    rw [normalize_of_lt hlow hhigh hlt, normalize_of_lt hzero hone zero_lt_one]
    exact (List.map_congr_left fun v _ => rescaled_zero_one v).trans (List.map_id _)
  · rw [normalize_of_not_varied h, normalize_of_not_varied h]

/-- The finite values of `y` are moved into the unit interval, the extrema to its ends,
and none past another. -/
structure Rescales (y z : List Unrounded) : Prop where
  inside : ∀ (i : ℕ) a, y[i]? = some (Unrounded.real a) → ∃ r ∈ Set.Icc 0 1, z[i]? = some (Unrounded.real r)
  least : ∀ (i : ℕ) a, y[i]? = some (Unrounded.real a) → IsLeast (reals y) a → z[i]? = some (Unrounded.real 0)
  greatest : ∀ (i : ℕ) a, y[i]? = some (Unrounded.real a) → IsGreatest (reals y) a → z[i]? = some (Unrounded.real 1)
  ordered : ∀ (i j : ℕ) a b r t, y[i]? = some (Unrounded.real a) → y[j]? = some (Unrounded.real b) →
    z[i]? = some (Unrounded.real r) → z[j]? = some (Unrounded.real t) → (a < b ↔ r < t)

theorem Varied.rescales (h : Varied y) : Rescales y (normalize y) := by
  obtain ⟨low, high, hlow, hhigh, hlt⟩ := h.extrema
  obtain ⟨hzero, hone⟩ := extrema_rescaled hlow hhigh hlt
  have hpos := sub_pos.2 hlt
  have hvalue {i : ℕ} {a : ℝ} (ha : y[i]? = some (.real a)) :
      (normalize y)[i]? = some (Unrounded.real ((a - low) / (high - low))) := by
    rw [normalize_of_lt hlow hhigh hlt, List.getElem?_map, ha, Option.map_some, rescaled_real hlt]
  constructor
  · intro i a ha
    have hmem : (a - low) / (high - low) ∈ reals (y.map (rescaled low high)) := by
      rw [← normalize_of_lt hlow hhigh hlt]
      exact List.mem_of_getElem? (hvalue ha)
    exact ⟨_, ⟨hzero.2 hmem, hone.2 hmem⟩, hvalue ha⟩
  · intro i a ha hleast
    rw [hvalue ha, hleast.unique hlow, sub_self, zero_div]
  · intro i a ha hgreatest
    rw [hvalue ha, hgreatest.unique hhigh, div_self hpos.ne']
  · intro i j a b r t ha hb hr ht
    cases (hvalue ha).symm.trans hr
    cases (hvalue hb).symm.trans ht
    rw [div_lt_div_iff_of_pos_right hpos, sub_lt_sub_iff_right]

theorem length_normalize (y : List Unrounded) : (normalize y).length = y.length := by
  unfold normalize
  dsimp only
  split
  · rfl
  · exact List.length_map _

theorem normalize_eq_blank_iff {i : ℕ} :
    (normalize y)[i]? = some Unrounded.blank ↔ y[i]? = some Unrounded.blank := by
  by_cases h : Varied y
  · obtain ⟨low, high, hlow, hhigh, hlt⟩ := h.extrema
    rw [normalize_of_lt hlow hhigh hlt, List.getElem?_map, Option.map_eq_some_iff]
    simp only [rescaled_eq_blank_iff hlt, exists_eq_right]
  · rw [normalize_of_not_varied h]

end Statistics

/-! ## In a session -/

theorem Moment.fills_normalize {m : Moment} (hs : m.session.view.Sound) (id : VectorId) (target? : Option VectorId) :
    m.Fills (.normalize id target?) (target?.getD id) (Statistics.normalize <$> m.session.store.valuesOf id) := by
  refine fills_of_issue hs (fun _ => not_false) (congrArg m.session.begin ?_)
  rw [Store.normalize]
  cases m.session.store.valuesOf id with
  | ok xs | error e => rfl

/-- **Normalisation is an idempotent monotone rescaling.** In exact arithmetic it keeps the
length and the blanks, moves different finite values into the unit interval, in order and
with the extrema at its ends, and else changes nothing; to normalise again changes
nothing. At every moment of a run, normalising a vector into a target puts the normalised
values there; the vector itself keeps its values unless it is the target. -/
theorem Run.normalize_rescales :
    (∀ y : List Unrounded,
      (Statistics.normalize y).length = y.length ∧
      (∀ i : ℕ, (Statistics.normalize y)[i]? = some Unrounded.blank ↔ y[i]? = some Unrounded.blank) ∧
      (Statistics.Varied y → Statistics.Rescales y (Statistics.normalize y)) ∧
      (¬Statistics.Varied y → Statistics.normalize y = y) ∧
      Statistics.normalize (Statistics.normalize y) = Statistics.normalize y) ∧
    ∀ config host random s₀ steps m, Session.ofConfig config host random = .ok s₀ → Run ⟨s₀, false⟩ steps m →
      ∀ id target?,
      m.Fills (.normalize id target?) (target?.getD id) (Statistics.normalize <$> m.session.store.valuesOf id) ∧
      ∀ xs m' result, m.session.store.valuesOf id = .ok xs → Exchange.Calm m (.normalize id target?) m' result →
        id ≠ target?.getD id → m'.session.store.valuesOf id = .ok xs := by
  constructor
  · intro y
    exact ⟨Statistics.length_normalize y, fun i => Statistics.normalize_eq_blank_iff, Statistics.Varied.rescales,
      Statistics.normalize_of_not_varied, Statistics.normalize_normalize y⟩
  · intro config host random s₀ steps m hs₀ hrun id target?
    have hfills := Moment.fills_normalize (hrun.sound hs₀) id target?
    exact ⟨hfills, fun xs m' result hxs hcalm hid => hfills.values_of_ne hcalm hid hxs⟩

/-- A blank between two different values, in exact arithmetic and in a session where the
target has a client. -/
theorem Run.normalize_rescales_blankBetween :
    let y : List Unrounded := [.real 2, .blank, .real 4]
    let m := Moment.outcome ⟨.initial, false⟩ Moment.attended
    (Statistics.Varied y ∧ Statistics.Rescales y (Statistics.normalize y)) ∧
    ∃ m₁, Exchange.Calm m (.normalize ⟨1, 0⟩ (some ⟨0, 0⟩)) m₁ (.ok .done) ∧
      m₁.session.store.valuesOf ⟨0, 0⟩ = .ok [0.0, nan, 1.0] ∧
      m₁.session.store.valuesOf ⟨1, 0⟩ = .ok [2.0, nan, 4.0] := by
  intro y m
  obtain ⟨hexact, hruns⟩ := Run.normalize_rescales
  have hvaried : Statistics.Varied y :=
    ⟨2, by simp [Statistics.mem_reals, y], 4, by simp [Statistics.mem_reals, y], by norm_num⟩
  have hcalm : Exchange.Calm m (.normalize ⟨1, 0⟩ (some ⟨0, 0⟩)) _ (.ok .done) :=
    .of_work (n := 2) (by decide +kernel) (by decide +kernel) (by decide +kernel) (by decide +kernel)
  obtain ⟨hfills, hsource⟩ := hruns _ _ _ _ _ m Session.ofConfig_initial Moment.run_attended ⟨1, 0⟩ (some ⟨0, 0⟩)
  refine ⟨⟨hvaried, (hexact y).2.2.1 hvaried⟩, _, hcalm, ?_, ?_⟩
  · exact hfills.values_of_target (by decide +kernel) hcalm
  · exact hsource _ _ _ (by decide +kernel) hcalm (by decide)

end VectorEngine
