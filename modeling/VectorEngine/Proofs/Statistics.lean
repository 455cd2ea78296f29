/-
What statistics see of a vector.

Every statistic reads the elements through the finite ones, however often it goes
through them, so it tells two vectors apart only by those. The extrema and the
quartiles do not even see their order: sorting either of two rearrangements gives, at
every position, the same number (`ranks_sortedFinite`).
-/
import VectorEngine.Proofs.Arrangement
import VectorEngine.Proofs.Extrema
import VectorEngine.Proofs.Number.Zeros

namespace VectorEngine
namespace Statistics

/-! ## Finite elements -/

section Finite

variable {α : Type} [Element α] {y z : List α}

theorem finite_finite (y : List α) : finite (finite y) = finite y := by simp [finite]

/-- What is not finite is left out, wherever it is. -/
theorem finite_insert {odd : List α} (h : ∀ x ∈ odd, Element.isFinite x = false) (front back : List α) :
    finite (front ++ odd ++ back) = finite (front ++ back) := by
  have hodd : odd.filter Element.isFinite = [] := List.filter_eq_nil_iff.2 fun x hx => Bool.eq_false_iff.1 (h x hx)
  rw [finite, finite, List.filter_append, List.filter_append, hodd, List.append_nil, List.filter_append]

theorem mean_congr (h : finite y = finite z) : mean y = mean z := by rw [mean, mean, sum, sum, h]

theorem deviations_congr (h : finite y = finite z) : deviations y = deviations z := by
  rw [deviations, deviations, mean_congr h, h]

theorem variance_congr (h : finite y = finite z) : variance y = variance z := by
  rw [variance, variance, deviations_congr h, h]

theorem cut_congr (h : finite y = finite z) (place : ℕ → Cut) : cut place y = cut place z := by
  rw [cut, cut, sortedFinite, sortedFinite, h]

/-- **Statistics tell vectors apart by their finite elements only.** -/
theorem evaluate_congr (h : finite y = finite z) (s : Statistic) : s.evaluate y = s.evaluate z := by
  have hvariance := variance_congr h
  have hdeviations := deviations_congr h
  cases s with
  | sum => exact congrArg total h
  | product => exact congrArg (List.foldl (· * ·) Element.one) h
  | mean => exact mean_congr h
  | variance => exact hvariance
  | deviation => simp only [Statistic.evaluate, deviation, hvariance]
  | meanDeviation => simp only [Statistic.evaluate, meanDeviation, hdeviations, h]
  | skewness => simp only [Statistic.evaluate, skewness, hvariance, hdeviations, h]
  | kurtosis => simp only [Statistic.evaluate, kurtosis, hvariance, hdeviations, h]
  | median | lowerQuartile | upperQuartile => exact cut_congr h _
  | min => simp only [Statistic.evaluate, min, h]
  | max => simp only [Statistic.evaluate, max, h]

end Finite

/-! ## Rearranged doubles -/

variable {y z : List Float}

theorem isLE_rank {a b : Float} (ha : a.isFinite = true) (hb : b.isFinite = true) :
    (!Element.less b a) = (compareRanks (floatRank a) (floatRank b)).isLE := by
  have hless : b < a ↔ compareRanks (floatRank a) (floatRank b) = .gt :=
    (less_iff_rank (isNaN_of_isFinite hb) (isNaN_of_isFinite ha)).trans Std.OrientedCmp.gt_iff_lt.symm
  simp only [less_float, hless]
  cases compareRanks (floatRank a) (floatRank b) <;> rfl

/-- Neither is less than the other, so they are one number. -/
theorem sameNumber_of_not_less {a b : Float} (ha : a.isFinite = true) (hb : b.isFinite = true)
    (hab : Element.less a b = false) (hba : Element.less b a = false) : SameNumber a b := by
  have hle := isLE_rank ha hb
  have hge := isLE_rank hb ha
  rw [hba, Bool.not_false] at hle
  rw [hab, Bool.not_false] at hge
  exact sameNumber_iff_rank.2 (compareRanks_eq_iff.1 (Std.OrientedCmp.isLE_antisymm hle.symm hge.symm))

/-- The ranks of the sorted elements are the sorted ranks of the elements. -/
theorem ranks_sortedFinite (y : List Float) : (sortedFinite y).map floatRank =
    ((finite y).map floatRank).mergeSort fun p q => (compareRanks p q).isLE :=
  List.map_mergeSort fun _ ha _ hb => isLE_rank (finite_of_mem ha) (finite_of_mem hb)

/-- Rearranged elements have the same sorted ranks, since only equal ranks are in order both ways. -/
theorem ranks_sortedFinite_congr (h : (finite y).Perm (finite z)) :
    (sortedFinite y).map floatRank = (sortedFinite z).map floatRank := by
  rw [ranks_sortedFinite, ranks_sortedFinite]
  have hsorted (ranks : List (Int × Int × Int)) :
      Arranges compareRanks ranks (ranks.mergeSort fun p q => (compareRanks p q).isLE) := arranges_mergeSort ranks
  refine List.Perm.eq_of_pairwise (fun p q _ _ hpq hqp => ?_) (hsorted _).increasing (hsorted _).increasing ?_
  · exact compareRanks_eq_iff.1 (Std.OrientedCmp.isLE_antisymm hpq hqp)
  · exact (hsorted _).perm.trans ((h.map floatRank).trans (hsorted _).perm.symm)

/-- At every position the sorted elements of one and the other are one number. -/
theorem sameNumber_getD (h : (finite y).Perm (finite z)) (i : ℕ) :
    SameNumber ((sortedFinite y).getD i Element.blank) ((sortedFinite z).getD i Element.blank) := by
  rw [sameNumber_iff_rank, ← List.getD_map _ _ floatRank, ← List.getD_map _ _ floatRank, ranks_sortedFinite_congr h]

theorem sameNumber_cut (h : (finite y).Perm (finite z)) (place : ℕ → Cut) :
    SameNumber (cut place y) (cut place z) := by
  have hlength : (sortedFinite y).length = (sortedFinite z).length := by
    simpa [sortedFinite] using h.length_eq
  unfold cut
  dsimp only
  rw [hlength]
  split
  · exact .inl rfl
  · cases place (sortedFinite z).length with
    | element i => exact sameNumber_getD h i
    | between i => exact ((sameNumber_getD h i).add (sameNumber_getD h (i + 1))).mul (.inl rfl)

theorem sameNumber_min (h : (finite y).Perm (finite z)) : SameNumber (min y) (min z) := by
  by_cases hy : finite y = []
  · rw [min_blank hy, min_blank (List.nil_perm.1 (hy ▸ h))]
    exact .inl rfl
  · have hz : finite z ≠ [] := fun hz => hy (List.perm_nil.1 (hz ▸ h))
    obtain ⟨hminY, hleastY⟩ := min_spec float_ranks hy
    obtain ⟨hminZ, hleastZ⟩ := min_spec float_ranks hz
    exact sameNumber_of_not_less (finite_of_mem hminY) (finite_of_mem hminZ) (hleastZ _ (h.mem_iff.1 hminY))
      (hleastY _ (h.mem_iff.2 hminZ))

theorem sameNumber_max (h : (finite y).Perm (finite z)) : SameNumber (max y) (max z) := by
  by_cases hy : finite y = []
  · rw [max_blank hy, max_blank (List.nil_perm.1 (hy ▸ h))]
    exact .inl rfl
  · have hz : finite z ≠ [] := fun hz => hy (List.perm_nil.1 (hz ▸ h))
    obtain ⟨hmaxY, hgreatestY⟩ := max_spec float_ranks hy
    obtain ⟨hmaxZ, hgreatestZ⟩ := max_spec float_ranks hz
    exact sameNumber_of_not_less (finite_of_mem hmaxY) (finite_of_mem hmaxZ) (hgreatestY _ (h.mem_iff.2 hmaxZ))
      (hgreatestZ _ (h.mem_iff.1 hmaxY))

end Statistics

/-! ## Each of the statistics -/

/-- **Statistics see the finite values, and order statistics only which they are.** A
statistic of a vector is that of its finite values, so blanks and infinities put in or
taken out anywhere change nothing. The extrema and the quartiles are the same number for
every rearrangement of the finite values. -/
theorem Statistic.sees_finite_values (y : List Float) :
    (∀ s : Statistic, s.evaluate y = s.evaluate (Statistics.finite y)) ∧
    (∀ (s : Statistic) (front odd back : List Float), y = front ++ odd ++ back → (∀ x ∈ odd, x.isFinite = false) →
      s.evaluate y = s.evaluate (front ++ back)) ∧
    ∀ s ∈ [min, max, median, lowerQuartile, upperQuartile], ∀ z : List Float,
      (Statistics.finite y).Perm (Statistics.finite z) → SameNumber (s.evaluate y) (s.evaluate z) := by
  refine ⟨fun s => ?_, ?_, ?_⟩
  · exact Statistics.evaluate_congr (Statistics.finite_finite y).symm s
  · rintro s front odd back rfl hodd
    exact Statistics.evaluate_congr (Statistics.finite_insert hodd front back) s
  · intro s hs z h
    simp only [List.mem_cons, List.not_mem_nil, or_false] at hs
    obtain rfl | rfl | rfl | rfl | rfl := hs
    · exact Statistics.sameNumber_min h
    · exact Statistics.sameNumber_max h
    · exact Statistics.sameNumber_cut h Statistics.medianCut
    · exact Statistics.sameNumber_cut h Statistics.lowerCut
    · exact Statistics.sameNumber_cut h Statistics.upperCut

/-- Of two equal numbers the first is the smallest: a positive zero of the one list, a
negative one of the other. -/
theorem Statistic.sees_finite_values_zeros :
    let y : List Float := [0.0, nan, 3.0, -0.0, 1.0, infinite true]
    let z : List Float := [3.0, -0.0, 1.0, 0.0]
    (Statistics.finite y).Perm (Statistics.finite z) ∧ min.evaluate y = 0.0 ∧ min.evaluate z = -0.0 ∧
      (∀ s ∈ [min, max, median, lowerQuartile, upperQuartile], SameNumber (s.evaluate y) (s.evaluate z)) ∧
      variance.evaluate y = variance.evaluate [0.0, nan, 3.0, -0.0, 1.0] := by
  intro y z
  have hperm : (Statistics.finite y).Perm (Statistics.finite z) := by decide +kernel
  obtain ⟨-, hinsert, horder⟩ := Statistic.sees_finite_values y
  refine ⟨hperm, by decide +kernel, by decide +kernel, fun s hs => horder s hs z hperm, ?_⟩
  exact hinsert variance [0.0, nan, 3.0, -0.0, 1.0] [infinite true] [] rfl (by decide +kernel)

end VectorEngine
