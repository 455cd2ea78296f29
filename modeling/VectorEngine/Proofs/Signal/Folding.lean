/-
The total of a folded spectrum.

Folding counts a bin strictly between bin 0 and the middle twice, once for its mirror
image. Bin 0 and the middle bin are their own mirror images, so what is reported adds
up to the magnitudes of all bins over the norm (`sum_magnitude_folded`).
-/
import VectorEngine.Proofs.Signal.Weighting

namespace VectorEngine

open VectorEngine.Fourier

/-- Numbers that read the same backwards after the first, each counted once up to the
middle and once more for its mirror image. -/
theorem sum_folded {n : ℕ} (heven : n = 1 ∨ n % 2 = 0) (hpos : 0 < n) {a : ℕ → ℝ}
    (hmirror : ∀ k < n, a (n - k) = a k) :
    ∑ k ∈ Finset.range (n / 2 + 1), (if 0 < k ∧ k < n / 2 then a k * 2 else a k) = ∑ k ∈ Finset.range n, a k := by
  obtain rfl | ⟨m, rfl⟩ : n = 1 ∨ ∃ m, n = 2 * (m + 1) := by
    rcases heven with hone | heven
    · exact .inl hone
    · exact .inr ⟨n / 2 - 1, by omega⟩
  · simp
  -- Between bin 0 and the middle lie `m` bins, and as many above it.
  have hbelow : ∑ k ∈ Finset.range m, (if 0 < k + 1 ∧ k + 1 < m + 1 then a (k + 1) * 2 else a (k + 1)) =
      ∑ k ∈ Finset.range m, a (k + 1) * 2 :=
    Finset.sum_congr rfl fun k hk => if_pos ⟨Nat.succ_pos k, by rw [Finset.mem_range] at hk; omega⟩
  have habove : ∑ k ∈ Finset.range m, a (m + 2 + k) = ∑ k ∈ Finset.range m, a (k + 1) := by
    rw [← Finset.sum_range_reflect]
    refine Finset.sum_congr rfl fun k hk => ?_
    rw [Finset.mem_range] at hk
    rw [← hmirror (k + 1) (by omega)]
    congr 1
    omega
  have hall : 2 * (m + 1) = m + 2 + m := by omega
  rw [Nat.mul_div_cancel_left _ two_pos, Finset.sum_range_succ, Finset.sum_range_succ', hbelow, hall,
    Finset.sum_range_add, habove, Finset.sum_range_succ, Finset.sum_range_succ', ← Finset.sum_mul]
  simp only [lt_irrefl, false_and, and_false, if_false]
  ring

/-- One entry for each of `n` bins. -/
structure Spectrum.HasLength {α : Type} (x : Spectrum α) (n : ℕ) : Prop where
  real : x.real.length = n
  imag : x.imag.length = n
  magnitude : x.magnitude.length = n
  phase : x.phase.length = n
  frequency : x.frequency.length = n

variable {values : List Unrounded}

/-- A bin and its mirror image are of one magnitude, and the middle of the padded length
is a bin of its own unless there is only bin 0. -/
theorem sum_reportedAt (values : List Unrounded) (weights : List ℝ) (norm : ℝ) :
    let padded := paddedLength values.length
    ∑ k ∈ Finset.range (padded / 2 + 1), Spectrum.reportedAt true norm padded k (weightedSpectrumAt values weights k) =
      (∑ k ∈ Finset.range padded, ‖weightedSpectrumAt values weights k‖) / norm := by
  intro padded
  have heven : padded = 1 ∨ padded % 2 = 0 := two_pow_one_or_even (levelFor values.length)
  have hmirror : ∀ k < padded, ‖weightedSpectrumAt values weights (padded - k)‖ / norm =
      ‖weightedSpectrumAt values weights k‖ / norm := by
    intro k hk
    rw [← weightedSpectrumAt_mirror values weights hk.le, Complex.norm_conj]
  rw [Finset.sum_div, ← sum_folded heven (paddedLength_pos _) hmirror]
  refine Finset.sum_congr rfl fun k _ => ?_
  simp only [Spectrum.reportedAt, Bool.true_and, Bool.and_eq_true, decide_eq_true_eq, Nat.cast_ofNat]

/-- **Normalising and folding keep the total.** The weights lie between zero and one and
what magnitudes are divided by is positive: the padded length, or the sum of the weights
of a tapered window. There is an entry for each bin up to the middle, and the magnitudes
reported add up to those of all bins, divided. -/
theorem Spectrum.sum_magnitude_folded (window : Window) (hne : values ≠ [])
    (hreal : ∀ x ∈ values, Element.isInfinite x = false) {spacing : ℝ} (hspacing : 0 < spacing) :
    let padded := paddedLength values.length
    ∃ weights norm, window.Normalizes values.length padded weights norm ∧
      ∃ (x : Spectrum Unrounded) (magnitudes : List ℝ), ofSignal ⟨window, true, true, .real spacing⟩ values = .ok x ∧
        x.padded = padded ∧ x.HasLength (padded / 2 + 1) ∧ x.magnitude = magnitudes.map Unrounded.real ∧
        magnitudes.sum = (∑ k ∈ Finset.range padded, ‖weightedSpectrumAt values weights k‖) / norm := by
  intro padded
  let weights := window.reals values.length padded
  let norm := window.realNorm values.length padded
  refine ⟨weights, norm, window.normalizes (List.length_pos_iff.2 hne).ne', _,
    (List.range (padded / 2 + 1)).map fun k => reportedAt true norm padded k (weightedSpectrumAt values weights k),
    ofSignal_eq ⟨window, true, true, .real spacing⟩ rfl hspacing hne hreal, rfl, ?_, ?_, ?_⟩
  · constructor
    all_goals simp [padded]
  · rw [List.map_map]
    rfl
  · exact sum_reportedAt values weights norm

/-- Three samples, one of them blank, under a tapered window: the weights are 0, 1/2 and
1, and the four bins of magnitude 3 add up to 8 over their sum. -/
theorem Spectrum.sum_magnitude_folded_tapered :
    ∃ (x : Spectrum Unrounded) (magnitudes : List ℝ),
      ofSignal ⟨.bartlett, true, true, .real 1⟩ [.real 1, .blank, .real 3] = .ok x ∧ x.HasLength 3 ∧
      x.magnitude = magnitudes.map Unrounded.real ∧ magnitudes.sum = 8 := by
  have hlength : paddedLength 3 = 4 := by decide
  have hne : ([.real 1, .blank, .real 3] : List Unrounded) ≠ [] := by simp
  obtain ⟨weights, norm, hnorm, x, magnitudes, hx, -, hcount, hmagnitudes, hsum⟩ := sum_magnitude_folded .bartlett hne
    (by simp [Element.isInfinite, Element.isFinite, Element.isBlank]) one_pos
  have hweights : weights = [0, 1 / 2, 1] := by
    have hreals := (Window.weights_eq .bartlett _ _).symm.trans hnorm.weights_eq
    refine (List.map_injective_iff.2 (fun a b => Unrounded.real.inj) hreals).symm.trans ?_
    norm_num [Window.reals, Window.weightAt, hlength, List.range_succ]
  have hthree : norm = 3 / 2 := by
    rw [hnorm.bartlett rfl (by decide), hweights]
    norm_num
  have hunit : ‖(root 4)⁻¹‖ = 1 :=
    Complex.norm_eq_one_of_pow_eq_one (turns_forward.pow_eq_one four_ne_zero) four_ne_zero
  have hbin : ∀ k, ‖weightedSpectrumAt [.real 1, .blank, .real 3] weights k‖ = 3 := by
    intro k
    have hvalue : weightedSpectrumAt [.real 1, .blank, .real 3] weights k = (root 4)⁻¹ ^ (2 * k) * 3 := by
      simp [weightedSpectrumAt, hlength, dft, Finset.sum_range_succ, weightedAt, hweights]
    rw [hvalue, norm_mul, norm_pow, hunit, one_pow, one_mul, Complex.norm_ofNat]
  refine ⟨x, magnitudes, hx, hcount, hmagnitudes, hsum.trans ?_⟩
  simp only [hbin, hthree, List.length_cons, List.length_nil, hlength]
  norm_num

end VectorEngine
