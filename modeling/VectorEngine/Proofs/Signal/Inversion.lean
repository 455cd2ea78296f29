/-
The signal of a spectrum is the signal the spectrum is of.

Half of the bins of a real signal tell the others, which are their mirror images,
and the number of bins kept tells the padded length. So the half spectrum a forward
transform keeps is completed to the whole spectrum, and the inverse transform gives
back the padded signal. Without bin 0 it gives it back less its mean.
-/
import VectorEngine.Proofs.Signal.Completion
import VectorEngine.Proofs.Signal.Weighting
import VectorEngine.Proofs.Outcome

namespace VectorEngine

open VectorEngine.Fourier ComplexConjugate

/-! ## The bins of a signal -/

/-- The signal that is transformed, blanks as zero, and zeros up to the padded
length. -/
noncomputable def paddedSignal (values : List Unrounded) : List ℝ :=
  values.map Unrounded.toReal ++ List.replicate (paddedLength values.length - values.length) 0

theorem length_paddedSignal (values : List Unrounded) : (paddedSignal values).length = paddedLength values.length := by
  have hle : values.length ≤ paddedLength values.length := (paddedLength_isLeast values.length).1.1
  simp [paddedSignal, hle]

/-- The samples of the padded signal by their position. -/
noncomputable def sampleAt (values : List Unrounded) (j : ℕ) : ℝ := (paddedSignal values).getD j 0

/-- What the Fourier transform makes of the samples. -/
noncomputable def spectrumAt (values : List Unrounded) (k : ℕ) : ℂ :=
  dft (root (paddedLength values.length))⁻¹ (paddedLength values.length) (fun j => sampleAt values j) k

variable {values : List Unrounded} {y : ℕ → ℂ}

namespace Fourier

theorem map_eq_points {l : List ℝ} {n : ℕ} (hn : l.length = n) (f : ℝ → ℝ) :
    (l.map fun t => (⟨.real (f t), .real 0⟩ : Phasor Unrounded)) = points n fun j => (f (l.getD j 0) : ℝ) := by
  refine List.ext_getElem (by simp [hn]) fun j hj hj' => ?_
  have hj : j < l.length := by simpa using hj
  simp [Phasor.ofComplex, hj]

end Fourier

theorem weightedAt_rectangular (padded j : ℕ) :
    weightedAt values (Window.rectangular.reals values.length padded) j = sampleAt values j := by
  rw [sampleAt, paddedSignal]
  by_cases hj : j < values.length
  · rw [weightedAt_of_lt hj (by simpa using hj), List.getD_append _ _ _ _ (by simpa using hj)]
    simp [Window.reals, Window.weightAt, hj]
  · have hj := Nat.not_lt.1 hj
    rw [weightedAt_of_le (by simp) hj, List.getD_append_right _ _ _ _ (by simpa using hj),
      List.getD_eq_getElem?_getD, List.getElem?_getD_replicate_default_eq]

/-- Under a rectangular window the samples are transformed as they are. -/
theorem weightedSpectrumAt_rectangular (values : List Unrounded) (padded : ℕ) :
    weightedSpectrumAt values (Window.rectangular.reals values.length padded) = spectrumAt values := by
  funext k
  simp only [weightedSpectrumAt, weightedAt_rectangular, spectrumAt]

/-- The parts of the bins kept. -/
theorem Spectrum.ofSignal_rectangular (hne : values ≠ []) (hreal : ∀ x ∈ values, Element.isInfinite x = false)
    {spacing : ℝ} (hspacing : 0 < spacing) (includeConstant fold : Bool) : ∃ x kept,
      ofSignal ⟨.rectangular, includeConstant, fold, .real spacing⟩ values = .ok x ∧
      x.real = kept.map Phasor.re ∧ x.imag = kept.map Phasor.im ∧
      kept = (points (paddedLength values.length / 2 + 1) (spectrumAt values)).drop
        (if includeConstant then 0 else 1) := by
  refine ⟨_, _, ofSignal_eq ⟨.rectangular, includeConstant, fold, .real spacing⟩ rfl hspacing hne hreal, ?_, ?_, rfl⟩
  · rw [weightedSpectrumAt_rectangular, points, ← List.map_drop, List.map_map]
    rfl
  · rw [weightedSpectrumAt_rectangular, points, ← List.map_drop, List.map_map]
    rfl

namespace HalfSpectrum

/-- The bins counted: all of them, or all but bin 0. -/
def counted (includesConstant : Bool) (y : ℕ → ℂ) (k : ℕ) : ℂ := if includesConstant || k != 0 then y k else 0

theorem ofParts_kept {includesConstant : Bool} {m : ℕ} (hm : includesConstant = false → 0 < m)
    {kept : List (Phasor Unrounded)} (hkept : kept = (points (m + 1) y).drop (if includesConstant then 0 else 1)) :
    ofParts includesConstant (kept.map Phasor.re) (some (kept.map Phasor.im)) =
      .ok ⟨points (m + 1) (counted includesConstant y)⟩ := by
  have hparts : (kept.map Phasor.re).zipWith (fun re im => (⟨known re, known im⟩ : Phasor Unrounded))
      (kept.map Phasor.im) = kept := by
    refine List.ext_getElem (by simp) fun j hj hj' => ?_
    simp [hkept, known, Phasor.ofComplex]
  have hnonempty : (kept.map Phasor.re).isEmpty = false := by
    have hlength : 0 < kept.length := by
      cases includesConstant with
      | false => simpa [hkept] using hm rfl
      | true => simp [hkept]
    rw [List.isEmpty_eq_false_iff]
    exact List.ne_nil_of_length_pos (by simpa using hlength)
  rw [ofParts, hnonempty]
  simp only [Bool.false_eq_true, if_false, Option.getD_some, List.length_map, ne_eq, not_true_eq_false, hparts]
  cases includesConstant with
  | true =>
    have hall : counted true y = y := by simp [counted, funext_iff]
    simp [hkept, hall]
  | false => simp [hkept, counted, points_succ, Phasor.ofComplex_zero]

variable {h : HalfSpectrum Unrounded} (level : ℕ)

theorem level_of_points (hbins : h.bins = points (2 ^ level / 2 + 1) y) : h.level = level := by
  rw [HalfSpectrum.level, hbins, length_points, Nat.add_sub_cancel, levelFor_half]

/-- Bins that are mirror images of each other are completed to all of them. -/
theorem full_of_points (hbins : h.bins = points (2 ^ level / 2 + 1) y)
    (hmirror : ∀ k, 0 < k → k < 2 ^ level → conj (y (2 ^ level - k)) = y k) : h.full = points (2 ^ level) y := by
  have hlevel := level_of_points level hbins
  have hread : ∀ k ≤ 2 ^ level / 2, h.bins.getD k .zero = .ofComplex (y k) := by
    intro k hk
    rw [hbins]
    simp [Nat.lt_succ_of_le hk]
  refine List.ext_getElem (by rw [length_full, hlevel, length_points]) fun k hk hk' => ?_
  have hk : k < 2 ^ level := by simpa using hk'
  rw [List.getElem_eq_getD .zero, getD_full h (by rwa [hlevel]), hlevel, getElem_points]
  split
  · next hlow => exact hread k hlow
  · next hhigh => rw [hread _ (by omega), Phasor.ofComplex_conj, hmirror k (by omega) hk]

theorem signal_of_points (hbins : h.bins = points (2 ^ level / 2 + 1) y)
    (hmirror : ∀ k, 0 < k → k < 2 ^ level → conj (y (2 ^ level - k)) = y k) :
    h.signal = points (2 ^ level) fun j => dft (root (2 ^ level)) (2 ^ level) y j / (2 ^ level : ℕ) := by
  have hlength : ((2 ^ level : ℕ) : ℝ) ≠ 0 := by positivity
  rw [signal, full_of_points level hbins hmirror, level_of_points level hbins, transform_points turns_inverse, points,
    points, List.map_map]
  refine List.map_congr_left fun j _ => ?_
  have hscale : (Element.one : Unrounded) / Element.ofNat (2 ^ level) = .real ((2 ^ level : ℕ) : ℝ)⁻¹ := by
    rw [Unrounded.one_eq, Unrounded.ofNat_eq, Unrounded.real_div hlength, one_div]
  change (⟨_ * (Element.one / Element.ofNat (2 ^ level)), _ * (Element.one / Element.ofNat (2 ^ level))⟩ :
    Phasor Unrounded) = _
  rw [hscale]
  simp only [Phasor.ofComplex, Unrounded.real_mul, Complex.div_natCast_re, Complex.div_natCast_im]
  rw [div_eq_mul_inv, div_eq_mul_inv]

/-! ## There and back -/

/-- Leaving bin 0 out takes its value from every point. -/
theorem dft_counted {ζ : ℂ} {n : ℕ} (hn : 0 < n) (y : ℕ → ℂ) (j : ℕ) :
    dft ζ n (counted false y) j = dft ζ n y j - y 0 := by
  obtain ⟨n, rfl⟩ := Nat.exists_eq_add_one.2 hn
  rw [dft, dft, Finset.sum_range_succ', Finset.sum_range_succ' _ n]
  simp [counted]

theorem counted_mirror {includesConstant : Bool} {n : ℕ} (hmirror : ∀ k, 0 < k → k < n → conj (y (n - k)) = y k) :
    ∀ k, 0 < k → k < n → conj (counted includesConstant y (n - k)) = counted includesConstant y k := by
  intro k hk hkn
  have hback : n - k ≠ 0 := by omega
  simp [counted, hk.ne', hback, hmirror k hk hkn]

/-- The bins of a real signal above the middle are the mirror images of those
below it. -/
theorem spectrumAt_mirror (values : List Unrounded) {k : ℕ} (hk : k < paddedLength values.length) :
    conj (spectrumAt values (paddedLength values.length - k)) = spectrumAt values k := by
  rw [← weightedSpectrumAt_rectangular values (paddedLength values.length)]
  exact weightedSpectrumAt_mirror values _ hk.le

/-- Bin 0 is the sum of the samples. -/
theorem spectrumAt_zero (values : List Unrounded) : spectrumAt values 0 = ((paddedSignal values).sum : ℝ) := by
  rw [spectrumAt, dft, ← length_paddedSignal, Finset.sum_range, ← Fin.sum_univ_getElem]
  simp only [mul_zero, pow_zero, one_mul, sampleAt, List.getD_eq_getElem _ _ (Fin.is_lt _)]
  push_cast
  rfl

/-- Transforming back and forth gives the samples. -/
theorem dft_spectrumAt (values : List Unrounded) {j : ℕ} (hj : j < paddedLength values.length) :
    dft (root (paddedLength values.length)) (paddedLength values.length) (spectrumAt values) j =
      (paddedLength values.length : ℕ) * sampleAt values j := by
  have hroot := (root_isPrimitiveRoot (paddedLength_pos values.length).ne').inv
  have hinverse := dft_inv_dft hroot (fun j => sampleAt values j) hj
  rwa [inv_inv] at hinverse

/-- The inverse transform of what a forward transform keeps. -/
theorem signal_kept (hne : values ≠ []) (hreal : ∀ x ∈ values, Element.isInfinite x = false) {spacing : ℝ}
    (hspacing : 0 < spacing) (includeConstant fold : Bool)
    (hlength : includeConstant = false → 2 ≤ paddedLength values.length) : ∃ x h,
      Spectrum.ofSignal ⟨.rectangular, includeConstant, fold, .real spacing⟩ values = .ok x ∧
      ofParts includeConstant x.real (some x.imag) = .ok h ∧
      h.signal = points (paddedLength values.length) fun j =>
        dft (root (paddedLength values.length)) (paddedLength values.length)
          (counted includeConstant (spectrumAt values)) j / (paddedLength values.length : ℕ) := by
  obtain ⟨x, kept, hx, hre, him, hkept⟩ := Spectrum.ofSignal_rectangular hne hreal hspacing includeConstant fold
  have hhalf : includeConstant = false → 0 < paddedLength values.length / 2 := fun hdropped => by
    have := hlength hdropped
    omega
  have hparts := ofParts_kept hhalf hkept
  rw [← hre, ← him] at hparts
  refine ⟨x, _, hx, hparts, ?_⟩
  exact signal_of_points (levelFor values.length) rfl (counted_mirror fun k _ hk => spectrumAt_mirror values hk)

/-- **The inverse transform undoes the forward transform.** The padded length is the
least power of two that holds the samples. With bin 0 the signal comes back as it
was, blanks as zero and padded with zeros; without it, less its mean. -/
theorem signal_ofSignal (hne : values ≠ []) (hreal : ∀ x ∈ values, Element.isInfinite x = false) {spacing : ℝ}
    (hspacing : 0 < spacing) (fold : Bool) :
    IsLeast {size | values.length ≤ size ∧ ∃ m, size = 2 ^ m} (paddedSignal values).length ∧
    (∃ x h, Spectrum.ofSignal ⟨.rectangular, true, fold, .real spacing⟩ values = .ok x ∧
      ofParts true x.real (some x.imag) = .ok h ∧
      h.signal = (paddedSignal values).map fun t => ⟨.real t, .real 0⟩) ∧
    (2 ≤ (paddedSignal values).length → ∃ x h,
      Spectrum.ofSignal ⟨.rectangular, false, fold, .real spacing⟩ values = .ok x ∧
      ofParts false x.real (some x.imag) = .ok h ∧
      h.signal = (paddedSignal values).map fun t =>
        ⟨.real (t - (paddedSignal values).sum / (paddedSignal values).length), .real 0⟩) := by
  have hsize := length_paddedSignal values
  have hpos : ((paddedLength values.length : ℕ) : ℂ) ≠ 0 := Nat.cast_ne_zero.2 (paddedLength_pos _).ne'
  refine ⟨hsize ▸ paddedLength_isLeast values.length, ?_, fun hlength => ?_⟩
  · obtain ⟨x, h, hx, hparts, hsignal⟩ := signal_kept hne hreal hspacing true fold (by simp)
    refine ⟨x, h, hx, hparts, ?_⟩
    rw [hsignal, map_eq_points hsize]
    refine points_congr fun j hj => ?_
    have hall : counted true (spectrumAt values) = spectrumAt values := by simp [counted, funext_iff]
    rw [hall, dft_spectrumAt values hj, mul_div_cancel_left₀ _ hpos]
    rfl
  · rw [hsize] at hlength ⊢
    obtain ⟨x, h, hx, hparts, hsignal⟩ := signal_kept hne hreal hspacing false fold fun _ => hlength
    refine ⟨x, h, hx, hparts, ?_⟩
    rw [hsignal, map_eq_points hsize]
    refine points_congr fun j hj => ?_
    rw [dft_counted (paddedLength_pos _), dft_spectrumAt values hj, spectrumAt_zero, sub_div,
      mul_div_cancel_left₀ _ hpos]
    push_cast
    rfl

/-- Three samples, one of them blank, come back as four. -/
theorem signal_ofSignal_blank :
    let values : List Unrounded := [.real 1, .blank, .real 3]
    paddedSignal values = [1, 0, 3, 0] ∧
    (∃ x h, Spectrum.ofSignal ⟨.rectangular, true, true, .real 1⟩ values = .ok x ∧
      ofParts true x.real (some x.imag) = .ok h ∧
      h.signal = ([1, 0, 3, 0] : List ℝ).map fun t => ⟨.real t, .real 0⟩) ∧
    ∃ x h, Spectrum.ofSignal ⟨.rectangular, false, true, .real 1⟩ values = .ok x ∧
      ofParts false x.real (some x.imag) = .ok h ∧
      h.signal = ([0, -1, 2, -1] : List ℝ).map fun t => ⟨.real t, .real 0⟩ := by
  intro values
  have hpadded : paddedSignal values = [1, 0, 3, 0] := by
    have hlength : paddedLength 3 = 4 := by decide
    simp [values, paddedSignal, hlength, Unrounded.toReal]
  have hne : values ≠ [] := by simp [values]
  have hreal : ∀ x ∈ values, Element.isInfinite x = false := by
    simp [values, Element.isInfinite, Element.isFinite, Element.isBlank]
  obtain ⟨-, hall, hdropped⟩ := signal_ofSignal hne hreal one_pos true
  rw [hpadded] at hall hdropped
  refine ⟨hpadded, hall, ?_⟩
  obtain ⟨x, h, hx, hparts, hsignal⟩ := hdropped (by decide)
  refine ⟨x, h, hx, hparts, hsignal.trans ?_⟩
  norm_num

end HalfSpectrum
end VectorEngine
