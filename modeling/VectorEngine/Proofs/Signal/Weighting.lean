/-
Weighted signals.

Over unrounded numbers the weights of a window are real numbers from zero to one,
the norm is a positive real number, and the bins of a signal are the discrete Fourier
transform of the weighted samples, blanks as zero and padded with zeros.
-/
import VectorEngine.Proofs.Signal.Transform
import VectorEngine.Signal.Spectrum

namespace VectorEngine

open VectorEngine.Fourier ComplexConjugate

/-! ## Weights -/

namespace Window

/-- The weight of sample `i` of a signal padded to `padded`. A tapered window leaves
a single sample alone. -/
noncomputable def weightAt (w : Window) (padded i : ℕ) : ℝ :=
  match w with
  | rectangular => 1
  | bartlett => if padded < 2 then 1 else 1 - |((2 : ℕ) * i / padded - 1 : ℝ)|

/-- The weights of `length` samples as real numbers. -/
noncomputable def reals (w : Window) (length padded : ℕ) : List ℝ := (List.range length).map (w.weightAt padded)

variable {w : Window} {length padded i : ℕ}

@[simp] theorem length_reals : (w.reals length padded).length = length := by simp [reals]

theorem weightAt_bartlett (hpadded : 2 ≤ padded) : bartlett.weightAt padded i = 1 - |(2 * i / padded - 1 : ℝ)| := by
  rw [weightAt, if_neg hpadded.not_gt, Nat.cast_ofNat]

theorem weights_eq (w : Window) (length padded : ℕ) :
    w.weights length padded = (w.reals length padded).map Unrounded.real := by
  rw [reals, List.map_map]
  cases w with
  | rectangular => simp [weights, weightAt, Function.comp_def]
  | bartlett =>
    by_cases hshort : padded < 2
    · simp [weights, weightAt, hshort, Function.comp_def]
    simp only [weights, hshort, if_false]
    refine List.map_congr_left fun i _ => ?_
    have hpos : (padded : ℝ) ≠ 0 := Nat.cast_ne_zero.2 (by omega)
    have hmiddle : (padded * (1 / 2) : ℝ) ≠ 0 := by positivity
    have hplace : ((i : ℝ) - padded * (1 / 2)) / (padded * (1 / 2)) = 2 * i / padded - 1 := by
      field_simp
    simp only [Function.comp_apply, weightAt_bartlett (Nat.not_lt.1 hshort), ← hplace, Unrounded.one_eq,
      Unrounded.ofNat_eq, Unrounded.half_eq, Unrounded.real_mul, Unrounded.real_sub, Unrounded.real_div hmiddle,
      Unrounded.abs_real]

/-- No sample lies farther from the middle than the first one does. -/
theorem weightAt_mem_Icc (w : Window) (hi : i ≤ padded) : w.weightAt padded i ∈ Set.Icc 0 1 := by
  cases w with
  | rectangular => simp [weightAt]
  | bartlett =>
    by_cases hshort : padded < 2
    · simp [weightAt, hshort]
    have hpos : (0 : ℝ) < padded := Nat.cast_pos.2 (by omega)
    have hplace : 2 * (i : ℝ) / padded ≤ 2 := by
      rw [div_le_iff₀ hpos]
      exact mul_le_mul_of_nonneg_left (Nat.cast_le.2 hi) zero_le_two
    have hstart : (0 : ℝ) ≤ 2 * i / padded := by positivity
    rw [weightAt_bartlett (Nat.not_lt.1 hshort), Set.mem_Icc, sub_nonneg, sub_le_self_iff]
    exact ⟨abs_le.2 ⟨by linarith, by linarith⟩, abs_nonneg _⟩

theorem reals_mem_Icc (hlength : length ≤ padded) : ∀ x ∈ w.reals length padded, x ∈ Set.Icc (0 : ℝ) 1 := by
  intro x hx
  obtain ⟨i, hi, rfl⟩ := List.mem_map.1 hx
  exact weightAt_mem_Icc w (by rw [List.mem_range] at hi; omega)

/-- **Weights fill a place that fits the padded length**, one for every sample and from
zero to one; a longer one is refused. -/
theorem weightsInto_eq (w : Window) (length padded : ℕ) :
    (length ≤ padded → ∃ weights : List ℝ, weights.length = length ∧ (∀ x ∈ weights, x ∈ Set.Icc (0 : ℝ) 1) ∧
      w.weightsInto length padded = .ok (weights.map Unrounded.real)) ∧
    (padded < length → (w.weightsInto length padded : Except InputError (List Unrounded)) =
      .error (.lengthMismatch "out" padded length)) := by
  refine ⟨fun hfits => ⟨w.reals length padded, length_reals, reals_mem_Icc hfits, ?_⟩, fun hlong => if_pos hlong⟩
  rw [weightsInto, if_neg hfits.not_gt, weights_eq]

/-- Some sample counts: the second one under a tapered window, unless there is only
one. -/
theorem exists_weightAt_pos (w : Window) (hlength : length ≠ 0) (hsecond : 2 ≤ padded → 2 ≤ length) :
    ∃ i < length, 0 < w.weightAt padded i := by
  have hfirst : 0 < length := Nat.pos_of_ne_zero hlength
  cases w with
  | rectangular => exact ⟨0, hfirst, one_pos⟩
  | bartlett =>
    by_cases hshort : padded < 2
    · exact ⟨0, hfirst, by simp [weightAt, hshort]⟩
    have htwo : (2 : ℝ) ≤ padded := Nat.ofNat_le_cast.2 (Nat.not_lt.1 hshort)
    have hplace : 2 / (padded : ℝ) ≤ 1 := (div_le_one (by linarith)).2 htwo
    have hstart : 0 < 2 / (padded : ℝ) := by positivity
    refine ⟨1, hsecond (Nat.not_lt.1 hshort), ?_⟩
    rw [weightAt_bartlett (Nat.not_lt.1 hshort), Nat.cast_one, mul_one, sub_pos, abs_lt]
    exact ⟨by linarith, by linarith⟩

/-- What the weights of a signal of `length` samples are divided by. -/
noncomputable def realNorm (w : Window) (length padded : ℕ) : ℝ :=
  match w with
  | rectangular => padded
  | bartlett => (bartlett.reals length padded).sum

theorem foldl_add_real (l : List ℝ) (x : ℝ) : (l.map Unrounded.real).foldl (· + ·) (.real x) = .real (x + l.sum) := by
  induction l generalizing x with
  | nil => simp
  | cons y l ih => rw [List.map_cons, List.foldl_cons, Unrounded.real_add, ih, List.sum_cons, add_assoc]

/-- The weights and the norm for `length` samples: what is divided by is positive, and
is the sum of the weights of a tapered window. -/
structure Normalizes (w : Window) (length padded : ℕ) (weights : List ℝ) (norm : ℝ) : Prop where
  length_eq : weights.length = length
  weights_eq : w.weights length padded = weights.map Unrounded.real
  mem_Icc : ∀ x ∈ weights, x ∈ Set.Icc (0 : ℝ) 1
  norm_eq : w.norm (weights.map Unrounded.real) padded = .real norm
  norm_pos : 0 < norm
  rectangular : w = .rectangular → norm = padded
  bartlett : w = .bartlett → 2 ≤ padded → norm = weights.sum

theorem normalizes (w : Window) (hlength : length ≠ 0) :
    w.Normalizes length (paddedLength length) (w.reals length (paddedLength length))
      (w.realNorm length (paddedLength length)) := by
  have hroom : length ≤ paddedLength length := (paddedLength_isLeast length).1.1
  have hsecond : 2 ≤ paddedLength length → 2 ≤ length := by
    intro hpadded
    by_contra hone
    obtain rfl : length = 1 := by omega
    exact absurd hpadded (by decide)
  have hmem := reals_mem_Icc (w := w) hroom
  have hsum : 0 < (w.reals length (paddedLength length)).sum := by
    obtain ⟨i, hi, hpos⟩ := exists_weightAt_pos w hlength hsecond
    refine hpos.trans_le (List.single_le_sum (fun x hx => (hmem x hx).1) _ ?_)
    exact List.mem_map_of_mem (List.mem_range.2 hi)
  constructor
  case length_eq => exact length_reals
  case weights_eq => exact Window.weights_eq w _ _
  case mem_Icc => exact hmem
  case norm_eq =>
    cases w with
    | rectangular => rfl
    | bartlett =>
      rw [norm, Unrounded.zero_eq, foldl_add_real, zero_add]
      simp [realNorm, hsum]
  case norm_pos =>
    cases w with
    | rectangular => exact Nat.cast_pos.2 (paddedLength_pos length)
    | bartlett => exact hsum
  case rectangular => exact fun hw => by rw [hw, realNorm]
  case bartlett => exact fun hw _ => by rw [hw, realNorm]

end Window

/-! ## The bins of a weighted signal -/

/-- The samples times their weights, blanks as zero, by their position. -/
noncomputable def weightedAt (values : List Unrounded) (weights : List ℝ) (j : ℕ) : ℝ :=
  (values.zipWith (fun x w => x.toReal * w) weights).getD j 0

/-- What the Fourier transform makes of the weighted samples. -/
noncomputable def weightedSpectrumAt (values : List Unrounded) (weights : List ℝ) (k : ℕ) : ℂ :=
  dft (root (paddedLength values.length))⁻¹ (paddedLength values.length) (fun j => weightedAt values weights j) k

variable {values : List Unrounded} {weights : List ℝ}

theorem weightedAt_of_le (hlength : values.length ≤ weights.length) {j : ℕ} (hj : values.length ≤ j) :
    weightedAt values weights j = 0 := by
  refine List.getD_eq_default _ _ ?_
  rw [List.length_zipWith]
  omega

theorem weightedAt_of_lt {j : ℕ} (hj : j < values.length) (hw : j < weights.length) :
    weightedAt values weights j = values[j].toReal * weights[j] := by
  rw [weightedAt, List.getD_eq_getElem _ _ (by simp [hj, hw]), List.getElem_zipWith]

/-- The bins of a real signal above the middle are the mirror images of those
below it. -/
theorem weightedSpectrumAt_mirror (values : List Unrounded) (weights : List ℝ) {k : ℕ}
    (hk : k ≤ paddedLength values.length) :
    conj (weightedSpectrumAt values weights (paddedLength values.length - k)) =
      weightedSpectrumAt values weights k := by
  have hn := (paddedLength_pos values.length).ne'
  rw [weightedSpectrumAt, conj_dft (turns_forward.pow_eq_one hn) hn _ (Nat.sub_le _ _), Nat.sub_sub_self hk]
  rfl

namespace Spectrum

/-- The samples that are transformed. -/
theorem prepare_points (hreal : ∀ x ∈ values, Element.isInfinite x = false) (hlength : weights.length = values.length)
    {padded : ℕ} (hpadded : values.length ≤ padded) :
    prepare values (weights.map Unrounded.real) padded = points padded fun j => weightedAt values weights j := by
  have hsamples : values.zipWith (fun x w => if Element.isBlank x then Phasor.zero else .ofReal (x * w))
      (weights.map Unrounded.real) = points values.length fun j => weightedAt values weights j := by
    refine List.ext_getElem (by simp [hlength]) fun j hj hj' => ?_
    have hj : j < values.length := by simpa using hj'
    have hsample := hreal values[j] (List.getElem_mem hj)
    rw [List.getElem_zipWith, getElem_points, weightedAt_of_lt hj (hlength ▸ hj), List.getElem_map]
    cases hx : values[j] with
    | real x => simp [Phasor.ofReal, Phasor.ofComplex]
    | infinite negative =>
      rw [hx] at hsample
      cases hsample
    | blank => simp [Phasor.zero, Phasor.ofComplex, Element.isBlank]
  have hrest : List.replicate (padded - values.length) Phasor.zero =
      points (padded - values.length) fun j => weightedAt values weights (values.length + j) := by
    refine List.ext_getElem (by simp) fun j hj hj' => ?_
    rw [List.getElem_replicate, getElem_points, weightedAt_of_le hlength.ge (Nat.le_add_right _ _), Complex.ofReal_zero,
      Phasor.ofComplex_zero]
  rw [prepare, hsamples, length_points, hrest, ← points_append, Nat.add_sub_cancel' hpadded]

/-- The bins are the Fourier transform of the weighted samples. -/
theorem bins_points (window : Window) (hreal : ∀ x ∈ values, Element.isInfinite x = false) :
    bins window values = points (paddedLength values.length)
      (weightedSpectrumAt values (window.reals values.length (paddedLength values.length))) := by
  rw [bins, Window.weights_eq, prepare_points hreal Window.length_reals (paddedLength_isLeast _).1.1]
  exact transform_points turns_forward (levelFor values.length) _

/-- The magnitude reported for bin `k` when it is `z`. -/
noncomputable def reportedAt (fold : Bool) (norm : ℝ) (padded k : ℕ) (z : ℂ) : ℝ :=
  if fold && 0 < k && k < padded / 2 then ‖z‖ / norm * (2 : ℕ) else ‖z‖ / norm

theorem reported_ofComplex {norm : ℝ} (hnorm : norm ≠ 0) (fold : Bool) (padded k : ℕ) (z : ℂ) :
    reported fold (.real norm) padded k (.ofComplex z) = .real (reportedAt fold norm padded k z) := by
  rw [reported, reportedAt, Phasor.magnitude_ofComplex, Unrounded.real_div hnorm, apply_ite Unrounded.real]
  rfl

/-- **What a forward transform reports**, bin by bin. -/
theorem ofSignal_eq (options : SpectrumOptions Unrounded) {spacing : ℝ} (hspacing : options.spacing = .real spacing)
    (hpos : 0 < spacing) (hne : values ≠ []) (hreal : ∀ x ∈ values, Element.isInfinite x = false) :
    let padded := paddedLength values.length
    let bin := weightedSpectrumAt values (options.window.reals values.length padded)
    let kept := (List.range (padded / 2 + 1)).drop (if options.includeConstant then 0 else 1)
    ofSignal options values = .ok {
      padded := padded
      real := kept.map fun k => .real (bin k).re
      imag := kept.map fun k => .real (bin k).im
      magnitude := kept.map fun k =>
        .real (reportedAt options.fold (options.window.realNorm values.length padded) padded k (bin k))
      phase := kept.map fun k => .real (bin k).arg
      frequency := kept.map fun k : ℕ => .real (k * (1 / (spacing * padded))) } := by
  intro padded bin kept
  have hlength : 0 < padded := paddedLength_pos _
  have hcheck : options.check = .ok () := by simp [SpectrumOptions.check, hspacing, hpos]
  have hsome : values.isEmpty = false := List.isEmpty_eq_false_iff.2 hne
  have hnorm := options.window.normalizes (List.length_pos_iff.2 hne).ne'
  have hkept : ((bins options.window values).zipIdx.take (padded / 2 + 1)).drop
      (if options.includeConstant then 0 else 1) = kept.map fun k => (Phasor.ofComplex (bin k), k) := by
    rw [List.map_drop, bins_points options.window hreal]
    congr 1
    rw [show paddedLength values.length = padded from rfl]
    refine List.ext_getElem ?_ fun k hk hk' => by simp [bin, padded]
    rw [List.length_take, List.length_zipIdx, length_points, List.length_map, List.length_range]
    omega
  have hscale : Element.one / (options.spacing * Element.ofNat padded) = Unrounded.real (1 / (spacing * padded)) := by
    have hlength : (0 : ℝ) < padded := Nat.cast_pos.2 hlength
    rw [hspacing, Unrounded.one_eq, Unrounded.ofNat_eq, Unrounded.real_mul, Unrounded.real_div (by positivity)]
  rw [ofSignal, hcheck, hsome]
  change Except.ok _ = _
  rw [hkept, hnorm.weights_eq, hnorm.norm_eq, hscale]
  simp only [List.map_map, Function.comp_def, reported_ofComplex hnorm.norm_pos.ne']
  rfl

end Spectrum
end VectorEngine
