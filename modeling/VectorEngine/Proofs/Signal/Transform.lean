/-
The fast transform is the discrete Fourier transform.

Over unrounded numbers a phasor is a complex number and a turn is the multiplication by
a power of a root of unity. `transform` splits the points into those at even and at
odd positions, as the sum over all points splits (`dft_even_add_odd`), so it
computes that sum; and summing with the inverse root gives back the points, as
often as there are points.
-/
import VectorEngine.Proofs.Number.Unrounded

namespace VectorEngine

open ComplexConjugate

/-! ## Sums over roots of unity -/

/-- The discrete Fourier transform of `x 0, …, x (n - 1)` at the root `ζ`. -/
def dft (ζ : ℂ) (n : ℕ) (x : ℕ → ℂ) (k : ℕ) : ℂ := ∑ j ∈ Finset.range n, ζ ^ (j * k) * x j

section Sums

variable {ζ : ℂ} {n k : ℕ} {x : ℕ → ℂ}

theorem sum_range_even_add_odd (f : ℕ → ℂ) (n : ℕ) : ∑ j ∈ Finset.range (2 * n), f j =
    ∑ j ∈ Finset.range n, f (2 * j) + ∑ j ∈ Finset.range n, f (2 * j + 1) := by
  induction n with
  | zero => simp
  | succ n ih =>
    rw [Nat.mul_succ, Finset.sum_range_succ, Finset.sum_range_succ, ih, Finset.sum_range_succ, Finset.sum_range_succ]
    ring

/-- The points at even and those at odd positions are summed on their own. -/
theorem dft_even_add_odd (ζ : ℂ) (n : ℕ) (x : ℕ → ℂ) (k : ℕ) : dft ζ (2 * n) x k =
    dft (ζ ^ 2) n (fun j => x (2 * j)) k + ζ ^ k * dft (ζ ^ 2) n (fun j => x (2 * j + 1)) k := by
  rw [dft, sum_range_even_add_odd, dft, dft, Finset.mul_sum]
  congr 1
  · refine Finset.sum_congr rfl fun j _ => ?_
    rw [← pow_mul, mul_assoc]
  · refine Finset.sum_congr rfl fun j _ => ?_
    ring

/-- The sums come round after `n`. -/
theorem dft_add (h : ζ ^ n = 1) (x : ℕ → ℂ) (k : ℕ) : dft ζ n x (n + k) = dft ζ n x k := by
  refine Finset.sum_congr rfl fun j _ => ?_
  have hpow : ζ ^ (j * (n + k)) = (ζ ^ n) ^ j * ζ ^ (j * k) := by ring
  rw [hpow, h, one_pow, one_mul]

/-- The powers of a root of unity other than one cancel out. -/
theorem sum_pow_eq_zero {r : ℂ} (hone : r ≠ 1) (hpow : r ^ n = 1) : ∑ k ∈ Finset.range n, r ^ k = 0 := by
  rw [geom_sum_eq hone, hpow, sub_self, zero_div]

/-- **The transform is undone** by that at the inverse root, but for the factor
`n`. -/
theorem dft_inv_dft (h : IsPrimitiveRoot ζ n) (x : ℕ → ℂ) {j : ℕ} (hj : j < n) :
    dft ζ⁻¹ n (dft ζ n x) j = n * x j := by
  have hζ : ζ ≠ 0 := h.ne_zero (by omega)
  -- The terms of one point are the powers of a root, which is one for the point looked for only.
  have hpoint : ∀ i < n, ∑ k ∈ Finset.range n, ζ⁻¹ ^ (k * j) * (ζ ^ (i * k) * x i) =
      if i = j then n * x i else 0 := by
    intro i hi
    have hterm : ∀ k, ζ⁻¹ ^ (k * j) * (ζ ^ (i * k) * x i) = (ζ ^ i * (ζ ^ j)⁻¹) ^ k * x i := by
      intro k
      rw [mul_pow, ← inv_pow, ← pow_mul, ← pow_mul, mul_comm k j]
      ring
    simp only [hterm, ← Finset.sum_mul]
    split
    · next hij =>
      subst hij
      rw [mul_inv_cancel₀ (pow_ne_zero i hζ)]
      simp
    · next hij =>
      rw [sum_pow_eq_zero, zero_mul]
      · intro hone
        exact hij (h.pow_inj hi hj ((mul_inv_eq_one₀ (pow_ne_zero j hζ)).1 hone))
      · rw [mul_pow, inv_pow, ← pow_mul, ← pow_mul, mul_comm i, mul_comm j, pow_mul, pow_mul, h.pow_eq_one]
        simp
  calc dft ζ⁻¹ n (dft ζ n x) j
      = ∑ k ∈ Finset.range n, ∑ i ∈ Finset.range n, ζ⁻¹ ^ (k * j) * (ζ ^ (i * k) * x i) :=
        Finset.sum_congr rfl fun k _ => Finset.mul_sum _ _ _
    _ = ∑ i ∈ Finset.range n, ∑ k ∈ Finset.range n, ζ⁻¹ ^ (k * j) * (ζ ^ (i * k) * x i) := Finset.sum_comm
    _ = ∑ i ∈ Finset.range n, if i = j then n * x i else 0 :=
        Finset.sum_congr rfl fun i hi => hpoint i (Finset.mem_range.1 hi)
    _ = n * x j := by simp [hj]

/-- The transform of real points is its own mirror image. -/
theorem conj_dft (hpow : ζ ^ n = 1) (hn : n ≠ 0) (x : ℕ → ℝ) (hk : k ≤ n) :
    conj (dft ζ n (fun j => x j) k) = dft ζ n (fun j => x j) (n - k) := by
  have hconj : conj ζ = ζ⁻¹ := (Complex.inv_eq_conj (Complex.norm_eq_one_of_pow_eq_one hpow hn)).symm
  rw [dft, map_sum]
  refine Finset.sum_congr rfl fun j _ => ?_
  have hround : ζ ^ (j * k) * ζ ^ (j * (n - k)) = 1 := by
    rw [← pow_add, ← mul_add, Nat.add_sub_cancel' hk, mul_comm, pow_mul, hpow, one_pow]
  rw [map_mul, map_pow, hconj, Complex.conj_ofReal, inv_pow, inv_eq_of_mul_eq_one_right hround]

end Sums

/-! ## Turns -/

open Complex in
/-- The turn by one `n`-th of a full turn. -/
noncomputable def root (n : ℕ) : ℂ := exp ((2 : ℕ) * Real.pi * I / n)

theorem root_eq (n : ℕ) : root n = Complex.exp (2 * Real.pi * Complex.I / n) := by
  rw [root, Nat.cast_ofNat]

theorem root_isPrimitiveRoot {n : ℕ} (hn : n ≠ 0) : IsPrimitiveRoot (root n) n := by
  rw [root_eq]
  exact Complex.isPrimitiveRoot_exp n hn

theorem root_pow (k n : ℕ) :
    root n ^ k = ⟨Real.cos (2 * Real.pi * k / n), Real.sin (2 * Real.pi * k / n)⟩ := by
  have hangle : (k : ℂ) * (2 * Real.pi * Complex.I / n) = (2 * Real.pi * k / n : ℝ) * Complex.I := by
    push_cast
    ring
  rw [root_eq, ← Complex.exp_nat_mul, hangle]
  exact Complex.ext (Complex.exp_ofReal_mul_I_re _) (Complex.exp_ofReal_mul_I_im _)

theorem root_inv_pow (k n : ℕ) :
    (root n)⁻¹ ^ k = ⟨Real.cos (2 * Real.pi * k / n), -Real.sin (2 * Real.pi * k / n)⟩ := by
  rw [inv_pow, root_pow]
  refine inv_eq_of_mul_eq_one_right (Complex.ext ?_ ?_)
  · have hunit := Real.cos_sq_add_sin_sq (2 * Real.pi * k / n)
    simp only [Complex.mul_re, Complex.one_re]
    linear_combination hunit
  · simp only [Complex.mul_im, Complex.one_im]
    ring

theorem root_two_mul_sq {n : ℕ} (hn : n ≠ 0) : root (2 * n) ^ 2 = root n := by
  rw [root_eq, root_eq, ← Complex.exp_nat_mul]
  congr 1
  push_cast
  field_simp

theorem root_two_mul_pow {n : ℕ} (hn : n ≠ 0) : root (2 * n) ^ n = -1 := by
  have hhalf : (n : ℂ) * (2 * Real.pi * Complex.I / (2 * n : ℕ)) = Real.pi * Complex.I := by
    push_cast
    field_simp
  rw [root_eq, ← Complex.exp_nat_mul, hhalf, Complex.exp_pi_mul_I]

/-- A quarter of a full turn. -/
theorem angle_quarter {k n : ℕ} (hk : k ≠ 0) (hn : 4 * k = n) : 2 * Real.pi * k / n = Real.pi / 2 := by
  subst hn
  push_cast
  field_simp
  ring

namespace Phasor

/-- A complex number as a phasor. -/
def ofComplex (z : ℂ) : Phasor Unrounded := ⟨.real z.re, .real z.im⟩

variable (z w : ℂ)

theorem ofComplex_add : (ofComplex z).add (ofComplex w) = ofComplex (z + w) := by simp [ofComplex, add]

theorem ofComplex_sub : (ofComplex z).sub (ofComplex w) = ofComplex (z - w) := by simp [ofComplex, sub]

theorem ofComplex_conj : (ofComplex z).conj = ofComplex (conj z) := by simp [ofComplex, Phasor.conj]

theorem ofComplex_mul (x y : ℝ) : (ofComplex z).mul ⟨.real x, .real y⟩ = ofComplex (⟨x, y⟩ * z) := by
  simp [ofComplex, mul, mul_comm]

theorem ofComplex_zero : ofComplex 0 = zero := by simp [ofComplex, zero]

/-- The parts are scaled before they are squared, which makes no difference without
rounding. -/
theorem magnitude_ofComplex : (ofComplex z).magnitude = .real ‖z‖ := by
  have hre : Element.abs (ofComplex z).re = .real |z.re| := rfl
  have him : Element.abs (ofComplex z).im = .real |z.im| := rfl
  have hlarge : (if Element.less (Unrounded.real |z.re|) (.real |z.im|) then Unrounded.real |z.im| else .real |z.re|) =
      .real (max |z.re| |z.im|) := by
    rw [Unrounded.less_real]
    split
    · next h => rw [max_eq_right (of_decide_eq_true h).le]
    · next h => rw [max_eq_left (not_lt.1 (mt decide_eq_true h))]
  unfold magnitude
  rw [hre, him]
  dsimp only
  rw [hlarge, Unrounded.isInfinite_real, Unrounded.isInfinite_real, if_neg Bool.false_ne_true,
    if_neg Bool.false_ne_true, Unrounded.zero_eq, Unrounded.same_real]
  split
  · next hzero =>
    have hzero := of_decide_eq_true hzero
    have hrezero : |z.re| = 0 := le_antisymm (hzero ▸ le_max_left _ _) (abs_nonneg _)
    have himzero : |z.im| = 0 := le_antisymm (hzero ▸ le_max_right _ _) (abs_nonneg _)
    have hz : z = 0 := Complex.ext (abs_eq_zero.1 hrezero) (abs_eq_zero.1 himzero)
    simp [hz]
  · next hne =>
    have hne := mt decide_eq_true hne
    have hpos : 0 < max |z.re| |z.im| := lt_of_le_of_ne (le_max_of_le_left (abs_nonneg _)) (Ne.symm hne)
    generalize max |z.re| |z.im| = large at hne hpos
    simp only [Unrounded.real_div hne, Unrounded.real_mul, Unrounded.real_add]
    have hsum : |z.re| / large * (|z.re| / large) + |z.im| / large * (|z.im| / large) = (‖z‖ / large) ^ 2 := by
      rw [div_mul_div_comm, div_mul_div_comm, abs_mul_abs_self, abs_mul_abs_self, ← add_div, ← Complex.normSq_apply,
        Complex.normSq_eq_norm_sq, div_pow, sq large]
    rw [hsum, Unrounded.sqrt_real (sq_nonneg _), Real.sqrt_sq (by positivity), Unrounded.real_mul,
      mul_div_cancel₀ _ hne]

/-- An inverse turn multiplies by a power of the root. -/
theorem turnInverse_ofComplex (k n : ℕ) : turnInverse k n (ofComplex z) = ofComplex (root n ^ k * z) := by
  unfold turnInverse
  split
  · next hk => simp [hk]
  split
  · next hk hn =>
    rw [root_pow, angle_quarter hk hn, Real.cos_pi_div_two, Real.sin_pi_div_two]
    simp [ofComplex]
  · rw [root_pow]
    exact ofComplex_mul z _ _

/-- A forward turn multiplies by a power of the inverse root. -/
theorem turnForward_ofComplex (k n : ℕ) : turnForward k n (ofComplex z) = ofComplex ((root n)⁻¹ ^ k * z) := by
  unfold turnForward
  split
  · next hk => simp [hk]
  split
  · next hk hn =>
    rw [root_inv_pow, angle_quarter hk hn, Real.cos_pi_div_two, Real.sin_pi_div_two]
    simp [ofComplex]
  · rw [root_inv_pow]
    exact ofComplex_mul z _ _

end Phasor

/-! ## The fast transform -/

namespace Fourier

/-- The points `x 0, …, x (n - 1)` as phasors. -/
def points (n : ℕ) (x : ℕ → ℂ) : List (Phasor Unrounded) := (List.range n).map fun j => .ofComplex (x j)

@[simp] theorem length_points (n : ℕ) (x : ℕ → ℂ) : (points n x).length = n := by simp [points]

@[simp] theorem getElem_points {n : ℕ} {x : ℕ → ℂ} {j : ℕ} (h : j < (points n x).length) :
    (points n x)[j] = .ofComplex (x j) := by simp [points]

theorem points_congr {n : ℕ} {x y : ℕ → ℂ} (h : ∀ j < n, x j = y j) : points n x = points n y :=
  List.map_congr_left fun j hj => by rw [h j (List.mem_range.1 hj)]

theorem points_append (m n : ℕ) (x : ℕ → ℂ) : points (m + n) x = points m x ++ points n fun j => x (m + j) := by
  simp [points, List.range_add, Function.comp_def]

theorem points_two_mul (n : ℕ) (x : ℕ → ℂ) : points (2 * (n + 1)) x =
    .ofComplex (x 0) :: .ofComplex (x 1) :: points (2 * n) fun j => x (j + 2) := by
  simp [points, Nat.mul_succ, List.range_succ_eq_map, Function.comp_def]

theorem points_succ (n : ℕ) (x : ℕ → ℂ) : points (n + 1) x = .ofComplex (x 0) :: points n fun j => x (j + 1) := by
  simp [points, List.range_succ_eq_map, Function.comp_def]

theorem evens_points (n : ℕ) (x : ℕ → ℂ) : evens (points (2 * n) x) = points n fun j => x (2 * j) := by
  induction n generalizing x with
  | zero => rfl
  | succ n ih =>
    rw [points_two_mul, evens, odds, ih, points_succ]
    rfl

theorem odds_points (n : ℕ) (x : ℕ → ℂ) : odds (points (2 * n) x) = points n fun j => x (2 * j + 1) := by
  induction n generalizing x with
  | zero => rfl
  | succ n ih =>
    rw [points_two_mul, odds, evens, ih, points_succ]
    rfl

theorem join_points {turn : ℕ → Phasor Unrounded → Phasor Unrounded} {ζ : ℂ}
    (h : ∀ k z, turn k (.ofComplex z) = .ofComplex (ζ ^ k * z)) (n : ℕ) (x y : ℕ → ℂ) :
    join turn (points n x) (points n y) =
      points n (fun k => x k + ζ ^ k * y k) ++ points n fun k => x k - ζ ^ k * y k := by
  have hturned : ((points n y).zipIdx.map fun p => turn p.2 p.1) = points n fun k => ζ ^ k * y k :=
    List.ext_getElem (by simp) fun k hk hk' => by simp [h]
  rw [join, hturned]
  congr 1
  · exact List.ext_getElem (by simp) fun k hk hk' => by simp [Phasor.ofComplex_add]
  · exact List.ext_getElem (by simp) fun k hk hk' => by simp [Phasor.ofComplex_sub]

/-- `turn` turns by powers of `ω n`, an `n`-th root of unity halfway to the next. -/
structure Turns (turn : ℕ → ℕ → Phasor Unrounded → Phasor Unrounded) (ω : ℕ → ℂ) : Prop where
  turn_eq : ∀ k n z, turn k n (.ofComplex z) = .ofComplex (ω n ^ k * z)
  square : ∀ {n}, n ≠ 0 → ω (2 * n) ^ 2 = ω n
  half : ∀ {n}, n ≠ 0 → ω (2 * n) ^ n = -1

theorem turns_inverse : Turns Phasor.turnInverse root where
  turn_eq k n z := Phasor.turnInverse_ofComplex z k n
  square := root_two_mul_sq
  half := root_two_mul_pow

theorem turns_forward : Turns Phasor.turnForward fun n => (root n)⁻¹ where
  turn_eq k n z := Phasor.turnForward_ofComplex z k n
  square hn := by rw [inv_pow, root_two_mul_sq hn]
  half hn := by rw [inv_pow, root_two_mul_pow hn, inv_neg_one]

variable {turn : ℕ → ℕ → Phasor Unrounded → Phasor Unrounded} {ω : ℕ → ℂ}

theorem Turns.pow_eq_one (h : Turns turn ω) {n : ℕ} (hn : n ≠ 0) : ω n ^ n = 1 := by
  rw [← h.square hn, pow_right_comm, h.half hn, neg_one_sq]

/-- **The fast transform** of `2 ^ level` points is their discrete Fourier
transform. -/
theorem transform_points (h : Turns turn ω) (level : ℕ) (x : ℕ → ℂ) :
    transform turn level (points (2 ^ level) x) = points (2 ^ level) (dft (ω (2 ^ level)) (2 ^ level) x) := by
  induction level generalizing x with
  | zero => simp [transform, points, dft]
  | succ level ih =>
    have hn : 2 ^ level ≠ 0 := by positivity
    have hlength : (2 : ℕ) ^ (level + 1) = 2 * 2 ^ level := pow_succ' 2 level
    have hturn := fun k => h.turn_eq k (2 * 2 ^ level)
    rw [transform, show Nat.pow 2 (level + 1) = 2 * 2 ^ level from hlength, hlength, evens_points, odds_points, ih, ih,
      join_points hturn, two_mul, points_append, ← two_mul]
    -- Half a turn on, the sums over the halves are the same and the turn changes sign.
    congr 1
    · refine points_congr fun k _ => ?_
      rw [dft_even_add_odd, h.square hn]
    · refine points_congr fun k _ => ?_
      rw [dft_even_add_odd, h.square hn, dft_add (h.pow_eq_one hn), dft_add (h.pow_eq_one hn), pow_add, h.half hn]
      ring

/-! ## Padded lengths -/

theorem levelFor_le_iff {n m : ℕ} : levelFor n ≤ m ↔ n ≤ 2 ^ m := by
  have hpos : 0 < 2 ^ m := by positivity
  unfold levelFor
  split
  · omega
  · rw [Nat.add_one_le_iff, Nat.log2_lt (by omega)]
    omega

/-- Only one point has no middle. -/
theorem two_pow_one_or_even (level : ℕ) : 2 ^ level = 1 ∨ 2 ^ level % 2 = 0 := by
  cases level with
  | zero => exact .inl rfl
  | succ level => exact .inr (by rw [pow_succ, Nat.mul_mod_left])

theorem paddedLength_pos (n : ℕ) : 0 < paddedLength n := Nat.pow_pos (by decide)

/-- The padded length is the least power of two that holds `n` points. -/
theorem paddedLength_isLeast (n : ℕ) : IsLeast {size | n ≤ size ∧ ∃ m, size = 2 ^ m} (paddedLength n) := by
  refine ⟨⟨levelFor_le_iff.1 le_rfl, levelFor n, rfl⟩, ?_⟩
  rintro _ ⟨hn, m, rfl⟩
  exact Nat.pow_le_pow_right (by decide) (levelFor_le_iff.2 hn)

/-- A word holds the padded length of up to `2 ^ 63` points, and zero for more. -/
theorem paddedWord_eq (n : ℕ) : paddedWord n = if n ≤ 2 ^ 63 then paddedLength n else 0 := by
  show 2 ^ levelFor n % 2 ^ 64 = _
  split
  · next hfits =>
    have hlevel : levelFor n ≤ 63 := levelFor_le_iff.2 hfits
    exact Nat.mod_eq_of_lt (Nat.pow_lt_pow_right (by decide) (by omega))
  · next hlarge =>
    have hlevel : ¬levelFor n ≤ 63 := fun h => hlarge (levelFor_le_iff.1 h)
    exact Nat.mod_eq_zero_of_dvd (Nat.pow_dvd_pow 2 (by omega))

/-- The number of bins kept, bin 0 included, gives back the length. -/
theorem levelFor_half (level : ℕ) : levelFor (2 * (2 ^ level / 2)) = level := by
  cases level with
  | zero => rfl -- one point has no bin but bin 0
  | succ level =>
    have hhalf : 2 * (2 ^ (level + 1) / 2) = 2 ^ (level + 1) := Nat.mul_div_cancel' (dvd_pow_self 2 (by omega))
    rw [hhalf]
    refine le_antisymm (levelFor_le_iff.2 le_rfl) ?_
    exact (Nat.pow_le_pow_iff_right (by decide)).1 (levelFor_le_iff.1 le_rfl)

end Fourier
end VectorEngine
