/-
Binary formats: patterns, significands and exponents.

A significand stands at an exponent if it has all its bits there, or fewer at
the least exponent; every number of the format has exactly one such form. Its
pattern counts the significands before it, so a significand one too large for
its exponent already has the pattern of the next. Reading takes the pattern of
a form apart again, and writing finds the form: the exponent first, from the
sizes of numerator and denominator, then the significand by rounding.
-/
import VectorEngine.Number.Exact
import Mathlib

namespace VectorEngine

namespace Exact

/-- The number without its sign. -/
def magnitude (x : Exact) : ℚ := x.mantissa * 2 ^ x.exponent

theorem den_pos (x : Exact) : 0 < x.den := Nat.pow_pos (by decide)

theorem num_div_den (x : Exact) : (x.num / x.den : ℚ) = x.magnitude := by
  unfold num den magnitude
  simp only [Nat.pow_eq]
  push_cast
  rw [mul_div_assoc]
  congr 1
  rw [← zpow_natCast, ← zpow_natCast, ← zpow_sub₀ two_ne_zero]
  congr 1
  omega

end Exact

namespace Interchange

variable {f : Interchange} {m : Nat} {x : Int}

/-- There are significands, and exponents for them. -/
structure Proper (f : Interchange) : Prop where
  precision_pos : 0 < f.precision
  add_two_le : f.precision + 2 ≤ f.width

theorem double_proper : double.Proper := ⟨by decide, by decide⟩

theorem single_proper : single.Proper := ⟨by decide, by decide⟩

/-- The significand `m` stands at exponent `x`: it has all bits, or the exponent
is the least. -/
structure Stands (f : Interchange) (m : Nat) (x : Int) : Prop where
  least_le : f.leastExponent ≤ x
  lt : m < 2 ^ f.precision
  full : x = f.leastExponent ∨ 2 ^ (f.precision - 1) ≤ m

/-- The pattern of the magnitude `m * 2^x`. -/
def pattern (f : Interchange) (m : Nat) (x : Int) : Nat :=
  (x - f.leastExponent).toNat * 2 ^ (f.precision - 1) + m

/-- The sign in a pattern. -/
def signPart (f : Interchange) (negative : Bool) : Nat := if negative then f.signBit else 0

/-! ## Reading -/

/-- How many magnitudes share an exponent. -/
def unit (f : Interchange) : Nat := 2 ^ (f.precision - 1)

theorem unit_pos : 0 < f.unit := Nat.two_pow_pos _

theorem two_mul_unit (hf : f.Proper) : 2 ^ f.precision = 2 * f.unit := by
  have := hf.precision_pos
  rw [unit, ← Nat.pow_succ', show (f.precision - 1).succ = f.precision by omega]

theorem signBit_eq (hf : f.Proper) : f.signBit = f.infinity + f.unit := by
  have hp := hf.precision_pos
  have hw := hf.add_two_le
  have hone : 1 ≤ 2 ^ (f.width - f.precision) := Nat.one_le_two_pow
  have hwidth : f.width - 1 = (f.width - f.precision) + (f.precision - 1) := by omega
  show 2 ^ (f.width - 1) = (2 ^ (f.width - f.precision) - 1) * 2 ^ (f.precision - 1) + 2 ^ (f.precision - 1)
  rw [hwidth, Nat.pow_add, Nat.sub_mul, Nat.one_mul,
    Nat.sub_add_cancel (Nat.le_mul_of_pos_left _ (Nat.two_pow_pos _))]

theorem sign_of_signPart (negative : Bool) {n : Nat} (hn : n < f.signBit) :
    decide (f.signBit ≤ f.signPart negative + n) = negative ∧ (f.signPart negative + n) % f.signBit = n := by
  cases negative with
  | false => simp [signPart, Nat.mod_eq_of_lt hn, hn]
  | true => simp [signPart, Nat.mod_eq_of_lt hn]

/-- **Reading a pattern** gives its form back. -/
theorem read_pattern (hf : f.Proper) (h : f.Stands m x) (hfinite : f.pattern m x < f.infinity) (negative : Bool) :
    f.read (f.signPart negative + f.pattern m x) = .finite ⟨negative, m, x⟩ := by
  have hsign : f.pattern m x < f.signBit := by
    have := signBit_eq hf
    omega
  obtain ⟨hnegative, hmagnitude⟩ := sign_of_signPart negative hsign
  unfold read
  simp only [hnegative, hmagnitude, hfinite, if_true]
  have hx := h.least_le
  have hm : m < 2 * f.unit := two_mul_unit hf ▸ h.lt
  by_cases hfull : f.unit ≤ m
  · have hform : f.pattern m x = f.unit * ((x - f.leastExponent).toNat + 1) + (m - f.unit) := by
      rw [Nat.mul_add, Nat.mul_one, Nat.mul_comm]
      show (x - f.leastExponent).toNat * f.unit + m = _
      omega
    have hdiv : f.pattern m x / f.unit = (x - f.leastExponent).toNat + 1 := by
      rw [hform, Nat.mul_add_div unit_pos, Nat.div_eq_of_lt (by omega), Nat.add_zero]
    have hmod : f.pattern m x % f.unit = m - f.unit := by
      rw [hform, Nat.mul_add_mod, Nat.mod_eq_of_lt (by omega)]
    show (if f.pattern m x / f.unit = 0 then _ else Reading.finite ⟨negative, f.pattern m x % f.unit + f.unit,
      f.leastExponent + (f.pattern m x / f.unit : Nat) - 1⟩) = _
    rw [hdiv, hmod, if_neg (by omega)]
    congr 2
    · omega
    · omega
  · have hleast : x = f.leastExponent := h.full.resolve_right hfull
    have hpattern : f.pattern m x = m := by simp [pattern, hleast]
    have hdiv : m / f.unit = 0 := Nat.div_eq_of_lt (by omega)
    show (if f.pattern m x / f.unit = 0 then Reading.finite ⟨negative, f.pattern m x, f.leastExponent⟩ else _) = _
    rw [hpattern, if_pos hdiv, hleast]

theorem split_sign {bits : Nat} (hbits : bits < 2 * f.signBit) :
    bits = f.signPart (decide (f.signBit ≤ bits)) + bits % f.signBit := by
  by_cases hs : f.signBit ≤ bits
  · simp only [signPart, hs, decide_true, if_true]
    rw [Nat.mod_eq_sub_mod hs, Nat.mod_eq_of_lt (by omega)]
    omega
  · simp [signPart, hs, Nat.mod_eq_of_lt (Nat.lt_of_not_le hs)]

/-- What reads as a finite number is the pattern of its form. -/
theorem of_read_eq_finite {bits : Nat} {e : Exact} (hf : f.Proper) (hbits : bits < 2 * f.signBit)
    (h : f.read bits = .finite e) : f.Stands e.mantissa e.exponent ∧
      f.pattern e.mantissa e.exponent < f.infinity ∧
      bits = f.signPart e.negative + f.pattern e.mantissa e.exponent := by
  have hsplit := split_sign hbits
  generalize hn : bits % f.signBit = n at hsplit
  unfold read at h
  simp only [hn] at h
  by_cases hfinite : n < f.infinity
  · rw [if_pos hfinite] at h
    have hdivmod := Nat.div_add_mod n f.unit
    have hmod : n % f.unit < f.unit := Nat.mod_lt _ unit_pos
    have htwo := two_mul_unit hf
    by_cases hbiased : n / f.unit = 0
    · have he : e = ⟨decide (f.signBit ≤ bits), n, f.leastExponent⟩ := by
        rw [unit] at hbiased
        rw [Nat.pow_eq, if_pos hbiased] at h
        exact (Reading.finite.inj h).symm
      have hpattern : f.pattern n f.leastExponent = n := by simp [pattern]
      subst he
      refine ⟨⟨le_refl _, ?_, .inl rfl⟩, hpattern.symm ▸ hfinite, hpattern.symm ▸ hsplit⟩
      rw [hbiased] at hdivmod
      show n < _
      omega
    · have he : e = ⟨decide (f.signBit ≤ bits), n % f.unit + f.unit, f.leastExponent + (n / f.unit : Nat) - 1⟩ := by
        rw [unit] at hbiased
        rw [Nat.pow_eq, if_neg hbiased] at h
        exact (Reading.finite.inj h).symm
      obtain ⟨k, hk⟩ := Nat.exists_eq_succ_of_ne_zero hbiased
      have hexponent : f.leastExponent + (k.succ : Int) - 1 = f.leastExponent + k := by omega
      rw [hk, hexponent] at he
      rw [hk, Nat.mul_succ, Nat.mul_comm] at hdivmod
      have hpattern : f.pattern (n % f.unit + f.unit) (f.leastExponent + k) = n := by
        show (f.leastExponent + k - f.leastExponent).toNat * f.unit + _ = n
        rw [add_sub_cancel_left, Int.toNat_natCast]
        omega
      subst he
      refine ⟨⟨Int.le_add_of_nonneg_right (Int.natCast_nonneg k), ?_, .inr (Nat.le_add_left _ _)⟩,
        hpattern.symm ▸ hfinite, hpattern.symm ▸ hsplit⟩
      show n % f.unit + f.unit < _
      omega
  · rw [if_neg hfinite] at h
    split at h <;> cases h

theorem read_eq_nan_iff {bits : Nat} : f.read bits = .nan ↔ f.infinity < bits % f.signBit := by
  unfold read
  generalize bits % f.signBit = n
  dsimp only
  by_cases hfinite : n < f.infinity
  · rw [if_pos hfinite]
    split
    · simp [hfinite.le]
    · simp [hfinite.le]
  · rw [if_neg hfinite]
    split
    · next hinfinity => simp [hinfinity]
    · next hinfinity => simp; omega

/-- What reads as infinite is one of the two patterns of infinity. -/
theorem of_read_eq_infinite {bits : Nat} {negative : Bool} (hbits : bits < 2 * f.signBit)
    (h : f.read bits = .infinite negative) : bits = f.signPart negative + f.infinity := by
  have hsplit := split_sign hbits
  unfold read at h
  generalize bits % f.signBit = n at *
  dsimp only at h
  by_cases hfinite : n < f.infinity
  · rw [if_pos hfinite] at h
    split at h <;> cases h
  · rw [if_neg hfinite] at h
    split at h
    · next hinfinity =>
      cases h
      rw [← hinfinity]
      exact hsplit
    · cases h

/-! ## The exponent of a ratio -/

/-- A power of two is a whole number of every smaller one. -/
theorem zpow_eq_natPow_mul {j k : Int} (hkj : k ≤ j) : (2 : ℚ) ^ j = (2 ^ (j - k).toNat : Nat) * 2 ^ k := by
  push_cast
  rw [← zpow_natCast, ← zpow_add₀ two_ne_zero]
  congr 1
  omega

/-- The least magnitude with all its bits at an exponent. -/
theorem zpow_full (hf : f.Proper) (k : Int) :
    (2 : ℚ) ^ (f.precision + k - 1) = (2 ^ (f.precision - 1) : Nat) * 2 ^ k := by
  have hp := hf.precision_pos
  rw [zpow_eq_natPow_mul (show k ≤ f.precision + k - 1 by omega)]
  congr 3
  omega

/-- The exponent at which a magnitude is counted: it has all its bits there, or
the exponent is the least. -/
structure UnitOf (f : Interchange) (v : ℚ) (k : Int) : Prop where
  least_le : f.leastExponent ≤ k
  lt : v < 2 ^ (f.precision + k)
  full : k = f.leastExponent ∨ 2 ^ (f.precision + k - 1) ≤ v

/-- The exponent is not above one at which the magnitude has no more bits. -/
theorem UnitOf.le {v : ℚ} {j k : Int} (h : f.UnitOf v k) (hj : f.leastExponent ≤ j)
    (hv : v < 2 ^ (f.precision + j)) : k ≤ j := by
  by_contra hlt
  have hfull : (2 : ℚ) ^ (f.precision + k - 1) ≤ v := h.full.resolve_left (by omega)
  have hexponents : (2 : ℚ) ^ (f.precision + j) ≤ 2 ^ (f.precision + k - 1) := zpow_le_zpow_right₀ one_le_two (by omega)
  exact absurd (hv.trans_le (hexponents.trans hfull)) (lt_irrefl v)

theorem UnitOf.unique {v : ℚ} {k l : Int} (hk : f.UnitOf v k) (hl : f.UnitOf v l) : k = l :=
  le_antisymm (hk.le hl.least_le hl.lt) (hl.le hk.least_le hk.lt)

theorem inUnits_ratio (num den : Nat) (k : Int) :
    ((inUnits num den k).1 / (inUnits num den k).2 : ℚ) = num / den / 2 ^ k := by
  have hk : (2 : ℚ) ^ k = 2 ^ k.toNat / 2 ^ (-k).toNat := by
    rw [← zpow_natCast, ← zpow_natCast, ← zpow_sub₀ two_ne_zero]
    congr 1
    omega
  simp only [inUnits, Nat.pow_eq, hk]
  push_cast
  field_simp

theorem inUnits_snd_pos {den : Nat} (hden : 0 < den) (num : Nat) (k : Int) : 0 < (inUnits num den k).2 :=
  Nat.mul_pos hden (Nat.two_pow_pos _)

/-- Numerator and denominator have sizes between which the exponent lies. -/
theorem log2_bounds {num den : Nat} (hnum : 0 < num) (hden : 0 < den) :
    (2 : ℚ) ^ ((num.log2 : Int) - den.log2 - 1) ≤ num / den ∧
      (num / den : ℚ) < 2 ^ ((num.log2 : Int) - den.log2 + 1) := by
  have hlow {n : Nat} (hn : 0 < n) : (2 : ℚ) ^ (n.log2 : Int) ≤ n := by
    exact_mod_cast Nat.log2_self_le hn.ne'
  have hhigh (n : Nat) : (n : ℚ) < 2 ^ (n.log2 + 1 : Int) := by
    exact_mod_cast Nat.lt_log2_self
  have hden' : (0 : ℚ) < den := by exact_mod_cast hden
  constructor
  · rw [le_div_iff₀ hden']
    calc (2 : ℚ) ^ ((num.log2 : Int) - den.log2 - 1) * den
        ≤ 2 ^ ((num.log2 : Int) - den.log2 - 1) * 2 ^ (den.log2 + 1 : Int) := by gcongr; exact (hhigh den).le
      _ = 2 ^ (num.log2 : Int) := by rw [← zpow_add₀ two_ne_zero]; congr 1; omega
      _ ≤ num := hlow hnum
  · rw [div_lt_iff₀ hden']
    calc (num : ℚ) < 2 ^ (num.log2 + 1 : Int) := hhigh num
      _ = 2 ^ ((num.log2 : Int) - den.log2 + 1) * 2 ^ (den.log2 : Int) := by
        rw [← zpow_add₀ two_ne_zero]; congr 1; omega
      _ ≤ 2 ^ ((num.log2 : Int) - den.log2 + 1) * den := by gcongr; exact hlow hden

/-- The exponent found is the one the ratio is counted at. -/
theorem unitOf_unitExponent {num den : Nat} (hnum : 0 < num) (hden : 0 < den) :
    f.UnitOf (num / den) (f.unitExponent num den) := by
  obtain ⟨hlow, hhigh⟩ := log2_bounds hnum hden
  unfold unitExponent
  generalize hguess : max (num.log2 - den.log2 - f.precision : Int) f.leastExponent = guess
  have htest : 2 ^ f.precision ≤ (inUnits num den guess).1 / (inUnits num den guess).2 ↔
      (2 : ℚ) ^ (f.precision + guess) ≤ num / den := by
    have hd : (0 : ℚ) < (inUnits num den guess).2 := by exact_mod_cast inUnits_snd_pos hden num guess
    rw [Nat.le_div_iff_mul_le (inUnits_snd_pos hden num guess), zpow_add₀ two_ne_zero,
      ← le_div_iff₀ (zpow_pos two_pos guess), ← inUnits_ratio, le_div_iff₀ hd]
    norm_cast
  show f.UnitOf (num / den) (if 2 ^ f.precision ≤ (inUnits num den guess).1 / (inUnits num den guess).2
    then guess + 1 else guess)
  rw [if_congr htest rfl rfl]
  split
  · next hfull =>
    refine ⟨by omega, hhigh.trans_le (zpow_le_zpow_right₀ one_le_two (by omega)), .inr ?_⟩
    rwa [show (f.precision : Int) + (guess + 1) - 1 = f.precision + guess by omega]
  · next hfew =>
    refine ⟨by omega, not_le.1 hfew, ?_⟩
    by_cases hleast : guess = f.leastExponent
    · exact .inl hleast
    · refine .inr (le_trans (zpow_le_zpow_right₀ one_le_two ?_) hlow)
      omega

end Interchange

/-! ## Rounding a ratio -/

variable {num den : Nat}

/-- Rounding stays below every integer the ratio stays below. -/
theorem roundHalfEven_le (hden : 0 < den) {c : Nat} (h : num ≤ c * den) : roundHalfEven num den ≤ c := by
  have hdivmod := Nat.div_add_mod num den
  have hdiv : num / den ≤ c := Nat.div_le_of_le_mul (by rwa [Nat.mul_comm])
  unfold roundHalfEven
  dsimp only
  split
  · exact hdiv
  · next hup =>
    -- rounding up leaves a rest, so the quotient is not the bound yet
    by_contra hc
    have hquotient : num / den = c := by omega
    rw [hquotient, Nat.mul_comm] at hdivmod
    omega

/-- Rounding stays above every integer the ratio stays above. -/
theorem le_roundHalfEven (hden : 0 < den) {c : Nat} (h : c * den ≤ num) : c ≤ roundHalfEven num den := by
  have hdiv : c ≤ num / den := (Nat.le_div_iff_mul_le hden).2 h
  unfold roundHalfEven
  dsimp only
  split
  · exact hdiv
  · exact hdiv.trans (Nat.le_succ _)

namespace Interchange

variable {f : Interchange} {m : Nat} {x k : Int} {v : ℚ}

/-- The significand of a ratio counted at an exponent. -/
def significand (num den : Nat) (k : Int) : Nat := roundHalfEven (inUnits num den k).1 (inUnits num den k).2

theorem significand_le (hden : 0 < den) {c : Nat} (h : (num / den : ℚ) ≤ c * 2 ^ k) : significand num den k ≤ c := by
  apply roundHalfEven_le (inUnits_snd_pos hden num k)
  have hd : (0 : ℚ) < (inUnits num den k).2 := by exact_mod_cast inUnits_snd_pos hden num k
  rw [← div_le_iff₀ (zpow_pos two_pos k), ← inUnits_ratio, div_le_iff₀ hd] at h
  exact_mod_cast h

theorem le_significand (hden : 0 < den) {c : Nat} (h : c * 2 ^ k ≤ (num / den : ℚ)) : c ≤ significand num den k := by
  apply le_roundHalfEven (inUnits_snd_pos hden num k)
  have hd : (0 : ℚ) < (inUnits num den k).2 := by exact_mod_cast inUnits_snd_pos hden num k
  rw [← le_div_iff₀ (zpow_pos two_pos k), ← inUnits_ratio, le_div_iff₀ hd] at h
  exact_mod_cast h

/-- What is counted exactly is not rounded. -/
theorem significand_eq (hden : 0 < den) (h : (num / den : ℚ) = m * 2 ^ k) : significand num den k = m :=
  le_antisymm (significand_le hden h.le) (le_significand hden h.ge)

theorem nearest_eq (hnum : 0 < num) : f.nearest num den = min f.infinity
    (f.pattern (significand num den (f.unitExponent num den)) (f.unitExponent num den)) := by
  unfold nearest
  rw [if_neg hnum.ne']
  rfl

theorem Stands.unitOf (hf : f.Proper) (h : f.Stands m x) : f.UnitOf (m * 2 ^ x) x := by
  have hx : (0 : ℚ) < 2 ^ x := zpow_pos two_pos x
  refine ⟨h.least_le, ?_, h.full.imp_right fun hfull => ?_⟩
  · rw [zpow_add₀ two_ne_zero]
    gcongr
    exact_mod_cast h.lt
  · rw [zpow_full hf]
    gcongr

/-- **A number of the format is not rounded**: the pattern nearest to it is its
own. -/
theorem nearest_eq_pattern (hf : f.Proper) (h : f.Stands m x) (hfinite : f.pattern m x < f.infinity) (hden : 0 < den)
    (hvalue : (num / den : ℚ) = m * 2 ^ x) : f.nearest num den = f.pattern m x := by
  have hden' : (0 : ℚ) < den := by exact_mod_cast hden
  rcases Nat.eq_zero_or_pos num with hnum | hnum
  · have hm : m = 0 := by
      have : (m : ℚ) * 2 ^ x = 0 := by rw [← hvalue, hnum]; simp
      simpa [zpow_ne_zero] using this
    have hx : x = f.leastExponent := by
      refine h.full.resolve_right ?_
      have := Nat.two_pow_pos (f.precision - 1)
      omega
    simp [nearest, hnum, pattern, hm, hx]
  · have hexponent : f.unitExponent num den = x :=
      (unitOf_unitExponent hnum hden).unique (hvalue ▸ h.unitOf hf)
    rw [nearest_eq hnum, hexponent, significand_eq hden hvalue, Nat.min_eq_right hfinite.le]

/-- Writing what was read gives the pattern back, from whatever ratio of that
value. -/
theorem write_of_read {bits : Nat} {e : Exact} (hf : f.Proper) (hbits : bits < 2 * f.signBit)
    (h : f.read bits = .finite e) (hden : 0 < den) (hvalue : (num / den : ℚ) = e.magnitude) :
    f.write e.negative num den = bits := by
  obtain ⟨hstands, hfinite, hsplit⟩ := of_read_eq_finite hf hbits h
  rw [hsplit, ← nearest_eq_pattern hf hstands hfinite hden hvalue]
  rfl

/-! ## Reading what was written -/

/-- The magnitude of the format nearest a ratio. -/
def rounded (f : Interchange) (num den : Nat) : ℚ :=
  significand num den (f.unitExponent num den) * 2 ^ f.unitExponent num den

/-- Exponents below this have finite patterns throughout. -/
def topExponent (f : Interchange) : Int := f.leastExponent + 2 ^ (f.width - f.precision) - 3

theorem leastExponent_lt_top (hf : f.Proper) : f.leastExponent < f.topExponent := by
  have hcount : (2 : Int) ^ 2 ≤ 2 ^ (f.width - f.precision) :=
    pow_le_pow_right₀ one_le_two (by have := hf.add_two_le; omega)
  unfold topExponent
  omega

theorem pattern_lt_infinity (hf : f.Proper) (hm : m ≤ 2 ^ f.precision) (hx : f.leastExponent ≤ x)
    (htop : x < f.topExponent) : f.pattern m x < f.infinity := by
  have hexponents : (x - f.leastExponent).toNat + 2 < 2 ^ (f.width - f.precision) - 1 := by
    have : ((2 ^ (f.width - f.precision) : Nat) : Int) = 2 ^ (f.width - f.precision) := by push_cast; rfl
    unfold topExponent at htop
    omega
  have hunit : ((x - f.leastExponent).toNat + 2) * f.unit < f.infinity :=
    Nat.mul_lt_mul_of_pos_right hexponents unit_pos
  rw [two_mul_unit hf] at hm
  rw [Nat.add_mul] at hunit
  show (x - f.leastExponent).toNat * f.unit + m < f.infinity
  omega

theorem lt_top_of_pattern (hfinite : f.pattern m x < f.infinity) : x < f.topExponent + 2 := by
  have hcount : (x - f.leastExponent).toNat < 2 ^ (f.width - f.precision) - 1 := by
    apply Nat.lt_of_mul_lt_mul_right (a := f.unit)
    exact lt_of_le_of_lt (Nat.le_add_right _ _) hfinite
  have : ((2 ^ (f.width - f.precision) : Nat) : Int) = 2 ^ (f.width - f.precision) := by push_cast; rfl
  unfold topExponent
  omega

/-- A significand that is one too large has the pattern of half of it at the next
exponent. -/
theorem pattern_carry (hf : f.Proper) (hx : f.leastExponent ≤ x) :
    f.pattern (2 ^ f.precision) x = f.pattern (2 ^ (f.precision - 1)) (x + 1) := by
  have hcount : (x + 1 - f.leastExponent).toNat = (x - f.leastExponent).toNat + 1 := by omega
  show _ * f.unit + _ = _ * f.unit + f.unit
  rw [hcount, two_mul_unit hf, Nat.add_mul]
  omega

/-- The significand found has all its bits, or the exponent is the least, and it
may have been rounded up to one too large. -/
theorem significand_bounds (hf : f.Proper) (hden : 0 < den) (h : f.UnitOf (num / den) k) :
    significand num den k ≤ 2 ^ f.precision ∧
      (k = f.leastExponent ∨ 2 ^ (f.precision - 1) ≤ significand num den k) := by
  constructor
  · apply significand_le hden
    have hlt := h.lt.le
    rw [zpow_add₀ two_ne_zero] at hlt
    exact_mod_cast hlt
  · exact h.full.imp_right fun hfull => le_significand hden (zpow_full hf k ▸ hfull)

theorem rounded_zero (hden : 0 < den) : f.rounded 0 den = 0 := by
  have h : significand 0 den (f.unitExponent 0 den) = 0 := significand_eq hden (by simp)
  simp [rounded, h]

theorem nearest_le_infinity (num den : Nat) : f.nearest num den ≤ f.infinity := by
  rcases Nat.eq_zero_or_pos num with rfl | hnum
  · exact Nat.zero_le _
  · rw [nearest_eq hnum]
    exact Nat.min_le_left _ _

theorem write_lt (hf : f.Proper) (negative : Bool) (num den : Nat) : f.write negative num den < 2 * f.signBit := by
  have hnearest : f.nearest num den ≤ f.infinity := nearest_le_infinity num den
  have hsign : f.infinity < f.signBit := signBit_eq hf ▸ Nat.lt_add_of_pos_right unit_pos
  cases negative with
  | false | true => simp [write]; omega

/-- No NaN is written. -/
theorem read_write_ne_nan (hf : f.Proper) (negative : Bool) (num den : Nat) :
    f.read (f.write negative num den) ≠ .nan := by
  have hnearest : f.nearest num den ≤ f.infinity := nearest_le_infinity num den
  have hsign : f.infinity < f.signBit := signBit_eq hf ▸ Nat.lt_add_of_pos_right unit_pos
  rw [ne_eq, read_eq_nan_iff]
  show ¬f.infinity < (f.signPart negative + f.nearest num den) % f.signBit
  rw [(sign_of_signPart negative (hnearest.trans_lt hsign)).2]
  omega

/-- A pattern reads as the magnitude it was made for, a significand one too large
as well. -/
theorem exists_read_pattern (hf : f.Proper) (hx : f.leastExponent ≤ x) (hm : m ≤ 2 ^ f.precision)
    (hfull : x = f.leastExponent ∨ 2 ^ (f.precision - 1) ≤ m) (hfinite : f.pattern m x < f.infinity)
    (negative : Bool) : ∃ e, f.read (f.signPart negative + f.pattern m x) = .finite e ∧ e.negative = negative ∧
      e.magnitude = m * 2 ^ x := by
  by_cases hcarry : m = 2 ^ f.precision
  · have hhalf : 2 ^ (f.precision - 1) < 2 ^ f.precision :=
      Nat.pow_lt_pow_right (by decide) (by have := hf.precision_pos; omega)
    have hstands : f.Stands (2 ^ (f.precision - 1)) (x + 1) := ⟨hx.trans (by omega), hhalf, .inr (le_refl _)⟩
    have hvalue : ((2 ^ f.precision : Nat) * 2 ^ x : ℚ) = (2 ^ (f.precision - 1) : Nat) * 2 ^ (x + 1) := by
      rw [two_mul_unit hf, zpow_add_one₀ two_ne_zero, unit]
      push_cast
      ring
    rw [hcarry, pattern_carry hf hx] at hfinite ⊢
    exact ⟨_, read_pattern hf hstands hfinite negative, rfl, hvalue.symm⟩
  · have hstands : f.Stands m x := ⟨hx, by omega, hfull⟩
    exact ⟨_, read_pattern hf hstands hfinite negative, rfl, rfl⟩

/-- **Reading what was written** gives the nearest magnitude. -/
theorem read_write (hf : f.Proper) (hden : 0 < den)
    (htop : 0 < num → f.unitExponent num den + 1 < f.topExponent) (negative : Bool) :
    ∃ e, f.read (f.write negative num den) = .finite e ∧ e.negative = negative ∧ e.magnitude = f.rounded num den := by
  rcases Nat.eq_zero_or_pos num with rfl | hnum
  · have hfinite : f.pattern 0 f.leastExponent < f.infinity :=
      pattern_lt_infinity hf (Nat.zero_le _) (le_refl _) (leastExponent_lt_top hf)
    have hwrite : f.write negative 0 den = f.signPart negative + f.pattern 0 f.leastExponent := by
      simp [write, nearest, signPart, pattern]
    obtain ⟨e, hread, hnegative, hmagnitude⟩ :=
      exists_read_pattern hf (le_refl _) (Nat.zero_le _) (.inl rfl) hfinite negative
    exact ⟨e, hwrite ▸ hread, hnegative, by simp [hmagnitude, rounded_zero hden]⟩
  · have hunit : f.UnitOf (num / den) (f.unitExponent num den) := unitOf_unitExponent hnum hden
    have htop := htop hnum
    obtain ⟨hupper, hlower⟩ := significand_bounds hf hden hunit
    have hfinite := pattern_lt_infinity hf hupper hunit.least_le (by omega)
    have hwrite : f.write negative num den = f.signPart negative +
        f.pattern (significand num den (f.unitExponent num den)) (f.unitExponent num den) := by
      show f.signPart negative + f.nearest num den = _
      rw [nearest_eq hnum, Nat.min_eq_right hfinite.le]
    rw [hwrite]
    exact exists_read_pattern hf hunit.least_le hupper hlower hfinite negative

/-- A ratio that counts whole at some exponent is not rounded at a smaller one. -/
theorem significand_of_le (hden : 0 < den) {j : Int} (hkj : k ≤ j) (hvalue : (num / den : ℚ) = m * 2 ^ j) :
    (significand num den k * 2 ^ k : ℚ) = num / den := by
  have hwhole : (num / den : ℚ) = (m * 2 ^ (j - k).toNat : Nat) * 2 ^ k := by
    rw [hvalue, zpow_eq_natPow_mul hkj, Nat.cast_mul, mul_assoc]
  rw [significand_eq hden hwhole, hwhole]

/-- **Numbers with few enough bits** are not rounded. -/
theorem rounded_eq (hden : 0 < den) (hm : m < 2 ^ f.precision) (hx : f.leastExponent ≤ x)
    (hvalue : (num / den : ℚ) = m * 2 ^ x) : f.rounded num den = num / den := by
  rcases Nat.eq_zero_or_pos num with rfl | hnum
  · simp [rounded_zero hden]
  refine significand_of_le hden ((unitOf_unitExponent hnum hden).le hx ?_) hvalue
  rw [hvalue, zpow_add₀ two_ne_zero]
  gcongr
  exact_mod_cast hm

/-- Rounding does not pass a power of two. -/
theorem rounded_le (hf : f.Proper) (hden : 0 < den) {j : Int} (hj : f.leastExponent ≤ j)
    (h : (num / den : ℚ) ≤ 2 ^ j) : f.rounded num den ≤ 2 ^ j := by
  rcases Nat.eq_zero_or_pos num with rfl | hnum
  · rw [rounded_zero hden]
    positivity
  have hp := hf.precision_pos
  have hk : f.unitExponent num den ≤ j := (unitOf_unitExponent hnum hden).le hj
    (h.trans_lt (zpow_lt_zpow_right₀ one_lt_two (by omega)))
  rw [zpow_eq_natPow_mul hk] at h ⊢
  exact mul_le_mul_of_nonneg_right (by exact_mod_cast significand_le hden h) (by positivity)

theorem le_rounded (hf : f.Proper) (hden : 0 < den) {j : Int} (hj : f.leastExponent ≤ j)
    (h : (2 : ℚ) ^ j ≤ num / den) : 2 ^ j ≤ f.rounded num den := by
  have hnum : 0 < num := by
    rcases Nat.eq_zero_or_pos num with rfl | hnum
    · have : (0 : ℚ) < 2 ^ j := zpow_pos two_pos j
      simp at h
      exact absurd this h.not_gt
    · exact hnum
  have hunit := unitOf_unitExponent (f := f) hnum hden
  obtain ⟨-, hlower⟩ := significand_bounds hf hden hunit
  rw [rounded]
  generalize f.unitExponent num den = k at *
  by_cases hk : k ≤ j
  · rw [zpow_eq_natPow_mul hk] at h ⊢
    exact mul_le_mul_of_nonneg_right (by exact_mod_cast le_significand hden h) (by positivity)
  · have hq : 1 ≤ significand num den k := by
      have hfull : 2 ^ (f.precision - 1) ≤ significand num den k := hlower.resolve_left (by omega)
      exact (Nat.two_pow_pos _).trans_le hfull
    calc (2 : ℚ) ^ j ≤ 1 * 2 ^ k := by rw [one_mul]; exact zpow_le_zpow_right₀ one_le_two (by omega)
      _ ≤ significand num den k * 2 ^ k := by gcongr; exact_mod_cast hq

/-- An integer is rounded to one. -/
theorem rounded_natural (n : Nat) : ∃ r : Nat, f.rounded n 1 = r := by
  by_cases hk : f.unitExponent n 1 ≤ 0
  · exact ⟨n, by simpa [rounded] using significand_of_le (m := n) Nat.one_pos hk (by simp)⟩
  · refine ⟨significand n 1 (f.unitExponent n 1) * 2 ^ (f.unitExponent n 1).toNat, ?_⟩
    rw [rounded]
    push_cast
    rw [← zpow_natCast, Int.toNat_of_nonneg (by omega)]

end Interchange
end VectorEngine
