/-
The nearest number.

Rounding a ratio to an integer leaves at most half a unit, and where it leaves
just half, the rule for ties has decided. So the significand found at the
exponent of a ratio makes the nearest number of the format: at larger exponents
the numbers count whole units, and at smaller ones all of them lie below the
least number with all its bits at this one. Writing gives the pattern of that
number, or of infinity where its exponent is larger than those of the format.
-/
import VectorEngine.Proofs.Number.Doubles

namespace VectorEngine

variable {num den : Nat}

/-! ## The nearest integer -/

/-- Rounding to an integer leaves less than half a unit, or just half one at an
even integer. -/
theorem roundHalfEven_near (num : Nat) (hden : 0 < den) : |(num : ℚ) / den - roundHalfEven num den| < 1 / 2 ∨
    (|(num : ℚ) / den - roundHalfEven num den| = 1 / 2 ∧ Even (roundHalfEven num den)) := by
  have hd : (0 : ℚ) < den := by exact_mod_cast hden
  have hdivmod : (num : ℚ) = den * (num / den : Nat) + (num % den : Nat) := by
    exact_mod_cast (Nat.div_add_mod num den).symm
  have hrest : (num % den : Nat) < den := Nat.mod_lt num hden
  unfold roundHalfEven
  dsimp only
  generalize num / den = quotient at *
  generalize num % den = rest at *
  have hvalue : (num : ℚ) / den = quotient + rest / den := by
    rw [hdivmod]
    field_simp
  have hnonneg : (0 : ℚ) ≤ rest / den := by positivity
  rw [hvalue]
  split
  · next hdown =>
    rw [add_sub_cancel_left, abs_of_nonneg hnonneg, div_lt_iff₀ hd, div_eq_iff hd.ne']
    obtain hless | ⟨htie, heven⟩ := hdown
    · left
      have : (2 * rest : ℚ) < den := by exact_mod_cast hless
      linarith
    · right
      have : (2 * rest : ℚ) = den := by exact_mod_cast htie
      exact ⟨by linarith, Nat.even_iff.2 heven⟩
  · next hup =>
    have hlast : (rest : ℚ) / den ≤ 1 := (div_le_one hd).2 (by exact_mod_cast hrest.le)
    have habs : |(quotient + rest / den - (quotient + 1 : Nat) : ℚ)| = 1 - rest / den := by
      push_cast
      rw [add_sub_add_left_eq_sub, abs_sub_comm, abs_of_nonneg (by linarith)]
    rw [habs]
    by_cases htie : 2 * rest = den
    · right
      have hhalf : (rest : ℚ) / den = 1 / 2 := by
        rw [div_eq_div_iff hd.ne' two_ne_zero, one_mul, mul_comm]
        exact_mod_cast htie
      refine ⟨by rw [hhalf]; norm_num, ?_⟩
      rw [Nat.even_add_one, Nat.not_even_iff]
      omega
    · left
      have hmore : (den : ℚ) < 2 * rest := by
        have : den < 2 * rest := by omega
        exact_mod_cast this
      have hhalf : 1 / 2 < (rest : ℚ) / den := by
        rw [lt_div_iff₀ hd]
        linarith
      linarith

/-- The integer is the nearest one, and a half has gone away from zero. -/
structure RoundedAway (v : ℚ) (i : Int) : Prop where
  near : |v - i| ≤ 1 / 2
  away : |v - i| = 1 / 2 → |v| < |(i : ℚ)|

namespace Exact

/-- The number with its sign. -/
def value (e : Exact) : ℚ := if e.negative then -e.magnitude else e.magnitude

theorem roundedAway_round (e : Exact) : RoundedAway e.value e.round := by
  have hd : (0 : ℚ) < e.den := by exact_mod_cast e.den_pos
  have hmagnitude : (0 : ℚ) ≤ e.magnitude := by
    unfold magnitude
    positivity
  have hnum : e.magnitude * e.den = e.num := by
    rw [← e.num_div_den]
    field_simp
  have hlow : (((2 * e.num + e.den) / (2 * e.den) : Nat) : ℚ) ≤ e.magnitude + 1 / 2 := by
    have hle : (2 * e.num + e.den) / (2 * e.den) * (2 * e.den) ≤ 2 * e.num + e.den := Nat.div_mul_le_self _ _
    have hle' : (((2 * e.num + e.den) / (2 * e.den) : Nat) : ℚ) * (2 * e.den) ≤ 2 * e.num + e.den := by
      exact_mod_cast hle
    nlinarith
  have hhigh : e.magnitude + 1 / 2 < ((2 * e.num + e.den) / (2 * e.den) : Nat) + 1 := by
    have hlt : 2 * e.num + e.den < ((2 * e.num + e.den) / (2 * e.den) + 1) * (2 * e.den) := by
      rw [Nat.mul_comm _ (2 * e.den)]
      exact Nat.lt_mul_div_succ _ (by have := e.den_pos; omega)
    have hlt' : (2 * e.num + e.den : ℚ) < (((2 * e.num + e.den) / (2 * e.den) : Nat) + 1) * (2 * e.den) := by
      exact_mod_cast hlt
    nlinarith
  unfold value round signed
  generalize (2 * e.num + e.den) / (2 * e.den) = n at *
  -- The sign turns the number and the integer over together.
  have hboth : RoundedAway e.magnitude n := by
    refine ⟨abs_le.2 ⟨?_, ?_⟩, fun htie => ?_⟩
    · push_cast
      linarith
    · push_cast
      linarith
    · push_cast at htie ⊢
      rw [abs_of_nonneg hmagnitude, abs_of_nonneg (by positivity)]
      obtain hright | hleft := (abs_eq (by norm_num)).1 htie
      · linarith
      · linarith
  cases e.negative with
  | false => exact hboth
  | true =>
    simp only [if_true]
    refine ⟨?_, fun htie => ?_⟩
    · have hnear := hboth.near
      rwa [Int.cast_neg, neg_sub_neg, abs_sub_comm]
    · rw [Int.cast_neg, neg_sub_neg, abs_sub_comm] at htie
      rw [Int.cast_neg, abs_neg, abs_neg]
      exact hboth.away htie

end Exact

namespace Interchange

variable {f : Interchange} {m : Nat} {x k : Int} {v : ℚ}

/-! ## The nearest number of a format -/

/-- Of all numbers with the bits of the format, their exponents as large as need
be, `m * 2^x` is the nearest to a magnitude; of two that are as near it is the one
with the even significand. -/
structure Nearest (f : Interchange) (v : ℚ) (m : Nat) (x : Int) : Prop where
  stands : f.Stands m x
  le : ∀ {n : Nat} {y : Int}, f.Stands n y → |v - m * 2 ^ x| ≤ |v - n * 2 ^ y|
  even : ∀ {n : Nat} {y : Int}, f.Stands n y → (n * 2 ^ y : ℚ) ≠ m * 2 ^ x →
    |v - m * 2 ^ x| = |v - n * 2 ^ y| → Even m

/-- What `± v` is rounded to: the nearest number, or infinity where its exponent
is larger than those of the format. -/
inductive Rounds (f : Interchange) (negative : Bool) (v : ℚ) : Reading → Prop
  | finite {m : Nat} {x : Int} : f.Nearest v m x → x ≤ f.topExponent → Rounds f negative v (.finite ⟨negative, m, x⟩)
  | infinite {m : Nat} {x : Int} : f.Nearest v m x → f.topExponent < x → Rounds f negative v (.infinite negative)

/-- The numbers that count whole units are not nearer than the significand. -/
theorem significand_near (num : Nat) (hden : 0 < den) (k : Int) (c : Nat) :
    |(num / den : ℚ) - significand num den k * 2 ^ k| ≤ |(num / den : ℚ) - c * 2 ^ k| ∧
      (c ≠ significand num den k → |(num / den : ℚ) - significand num den k * 2 ^ k| = |(num / den : ℚ) - c * 2 ^ k| →
        Even (significand num den k)) := by
  have hunit : (0 : ℚ) < 2 ^ k := zpow_pos two_pos k
  have hscale (n : Nat) : |(num / den : ℚ) - n * 2 ^ k| = |(num / den : ℚ) / 2 ^ k - n| * 2 ^ k := by
    rw [← abs_of_pos hunit, ← abs_mul, abs_of_pos hunit, sub_mul, div_mul_cancel₀ _ hunit.ne']
  have hnear := roundHalfEven_near (inUnits num den k).1 (inUnits_snd_pos hden num k)
  rw [inUnits_ratio] at hnear
  change |(num / den : ℚ) / 2 ^ k - significand num den k| < 1 / 2 ∨
    (|(num / den : ℚ) / 2 ^ k - significand num den k| = 1 / 2 ∧ Even (significand num den k)) at hnear
  rw [hscale, hscale]
  generalize (num / den : ℚ) / 2 ^ k = w at *
  generalize significand num den k = s at *
  by_cases hc : c = s
  · subst hc
    exact ⟨le_refl _, fun h => absurd rfl h⟩
  -- Two integers differ by one at least.
  have hapart : 1 ≤ |w - s| + |w - c| := by
    have hone : 1 ≤ |(s : ℚ) - c| := by
      have : 1 ≤ |(s : Int) - c| := Int.one_le_abs (by omega)
      exact_mod_cast this
    calc (1 : ℚ) ≤ |(s : ℚ) - c| := hone
      _ = |(w - c) - (w - s)| := by rw [sub_sub_sub_cancel_left]
      _ ≤ |w - c| + |w - s| := abs_sub _ _
      _ = |w - s| + |w - c| := add_comm _ _
  constructor
  · refine mul_le_mul_of_nonneg_right ?_ hunit.le
    obtain h | ⟨h, -⟩ := hnear
    · linarith
    · linarith
  · intro _ htie
    have htie' : |w - s| = |w - c| := mul_right_cancel₀ hunit.ne' htie
    obtain h | ⟨-, heven⟩ := hnear
    · linarith
    · exact heven

/-- **No number of the format is nearer** than the significand counted at the
exponent of the ratio. -/
theorem significand_nearest (hf : f.Proper) (hden : 0 < den) (h : f.UnitOf (num / den) k) {n : Nat} {y : Int}
    (hn : f.Stands n y) :
    |(num / den : ℚ) - significand num den k * 2 ^ k| ≤ |(num / den : ℚ) - n * 2 ^ y| ∧
      ((n * 2 ^ y : ℚ) ≠ significand num den k * 2 ^ k →
        |(num / den : ℚ) - significand num den k * 2 ^ k| = |(num / den : ℚ) - n * 2 ^ y| →
          Even (significand num den k)) := by
  by_cases hy : k ≤ y
  · have hwhole : (n * 2 ^ y : ℚ) = (n * 2 ^ (y - k).toNat : Nat) * 2 ^ k := by
      rw [zpow_eq_natPow_mul hy, Nat.cast_mul, mul_assoc]
    obtain ⟨hle, heven⟩ := significand_near num hden k (n * 2 ^ (y - k).toNat)
    rw [hwhole]
    refine ⟨hle, fun hne => heven fun heq => hne ?_⟩
    rw [heq]
  · -- below the least number with all bits at this exponent, which counts whole units
    have hfull : (2 : ℚ) ^ (f.precision + k - 1) ≤ num / den :=
      h.full.resolve_left (by have := hn.least_le; omega)
    have hbelow : (n * 2 ^ y : ℚ) < 2 ^ (f.precision + k - 1) := by
      calc (n * 2 ^ y : ℚ) < 2 ^ (f.precision + y) := (hn.unitOf hf).lt
        _ ≤ 2 ^ (f.precision + k - 1) := zpow_le_zpow_right₀ one_le_two (by omega)
    have hnearer : |(num / den : ℚ) - 2 ^ (f.precision + k - 1)| < |(num / den : ℚ) - n * 2 ^ y| := by
      rw [abs_of_nonneg (by linarith), abs_of_nonneg (by linarith)]
      linarith
    have hle := (significand_near num hden k (2 ^ (f.precision - 1))).1
    rw [← zpow_full hf k] at hle
    exact ⟨(hle.trans_lt hnearer).le, fun _ htie => absurd htie (hle.trans_lt hnearer).ne⟩

/-- The ratio's significand, carried if it is one too large, is the nearest
number. -/
theorem exists_nearest (hf : f.Proper) (hbits : 2 ≤ f.precision) (hden : 0 < den) (h : f.UnitOf (num / den) k) :
    ∃ m x, f.Nearest (num / den) m x ∧ f.pattern m x = f.pattern (significand num den k) k := by
  obtain ⟨hupper, hlower⟩ := significand_bounds hf hden h
  by_cases hcarry : significand num den k = 2 ^ f.precision
  · have hvalue : (significand num den k * 2 ^ k : ℚ) = (2 ^ (f.precision - 1) : Nat) * 2 ^ (k + 1) := by
      rw [hcarry, two_mul_unit hf, zpow_add_one₀ two_ne_zero, unit]
      push_cast
      ring
    have hless : 2 ^ (f.precision - 1) < 2 ^ f.precision := Nat.pow_lt_pow_right (by decide) (by omega)
    have heven : Even (2 ^ (f.precision - 1)) := Nat.even_pow.2 ⟨even_two, by omega⟩
    refine ⟨2 ^ (f.precision - 1), k + 1, ⟨⟨h.least_le.trans (by omega), hless, .inr (le_refl _)⟩, ?_, ?_⟩, ?_⟩
    · intro n y hn
      rw [← hvalue]
      exact (significand_nearest hf hden h hn).1
    · intro n y _ _ _
      exact heven
    · rw [hcarry, pattern_carry hf h.least_le]
  · refine ⟨significand num den k, k, ⟨⟨h.least_le, by omega, hlower⟩, ?_, ?_⟩, rfl⟩
    · intro n y hn
      exact (significand_nearest hf hden h hn).1
    · intro n y hn
      exact (significand_nearest hf hden h hn).2

/-- The patterns of numbers are those with the exponents of the format. -/
theorem Stands.pattern_lt_iff (hf : f.Proper) (h : f.Stands m x) : f.pattern m x < f.infinity ↔ x ≤ f.topExponent := by
  have hleast := h.least_le
  have hm : m < 2 * f.unit := two_mul_unit hf ▸ h.lt
  have hcast : ((2 ^ (f.width - f.precision) : Nat) : Int) = 2 ^ (f.width - f.precision) := by push_cast; rfl
  have hcount : 2 ^ 2 ≤ 2 ^ (f.width - f.precision) :=
    Nat.pow_le_pow_right (by decide) (by have := hf.add_two_le; omega)
  have htop : x ≤ f.topExponent ↔ (x - f.leastExponent).toNat + 3 ≤ 2 ^ (f.width - f.precision) := by
    unfold topExponent
    omega
  show (x - f.leastExponent).toNat * f.unit + m < (2 ^ (f.width - f.precision) - 1) * f.unit ↔ _
  rw [htop]
  constructor
  · intro hlt
    -- All bits at an exponent past the last would make the pattern as large as infinity's.
    have hsteps : (x - f.leastExponent).toNat < 2 ^ (f.width - f.precision) - 1 :=
      Nat.lt_of_mul_lt_mul_right (lt_of_le_of_lt (Nat.le_add_right _ m) hlt)
    by_contra hlast
    have hfull : f.unit ≤ m := h.full.resolve_left (by omega)
    have heq : 2 ^ (f.width - f.precision) - 1 = (x - f.leastExponent).toNat + 1 := by omega
    rw [heq, Nat.add_mul] at hlt
    omega
  · intro hsteps
    have hle : ((x - f.leastExponent).toNat + 2) * f.unit ≤ (2 ^ (f.width - f.precision) - 1) * f.unit :=
      Nat.mul_le_mul_right _ (by omega)
    rw [Nat.add_mul] at hle
    omega

/-- **What is written reads as the nearest number**, or as infinity past the
largest. -/
theorem rounds_write (hf : f.Proper) (hbits : 2 ≤ f.precision) (num : Nat) (hden : 0 < den) (negative : Bool) :
    f.Rounds negative (num / den) (f.read (f.write negative num den)) := by
  obtain ⟨m, x, hnearest, hpattern⟩ : ∃ m x, f.Nearest (num / den) m x ∧
      f.nearest num den = min f.infinity (f.pattern m x) := by
    rcases Nat.eq_zero_or_pos num with rfl | hnum
    · have hstands : f.Stands 0 f.leastExponent := ⟨le_refl _, Nat.two_pow_pos _, .inl rfl⟩
      refine ⟨0, f.leastExponent, ⟨hstands, ?_, ?_⟩, ?_⟩
      · intro n y _
        simp only [Nat.cast_zero, zero_div, zero_mul, sub_zero, abs_zero]
        exact abs_nonneg _
      · intro n y _ _ _
        exact Even.zero
      · simp [nearest, pattern]
    · obtain ⟨m, x, hnearest, hpattern⟩ := exists_nearest hf hbits hden (unitOf_unitExponent hnum hden)
      exact ⟨m, x, hnearest, by rw [nearest_eq hnum, hpattern]⟩
  have hwrite : f.write negative num den = f.signPart negative + min f.infinity (f.pattern m x) := by
    rw [← hpattern]
    rfl
  have hfinite := hnearest.stands.pattern_lt_iff hf
  rw [hwrite]
  by_cases htop : x ≤ f.topExponent
  · rw [Nat.min_eq_right (hfinite.2 htop).le, read_pattern hf hnearest.stands (hfinite.2 htop)]
    exact .finite hnearest htop
  · have hsign : f.infinity < f.signBit := signBit_eq hf ▸ Nat.lt_add_of_pos_right unit_pos
    obtain ⟨hnegative, hmagnitude⟩ := sign_of_signPart negative hsign
    have hread : f.read (f.signPart negative + f.infinity) = .infinite negative := by
      unfold read
      simp only [hnegative, hmagnitude, lt_irrefl, if_false, if_true]
    rw [Nat.min_eq_left (not_lt.1 (hfinite.not.2 htop)), hread]
    exact .infinite hnearest (not_le.1 htop)

end Interchange
end VectorEngine
