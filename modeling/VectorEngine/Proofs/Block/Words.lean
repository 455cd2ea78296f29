/-
Elements as words.

Every element of a block is a word below the modulus of its format. Reading one
as a double and writing the double gives the word back as long as nothing is
rounded; where an integer is, writing it once more gives a word that reads the
same, even where the double lies past the bounds of the format.
-/
import VectorEngine.Block
import VectorEngine.Proofs.Number.Doubles

namespace VectorEngine
namespace NumberFormat

open Interchange Exact

variable {f : NumberFormat} {word : Nat} {i : Int}

/-- The word is a NaN's; no integer is one. -/
def IsNaN : NumberFormat → Nat → Prop
  | r4, word => single.read word = .nan
  | r8, word => double.read word = .nan
  | _, _ => False

/-! ## Integers -/

theorem integer_mem_bounds (hword : word < f.modulus) : f.bounds.1 ≤ f.integer word ∧ f.integer word ≤ f.bounds.2 := by
  cases f <;> simp [modulus, size, bounds, integer, isSigned] at hword ⊢ <;> omega

/-- The word of an integer is that integer's again. -/
theorem toNat_integer_emod (hword : word < f.modulus) : (f.integer word % (f.modulus : Int)).toNat = word := by
  cases f <;> simp [modulus, size, integer, isSigned] at hword ⊢ <;> omega

theorem integer_toNat_emod (hlow : f.bounds.1 ≤ i) (hhigh : i ≤ f.bounds.2) :
    f.integer (i % (f.modulus : Int)).toNat = i := by
  cases f <;> simp [modulus, size, bounds, integer, isSigned] at hlow hhigh ⊢ <;> omega

theorem natAbs_le (hlow : f.bounds.1 ≤ i) (hhigh : i ≤ f.bounds.2) : i.natAbs ≤ 2 ^ 64 := by
  cases f <;> simp [modulus, size, bounds, isSigned] at hlow hhigh ⊢ <;> omega

theorem saturate_mem_bounds (x : Float) : f.bounds.1 ≤ f.saturate x ∧ f.saturate x ≤ f.bounds.2 := by
  have hzero : f.bounds.1 ≤ 0 ∧ 0 ≤ f.bounds.2 := by cases f <;> decide
  unfold saturate
  split
  · constructor <;> omega
  · constructor <;> omega
  · constructor <;> omega
  · exact hzero

theorem saturate_of_read {x : Float} {e : Exact} (h : double.read x.toBits.toNat = .finite e) :
    f.saturate x = max f.bounds.1 (min f.bounds.2 e.round) := by
  unfold saturate
  rw [h]

/-- An integer that is a double comes back from it. -/
theorem saturate_intToFloat (hlow : f.bounds.1 ≤ i) (hhigh : i ≤ f.bounds.2) (hexact : i.natAbs ≤ 2 ^ 53) :
    f.saturate (intToFloat i) = i := by
  obtain ⟨e, r, hread, hnegative, hmagnitude, hr⟩ := read_intToFloat (natAbs_le hlow hhigh)
  obtain rfl : i.natAbs = r := by exact_mod_cast (rounded_natAbs hexact).symm.trans hr
  have hround : e.round = i := by
    rw [round_eq hmagnitude, hnegative, signed]
    by_cases hsign : i < 0
    · rw [if_pos (decide_eq_true hsign)]
      omega
    · rw [if_neg (by simpa using hsign)]
      omega
  rw [saturate_of_read hread, hround]
  omega

/-- An integer of more bits than a double has belongs to a format of eight bytes. -/
theorem bounds_of_lt_natAbs (hlow : f.bounds.1 ≤ i) (hhigh : i ≤ f.bounds.2) (hi : 2 ^ 53 < i.natAbs) :
    ∃ b : Nat, (b = 63 ∨ b = 64) ∧ f.bounds.2 = 2 ^ b - 1 ∧ (f.bounds.1 = 0 ∨ f.bounds.1 = -2 ^ b) := by
  cases f with
  | i8 => exact ⟨63, by decide⟩
  | u8 | r8 => exact ⟨64, by decide⟩
  | i1 | i2 | i4 | u1 | u2 | u4 | r4 => simp [bounds, modulus, size, isSigned] at hlow hhigh; omega

/-- **An integer that was rounded** gives the same double again, after saturating
too: the largest integer of a format rounds to the power of two past it. -/
theorem intToFloat_saturate (hlow : f.bounds.1 ≤ i) (hhigh : i ≤ f.bounds.2) :
    intToFloat (f.saturate (intToFloat i)) = intToFloat i := by
  by_cases hexact : i.natAbs ≤ 2 ^ 53
  · rw [saturate_intToFloat hlow hhigh hexact]
  have hi : i.natAbs ≤ 2 ^ 64 := natAbs_le hlow hhigh
  obtain ⟨b, hb, hmax, hmin⟩ := bounds_of_lt_natAbs hlow hhigh (not_le.1 hexact)
  obtain ⟨e, r, hread, hnegative, hmagnitude, hr⟩ := read_intToFloat hi
  have hpower : i.natAbs ≤ 2 ^ b := by
    obtain rfl | rfl := hb <;> omega
  obtain ⟨hpositive, hupper⟩ := rounded_bounds hr (by omega) hpower
  rw [saturate_of_read hread, round_eq hmagnitude, hnegative, signed]
  by_cases hsign : i < 0
  · have hkept : max f.bounds.1 (min f.bounds.2 (-(r : Int))) = -r := by
      obtain rfl | rfl := hb <;> omega
    rw [if_pos (decide_eq_true hsign), hkept]
    exact intToFloat_eq hi (by omega) (by simpa using hr)
  · rw [if_neg (by simpa using hsign)]
    by_cases hlast : r = 2 ^ b
    · have hkept : max f.bounds.1 (min f.bounds.2 (r : Int)) = 2 ^ b - 1 := by
        obtain rfl | rfl := hb <;> omega
      have hsame : intToFloat (2 ^ b - 1) = intToFloat (2 ^ b) := by
        obtain rfl | rfl := hb <;> decide +kernel
      rw [hkept, hsame]
      exact intToFloat_eq hi (by obtain rfl | rfl := hb <;> omega) (by rw [hr, hlast, Int.natAbs_pow]; simp)
    · have hkept : max f.bounds.1 (min f.bounds.2 (r : Int)) = r := by
        obtain rfl | rfl := hb <;> omega
      rw [hkept]
      exact intToFloat_eq hi (by omega) (by simpa using hr)

/-! ## Reals -/

/-- Every finite single is a double. -/
theorem read_toFloat_of_single {e : Exact} (hword : word < 2 ^ 32) (h : single.read word = .finite e) :
    ∃ e', double.read e.toFloat.toBits.toNat = .finite e' ∧ e'.negative = e.negative ∧ e'.magnitude = e.magnitude := by
  obtain ⟨hstands, hfinite, -⟩ := of_read_eq_finite single_proper hword h
  have hmantissa : e.mantissa < 2 ^ 24 := hstands.lt
  have hleast : -149 ≤ e.exponent := hstands.least_le
  have htop : e.exponent < 106 := lt_top_of_pattern hfinite
  have hsmall : (e.num / e.den : ℚ) < 2 ^ (200 : Int) := by
    rw [e.num_div_den]
    calc (e.mantissa * 2 ^ e.exponent : ℚ) < 2 ^ (24 : Int) * 2 ^ e.exponent := by gcongr; exact_mod_cast hmantissa
      _ ≤ 2 ^ (24 : Int) * 2 ^ (105 : Int) := by gcongr; exact one_le_two; omega
      _ ≤ 2 ^ (200 : Int) := by norm_num
  obtain ⟨e', hread, hnegative, hmagnitude⟩ := read_ratioToFloat e.den_pos hsmall e.negative
  refine ⟨e', hread, hnegative, hmagnitude.trans ?_⟩
  have hfew : e.mantissa < 2 ^ double.precision := hmantissa.trans (by decide)
  rw [rounded_eq e.den_pos hfew (le_trans (by decide) hleast) e.num_div_den, e.num_div_den]

theorem writeWord_readWord_r4 (hword : word < 2 ^ 32) (hnan : single.read word ≠ .nan) :
    r4.writeWord (r4.readWord word) = word ∧ (r4.readWord word).isNaN = false := by
  unfold readWord writeWord
  cases h : single.read word with
  | finite e =>
    obtain ⟨e', hread, hnegative, hmagnitude⟩ := read_toFloat_of_single hword h
    refine ⟨?_, isNaN_ratioToFloat _ _ _⟩
    simp only [hread, hnegative]
    exact write_of_read single_proper hword h e'.den_pos (e'.num_div_den.trans hmagnitude)
  | infinite negative =>
    refine ⟨?_, ?_⟩
    · simp only [read_infinite]
      exact (of_read_eq_infinite hword h).symm
    · rw [← Bool.not_eq_true, isNaN_iff_read, read_infinite]
      simp
  | nan => exact absurd h hnan

theorem writeWord_readWord_r8 (hword : word < 2 ^ 64) (hnan : double.read word ≠ .nan) :
    r8.writeWord (r8.readWord word) = word ∧ (r8.readWord word).isNaN = false := by
  have hvalue : (UInt64.ofNat word).toNat = word := UInt64.toNat_ofNat_of_lt' hword
  have hbits : (Float.ofBits (UInt64.ofNat word)).toBits.toNat = word := by
    rw [toBits_ofBits (hvalue.symm ▸ hnan), hvalue]
  have hnumber : (r8.readWord word).isNaN = false := by
    rw [← Bool.not_eq_true, isNaN_iff_read]
    show double.read (Float.ofBits (UInt64.ofNat word)).toBits.toNat ≠ .nan
    rwa [hbits]
  refine ⟨?_, hnumber⟩
  show (if (r8.readWord word).isNaN then _ else (r8.readWord word).toBits.toNat) = word
  rw [hnumber]
  exact hbits

/-! ## Words of every format -/

theorem readWord_of_integer (hf : f.isReal = false) (word : Nat) : f.readWord word = intToFloat (f.integer word) := by
  cases f with
  | r4 | r8 => cases hf
  | i1 | i2 | i4 | i8 | u1 | u2 | u4 | u8 => rfl

theorem writeWord_of_integer (hf : f.isReal = false) (x : Float) :
    f.writeWord x = (f.saturate x % (f.modulus : Int)).toNat := by
  cases f with
  | r4 | r8 => cases hf
  | i1 | i2 | i4 | i8 | u1 | u2 | u4 | u8 => rfl

theorem writeWord_lt (x : Float) : f.writeWord x < f.modulus := by
  cases hf : f.isReal with
  | false =>
    have hmodulus : 0 < (f.modulus : Int) := by exact_mod_cast (Nat.pow_pos (by decide) : 0 < 256 ^ f.size)
    have hnonneg := Int.emod_nonneg (f.saturate x) hmodulus.ne'
    have hlt := Int.emod_lt_of_pos (f.saturate x) hmodulus
    rw [writeWord_of_integer hf]
    omega
  | true =>
    cases f with
    | r4 =>
      unfold writeWord
      dsimp only
      cases double.read x.toBits.toNat with
      | finite e => exact write_lt single_proper _ _ _
      | infinite negative =>
        cases negative with
        | false | true => decide
      | nan => decide
    | r8 =>
      unfold writeWord
      dsimp only
      split
      · decide
      · exact x.toBits.toNat_lt
    | i1 | i2 | i4 | i8 | u1 | u2 | u4 | u8 => cases hf

theorem isNaN_readWord (hword : word < f.modulus) (hnan : ¬f.IsNaN word) : (f.readWord word).isNaN = false := by
  cases hf : f.isReal with
  | false =>
    rw [readWord_of_integer hf]
    exact isNaN_ratioToFloat _ _ _
  | true =>
    cases f with
    | r4 => exact (writeWord_readWord_r4 hword hnan).2
    | r8 => exact (writeWord_readWord_r8 hword hnan).2
    | i1 | i2 | i4 | i8 | u1 | u2 | u4 | u8 => cases hf

/-- **A word comes back** from the double it is read as, unless it is an integer
with more bits than a double has. -/
theorem writeWord_readWord (hword : word < f.modulus) (hnan : ¬f.IsNaN word)
    (hexact : f = .i8 ∨ f = .u8 → (f.integer word).natAbs ≤ 2 ^ 53) : f.writeWord (f.readWord word) = word := by
  cases hf : f.isReal with
  | false =>
    obtain ⟨hlow, hhigh⟩ := integer_mem_bounds hword
    have hbits : (f.integer word).natAbs ≤ 2 ^ 53 := by
      cases f with
      | i8 | u8 => exact hexact (by simp)
      | r4 | r8 => cases hf
      | i1 | i2 | i4 | u1 | u2 | u4 => simp [bounds, modulus, size, isSigned] at hlow hhigh; omega
    rw [readWord_of_integer hf, writeWord_of_integer hf, saturate_intToFloat hlow hhigh hbits, toNat_integer_emod hword]
  | true =>
    cases f with
    | r4 => exact (writeWord_readWord_r4 hword hnan).1
    | r8 => exact (writeWord_readWord_r8 hword hnan).1
    | i1 | i2 | i4 | i8 | u1 | u2 | u4 | u8 => cases hf

/-- **The double comes back** from the word it is written as, whatever the
integer. -/
theorem readWord_writeWord_readWord (hword : word < f.modulus) (hnan : ¬f.IsNaN word) :
    f.readWord (f.writeWord (f.readWord word)) = f.readWord word := by
  cases hf : f.isReal with
  | false =>
    obtain ⟨hlow, hhigh⟩ := integer_mem_bounds hword
    obtain ⟨hlow', hhigh'⟩ := saturate_mem_bounds (intToFloat (f.integer word))
    rw [readWord_of_integer hf, writeWord_of_integer hf, readWord_of_integer hf, integer_toNat_emod hlow' hhigh',
      intToFloat_saturate hlow hhigh]
  | true =>
    have hreal : ¬(f = .i8 ∨ f = .u8) := by
      intro h
      obtain rfl | rfl := h <;> cases hf
    rw [writeWord_readWord hword hnan fun h => absurd h hreal]

end NumberFormat
end VectorEngine
