/-
Doubles and their patterns.

A pattern other than a NaN's is the pattern of exactly one double. The double
nearest a ratio therefore has the pattern written for it, and reads as the
nearest magnitude. The negative of a double has its pattern but for the sign.
-/
import VectorEngine.Proofs.Number.Interchange

namespace VectorEngine

open Float.Model (UnpackedFloat Format)

/-- The patterns of NaNs are those past infinity. -/
theorem isNaNBits_iff {w : UInt64} : @UnpackedFloat.isNaNBits Format.binary64 w.toBitVec = true ↔
    Interchange.double.read w.toNat = .nan := by
  have hexponent : (@UnpackedFloat.unpackExponent Format.binary64 w.toBitVec).toNat =
      w.toNat / 2 ^ 52 % 2 ^ 11 := by
    simp [UnpackedFloat.unpackExponent_def, Nat.shiftRight_eq_div_pow]
  have hmantissa : (@UnpackedFloat.unpackMantissa Format.binary64 w.toBitVec).toNat =
      w.toNat % 2 ^ 52 := by
    simp [UnpackedFloat.unpackMantissa_def]
  have hinfinity : Interchange.double.infinity = 2047 * 2 ^ 52 := by decide
  have hsign : Interchange.double.signBit = 2 ^ 63 := by decide
  rw [Interchange.read_eq_nan_iff, hinfinity, hsign, UnpackedFloat.isNaNBits, decide_eq_true_eq, ← BitVec.toNat_inj,
    ne_eq, ← BitVec.toNat_inj, hexponent, hmantissa]
  simp
  omega

/-- A pattern that is no NaN's is that of the double it makes. -/
theorem toBits_ofBits {w : UInt64} (h : Interchange.double.read w.toNat ≠ .nan) : (Float.ofBits w).toBits = w := by
  show UInt64.ofBitVec (UnpackedFloat.pack Format.binary64 (UnpackedFloat.unpack Format.binary64 w.toBitVec)) = w
  rw [UnpackedFloat.pack_unpack, if_neg (isNaNBits_iff.not.2 h)]

/-- A double is blank if its pattern is a NaN's. -/
theorem isNaN_iff_read {x : Float} : x.isNaN = true ↔ Interchange.double.read x.toBits.toNat = .nan := by
  have hvalid : Format.binary64.Valid x.toBits.toBitVec := x.toModel.valid
  rw [← isNaNBits_iff]
  refine (UnpackedFloat.isNaN_unpack_iff_of_valid hvalid).trans ⟨fun h => ?_, fun h => ?_⟩
  · rw [h]
    exact UnpackedFloat.isNaNBits_packedNaN
  · obtain ⟨hexponent, hmantissa⟩ := of_decide_eq_true h
    exact hvalid.eq_packedNaN hexponent hmantissa

namespace Exact

open Interchange

/-- The double nearest a ratio has the pattern written for it. -/
theorem toBits_ratioToFloat (negative : Bool) (num den : Nat) :
    (ratioToFloat negative num den).toBits.toNat = double.write negative num den := by
  have hlt : double.write negative num den < 2 ^ 64 := write_lt double_proper negative num den
  have hword : (UInt64.ofNat (double.write negative num den)).toNat = double.write negative num den :=
    UInt64.toNat_ofNat_of_lt' hlt
  unfold ratioToFloat
  rw [toBits_ofBits, hword]
  rw [hword]
  exact read_write_ne_nan double_proper negative num den

theorem isNaN_ratioToFloat (negative : Bool) (num den : Nat) : (ratioToFloat negative num den).isNaN = false := by
  rw [← Bool.not_eq_true, isNaN_iff_read, toBits_ratioToFloat]
  exact read_write_ne_nan double_proper negative num den

theorem read_infinite (negative : Bool) : double.read (infinite negative).toBits.toNat = .infinite negative := by
  cases negative with
  | false | true => decide +kernel

/-! ## Doubles nearest integers -/

/-- Rounding leaves a whole number as it is. -/
theorem round_eq {e : Exact} {r : Nat} (h : e.magnitude = r) : e.round = signed e.negative r := by
  have hnum : e.num = r * e.den := by
    have hden : (e.den : ℚ) ≠ 0 := by exact_mod_cast e.den_pos.ne'
    rw [← num_div_den, div_eq_iff hden] at h
    exact_mod_cast h
  have hdouble : 2 * e.num + e.den = 2 * e.den * r + e.den := by rw [hnum]; ring
  rw [round, hdouble, Nat.mul_add_div (by have := e.den_pos; omega), Nat.div_eq_of_lt (by have := e.den_pos; omega),
    Nat.add_zero]

/-- A number that is small enough is written as a finite double. -/
theorem read_ratioToFloat {num den : Nat} (hden : 0 < den) (hsmall : (num / den : ℚ) < 2 ^ (200 : Int))
    (negative : Bool) : ∃ e, double.read (ratioToFloat negative num den).toBits.toNat = .finite e ∧
      e.negative = negative ∧ e.magnitude = double.rounded num den := by
  rw [toBits_ratioToFloat]
  apply read_write double_proper hden
  intro hnum
  have hexponent := (unitOf_unitExponent (f := double) hnum hden).le (j := 147) (by decide) hsmall
  have : double.topExponent = 971 := by decide
  omega

/-- The double nearest an integer of up to 64 bits reads as the integer rounded. -/
theorem read_intToFloat {i : Int} (hi : i.natAbs ≤ 2 ^ 64) : ∃ e, ∃ r : Nat,
    double.read (intToFloat i).toBits.toNat = .finite e ∧ e.negative = decide (i < 0) ∧ e.magnitude = r ∧
      double.rounded i.natAbs 1 = r := by
  have hsmall : (i.natAbs / (1 : Nat) : ℚ) < 2 ^ (200 : Int) := by
    have : (i.natAbs : ℚ) ≤ 2 ^ 64 := by exact_mod_cast hi
    simpa using this.trans_lt (by norm_num)
  obtain ⟨e, hread, hnegative, hmagnitude⟩ := read_ratioToFloat Nat.one_pos hsmall (decide (i < 0))
  obtain ⟨r, hr⟩ := rounded_natural (f := double) i.natAbs
  exact ⟨e, r, hread, hnegative, hmagnitude.trans hr, hr⟩

/-- Integers of up to 53 bits are doubles. -/
theorem rounded_natAbs {n : Nat} (hn : n ≤ 2 ^ 53) : double.rounded n 1 = n := by
  by_cases hlast : n = 2 ^ 53
  · have hvalue : (n / (1 : Nat) : ℚ) = (2 ^ 52 : Nat) * 2 ^ (1 : Int) := by rw [hlast]; norm_num
    simpa using rounded_eq (f := double) Nat.one_pos (by decide) (by decide) hvalue
  · have hvalue : (n / (1 : Nat) : ℚ) = n * 2 ^ (0 : Int) := by simp
    simpa using rounded_eq (f := double) Nat.one_pos (show n < 2 ^ 53 by omega) (by decide) hvalue

/-- What a positive integer is rounded to is one, and not past a power of two. -/
theorem rounded_bounds {n r b : Nat} (hr : double.rounded n 1 = r) (hn : 1 ≤ n) (hb : n ≤ 2 ^ b) :
    1 ≤ r ∧ r ≤ 2 ^ b := by
  have hleast {j : Int} (hj : 0 ≤ j) : double.leastExponent ≤ j := le_trans (by decide) hj
  have hlow : (2 : ℚ) ^ (0 : Int) ≤ n / (1 : Nat) := by
    simpa using (by exact_mod_cast hn : (1 : ℚ) ≤ n)
  have hhigh : (n / (1 : Nat) : ℚ) ≤ 2 ^ (b : Int) := by
    simpa using (by exact_mod_cast hb : (n : ℚ) ≤ 2 ^ b)
  have hone := le_rounded double_proper Nat.one_pos (hleast (le_refl 0)) hlow
  have hpower := rounded_le double_proper Nat.one_pos (hleast (Int.natCast_nonneg b)) hhigh
  rw [hr] at hone hpower
  exact ⟨by exact_mod_cast hone, by exact_mod_cast hpower⟩

/-- An integer and what it is rounded to have the same nearest double. -/
theorem intToFloat_eq {i j : Int} (hi : i.natAbs ≤ 2 ^ 64) (hsign : j < 0 ↔ i < 0)
    (hrounded : double.rounded i.natAbs 1 = j.natAbs) : intToFloat j = intToFloat i := by
  obtain ⟨e, r, hread, hnegative, hmagnitude, hr⟩ := read_intToFloat hi
  have hlt : (intToFloat i).toBits.toNat < 2 ^ 64 := (intToFloat i).toBits.toNat_lt
  have hvalue : (j.natAbs / (1 : Nat) : ℚ) = e.magnitude := by rw [hmagnitude, ← hr, hrounded]; simp
  have hwrite := write_of_read double_proper hlt hread Nat.one_pos hvalue
  have hbits : double.write (decide (j < 0)) j.natAbs 1 = double.write (decide (i < 0)) i.natAbs 1 := by
    rw [decide_eq_decide.2 hsign, ← hnegative, hwrite, hnegative]
    exact toBits_ratioToFloat _ _ _
  show Float.ofBits (UInt64.ofNat (double.write _ _ _)) = Float.ofBits (UInt64.ofNat (double.write _ _ _))
  rw [hbits]

end Exact

/-! ## Finite doubles and their negatives -/

/-- A double is finite if its pattern reads as a number. -/
theorem isFinite_iff_read {x : Float} : x.isFinite = true ↔
    ∃ e, Interchange.double.read x.toBits.toNat = .finite e := by
  have hexponent : (@UnpackedFloat.unpackExponent Format.binary64 x.toBits.toBitVec).toNat =
      x.toBits.toNat / 2 ^ 52 % 2 ^ 11 := by
    simp [UnpackedFloat.unpackExponent_def, Nat.shiftRight_eq_div_pow]
  have hinfinity : Interchange.double.infinity = 2047 * 2 ^ 52 := by decide
  have hsign : Interchange.double.signBit = 2 ^ 63 := by decide
  have hones : @UnpackedFloat.unpackExponent Format.binary64 x.toBits.toBitVec = -1#_ ↔
      ¬x.toBits.toNat % Interchange.double.signBit < Interchange.double.infinity := by
    rw [hinfinity, hsign, ← BitVec.toNat_inj, hexponent]
    simp
    omega
  have hunpack : x.isFinite = true ↔ @UnpackedFloat.unpackExponent Format.binary64 x.toBits.toBitVec ≠ -1#_ := by
    change (UnpackedFloat.unpack Format.binary64 x.toBits.toBitVec).isFinite = true ↔ _
    unfold UnpackedFloat.unpack
    dsimp only
    split_ifs <;> simp_all [UnpackedFloat.isFinite]
  rw [hunpack, ne_eq, hones, not_not, Interchange.read]
  dsimp only
  split_ifs <;> simp_all

section Sign

open Float.Model.UnpackedFloat

variable {spec : Format}

/-- The pattern with the other sign. -/
def flipSign (b : BitVec spec.numBits) : BitVec spec.numBits :=
  packComponents spec (-Sign.ofBitVec (unpackSign b)) (unpackExponent b) (unpackMantissa b)

theorem isNaNBits_flipSign (b : BitVec spec.numBits) : isNaNBits (flipSign b) = isNaNBits b := by
  simp [isNaNBits, flipSign]

theorem unpack_flipSign (b : BitVec spec.numBits) :
    UnpackedFloat.unpack spec (flipSign b) = (UnpackedFloat.unpack spec b).neg := by
  simp only [UnpackedFloat.unpack, flipSign, unpackMantissa_packComponents, unpackExponent_packComponents,
    unpackSign_packComponents, Sign.ofBitVec_toBitVec]
  split_ifs <;> rfl

theorem toNat_packComponents (s : Sign) (e : BitVec spec.exponentBits) (m : BitVec spec.mantissaBitsWithoutImplicit) :
    (packComponents spec s e m).toNat =
      (s.toBitVec.toNat * 2 ^ spec.exponentBits + e.toNat) * 2 ^ spec.mantissaBitsWithoutImplicit + m.toNat := by
  rw [packComponents, BitVec.toNat_append, BitVec.toNat_append, ← Nat.shiftLeft_add_eq_or_of_lt m.isLt,
    ← Nat.shiftLeft_add_eq_or_of_lt e.isLt, Nat.shiftLeft_eq, Nat.shiftLeft_eq]

/-- The sign is the highest bit. -/
theorem toNat_flipSign (b : BitVec Format.binary64.numBits) : ((flipSign b).toNat + 2 ^ 63) % 2 ^ 64 = b.toNat := by
  have hsplit := congrArg BitVec.toNat (packComponents_unpackSign_unpackExponent_unpackMantissa b)
  have hlt : b.toNat < 2 ^ 64 := b.isLt
  have hexponent : 2 ^ Format.binary64.exponentBits = 2 ^ 11 := rfl
  have hmantissa : 2 ^ Format.binary64.mantissaBitsWithoutImplicit = 2 ^ 52 := rfl
  rw [toNat_packComponents, hexponent, hmantissa] at hsplit
  rw [flipSign, toNat_packComponents, hexponent, hmantissa]
  have hflip : (-Sign.ofBitVec (unpackSign b)).toBitVec.toNat = 1 - (Sign.ofBitVec (unpackSign b)).toBitVec.toNat := by
    cases Sign.ofBitVec (unpackSign b) with
    | negative | positive => rfl
  omega

/-- The negative of a number has its pattern with the other sign. -/
theorem toBits_neg {x : Float} (hx : x.isNaN = false) :
    (-x).toBits = UInt64.ofBitVec (@flipSign Format.binary64 x.toBits.toBitVec) := by
  have hnumber : ¬@isNaNBits Format.binary64 x.toBits.toBitVec = true := by
    rw [isNaNBits_iff, ← isNaN_iff_read, hx]
    decide
  show UInt64.ofBitVec (UnpackedFloat.pack Format.binary64
    (UnpackedFloat.unpack Format.binary64 x.toBits.toBitVec).neg) = _
  rw [← unpack_flipSign, pack_unpack, isNaNBits_flipSign, if_neg hnumber]

end Sign

namespace Exact

variable {x : Float} {e : Exact}

theorem ofFloat?_eq_some_iff : ofFloat? x = some e ↔ Interchange.double.read x.toBits.toNat = .finite e := by
  unfold ofFloat?
  cases Interchange.double.read x.toBits.toNat with
  | finite | infinite | nan => simp

theorem isFinite_iff : x.isFinite = true ↔ ∃ e, ofFloat? x = some e := by
  simp only [isFinite_iff_read, ofFloat?_eq_some_iff]

/-- The number of the same magnitude with the other sign. -/
def opposite (e : Exact) : Exact := { e with negative := !e.negative }

/-- The negative of a finite double. -/
theorem ofFloat?_neg (h : ofFloat? x = some e) : ofFloat? (-x) = some e.opposite := by
  rw [ofFloat?_eq_some_iff] at h ⊢
  have hnumber : x.isNaN = false := by
    rw [← Bool.not_eq_true, isNaN_iff_read, h]
    simp
  have hbits : ((-x).toBits.toNat + 2 ^ 63) % 2 ^ 64 = x.toBits.toNat := by
    rw [toBits_neg hnumber]
    exact toNat_flipSign x.toBits.toBitVec
  have hlt : (-x).toBits.toNat < 2 ^ 64 := (-x).toBits.toNat_lt
  have hsign : Interchange.double.signBit = 2 ^ 63 := by decide
  have hmagnitude : (-x).toBits.toNat % 2 ^ 63 = x.toBits.toNat % 2 ^ 63 := by omega
  have hnegative : decide (2 ^ 63 ≤ (-x).toBits.toNat) = !decide (2 ^ 63 ≤ x.toBits.toNat) := by
    rw [← decide_not, decide_eq_decide]
    omega
  unfold Interchange.read at h ⊢
  rw [hsign] at h ⊢
  rw [hmagnitude, hnegative]
  dsimp only at h ⊢
  split_ifs at h ⊢ <;> cases h <;> rfl

end Exact
end VectorEngine
