/-
Doubles up to the sign of a zero.

The two zeros are equal as numbers, and they share a rank; no other two doubles do. So
doubles have the same rank exactly if they are one number (`sameNumber_iff_rank`). Sums
and products see a zero's sign only in a result that is a zero again, so they are one
number if their operands are.
-/
import VectorEngine.Proofs.Number.Comparison

namespace VectorEngine

open Float.Model (UnpackedFloat Format)

/-- The same double, the two zeros being one number. -/
def SameNumber (a b : Float) : Prop := a = b ∨ (a == b) = true

/-! ## Ranks -/

theorem compareRanks_eq_iff {p q : Int × Int × Int} : compareRanks p q = .eq ↔ p = q := by
  simp [compareRanks, compareLex, compareOn, Ordering.then_eq_eq, Prod.ext_iff]

/-- Only zeros share a rank. -/
theorem rank_eq_iff {a b : UnpackedFloat} : rank a = rank b ↔ a = b ∨ ∃ s t, a = .zero s ∧ b = .zero t := by
  constructor
  · intro h
    cases a with
    | notANumber =>
      cases b with
      | notANumber => exact .inl rfl
      | zero t => simp [rank] at h
      | infinity t | finite t => cases t <;> simp [rank] at h
    | zero s =>
      cases b with
      | zero t => exact .inr ⟨s, t, rfl, rfl⟩
      | notANumber => simp [rank] at h
      | infinity t | finite t => cases t <;> simp [rank] at h
    | infinity s =>
      cases b with
      | infinity t => cases s <;> cases t <;> simp [rank] at h ⊢
      | notANumber | zero t => cases s <;> simp [rank] at h
      | finite t => cases s <;> cases t <;> simp [rank] at h
    | finite s m e hm =>
      cases b with
      | finite t m' e' hm' =>
        cases s <;> cases t <;> simp [rank] at h ⊢
        all_goals exact ⟨h.2, h.1⟩
      | notANumber | zero t => cases s <;> simp [rank] at h
      | infinity t => cases s <;> cases t <;> simp [rank] at h
  · rintro (rfl | ⟨s, t, rfl, rfl⟩)
    · rfl
    · rfl

theorem unpack_of_rank_blank {a : Float} (h : floatRank a = rank .notANumber) : a = Float.nan := by
  obtain hunpack | ⟨s, t, -, hzero⟩ := rank_eq_iff.1 h
  · have hnan : a.isNaN = true := UnpackedFloat.isNaN_iff.2 hunpack
    simpa using hnan
  · cases hzero

/-- **Doubles are one number exactly if they have the same rank.** -/
theorem sameNumber_iff_rank {a b : Float} : SameNumber a b ↔ floatRank a = floatRank b := by
  constructor
  · rintro (rfl | h)
    · rfl
    · obtain ⟨ha, hb, -⟩ := Float.beq_iff_ne_nan_and_eq.1 h
      exact compareRanks_eq_iff.1 ((beq_iff_rank (by simpa using ha) (by simpa using hb)).1 h)
  · intro h
    cases ha : a.isNaN with
    | true =>
      have hblank : floatRank a = rank .notANumber := congrArg rank (unpack_of_isNaN ha)
      exact .inl ((unpack_of_rank_blank hblank).trans (unpack_of_rank_blank (h ▸ hblank)).symm)
    | false =>
      cases hb : b.isNaN with
      | true =>
        have hblank : floatRank b = rank .notANumber := congrArg rank (unpack_of_isNaN hb)
        exact .inl ((unpack_of_rank_blank (h ▸ hblank)).trans (unpack_of_rank_blank hblank).symm)
      | false => exact .inr ((beq_iff_rank ha hb).2 (compareRanks_eq_iff.2 h))

/-! ## Sums and products -/

variable {a a' b b' : UnpackedFloat}

theorem rank_add (ha : rank a = rank a') (hb : rank b = rank b') (f : Format) :
    rank (UnpackedFloat.add f a b) = rank (UnpackedFloat.add f a' b') := by
  rw [rank_eq_iff] at ha hb
  obtain rfl | ⟨s, s', rfl, rfl⟩ := ha
  · obtain rfl | ⟨t, t', rfl, rfl⟩ := hb
    · rfl
    · cases a with
      | zero s => cases s <;> cases t <;> cases t' <;> rfl
      | notANumber | infinity | finite => rfl
  · obtain rfl | ⟨t, t', rfl, rfl⟩ := hb
    · cases b with
      | zero t => cases s <;> cases s' <;> cases t <;> rfl
      | notANumber | infinity | finite => rfl
    · cases s <;> cases s' <;> cases t <;> cases t' <;> rfl

theorem rank_mul (ha : rank a = rank a') (hb : rank b = rank b') (f : Format) :
    rank (UnpackedFloat.mul f a b) = rank (UnpackedFloat.mul f a' b') := by
  rw [rank_eq_iff] at ha hb
  obtain rfl | ⟨s, s', rfl, rfl⟩ := ha
  · obtain rfl | ⟨t, t', rfl, rfl⟩ := hb
    · rfl
    · cases a with
      | zero | notANumber | infinity | finite => rfl
  · obtain rfl | ⟨t, t', rfl, rfl⟩ := hb
    · cases b with
      | zero | notANumber | infinity | finite => rfl
    · rfl

/-- A zero that is packed is a zero. -/
theorem floatRank_pack (h : rank a = rank b) :
    floatRank (.ofModel (Float.Model.pack a)) = floatRank (.ofModel (Float.Model.pack b)) := by
  obtain rfl | ⟨s, t, rfl, rfl⟩ := rank_eq_iff.1 h
  · rfl
  · cases s <;> cases t <;> rfl

namespace SameNumber

variable {x x' y y' : Float}

theorem add (hx : SameNumber x x') (hy : SameNumber y y') : SameNumber (x + y) (x' + y') := by
  rw [sameNumber_iff_rank] at hx hy ⊢
  exact floatRank_pack (rank_add hx hy _)

theorem mul (hx : SameNumber x x') (hy : SameNumber y y') : SameNumber (x * y) (x' * y') := by
  rw [sameNumber_iff_rank] at hx hy ⊢
  exact floatRank_pack (rank_mul hx hy _)

end SameNumber
end VectorEngine
