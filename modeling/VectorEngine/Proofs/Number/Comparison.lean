/-
How doubles compare.

A double is ranked by its kind, from minus infinity up to the blank, and within
a kind by exponent and significand. Comparing doubles is comparing their ranks:
the two zeros share one, and the blank has the highest. So comparing doubles is
a total preorder, though the order of the numbers leaves the blank out.
-/
import VectorEngine.Sorting
import Mathlib

namespace VectorEngine

open Float.Model (UnpackedFloat)

/-! ## Ranks -/

/-- Kind, exponent and significand of a double; below zero the last two count
downwards. -/
def rank : UnpackedFloat → Int × Int × Int
  | .infinity .negative => (-2, 0, 0)
  | .finite .negative m e _ => (-1, -e, -m)
  | .zero _ => (0, 0, 0)
  | .finite .positive m e _ => (1, e, m)
  | .infinity .positive => (2, 0, 0)
  | .notANumber => (3, 0, 0)

/-- Compares ranks, the first difference deciding. -/
def compareRanks : Int × Int × Int → Int × Int × Int → Ordering :=
  compareLex (compareOn (·.1)) (compareLex (compareOn (·.2.1)) (compareOn (·.2.2)))

instance : Std.TransCmp compareRanks := inferInstanceAs (Std.TransCmp (compareLex _ _))

theorem compare_natCast (a b : Nat) : compare (a : Int) (b : Int) = compare a b := by
  show compareOfLessAndEq _ _ = compareOfLessAndEq _ _
  simp [compareOfLessAndEq]

theorem compare_neg (a b : Int) : compare (-a) (-b) = (compare a b).swap := by
  rw [Int.compare_swap]
  show compareOfLessAndEq _ _ = compareOfLessAndEq _ _
  simp [compareOfLessAndEq, eq_comm]

/-- Numbers compare as their ranks do. -/
theorem compare_unpacked {a b : UnpackedFloat} (ha : a.isNaN = false) (hb : b.isNaN = false) :
    a.compare b = some (compareRanks (rank a) (rank b)) := by
  cases a with
  | notANumber => cases ha
  | infinity s =>
    cases b with
    | notANumber => cases hb
    | infinity t => cases s <;> cases t <;> rfl
    | zero t => cases s <;> rfl
    | finite t m e hm => cases s <;> cases t <;> rfl
  | zero s =>
    cases b with
    | notANumber => cases hb
    | infinity t => cases t <;> rfl
    | zero t => rfl
    | finite t m e hm => cases t <;> rfl
  | finite s m e hm =>
    cases b with
    | notANumber => cases hb
    | infinity t => cases s <;> cases t <;> rfl
    | zero t => cases s <;> rfl
    | finite t m' e' hm' =>
      cases s with
      | negative =>
        cases t with
        | negative =>
          simp [UnpackedFloat.compare, compareRanks, rank, compareLex, compareOn, compare_neg, compare_natCast,
            Ordering.swap_then]
        | positive => rfl
      | positive =>
        cases t with
        | negative => rfl
        | positive =>
          simp [UnpackedFloat.compare, compareRanks, rank, compareLex, compareOn, compare_natCast]

/-- The blank stands above every number. -/
theorem compareRanks_notANumber {a : UnpackedFloat} (ha : a.isNaN = false) :
    compareRanks (rank a) (rank .notANumber) = .lt := by
  cases a with
  | notANumber => cases ha
  | infinity s | finite s => cases s <;> rfl
  | zero s => rfl

/-! ## Doubles -/

/-- The rank of a double. -/
def floatRank (x : Float) : Int × Int × Int := rank x.toModel.unpack

@[simp] theorem isBlank_float (x : Float) : Element.isBlank x = x.isNaN := rfl

@[simp] theorem less_float (a b : Float) : Element.less a b = decide (a < b) := rfl

theorem unpack_of_isNaN {x : Float} (hx : x.isNaN = true) : x.toModel.unpack = .notANumber :=
  UnpackedFloat.isNaN_iff.1 hx

theorem less_iff_rank {a b : Float} (ha : a.isNaN = false) (hb : b.isNaN = false) :
    a < b ↔ compareRanks (floatRank a) (floatRank b) = .lt := by
  show decide ((a.toModel.unpack.compare b.toModel.unpack == some .lt) = true) = true ↔ _
  simp [compare_unpacked ha hb, floatRank]

theorem beq_iff_rank {a b : Float} (ha : a.isNaN = false) (hb : b.isNaN = false) :
    (a == b) = true ↔ compareRanks (floatRank a) (floatRank b) = .eq := by
  show (a.toModel.unpack.compare b.toModel.unpack == some .eq) = true ↔ _
  simp [compare_unpacked ha hb, floatRank]

/-- **Doubles compare as their ranks do**, blanks included. -/
theorem compareElements_eq_rank (a b : Float) : compareElements a b = compareRanks (floatRank a) (floatRank b) := by
  have hblank {x : Float} (hx : x.isNaN = true) : floatRank x = rank .notANumber := by
    rw [floatRank, unpack_of_isNaN hx]
  have hswap : compareRanks (floatRank b) (floatRank a) = .lt ↔ compareRanks (floatRank a) (floatRank b) = .gt :=
    Std.OrientedCmp.gt_iff_lt.symm
  simp only [compareElements, isBlank_float, less_float]
  cases ha : a.isNaN with
  | true =>
    cases hb : b.isNaN with
    | true => simp only [hblank ha, hblank hb]; rfl
    | false =>
      rw [hblank ha] at hswap ⊢
      exact (hswap.1 (compareRanks_notANumber hb)).symm
  | false =>
    cases hb : b.isNaN with
    | true =>
      rw [hblank hb]
      exact (compareRanks_notANumber ha).symm
    | false =>
      simp only [less_iff_rank ha hb, less_iff_rank hb ha, decide_eq_true_eq, hswap]
      cases compareRanks (floatRank a) (floatRank b) <;> rfl

/-- Comparing doubles is a total preorder. -/
instance : Std.TransCmp (compareElements : Float → Float → Ordering) where
  eq_swap := by
    intro a b
    simp only [compareElements_eq_rank]
    exact Std.OrientedCmp.eq_swap
  isLE_trans := by
    intro a b c
    simp only [compareElements_eq_rank]
    exact Std.TransCmp.isLE_trans

/-- No number equals a blank, nor does a blank. -/
theorem beq_eq_false_of_isNaN {x : Float} (hx : x.isNaN = true) (y : Float) : (x == y) = false ∧ (y == x) = false := by
  obtain rfl : x = Float.nan := by simpa using hx
  exact ⟨Float.nan_beq_eq_false y, Float.beq_nan_eq_false y⟩

/-- A blank compares with nothing. -/
theorem compare_of_isNaN {x : Float} (hx : x.isNaN = true) (y : Float) :
    x.toModel.unpack.compare y.toModel.unpack = none ∧ y.toModel.unpack.compare x.toModel.unpack = none := by
  rw [unpack_of_isNaN hx]
  refine ⟨rfl, ?_⟩
  cases y.toModel.unpack with
  | notANumber | infinity | zero | finite => rfl

/-- No number is on either side of a blank. -/
theorem not_less_of_isNaN {x : Float} (hx : x.isNaN = true) (y : Float) : ¬x < y ∧ ¬y < x := by
  obtain ⟨hleft, hright⟩ := compare_of_isNaN hx y
  constructor
  · show ¬decide ((x.toModel.unpack.compare y.toModel.unpack == some .lt) = true) = true
    simp [hleft]
  · show ¬decide ((y.toModel.unpack.compare x.toModel.unpack == some .lt) = true) = true
    simp [hright]

/-- Doubles that compare equal are both blank, or equal as numbers. -/
theorem compareElements_eq_iff {a b : Float} :
    compareElements a b = .eq ↔ (a.isNaN = true ∧ b.isNaN = true) ∨ (a == b) = true := by
  cases ha : a.isNaN with
  | true =>
    cases hb : b.isNaN with
    | true | false =>
      simp only [compareElements, isBlank_float, ha, hb, beq_eq_false_of_isNaN ha b]
      decide
  | false =>
    cases hb : b.isNaN with
    | true =>
      simp only [compareElements, isBlank_float, ha, hb, beq_eq_false_of_isNaN hb a]
      decide
    | false => simp [compareElements_eq_rank, beq_iff_rank ha hb]

/-- A double comes before another that is larger, and every number before the
blank. -/
theorem compareElements_lt_iff {a b : Float} :
    compareElements a b = .lt ↔ (a.isNaN = false ∧ b.isNaN = true) ∨ a < b := by
  cases ha : a.isNaN with
  | true =>
    have hless : ¬a < b := (not_less_of_isNaN ha b).1
    cases hb : b.isNaN with
    | true | false =>
      simp only [compareElements, isBlank_float, ha, hb, hless]
      decide
  | false =>
    cases hb : b.isNaN with
    | true =>
      have hless : ¬a < b := (not_less_of_isNaN hb a).2
      simp only [compareElements, isBlank_float, ha, hb, hless]
      decide
    | false => simp [compareElements_eq_rank, less_iff_rank ha hb]

end VectorEngine
