/-
Shifts: values turned by a count.

Shifting a list turns it by the integer part of the count, modulo the length. The
count passes through 64 bits on the way, and an integer they do not hold becomes
the nearest one they do; so the turn is the right one for every list just when the
integer part is less than `2^63` in size (`shift_turns_iff`). Shifting back undoes
a shift by any count.
-/
import VectorEngine.Expression.Arithmetic
import VectorEngine.Proofs.Number.Nearest

namespace VectorEngine

/-! ## Integer parts -/

/-- The number without its fraction. -/
def integerPart (q : ℚ) : ℤ := if q < 0 then ⌈q⌉ else ⌊q⌋

theorem integerPart_neg (q : ℚ) : integerPart (-q) = -integerPart q := by
  unfold integerPart
  rcases lt_trichotomy q 0 with h | rfl | h
  · simp [h, h.not_gt, Int.floor_neg]
  · simp
  · simp [h, h.not_gt, Int.ceil_neg]

namespace Exact

variable {e : Exact}

/-- Dropping the fraction of a number leaves its integer part. -/
theorem truncate_eq (e : Exact) : e.truncate = integerPart e.value := by
  have hmagnitude : integerPart e.magnitude = ((e.num / e.den : ℕ) : ℤ) := by
    have hnonneg : ¬(e.num / e.den : ℚ) < 0 := not_lt.2 (by positivity)
    have hfloor := Rat.floor_intCast_div_natCast e.num e.den
    rw [integerPart, ← num_div_den, if_neg hnonneg]
    simpa using hfloor
  unfold truncate signed value
  split
  · rw [integerPart_neg, hmagnitude]
  · exact hmagnitude.symm

theorem value_opposite (e : Exact) : e.opposite.value = -e.value := by
  cases he : e.negative <;> simp [value, opposite, he, magnitude]

/-- The number a finite double is. -/
def valueOf (x : Float) : ℚ := ((ofFloat? x).map value).getD 0

theorem integerPart_valueOf {x : Float} (h : ofFloat? x = some e) : integerPart (valueOf x) = e.truncate := by
  rw [truncate_eq, valueOf, h]
  rfl

end Exact

/-! ## Turning a list -/

section Turned

variable {α : Type} {v : List α} {a b : ℤ}

/-- The values turned `z` places to the left, or to the right for a negative `z`. -/
def turned (v : List α) (z : ℤ) : List α := v.rotate (z % v.length).toNat

@[simp] theorem length_turned (v : List α) (z : ℤ) : (turned v z).length = v.length := List.length_rotate v _

theorem turned_eq_rotate {m : ℕ} (h : (m : ℤ) % v.length = a % v.length) : turned v a = v.rotate m := by
  have hcast : (a % v.length).toNat = m % v.length := by
    rw [← h]
    exact_mod_cast Int.toNat_natCast (m % v.length)
  rw [turned, hcast, List.rotate_mod]

theorem turned_natCast (v : List α) (m : ℕ) : turned v m = v.rotate m := turned_eq_rotate rfl

theorem getElem?_turned {i : ℕ} (hi : i < v.length) (z : ℤ) :
    (turned v z)[i]? = v[(i + (z % v.length).toNat) % v.length]? := List.getElem?_rotate hi

theorem turned_zero (v : List α) : turned v 0 = v := by
  rw [← Int.natCast_zero, turned_natCast, List.rotate_zero]

theorem turned_turned (v : List α) (a b : ℤ) : turned (turned v a) b = turned v (a + b) := by
  by_cases hv : v = []
  · simp [turned, hv]
  have hlength : (v.length : ℤ) ≠ 0 := by simpa using hv
  rw [turned, length_turned, turned, List.rotate_rotate]
  refine (turned_eq_rotate ?_).symm
  push_cast
  rw [Int.toNat_of_nonneg (Int.emod_nonneg a hlength), Int.toNat_of_nonneg (Int.emod_nonneg b hlength)]
  exact (Int.add_emod a b _).symm

theorem turned_replicate (n : ℕ) (x : α) (z : ℤ) : turned (List.replicate n x) z = List.replicate n x :=
  List.rotate_replicate x n _

/-- Two turns agree if the list is as it was after the difference between them. -/
theorem turned_eq_iff : turned v a = turned v b ↔ turned v (a - b) = v := by
  constructor
  · intro h
    have hback := congrArg (turned · (-b)) h
    rwa [turned_turned, turned_turned, ← sub_eq_add_neg, add_neg_cancel, turned_zero] at hback
  · intro h
    calc turned v a
        = turned v (a - b + b) := by rw [sub_add_cancel]
      _ = turned v b := by rw [← turned_turned, h]

/-- Only a list of equal values stays as it is when turned by one place. -/
theorem turned_neg_one_iff (hv : v ≠ []) : turned v (-1) = v ↔ ∃ x, v = List.replicate v.length x := by
  have : Nonempty α := ⟨v.head hv⟩
  rw [← List.rotate_one_eq_self_iff_eq_replicate, ← turned_natCast, ← zero_sub, ← turned_eq_iff, turned_zero,
    Int.natCast_one]
  exact eq_comm

end Turned

/-! ## Shifts -/

theorem saturate_eq_self {z : ℤ} (h : |z| < 2 ^ 63) : saturate 64 z = z := by
  have hlimit : ((Nat.pow 2 63 : ℕ) : ℤ) = 2 ^ 63 := by norm_num
  rw [abs_lt] at h
  simp only [saturate, Nat.add_one_sub_one]
  omega

/-- Past the bounds an integer and its negative are held at bounds that are not
the negatives of each other. -/
theorem saturate_add_saturate_neg {z : ℤ} (h : 2 ^ 63 ≤ |z|) : saturate 64 z + saturate 64 (-z) = -1 := by
  have hlimit : ((Nat.pow 2 63 : ℕ) : ℤ) = 2 ^ 63 := by norm_num
  rw [le_abs] at h
  simp only [saturate, Nat.add_one_sub_one]
  omega

namespace BinaryOp

variable {v : List Float} {c : Float} {e : Exact}

theorem rotateLeft_eq {k : ℕ} (hk : k ≤ v.length) : rotateLeft v k = v.rotate k :=
  (List.rotate_eq_drop_append_take hk).symm

theorem rotate_ok (hv : v ≠ []) (hc : Exact.ofFloat? c = some e) (op : BinaryOp) :
    let k := (saturate 64 e.truncate % v.length).toNat
    rotate op v [c] = .ok (if op = shiftLeft then rotateLeft v k else rotateRight v k) := by
  simp [rotate, shiftCount?, hc, hv]

theorem apply_shiftLeft (hv : v ≠ []) (hc : Exact.ofFloat? c = some e) :
    shiftLeft.apply v [c] = .ok (turned v (saturate 64 e.truncate)) := by
  have hlength : (0 : ℤ) < v.length := by exact_mod_cast List.length_pos_iff.2 hv
  have hlt := Int.emod_lt_of_pos (saturate 64 e.truncate) hlength
  rw [show shiftLeft.apply v [c] = rotate shiftLeft v [c] from rfl, rotate_ok hv hc, if_pos rfl,
    rotateLeft_eq (by omega), turned]

theorem apply_shiftRight (hv : v ≠ []) (hc : Exact.ofFloat? c = some e) :
    shiftRight.apply v [c] = .ok (turned v (-saturate 64 e.truncate)) := by
  have hlength : (0 : ℤ) < v.length := by exact_mod_cast List.length_pos_iff.2 hv
  have hnonneg := Int.emod_nonneg (saturate 64 e.truncate) hlength.ne'
  have hlt := Int.emod_lt_of_pos (saturate 64 e.truncate) hlength
  rw [show shiftRight.apply v [c] = rotate shiftRight v [c] from rfl, rotate_ok hv hc, if_neg (by decide),
    rotateRight, rotateLeft_eq (by omega)]
  refine congrArg Except.ok (turned_eq_rotate ?_).symm
  rw [Nat.cast_sub (by omega), Int.toNat_of_nonneg hnonneg, ← zero_sub]
  exact Int.ModEq.sub (Int.modEq_zero_iff_dvd.2 dvd_rfl) (Int.mod_modEq _ _)

/-- Shifting `v` by `c` turns it by `k` places: to the left the value at `i` is the
one that was at `i + k`, and to the right the other way round. -/
structure Turns (v : List Float) (c : Float) (k : ℕ) : Prop where
  left : ∃ w, shiftLeft.apply v [c] = .ok w ∧ w.length = v.length ∧
    ∀ i < v.length, w[i]? = v[(i + k) % v.length]?
  right : ∃ w, shiftRight.apply v [c] = .ok w ∧ w.length = v.length ∧
    ∀ i < v.length, w[(i + k) % v.length]? = v[i]?

theorem turned_iff {w : List Float} (hw : w.length = v.length) (z : ℤ) :
    (∀ i < v.length, w[i]? = v[(i + (z % v.length).toNat) % v.length]?) ↔ w = turned v z := by
  constructor
  · intro h
    refine List.ext_getElem? fun i => ?_
    by_cases hi : i < v.length
    · rw [h i hi, getElem?_turned hi]
    · rw [List.getElem?_eq_none (by omega), List.getElem?_eq_none (by simpa using hi)]
  · rintro rfl i hi
    exact getElem?_turned hi z

/-- Shifts turn by `z` places if turning by the count held in 64 bits does. -/
theorem turns_iff (hv : v ≠ []) (hc : Exact.ofFloat? c = some e) (z : ℤ) :
    Turns v c (z % v.length).toNat ↔ turned v (saturate 64 e.truncate) = turned v z := by
  constructor
  · rintro ⟨⟨w, hw, hlength, h⟩, -⟩
    rw [apply_shiftLeft hv hc] at hw
    rw [Except.ok.inj hw]
    exact (turned_iff hlength z).1 h
  · intro h
    refine ⟨⟨_, apply_shiftLeft hv hc, by simp, (turned_iff (by simp) z).2 h⟩,
      ⟨_, apply_shiftRight hv hc, by simp, ?_⟩⟩
    have hback : turned (turned v (-saturate 64 e.truncate)) z = v := by
      rw [turned_turned, neg_add_eq_sub, ← turned_eq_iff]
      exact h.symm
    intro i hi
    have hturned := getElem?_turned (v := turned v (-saturate 64 e.truncate)) (by simpa using hi) z
    rw [hback, length_turned] at hturned
    exact hturned.symm

/-- Shifting back by the same count undoes a shift. -/
theorem shiftRight_shiftLeft (hv : v ≠ []) (hc : Exact.ofFloat? c = some e) :
    (shiftLeft.apply v [c] >>= fun w => shiftRight.apply w [c]) = .ok v := by
  have hne : turned v (saturate 64 e.truncate) ≠ [] := by
    rw [← List.length_pos_iff, length_turned]
    exact List.length_pos_iff.2 hv
  rw [apply_shiftLeft hv hc]
  show shiftRight.apply (turned v (saturate 64 e.truncate)) [c] = .ok v
  rw [apply_shiftRight hne hc, turned_turned, add_neg_cancel, turned_zero]

/-- A shift the other way by the negative count is the same if the counts held in
64 bits are the negatives of each other. -/
theorem shiftRight_neg_iff (hv : v ≠ []) (hc : Exact.ofFloat? c = some e) :
    shiftLeft.apply v [c] = shiftRight.apply v [-c] ↔
      turned v (saturate 64 e.truncate + saturate 64 (-e.truncate)) = v := by
  have htruncate : e.opposite.truncate = -e.truncate := by
    rw [Exact.truncate_eq, Exact.truncate_eq, Exact.value_opposite, integerPart_neg]
  rw [apply_shiftLeft hv hc, apply_shiftRight hv (Exact.ofFloat?_neg hc), htruncate, Except.ok.injEq, turned_eq_iff,
    sub_neg_eq_add]

/-- **Shifts turn** a list by the integer part of a finite count, modulo the length,
and a shift is the opposite shift by the negative count, just when the integer part is
less than `2^63` in size or the values do not differ. A shift always turns by what 64
bits hold of the integer part, and shifting back undoes it. -/
theorem shift_turns_iff (hv : v ≠ []) (hc : c.isFinite = true) {z : ℤ} (hz : integerPart (Exact.valueOf c) = z) :
    (Turns v c (z % v.length).toNat ∧ shiftLeft.apply v [c] = shiftRight.apply v [-c] ↔
      |z| < 2 ^ 63 ∨ ∃ x, v = List.replicate v.length x) ∧
    Turns v c (saturate 64 z % v.length).toNat ∧
    (shiftLeft.apply v [c] >>= fun w => shiftRight.apply w [c]) = .ok v := by
  obtain ⟨e, he⟩ := Exact.isFinite_iff.1 hc
  have htruncate : e.truncate = z := (Exact.integerPart_valueOf he).symm.trans hz
  rw [turns_iff hv he, turns_iff hv he, shiftRight_neg_iff hv he, htruncate]
  refine ⟨⟨fun ⟨_, hopposite⟩ => ?_, ?_⟩, rfl, shiftRight_shiftLeft hv he⟩
  · by_cases hsmall : |z| < 2 ^ 63
    · exact .inl hsmall
    · rw [saturate_add_saturate_neg (not_lt.1 hsmall)] at hopposite
      exact .inr ((turned_neg_one_iff hv).1 hopposite)
  · rintro (hsmall | ⟨x, hx⟩)
    · rw [saturate_eq_self hsmall, saturate_eq_self (by rwa [abs_neg]), add_neg_cancel]
      exact ⟨rfl, turned_zero v⟩
    · rw [hx]
      simp only [turned_replicate]
      exact ⟨trivial, trivial⟩

/-- A negative count with a fraction. -/
theorem shift_turns_iff_fraction :
    integerPart (Exact.valueOf (-4.5)) = -4 ∧ ((-4 : ℤ) % 3).toNat = 2 ∧ Turns [1.0, 2.0, 3.0] (-4.5) 2 ∧
      shiftLeft.apply [1.0, 2.0, 3.0] [-4.5] = .ok [3.0, 1.0, 2.0] ∧
      shiftLeft.apply [1.0, 2.0, 3.0] [-4.5] = shiftRight.apply [1.0, 2.0, 3.0] [-(-4.5)] := by
  have hcount : Exact.ofFloat? (-4.5) = some ⟨true, 9 * 2 ^ 49, -50⟩ := by decide +kernel
  have hz : integerPart (Exact.valueOf (-4.5)) = -4 := by
    rw [Exact.integerPart_valueOf hcount]
    decide +kernel
  have hturns := shift_turns_iff (v := [1.0, 2.0, 3.0]) (by simp) (by decide +kernel) hz
  obtain ⟨hleft, hopposite⟩ := hturns.1.2 (.inl (by norm_num))
  exact ⟨hz, rfl, hleft, by decide +kernel, hopposite⟩

/-- The integer `2^63` is one more than 64 bits hold, so a list of four values that
it should leave alone is turned one place to the right. -/
theorem not_turns_beyondWord :
    integerPart (Exact.valueOf 9223372036854775808.0) = 2 ^ 63 ∧
      shiftLeft.apply [1.0, 2.0, 3.0, 4.0] [9223372036854775808.0] = .ok [4.0, 1.0, 2.0, 3.0] ∧
      ¬Turns [1.0, 2.0, 3.0, 4.0] 9223372036854775808.0
        (integerPart (Exact.valueOf 9223372036854775808.0) % 4).toNat := by
  have hcount : Exact.ofFloat? 9223372036854775808.0 = some ⟨false, 2 ^ 52, 11⟩ := by decide +kernel
  have hz : integerPart (Exact.valueOf 9223372036854775808.0) = 2 ^ 63 := by
    rw [Exact.integerPart_valueOf hcount]
    decide +kernel
  have hshift : shiftLeft.apply [1.0, 2.0, 3.0, 4.0] [9223372036854775808.0] = .ok [4.0, 1.0, 2.0, 3.0] := by
    decide +kernel
  refine ⟨hz, hshift, ?_⟩
  rw [hz]
  rintro ⟨⟨w, hw, -, hvalues⟩, -⟩
  rw [hshift] at hw
  have hfirst := hvalues 0 (by decide)
  rw [← Except.ok.inj hw] at hfirst
  revert hfirst
  decide +kernel

end BinaryOp
end VectorEngine
