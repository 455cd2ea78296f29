/-
Random numbers.

Whatever words the generator gives, a number drawn is the fraction of `2 ^ 53` that
its word stands for, exactly, so it is not negative and below one. Filling takes one
word for every element, in turn, whatever the elements are.
-/
import Mathlib
import VectorEngine.Expression.Function
import VectorEngine.Proofs.Number.Doubles

namespace VectorEngine

open Interchange

/-- **A random number is the fraction its word stands for.** -/
theorem Generator.next_exact (g : Generator) : ∃ e, Exact.ofFloat? g.next.1 = some e ∧ e.negative = false ∧
    e.magnitude = ((g.word g.taken >>> 11).toNat : ℚ) / 2 ^ 53 ∧ e.magnitude < 1 := by
  have hm : (g.word g.taken >>> 11).toNat < 2 ^ 53 := by
    have hlt := (g.word g.taken).toNat_lt
    rw [UInt64.toNat_shiftRight, Nat.shiftRight_eq_div_pow]
    exact Nat.div_lt_of_lt_mul hlt
  generalize hword : (g.word g.taken >>> 11).toNat = m at hm
  have hbelow : (m : ℚ) / (2 ^ 53 : ℕ) < 1 := by
    rw [div_lt_one (by norm_num)]
    exact_mod_cast hm
  have hvalue : (m : ℚ) / (2 ^ 53 : ℕ) = m * 2 ^ (-53 : Int) := by
    rw [zpow_neg, ← div_eq_mul_inv]
    norm_num
  have hsmall : (m : ℚ) / (2 ^ 53 : ℕ) < 2 ^ (200 : Int) := hbelow.trans (by norm_num)
  obtain ⟨e, hread, hnegative, hmagnitude⟩ := Exact.read_ratioToFloat (by decide) hsmall false
  rw [rounded_eq (f := double) (by decide) hm (by decide) hvalue] at hmagnitude
  refine ⟨e, ?_, hnegative, by rw [hmagnitude]; norm_num, hmagnitude ▸ hbelow⟩
  rw [Exact.ofFloat?_eq_some_iff, ← hread, Generator.next, hword]
  rfl

/-- **Filling draws one number for every element**, one after the other. -/
theorem MathFunction.fillAll_next (values : List Float) (g : Generator) :
    fillAll Generator.next values g =
      ((List.range values.length).map fun i => ({ g with taken := g.taken + i } : Generator).next.1,
        { g with taken := g.taken + values.length }) := by
  induction values generalizing g with
  | nil => rfl
  | cons x values ih =>
    rw [fillAll, show g.next = (g.next.1, { g with taken := g.taken + 1 }) from rfl]
    simp only [ih, List.length_cons, List.range_succ_eq_map, List.map_cons, List.map_map, Function.comp_def,
      Nat.add_zero, Nat.succ_eq_add_one, Nat.add_assoc, Nat.add_comm 1]

end VectorEngine
