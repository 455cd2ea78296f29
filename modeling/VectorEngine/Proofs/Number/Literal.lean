/-
The texts of numbers.

An integer is digits, after a sign or not; an unsigned number is digits with a
point before, between or behind them, and an exponent or not. What is written here
is the grammar alone, with the value only where a reader is held to it.
-/
import Mathlib
import VectorEngine.Number.Decimal

namespace VectorEngine

namespace Decimal

/-- The text of an integer: digits, after a sign or not. -/
inductive Integer : List Char → Int → Prop
  | plain {digits : List Char} : digits ≠ [] → (∀ c ∈ digits, c.isDigit) → Integer digits (natOfDigits digits)
  | positive {digits : List Char} : digits ≠ [] → (∀ c ∈ digits, c.isDigit) →
    Integer ('+' :: digits) (natOfDigits digits)
  | negative {digits : List Char} : digits ≠ [] → (∀ c ∈ digits, c.isDigit) →
    Integer ('-' :: digits) (-natOfDigits digits)

/-- The integer has 64 bits. -/
def IsWord (i : Int) : Prop := -2 ^ 63 ≤ i ∧ i < 2 ^ 63

variable {cs : List Char} {i : Int}

theorem isInt64_eq_true_iff : isInt64 i = true ↔ IsWord i := by
  have hmin : Int64.minValue.toInt = -2 ^ 63 := by decide
  have hmax : Int64.maxValue.toInt = 2 ^ 63 - 1 := by decide
  rw [isInt64, decide_eq_true_iff, hmin, hmax, IsWord]
  omega

theorem toNat_of_isDigit {c : Char} (h : c.isDigit = true) : 48 ≤ c.toNat ∧ c.toNat ≤ 57 := by
  simp only [Char.isDigit, Bool.and_eq_true, decide_eq_true_eq, UInt32.le_iff_toNat_le] at h
  exact h

/-- A text has a sign that is taken off it, or none. -/
theorem splitSign_cases (cs : List Char) :
    (∃ rest, cs = '-' :: rest ∧ splitSign cs = (true, rest)) ∨
      (∃ rest, cs = '+' :: rest ∧ splitSign cs = (false, rest)) ∨ splitSign cs = (false, cs) := by
  unfold splitSign
  split
  · next rest => exact .inl ⟨rest, rfl, rfl⟩
  · next rest => exact .inr (.inl ⟨rest, rfl, rfl⟩)
  · exact .inr (.inr rfl)

theorem splitSign_of_digits (h : ∀ c ∈ cs, c.isDigit) : splitSign cs = (false, cs) := by
  obtain ⟨rest, hcs, _⟩ | ⟨rest, hcs, _⟩ | hsign := splitSign_cases cs
  · exact absurd (h '-' (hcs ▸ List.mem_cons_self)) (by decide)
  · exact absurd (h '+' (hcs ▸ List.mem_cons_self)) (by decide)
  · exact hsign

/-- Reading accepts the texts of the integers of 64 bits. -/
theorem readInt64?_eq_some_iff : readInt64? cs = some i ↔ Integer cs i ∧ IsWord i := by
  have hread : readInt64? cs = some i ↔ (splitSign cs).2 ≠ [] ∧ (∀ c ∈ (splitSign cs).2, c.isDigit) ∧
      Exact.signed (splitSign cs).1 (natOfDigits (splitSign cs).2) = i ∧ IsWord i := by
    simp only [readInt64?]
    rw [← List.all_eq_true]
    constructor
    · intro h
      split at h
      · next hcs =>
        obtain ⟨hne, hdigits, hword⟩ := hcs
        obtain rfl := Option.some.inj h
        exact ⟨hne, hdigits, rfl, isInt64_eq_true_iff.1 hword⟩
      · cases h
    · intro ⟨hne, hdigits, hi, hword⟩
      subst hi
      exact if_pos ⟨hne, hdigits, isInt64_eq_true_iff.2 hword⟩
  rw [hread]
  constructor
  · intro ⟨hne, hdigits, hi, hword⟩
    refine ⟨?_, hword⟩
    obtain ⟨rest, rfl, hsign⟩ | ⟨rest, rfl, hsign⟩ | hsign := splitSign_cases cs
    · rw [hsign] at hne hdigits hi
      exact hi ▸ .negative hne hdigits
    · rw [hsign] at hne hdigits hi
      exact hi ▸ .positive hne hdigits
    · rw [hsign] at hne hdigits hi
      exact hi ▸ .plain hne hdigits
  · intro ⟨hinteger, hword⟩
    cases hinteger with
    | plain hne hdigits =>
      rw [splitSign_of_digits hdigits]
      exact ⟨hne, hdigits, rfl, hword⟩
    | positive hne hdigits => exact ⟨hne, hdigits, rfl, hword⟩
    | negative hne hdigits => exact ⟨hne, hdigits, rfl, hword⟩

/-- A letter is no part of an integer. -/
theorem Integer.isDigit_getLast (h : Integer cs i) : ∃ c, cs.getLast? = some c ∧ c.isDigit = true := by
  have hlast : ∀ {digits : List Char}, digits ≠ [] → (∀ c ∈ digits, c.isDigit) →
      ∃ c, digits.getLast? = some c ∧ c.isDigit = true := by
    intro digits hne hdigits
    exact ⟨_, List.getLast?_eq_some_getLast hne, hdigits _ (List.getLast_mem hne)⟩
  cases h with
  | plain hne hdigits => exact hlast hne hdigits
  | positive hne hdigits | negative hne hdigits =>
    rw [List.getLast?_cons_of_ne_nil hne]
    exact hlast hne hdigits

theorem Integer.mem (h : Integer cs i) : ∀ c ∈ cs, c.isDigit = true ∨ c = '+' ∨ c = '-' := by
  cases h with
  | plain _ hdigits => exact fun c hc => .inl (hdigits c hc)
  | positive _ hdigits => exact List.forall_mem_cons.2 ⟨.inr (.inl rfl), fun c hc => .inl (hdigits c hc)⟩
  | negative _ hdigits => exact List.forall_mem_cons.2 ⟨.inr (.inr rfl), fun c hc => .inl (hdigits c hc)⟩

theorem natOfDigits_toDigits (n : Nat) : natOfDigits (Nat.toDigits 10 n) = n :=
  Nat.ofDigitChars_toDigits (by decide) (by decide)

/-- Every integer has the text it is shown as. -/
theorem integer_toString (i : Int) : Integer (toString i).toList i := by
  have hdigits (n : Nat) : ∀ c ∈ Nat.toDigits 10 n, c.isDigit := fun _ =>
    Nat.isDigit_of_mem_toDigits (by decide) (by decide)
  cases i with
  | ofNat n =>
    have h := Integer.plain Nat.toDigits_ne_nil (hdigits n)
    rw [natOfDigits_toDigits] at h
    show Integer (Nat.repr n).toList _
    rwa [Nat.toList_repr]
  | negSucc n =>
    have h := Integer.negative Nat.toDigits_ne_nil (hdigits (n + 1))
    rw [natOfDigits_toDigits] at h
    show Integer ("-" ++ Nat.repr (n + 1)).toList _
    rw [String.toList_append, Nat.toList_repr]
    exact h

/-! ## Unsigned numbers -/

/-- Digits, and at most one point; there is a digit before or after it. -/
inductive Significand : List Char → Prop
  | whole {digits : List Char} : digits ≠ [] → (∀ c ∈ digits, c.isDigit) → Significand digits
  | pointed {whole fraction : List Char} : whole ++ fraction ≠ [] → (∀ c ∈ whole ++ fraction, c.isDigit) →
    Significand (whole ++ '.' :: fraction)

/-- Nothing, or a mark and an integer. -/
inductive Exponent : List Char → Prop
  | none : Exponent []
  | marked {mark : Char} {digits : List Char} {e : Int} : mark = 'e' ∨ mark = 'E' → Integer digits e →
    Exponent (mark :: digits)

/-- A number without a sign. -/
def Unsigned (cs : List Char) : Prop := ∃ front back, cs = front ++ back ∧ Significand front ∧ Exponent back

end Decimal
end VectorEngine
