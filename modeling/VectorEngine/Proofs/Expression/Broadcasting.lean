/-
Operands of unequal lengths: a list of one value stands against every value of
the other.

The operator is applied to the values that stand at the same position, one
position after the other, whichever of the operands repeats. The first position
where it fails ends it, and it does not fail where either value is blank
(`BinaryOp.apply_broadcast`).
-/
import VectorEngine.Expression.Arithmetic
import VectorEngine.Proofs.Outcome

namespace VectorEngine

/-- The value of a list that stands at position `i`; a single value stands at
every position. -/
def entry : List Float → Nat → Float
  | [x], _ => x
  | values, i => values.getD i nan

@[simp] theorem entry_singleton (x : Float) (i : Nat) : entry [x] i = x := rfl

theorem entry_eq_getElem {values : List Float} {i : Nat} (hi : i < values.length) : entry values i = values[i] := by
  match values with
  | [x] =>
    obtain rfl : i = 0 := by simpa using hi
    rfl
  | x :: y :: rest => exact (List.getElem_eq_getD nan).symm

/-- A single value stands at every position alike. -/
theorem entry_of_length_one {values : List Float} (h : values.length = 1) (i j : Nat) :
    entry values i = entry values j := by
  obtain ⟨x, rfl⟩ := List.length_eq_one_iff.1 h
  rfl

/-- Applying to the values is applying to what stands at each position. -/
theorem mapM_eq_entries (f : Float → Except Error Float) (values : List Float) :
    values.mapM f = (List.range values.length).mapM fun i => f (entry values i) := by
  have hvalues : values = (List.range values.length).map (entry values) := by
    apply List.ext_getElem
    · simp
    · intro i hi _
      simp [entry_eq_getElem hi]
  calc values.mapM f
      = ((List.range values.length).map (entry values)).mapM f := by rw [← hvalues]
    _ = _ := List.mapM_map

namespace BinaryOp

variable {op : BinaryOp} {a b : List Float}

theorem apply_singleton_right (hop : op.isShift = false) (a : List Float) (y : Float) :
    op.apply a [y] = a.mapM fun x => op.combine x y := by
  simp [apply, hop]

theorem apply_singleton_left (hop : op.isShift = false) (x : Float) (b : List Float) :
    op.apply [x] b = b.mapM fun y => op.combine x y := by
  match b with
  | [] | [_] | _ :: _ :: _ => simp [apply, hop]

theorem apply_of_length_eq (hop : op.isShift = false) (h : a.length = b.length) :
    op.apply a b = (a.zip b).mapM fun p => op.combine p.1 p.2 := by
  match a, b with
  | [], [] | [_], [_] | _ :: _ :: _, _ :: _ :: _ => simp_all [apply]

/-- **Operands that match** in length, or of which one is a single value, are
combined position by position, the left one first. -/
theorem apply_eq_entries (hop : op.isShift = false) (hab : a.length = 1 ∨ b.length = 1 ∨ a.length = b.length) :
    op.apply a b = (List.range (if a.length = 1 then b.length else a.length)).mapM
      fun i => op.combine (entry a i) (entry b i) := by
  by_cases ha : a.length = 1
  · obtain ⟨x, rfl⟩ := List.length_eq_one_iff.1 ha
    rw [apply_singleton_left hop, mapM_eq_entries, if_pos ha]
    rfl
  rw [if_neg ha]
  by_cases hb : b.length = 1
  · obtain ⟨y, rfl⟩ := List.length_eq_one_iff.1 hb
    rw [apply_singleton_right hop, mapM_eq_entries]
    rfl
  have hlength : a.length = b.length := by omega
  have hzip : a.zip b = (List.range a.length).map fun i => (entry a i, entry b i) := by
    apply List.ext_getElem
    · simp [hlength]
    · intro i hi _
      have hia : i < a.length := (List.length_zip ▸ hi).trans_le (Nat.min_le_left _ _)
      simp [entry_eq_getElem hia, entry_eq_getElem (hlength ▸ hia)]
  rw [apply_of_length_eq hop hlength, hzip]
  exact List.mapM_map

theorem apply_mismatched (hop : op.isShift = false) (ha : a.length ≠ 1) (hb : b.length ≠ 1)
    (hab : a.length ≠ b.length) : op.apply a b = .error (.lengthMismatch a.length b.length) := by
  match a, b with
  | [], _ :: _ :: _ | _ :: _ :: _, [] | _ :: _ :: _, _ :: _ :: _ => simp_all [apply]
  | [], [] => exact absurd rfl hab
  | [_], _ => exact absurd rfl ha
  | _, [_] => exact absurd rfl hb

/-- A blank on either side makes the result blank, before anything can fail. -/
theorem combine_blank {x y : Float} (h : x.isNaN = true ∨ y.isNaN = true) : op.combine x y = .ok nan := by
  unfold combine
  rw [if_pos (by simpa using h)]

/-- **Broadcasting is exact.** Operands of different lengths, neither a single
value, do not match. All others are combined position by position, the left one
first: the smallest position that fails gives the error, and without one there is
a value for each. Where either operand is blank nothing fails, and the value is
blank. -/
theorem apply_broadcast (hop : op.isShift = false) (a b : List Float) :
    let n := if a.length = 1 then b.length else a.length
    (a.length ≠ 1 → b.length ≠ 1 → a.length ≠ b.length →
      op.apply a b = .error (.lengthMismatch a.length b.length)) ∧
    (a.length = 1 ∨ b.length = 1 ∨ a.length = b.length →
      (∀ e, op.apply a b = .error e ↔ ∃ i < n, op.combine (entry a i) (entry b i) = .error e ∧
        ∀ j < i, ∃ z, op.combine (entry a j) (entry b j) = .ok z) ∧
      ∀ values, op.apply a b = .ok values ↔ values.length = n ∧
        ∀ i (hi : i < values.length), op.combine (entry a i) (entry b i) = .ok values[i]) ∧
    ∀ i < n, (entry a i).isNaN = true ∨ (entry b i).isNaN = true →
      (∀ e, op.combine (entry a i) (entry b i) ≠ .error e) ∧
      ∀ values, op.apply a b = .ok values → ∃ hi : i < values.length, values[i].isNaN = true := by
  intro n
  have hvalues : ∀ values, a.length = 1 ∨ b.length = 1 ∨ a.length = b.length → (op.apply a b = .ok values ↔
      values.length = n ∧ ∀ i (hi : i < values.length), op.combine (entry a i) (entry b i) = .ok values[i]) := by
    intro values hab
    rw [apply_eq_entries hop hab, mapM_range_ok_iff]
  refine ⟨apply_mismatched hop, fun hab => ⟨fun e => ?_, fun values => hvalues values hab⟩, fun i hi hblank => ?_⟩
  · rw [apply_eq_entries hop hab, mapM_range_error_iff]
  · have hcombine : op.combine (entry a i) (entry b i) = .ok nan := combine_blank hblank
    refine ⟨fun e he => ?_, fun values hok => ?_⟩
    · rw [hcombine] at he
      cases he
    · have hab : a.length = 1 ∨ b.length = 1 ∨ a.length = b.length := by
        by_contra hnot
        simp only [not_or] at hnot
        rw [apply_mismatched hop hnot.1 hnot.2.1 hnot.2.2] at hok
        cases hok
      obtain ⟨hlength, hentries⟩ := (hvalues values hab).1 hok
      have hlt : i < values.length := hlength ▸ hi
      have hvalue := hentries i hlt
      rw [hcombine] at hvalue
      exact ⟨hlt, by rw [← Except.ok.inj hvalue]; rfl⟩

/-- A single dividend against a blank, a zero and a number: the blank hides
nothing, for the zero after it is still divided by. -/
theorem apply_broadcast_blankBeforeZero :
    div.apply [12.0] [nan, 0.0, 4.0] = .error .divideByZero ∧ div.apply [12.0] [nan, 8.0, 4.0] = .ok [nan, 1.5, 3.0] ∧
      (∃ i < 3, div.combine (entry [12.0] i) (entry [nan, 0.0, 4.0] i) = .error .divideByZero ∧
        ∀ j < i, ∃ z, div.combine (entry [12.0] j) (entry [nan, 0.0, 4.0] j) = .ok z) ∧
      ∀ e, div.combine (entry [12.0] 0) (entry [nan, 0.0, 4.0] 0) ≠ .error e := by
  have hfails : div.apply [12.0] [nan, 0.0, 4.0] = .error .divideByZero := by decide +kernel
  have hop : div.isShift = false := rfl
  obtain ⟨-, hmatch, hblank⟩ := apply_broadcast hop [12.0] [nan, 0.0, 4.0]
  exact ⟨hfails, by decide +kernel, ((hmatch (.inl rfl)).1 _).1 hfails,
    (hblank 0 (by decide) (.inr (by decide +kernel))).1⟩

end BinaryOp
end VectorEngine
