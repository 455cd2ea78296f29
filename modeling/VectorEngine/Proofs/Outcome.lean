/-
Computations that end with a result or an error: when one after the other ends
with which, and when one for each element of a list does.
-/
import Mathlib

namespace VectorEngine

variable {ε α β : Type} {x : Except ε α} {b : β} {e : ε}

theorem bind_ok_iff {f : α → Except ε β} : (x >>= f) = .ok b ↔ ∃ a, x = .ok a ∧ f a = .ok b := by
  cases x with
  | error e => simp [bind, Except.bind]
  | ok a => simp [bind, Except.bind]

theorem bind_error_iff {f : α → Except ε β} :
    (x >>= f) = .error e ↔ x = .error e ∨ ∃ a, x = .ok a ∧ f a = .error e := by
  cases x with
  | error e => simp [bind, Except.bind]
  | ok a => simp [bind, Except.bind]

theorem map_ok_iff {f : α → β} : x.map f = .ok b ↔ ∃ a, x = .ok a ∧ f a = b := by
  cases x with
  | error e => simp [Except.map]
  | ok a => simp [Except.map]

theorem map_error_iff {f : α → β} : x.map f = .error e ↔ x = .error e := by
  cases x with
  | error e => simp [Except.map]
  | ok a => simp [Except.map]

/-- Element after element, each ends with its result. -/
theorem mapM_ok_iff {f : α → Except ε β} {xs : List α} {ys : List β} :
    xs.mapM f = .ok ys ↔ List.Forall₂ (fun x y => f x = .ok y) xs ys := by
  induction xs generalizing ys with
  | nil => simp [pure, Except.pure, eq_comm]
  | cons x xs ih =>
    simp only [List.mapM_cons, bind_ok_iff, pure, Except.pure, Except.ok.injEq, List.forall₂_cons_left_iff, ih]
    constructor
    · rintro ⟨y, hy, ys, hys, rfl⟩
      exact ⟨y, ys, hy, hys, rfl⟩
    · rintro ⟨y, ys, hy, hys, rfl⟩
      exact ⟨y, hy, ys, hys, rfl⟩

/-- The first element that fails ends it. -/
theorem mapM_error_iff {f : α → Except ε β} {xs : List α} : xs.mapM f = .error e ↔
    ∃ front x back, xs = front ++ x :: back ∧ f x = .error e ∧ ∀ y ∈ front, ∃ z, f y = .ok z := by
  induction xs with
  | nil => simp [pure, Except.pure]
  | cons x xs ih =>
    simp only [List.mapM_cons, bind_error_iff, pure, Except.pure, reduceCtorEq, and_false, exists_false, or_false, ih]
    constructor
    · rintro (hx | ⟨y, hy, front, x', back, rfl, hx', hfront⟩)
      · exact ⟨[], x, xs, rfl, hx, by simp⟩
      · exact ⟨x :: front, x', back, rfl, hx', List.forall_mem_cons.2 ⟨⟨y, hy⟩, hfront⟩⟩
    · rintro ⟨front, x', back, hxs, hx', hfront⟩
      cases front with
      | nil =>
        obtain ⟨rfl, -⟩ := List.cons.inj hxs
        exact .inl hx'
      | cons y front =>
        obtain ⟨rfl, rfl⟩ := List.cons.inj hxs
        obtain ⟨⟨z, hz⟩, hfront⟩ := List.forall_mem_cons.1 hfront
        exact .inr ⟨z, hz, front, x', back, rfl, hx', hfront⟩

theorem mapM_range_ok_iff {f : Nat → Except ε β} {n : Nat} {ys : List β} :
    (List.range n).mapM f = .ok ys ↔ ys.length = n ∧ ∀ i (hi : i < ys.length), f i = .ok ys[i] := by
  rw [mapM_ok_iff, List.forall₂_iff_get]
  simp only [List.length_range, List.get_eq_getElem, List.getElem_range]
  constructor
  · rintro ⟨rfl, h⟩
    exact ⟨rfl, fun i hi => h i hi hi⟩
  · rintro ⟨rfl, h⟩
    exact ⟨rfl, fun i hi _ => h i hi⟩

/-- The smallest number that fails ends it. -/
theorem mapM_range_error_iff {f : Nat → Except ε β} {n : Nat} :
    (List.range n).mapM f = .error e ↔ ∃ i < n, f i = .error e ∧ ∀ j < i, ∃ y, f j = .ok y := by
  rw [mapM_error_iff]
  constructor
  · rintro ⟨front, i, back, hrange, hi, hfront⟩
    rw [List.range_eq_range', List.range'_eq_append_iff] at hrange
    obtain ⟨k, hk, rfl, hback⟩ := hrange
    obtain ⟨rfl, hlt, -⟩ := List.range'_eq_cons_iff.1 hback.symm
    refine ⟨_, by omega, hi, fun j hj => hfront j ?_⟩
    rw [List.mem_range'_1]
    omega
  · rintro ⟨i, hi, hfail, hbefore⟩
    refine ⟨List.range i, i, List.range' (i + 1) (n - (i + 1)), ?_, hfail,
      fun j hj => hbefore j (List.mem_range.1 hj)⟩
    rw [List.range_eq_range', List.range_eq_range', List.range'_eq_append_iff]
    refine ⟨i, by omega, rfl, ?_⟩
    rw [eq_comm, List.range'_eq_cons_iff]
    exact ⟨by omega, by omega, by congr 1⟩

end VectorEngine
