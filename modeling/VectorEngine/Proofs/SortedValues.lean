/-
Sorted values.

Values are sorted as such, through the rows of which they are the only key, and, where
they are finite, for the quartiles, each time by a comparison of its own. As a list has
one arrangement, all find the same one, the two zeros where they stood to each other.
-/
import VectorEngine.Proofs.Arrangement
import VectorEngine.Proofs.Reordering
import VectorEngine.Proofs.Statistics

namespace VectorEngine

/-! ## One arrangement -/

section Elements

variable {α : Type} [Element α] {y values : List α} {a b : α}

/-- Nothing but blanks comes after a blank. -/
theorem isBlank_of_isLE (h : (compareElements a b).isLE) (ha : Element.isBlank a = true) : Element.isBlank b = true := by
  cases hb : Element.isBlank b with
  | true => rfl
  | false =>
    rw [compareElements, ha, hb] at h
    cases h

variable [Std.TransCmp (compareElements : α → α → Ordering)]

theorem arranges_sortElements (y : List α) : Arranges compareElements y (sortElements y) := by
  simp only [sortElements, bne_gt_eq_isLE]
  exact arranges_mergeSort y

/-- Any other stable sort gives the same. -/
theorem arranges_iff : Arranges compareElements y values ↔ values = sortElements y := by
  constructor
  · exact fun h => h.unique (arranges_sortElements y)
  · exact fun h => h ▸ arranges_sortElements y

/-- What is left of the sorted elements is what is left of the elements, sorted. -/
theorem filter_sortElements (p : α → Bool) (y : List α) : (sortElements y).filter p = sortElements (y.filter p) :=
  arranges_iff.1 ((arranges_sortElements y).filter p)

end Elements

/-! ## Sorted doubles -/

section Doubles

variable {y : List Float} {a b : Float}

theorem isLE_compareElements (ha : a.isNaN = false) (hb : b.isNaN = false) :
    (compareElements a b).isLE = true ↔ a ≤ b := by
  rw [compareElements_eq_rank, le_iff_rank ha hb]

theorem eq_nan_of_isNaN (h : a.isNaN = true) : a = nan := by
  have hnan : nan.isNaN = true := by decide
  have ha : a = Float.nan := by simpa using h
  have hblank : nan = Float.nan := by simpa using hnan
  rw [ha, hblank]

/-- What holds to the end once it holds cuts the list in two. -/
theorem eq_filter_append_filter {α : Type} {p : α → Bool} {l : List α}
    (h : l.Pairwise fun a b => p a = true → p b = true) : l = (l.filter fun a => !p a) ++ l.filter p := by
  induction l with
  | nil => rfl
  | cons a l ih =>
    cases ha : p a with
    | false => simpa [ha] using ih h.of_cons
    | true =>
      have hall : ∀ b ∈ a :: l, p b = true :=
        List.forall_mem_cons.2 ⟨ha, fun b hb => List.rel_of_pairwise_cons h hb ha⟩
      rw [List.filter_eq_self.2 hall, List.filter_eq_nil_iff.2 (by simpa using hall), List.nil_append]

/-- Sorted doubles are numbers, none less than one before it, and then the blanks. -/
theorem sortElements_eq_append (y : List Float) : ∃ numbers count, sortElements y = numbers ++ List.replicate count nan ∧
    (∀ x ∈ numbers, x.isNaN = false) ∧ numbers.Pairwise (· ≤ ·) := by
  have hsorted := (arranges_sortElements y).increasing
  have hsplit := eq_filter_append_filter (p := Float.isNaN) (hsorted.imp isBlank_of_isLE)
  have hnumber : ∀ x ∈ (sortElements y).filter fun x => !x.isNaN, x.isNaN = false := by
    intro x hx
    simpa using (List.mem_filter.1 hx).2
  refine ⟨(sortElements y).filter fun x => !x.isNaN, ((sortElements y).filter Float.isNaN).length, ?_, hnumber, ?_⟩
  · have hblank : ∀ x ∈ (sortElements y).filter Float.isNaN, x = nan := fun x hx =>
      eq_nan_of_isNaN (List.mem_filter.1 hx).2
    rw [← List.eq_replicate_of_mem hblank]
    exact hsplit
  · refine (hsorted.filter _).imp_of_mem fun ha hb hab => ?_
    exact (isLE_compareElements (hnumber _ ha) (hnumber _ hb)).1 hab

/-- Finite values compare by size alone as they do with the blank above them. -/
theorem sortedFinite_eq_sortElements (y : List Float) : Statistics.sortedFinite y = sortElements (Statistics.finite y) := by
  have hcompare : ∀ a ∈ Statistics.finite y, ∀ b ∈ Statistics.finite y,
      (!Element.less b a) = (compareElements a b != .gt) := by
    intro a ha b hb
    rw [bne_gt_eq_isLE, compareElements_eq_rank]
    exact Statistics.isLE_rank (Statistics.finite_of_mem ha) (Statistics.finite_of_mem hb)
  have h := List.map_mergeSort (s := fun a b => compareElements a b != .gt) (f := id) hcompare
  rwa [List.map_id, List.map_id] at h

/-- Values read through the sorted rows of which they are the only key. -/
theorem pick_order (y : List Float) : Element.pick y (SortKeys.order ⟨[y.toArray], false⟩) = sortElements y := by
  set s : SortKeys Float := ⟨[y.toArray], false⟩ with hs
  have hcompare : ∀ a ∈ List.range y.length, ∀ b ∈ List.range y.length,
      (s.compare a b != .gt) = (compareElements (y.getD a nan) (y.getD b nan) != .gt) := by
    intro a _ b _
    simp only [hs, SortKeys.compare, SortKeys.compareRows, List.foldr_cons, List.foldr_nil, getD_toArray,
      Ordering.then_eq]
    rfl
  calc Element.pick y s.order
    _ = s.order.map fun i => y.getD i nan := pick_eq y s.order
    _ = sortElements ((List.range y.length).map fun i => y.getD i nan) := List.map_mergeSort hcompare
    _ = sortElements y := by rw [← pick_eq, pick_range]

theorem sortRows_single (y : List Float) :
    sortRows ⟨false, false⟩ [y] = .ok (SortKeys.order ⟨[y.toArray], false⟩) := by
  have hkeys : SortKeys.ofKeys [y] false = .ok ⟨[y.toArray], false⟩ := by simp [SortKeys.ofKeys]
  rw [sortRows_eq, hkeys]
  rfl

end Doubles

/-- **Every sort finds the one arrangement.** Sorted values are what any stable sort
makes of them: a rearrangement, of numbers in order and then the blanks. Reading the
values through their rows, sorted with the values as the only key, gives the same
doubles, zeros with their signs; sorting the finite values gives those of the sorted
ones; and the rows of sorted values stay. -/
theorem sortings_agree (y : List Float) :
    (∀ values, Arranges compareElements y values ↔ values = sortElements y) ∧
    (sortElements y).Perm y ∧
    (∃ numbers count, sortElements y = numbers ++ List.replicate count nan ∧
      (∀ x ∈ numbers, x.isNaN = false) ∧ numbers.Pairwise (· ≤ ·)) ∧
    (∃ order, sortRows ⟨false, false⟩ [y] = .ok order ∧ order.Perm (List.range y.length) ∧
      Element.pick y order = sortElements y) ∧
    Statistics.sortedFinite y = Statistics.finite (sortElements y) ∧
    sortRows ⟨false, false⟩ [sortElements y] = .ok (List.range y.length) := by
  have hrows := sortRows_single y
  have hpick := pick_order y
  obtain ⟨hgives, hagain⟩ := sortRows_pick hrows (n := y.length) (by simp)
  have hperm := hgives.all rfl
  have hlength := hperm.length_eq
  rw [List.map_singleton, hpick, hlength, List.length_range] at hagain
  refine ⟨fun values => arranges_iff, (arranges_sortElements y).perm, sortElements_eq_append y, ⟨_, hrows, hperm, hpick⟩,
    ?_, hagain⟩
  rw [sortedFinite_eq_sortElements, Statistics.finite, Statistics.finite, filter_sortElements]

/-- The positive zero stands before the negative one, as it did. -/
theorem sortings_agree_zeros :
    let y : List Float := [1.0, nan, 0.0, -0.0, infinite true]
    sortElements y = [infinite true, 0.0, -0.0, 1.0, nan] ∧ Statistics.sortedFinite y = [0.0, -0.0, 1.0] ∧
      (∃ order, sortRows ⟨false, false⟩ [y] = .ok order ∧
        Element.pick y order = [infinite true, 0.0, -0.0, 1.0, nan]) ∧
      sortRows ⟨false, false⟩ [[infinite true, 0.0, -0.0, 1.0, nan]] = .ok [0, 1, 2, 3, 4] := by
  intro y
  obtain ⟨hunique, -, -, ⟨order, horder, -, hpick⟩, hfinite, hstay⟩ := sortings_agree y
  have hsorted : [infinite true, 0.0, -0.0, 1.0, nan] = sortElements y :=
    (hunique _).1 ⟨by decide +kernel, by decide +kernel, by decide +kernel⟩
  rw [← hsorted] at hpick hfinite hstay
  exact ⟨hsorted.symm, hfinite.trans (by decide +kernel), ⟨order, horder, hpick⟩, hstay⟩

end VectorEngine
