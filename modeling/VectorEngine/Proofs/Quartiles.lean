/-
Quartiles lie inside the sorted values and in order.

A cut looks at one position or at two neighbours, and what it reads lies between the
values at its first and its last one. The last position of each cut is not past the
first one of the next (`cuts_ordered`), so what they read off a sorted list is in order.
-/
import VectorEngine.Proofs.Extrema
import VectorEngine.Proofs.Number.Unrounded

namespace VectorEngine
namespace Statistics

/-! ## Positions -/

namespace Cut

def first : Cut → ℕ
  | element i => i
  | between i => i

def last : Cut → ℕ
  | element i => i
  | between i => i + 1

variable {p q : Cut} {i : ℕ}

@[simp] theorem first_element : (element i).first = i := rfl
@[simp] theorem last_element : (element i).last = i := rfl
@[simp] theorem first_between : (between i).first = i := rfl
@[simp] theorem last_between : (between i).last = i + 1 := rfl

theorem mem_positions : i ∈ p.positions ↔ p.first ≤ i ∧ i ≤ p.last := by
  cases p with
  | element j =>
    simp only [positions, List.mem_singleton, first_element, last_element]
    omega
  | between j =>
    simp only [positions, List.mem_cons, List.not_mem_nil, or_false, first_between, last_between]
    omega

theorem first_le_last : p.first ≤ p.last := by
  cases p with
  | element i => exact le_rfl
  | between i => exact Nat.le_succ i

variable {α : Type} [Element α]

/-- Reads a cut, or nothing when it looks outside the list. -/
def read? (sorted : List α) : Cut → Option α
  | element i => sorted[i]?
  | between i => do
    let a ← sorted[i]?
    let b ← sorted[i + 1]?
    return (a + b) * Element.half

theorem read?_eq {sorted : List α} (h : p.last < sorted.length) : p.read? sorted = some (p.read sorted) := by
  cases p with
  | element i =>
    have h : i < sorted.length := h
    simp [read?, read, h]
  | between i =>
    have h : i + 1 < sorted.length := h
    have h' : i < sorted.length := by omega
    simp [read?, read, h, h']

end Cut

/-- The quartiles, one after the other. -/
theorem cuts_ordered {n : ℕ} (hn : n ≠ 0) : (lowerCut n).last ≤ (medianCut n).first ∧
    (medianCut n).last ≤ (upperCut n).first ∧ (upperCut n).last < n := by
  -- One case for each number of elements below four, each parity and each parity of the middle.
  refine ⟨?_, ?_, ?_⟩
  all_goals
    simp only [lowerCut, medianCut, upperCut, apply_ite Cut.first, apply_ite Cut.last,
      Cut.first_element, Cut.last_element, Cut.first_between, Cut.last_between]
    split_ifs
    all_goals omega

theorem cuts_within {n : ℕ} (hn : n ≠ 0) : ∀ place ∈ [lowerCut, medianCut, upperCut], (place n).last < n := by
  obtain ⟨hlower, hmedian, hupper⟩ := cuts_ordered hn
  have hmiddle := (medianCut n).first_le_last
  have hhigh := (upperCut n).first_le_last
  simp only [List.forall_mem_cons, List.not_mem_nil, false_implies, implies_true, and_true]
  omega

/-- Reading a quartile stays inside the sorted elements when there are any. -/
theorem cut_inside {α : Type} [Element α] {y : List α} (h : finite y ≠ []) :
    ∀ place ∈ [lowerCut, medianCut, upperCut],
      (∀ i ∈ (place (sortedFinite y).length).positions, i < (sortedFinite y).length) ∧
      (place (sortedFinite y).length).read? (sortedFinite y) = some (cut place y) := by
  intro place hplace
  have hsome : (sortedFinite y).length ≠ 0 := by simpa [sortedFinite] using h
  have hlast := cuts_within hsome place hplace
  refine ⟨fun i hi => (Cut.mem_positions.1 hi).2.trans_lt hlast, ?_⟩
  rw [cut, if_neg hsome]
  exact Cut.read?_eq hlast

/-! ## Sorted real numbers -/

section Real

variable {l : List ℝ} {p : Cut}

/-- What a cut reads off real numbers. -/
noncomputable def Cut.level (l : List ℝ) : Cut → ℝ
  | element i => l.getD i 0
  | between i => (l.getD i 0 + l.getD (i + 1) 0) / (2 : ℕ)

theorem getD_real {i : ℕ} (hi : i < l.length) : (l.map Unrounded.real).getD i Element.blank = .real (l.getD i 0) := by
  simp [hi]

theorem Cut.read_real (h : p.last < l.length) : p.read (l.map Unrounded.real) = .real (p.level l) := by
  cases p with
  | element i => exact getD_real h
  | between i =>
    have hnext : i + 1 < l.length := h
    rw [read, getD_real hnext, getD_real (by omega), Unrounded.half_eq, Unrounded.real_add, Unrounded.real_mul,
      mul_one_div, level, Nat.cast_ofNat]

theorem getD_le_getD (hl : l.Pairwise (· ≤ ·)) {i j : ℕ} (hij : i ≤ j) (hj : j < l.length) :
    l.getD i 0 ≤ l.getD j 0 := by
  rw [List.getD_eq_getElem _ _ (by omega), List.getD_eq_getElem _ _ hj]
  exact hl.rel_get_of_le (a := ⟨i, by omega⟩) (b := ⟨j, hj⟩) hij

/-- What a cut reads lies between the first and the last value it looks at. -/
theorem Cut.level_mem_Icc (hl : l.Pairwise (· ≤ ·)) (h : p.last < l.length) :
    p.level l ∈ Set.Icc (l.getD p.first 0) (l.getD p.last 0) := by
  cases p with
  | element i => exact ⟨le_rfl, le_rfl⟩
  | between i =>
    have hstep := getD_le_getD hl (Nat.le_succ i) h
    simp only [level, first_between, last_between, Set.mem_Icc, Nat.cast_ofNat]
    constructor
    · linarith
    · linarith

/-- A cut that ends where the next one begins, or before, reads no more. -/
theorem Cut.level_le_level (hl : l.Pairwise (· ≤ ·)) {q : Cut} (hpq : p.last ≤ q.first) (hq : q.last < l.length) :
    p.level l ≤ q.level l := by
  have hbegin := q.first_le_last
  calc p.level l ≤ l.getD p.last 0 := (level_mem_Icc hl (by omega)).2
    _ ≤ l.getD q.first 0 := getD_le_getD hl hpq (by omega)
    _ ≤ q.level l := (level_mem_Icc hl hq).1

end Real

/-! ## Finite values in exact arithmetic -/

variable {y : List Unrounded}

theorem exists_real_of_isFinite {x : Unrounded} (h : Element.isFinite x = true) : ∃ r, x = .real r := by
  cases x with
  | real r => exact ⟨r, rfl⟩
  | infinite | blank => cases h

/-- The finite elements, which are real numbers, in ascending order. -/
noncomputable def sortedReals (y : List Unrounded) : List ℝ :=
  ((finite y).map Unrounded.toReal).mergeSort fun a b => decide (a ≤ b)

theorem pairwise_sortedReals (y : List Unrounded) : (sortedReals y).Pairwise (· ≤ ·) := List.pairwise_mergeSort' _ _

theorem map_toReal_finite (y : List Unrounded) : ((finite y).map Unrounded.toReal).map Unrounded.real = finite y := by
  rw [List.map_map]
  refine (List.map_congr_left fun x hx => ?_).trans (List.map_id _)
  obtain ⟨r, rfl⟩ := exists_real_of_isFinite (finite_of_mem hx)
  rfl

theorem sortedFinite_eq (y : List Unrounded) : sortedFinite y = (sortedReals y).map Unrounded.real := by
  have horder : ∀ a b : ℝ, decide (a ≤ b) = !Element.less (Unrounded.real b) (.real a) := by
    intro a b
    rw [Unrounded.less_real, ← decide_not, decide_eq_decide, not_lt]
  rw [sortedReals, List.map_mergeSort (s := fun a b => !Element.less b a) (fun a _ b _ => horder a b),
    map_toReal_finite, sortedFinite]

theorem mem_sortedReals {r : ℝ} : r ∈ sortedReals y ↔ .real r ∈ finite y := by
  have hinjective : Function.Injective Unrounded.real := fun _ _ => Unrounded.real.inj
  rw [← List.mem_map_of_injective hinjective, ← sortedFinite_eq, sortedFinite, List.mem_mergeSort]

theorem unrounded_ranks : Ranks (fun x : Unrounded => Element.isFinite x = true) Element.less where
  asymm ha hb hab := by
    obtain ⟨a, rfl⟩ := exists_real_of_isFinite ha
    obtain ⟨b, rfl⟩ := exists_real_of_isFinite hb
    exact decide_eq_false (of_decide_eq_true hab).not_gt
  trans ha hb hc hba hcb := by
    obtain ⟨a, rfl⟩ := exists_real_of_isFinite ha
    obtain ⟨b, rfl⟩ := exists_real_of_isFinite hb
    obtain ⟨c, rfl⟩ := exists_real_of_isFinite hc
    exact decide_eq_false (not_lt.2 ((not_lt.1 (of_decide_eq_false hba)).trans (not_lt.1 (of_decide_eq_false hcb))))

theorem min_real (h : finite y ≠ []) : ∃ low, min y = .real low ∧ ∀ r ∈ sortedReals y, low ≤ r := by
  obtain ⟨hmem, hleast⟩ := min_spec unrounded_ranks h
  obtain ⟨low, hlow⟩ := exists_real_of_isFinite (finite_of_mem hmem)
  refine ⟨low, hlow, fun r hr => ?_⟩
  have hr := hleast _ (mem_sortedReals.1 hr)
  rw [hlow] at hr
  exact not_lt.1 (of_decide_eq_false hr)

theorem max_real (h : finite y ≠ []) : ∃ high, max y = .real high ∧ ∀ r ∈ sortedReals y, r ≤ high := by
  obtain ⟨hmem, hgreatest⟩ := max_spec unrounded_ranks h
  obtain ⟨high, hhigh⟩ := exists_real_of_isFinite (finite_of_mem hmem)
  refine ⟨high, hhigh, fun r hr => ?_⟩
  have hr := hgreatest _ (mem_sortedReals.1 hr)
  rw [hhigh] at hr
  exact not_lt.1 (of_decide_eq_false hr)

/-- **The quartiles are in bounds and in order.** Whatever the number of finite values,
reading the median and the other two quartiles stays inside the sorted ones, and none
of the five numbers is more than the next. -/
theorem quartiles_ordered (h : finite y ≠ []) :
    (∀ place ∈ [lowerCut, medianCut, upperCut],
      (∀ i ∈ (place (sortedFinite y).length).positions, i < (sortedFinite y).length) ∧
      (place (sortedFinite y).length).read? (sortedFinite y) = some (cut place y)) ∧
    ∃ low lower middle upper high : ℝ, min y = .real low ∧ lowerQuartile y = .real lower ∧ median y = .real middle ∧
      upperQuartile y = .real upper ∧ max y = .real high ∧
      low ≤ lower ∧ lower ≤ middle ∧ middle ≤ upper ∧ upper ≤ high := by
  refine ⟨cut_inside h, ?_⟩
  have hsorted := pairwise_sortedReals y
  have hlength : (sortedFinite y).length = (sortedReals y).length := by rw [sortedFinite_eq, List.length_map]
  have hsome : (sortedReals y).length ≠ 0 := by
    rw [← hlength]
    simpa [sortedFinite] using h
  have hwithin := cuts_within hsome
  have hread {place : ℕ → Cut} (hplace : place ∈ [lowerCut, medianCut, upperCut]) :
      cut place y = .real ((place (sortedReals y).length).level (sortedReals y)) := by
    rw [cut, hlength, if_neg hsome, sortedFinite_eq, Cut.read_real (hwithin place hplace)]
  have hmem {i : ℕ} (hi : i < (sortedReals y).length) : (sortedReals y).getD i 0 ∈ sortedReals y := by
    rw [List.getD_eq_getElem _ _ hi]
    exact List.getElem_mem hi
  have hlowerLast := hwithin lowerCut (by simp)
  have hupperLast := hwithin upperCut (by simp)
  obtain ⟨low, hlow, hleast⟩ := min_real h
  obtain ⟨high, hhigh, hgreatest⟩ := max_real h
  obtain ⟨hlower, hmedian, -⟩ := cuts_ordered hsome
  refine ⟨low, _, _, _, high, hlow, hread (by simp), hread (by simp), hread (by simp), hhigh, ?_, ?_, ?_, ?_⟩
  · have hfirst := Cut.first_le_last.trans_lt hlowerLast
    exact (hleast _ (hmem hfirst)).trans (Cut.level_mem_Icc hsorted hlowerLast).1
  · exact Cut.level_le_level hsorted hlower (hwithin medianCut (by simp))
  · exact Cut.level_le_level hsorted hmedian hupperLast
  · exact (Cut.level_mem_Icc hsorted hupperLast).2.trans (hgreatest _ (hmem hupperLast))

/-- Five finite values, with an even middle position: both outer quartiles lie halfway
between two values. -/
theorem quartiles_ordered_even_middle :
    let y : List Unrounded := [.real 1, .blank, .real 2, .real 3, .infinite true, .real 4, .real 5]
    lowerQuartile y = .real (5 / 2) ∧ median y = .real 3 ∧ upperQuartile y = .real (9 / 2) ∧
      ∃ low high, min y = .real low ∧ max y = .real high ∧ low ≤ 5 / 2 ∧ 9 / 2 ≤ high := by
  intro y
  have hfinite : finite y = [.real 1, .real 2, .real 3, .real 4, .real 5] := by
    simp [y, finite, Element.isFinite]
  have hsorted : sortedFinite y = [.real 1, .real 2, .real 3, .real 4, .real 5] := by
    rw [sortedFinite, hfinite]
    refine List.mergeSort_of_pairwise ?_
    norm_num
  have hlower : lowerQuartile y = .real (5 / 2) := by
    norm_num [lowerQuartile, cut, hsorted, lowerCut, Cut.read]
  have hmedian : median y = .real 3 := by norm_num [median, cut, hsorted, medianCut, Cut.read]
  have hupper : upperQuartile y = .real (9 / 2) := by
    norm_num [upperQuartile, cut, hsorted, upperCut, Cut.read]
  obtain ⟨-, low, lower, middle, upper, high, hlow, hlower', -, hupper', hhigh, hle, -, -, hge⟩ :=
    quartiles_ordered (y := y) (by simp [hfinite])
  obtain rfl : 5 / 2 = lower := Unrounded.real.inj (hlower.symm.trans hlower')
  obtain rfl : 9 / 2 = upper := Unrounded.real.inj (hupper.symm.trans hupper')
  exact ⟨hlower, hmedian, hupper, low, high, hlow, hhigh, hle, hge⟩

end Statistics
end VectorEngine
