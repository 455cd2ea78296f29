/-
Points between neighbours.

With `density` points in every gap, the values stand `density + 1` places apart
(`getElem?_between_value`), and behind each but the last stand the points of its gap
(`getElem?_between_point`). In exact arithmetic these are on the straight line to the
next value. The result is computed before it is stored, so a vector can be populated
from itself.
-/
import VectorEngine.Proofs.Number.Unrounded
import VectorEngine.Proofs.Session.Filling

namespace VectorEngine
namespace Interpolation

open Element

section

variable {α : Type} [Element α] {values rest : List α} {a b : α} {density i k : ℕ}

/-! ## Where the values and the points stand -/

theorem length_gap (density : ℕ) (a b : α) : (gap density a b).length = density := by simp [gap]

theorem getElem?_gap (hk : k < density) (a b : α) :
    (gap density a b)[k]? = some (a + (b - a) * ofNat (k + 1) * (one / (ofNat density + one))) := by
  simp [gap, List.getElem?_range hk]

/-- The places up to the second value. -/
theorem getElem?_between_first (hk : k ≤ density) :
    (between density (a :: b :: rest))[k]? = (a :: gap density a b)[k]? := by
  rw [between, List.getElem?_append_left]
  rw [List.length_cons, length_gap]
  exact Nat.lt_succ_of_le hk

/-- The places from the second value on. -/
theorem getElem?_between_later :
    (between density (a :: b :: rest))[(i + 1) * (density + 1) + k]? =
      (between density (b :: rest))[i * (density + 1) + k]? := by
  have hlength : (a :: gap density a b).length = density + 1 := by rw [List.length_cons, length_gap]
  have hplace : (i + 1) * (density + 1) + k = density + 1 + (i * (density + 1) + k) := by ring
  rw [between, List.getElem?_append_right (by omega), hlength, hplace, Nat.add_sub_cancel_left]

theorem getElem?_between_value (h : values[i]? = some a) : (between density values)[i * (density + 1)]? = some a := by
  induction i generalizing values with
  | zero =>
    rw [Nat.zero_mul]
    match values with
    | [] | [_] => exact h
    | _ :: _ :: rest => exact (getElem?_between_first (Nat.zero_le _)).trans h
  | succ i ih =>
    match values with
    | [] | [_] => cases h
    | _ :: b :: rest => exact (getElem?_between_later (k := 0)).trans (ih h)

theorem getElem?_between_point (ha : values[i]? = some a) (hb : values[i + 1]? = some b) (hk : k < density) :
    (between density values)[i * (density + 1) + (k + 1)]? =
      some (a + (b - a) * ofNat (k + 1) * (one / (ofNat density + one))) := by
  induction i generalizing values with
  | zero =>
    match values with
    | [] | [_] => cases hb
    | _ :: _ :: rest =>
      cases ha
      cases hb
      rw [Nat.zero_mul, Nat.zero_add, getElem?_between_first hk, List.getElem?_cons_succ, getElem?_gap hk]
  | succ i ih =>
    match values with
    | [] | [_] => cases ha
    | _ :: c :: rest => exact getElem?_between_later.trans (ih ha hb)

theorem length_between (h : values ≠ []) :
    (between density values).length = (values.length - 1) * (density + 1) + 1 := by
  fun_induction between density values with
  | case1 a b rest ih =>
    rw [List.length_append, List.length_cons, length_gap, ih (List.cons_ne_nil _ _)]
    simp only [List.length_cons, Nat.add_sub_cancel]
    ring
  | case2 values hother =>
    match values with
    | [] => exact absurd rfl h
    | [_] => simp
    | a :: b :: rest => exact absurd rfl (hother a b rest)

/-! ## Populating -/

/-- What comes of putting `density` points into every gap of the values. -/
structure Populates (values : List α) (density : ℕ) (outcome : Except Error (List α)) : Prop where
  /-- Without a gap they stay as they are. -/
  gapless : values.length < 2 → outcome = .ok values
  /-- More of them than a word can count are refused. -/
  uncountable : 2 ≤ values.length → Buffer.sizeLimit ≤ (values.length - 1) * (density + 1) + 1 →
    outcome = .error (.outOfMemory Buffer.unbounded)
  /-- So are more than there can be room for. -/
  unallocatable : 2 ≤ values.length → Buffer.slotLimit ≤ (values.length - 1) * (density + 1) + 1 →
    (values.length - 1) * (density + 1) + 1 < Buffer.sizeLimit →
    outcome = .error (.outOfMemory ((values.length - 1) * (density + 1) + 1))
  /-- Otherwise they stand at equal distances. -/
  spread : 2 ≤ values.length → (values.length - 1) * (density + 1) + 1 < Buffer.slotLimit →
    ∃ points, outcome = .ok points ∧ points.length = (values.length - 1) * (density + 1) + 1 ∧
      ∀ (i : ℕ) v, values[i]? = some v → points[i * (density + 1)]? = some v

theorem populatedLength_of_lt {count : ℕ} (h : (count - 1) * (density + 1) + 1 < Buffer.sizeLimit) :
    populatedLength count density = .ok ((count - 1) * (density + 1) + 1) := if_pos h

theorem populate_of_fits (hlen : 2 ≤ values.length)
    (hfits : (values.length - 1) * (density + 1) + 1 < Buffer.slotLimit) :
    populate values density = .ok (between density values) := by
  have hsize : Buffer.slotLimit ≤ Buffer.sizeLimit := by decide
  rw [populate, if_neg hlen.not_gt, populatedLength_of_lt (hfits.trans_le hsize)]
  exact if_neg hfits.not_ge

theorem populate_ok (hlen : 2 ≤ values.length) {points : List α} (h : populate values density = .ok points) :
    points = between density values := by
  rw [populate, if_neg hlen.not_gt] at h
  obtain ⟨length, -, h⟩ := bind_ok_iff.1 h
  split at h
  · cases h
  · cases h
    rfl

theorem populate_populates (values : List α) (density : ℕ) : Populates values density (populate values density) := by
  constructor
  · intro hlen
    exact if_pos hlen
  · intro hlen hsize
    rw [populate, if_neg hlen.not_gt, populatedLength]
    exact congrArg (· >>= _) (if_neg hsize.not_gt)
  · intro hlen hslots hsize
    rw [populate, if_neg hlen.not_gt, populatedLength_of_lt hsize]
    exact if_pos hslots
  · intro hlen hfits
    have hne : values ≠ [] := List.ne_nil_of_length_pos (by omega)
    exact ⟨_, populate_of_fits hlen hfits, length_between hne, fun i v hv => getElem?_between_value hv⟩

end

/-! ## In exact arithmetic -/

variable {values points : List Unrounded} {density i k : ℕ} {a b : ℝ}

/-- To multiply by the inverse of a number is to divide by the number, also for infinities. -/
theorem mul_inverse (x : Unrounded) (density : ℕ) :
    x * (one / (ofNat density + one)) = x / ofNat (density + 1) := by
  have hpos : (0 : ℝ) < density + 1 := by positivity
  have hinverse : (one / (ofNat density + one) : Unrounded) = .real (1 / (density + 1)) := by
    rw [Unrounded.ofNat_eq, Unrounded.one_eq, Unrounded.real_add, Unrounded.real_div hpos.ne']
  rw [hinverse, Unrounded.ofNat_eq, Nat.cast_succ]
  cases x with
  | real x => rw [Unrounded.real_mul, Unrounded.real_div hpos.ne', mul_one_div]
  | infinite negative =>
    show Unrounded.beyond _ = Unrounded.infinite _
    have hinv : (0 : ℝ) < 1 / (density + 1) := one_div_pos.2 hpos
    rw [Unrounded.beyond, decide_eq_false hpos.not_gt, Bool.bne_false]
    cases negative with
    | true => rw [if_pos rfl, if_neg (neg_ne_zero.2 hinv.ne'), decide_eq_true (neg_lt_zero.2 hinv)]
    | false => rw [if_neg Bool.false_ne_true, if_neg hinv.ne', decide_eq_false hinv.not_gt]
  | blank => rfl

/-- The points are on straight lines between the values. -/
structure Linear (values : List Unrounded) (density : ℕ) (points : List Unrounded) : Prop where
  /-- The points of one gap. -/
  point : ∀ (i k : ℕ) a b, values[i]? = some a → values[i + 1]? = some b → 1 ≤ k → k ≤ density →
    points[i * (density + 1) + k]? = some (a + (b - a) * ofNat k / ofNat (density + 1))
  /-- From one real number to the next the points and the two are at one distance. -/
  even : ∀ (i k : ℕ) a b, values[i]? = some (Unrounded.real a) → values[i + 1]? = some (Unrounded.real b) →
    k ≤ density → ∃ p q, points[i * (density + 1) + k]? = some (Unrounded.real p) ∧
      points[i * (density + 1) + (k + 1)]? = some (Unrounded.real q) ∧ q - p = (b - a) / (density + 1)

theorem between_point {a b : Unrounded} (ha : values[i]? = some a) (hb : values[i + 1]? = some b) (hk : 1 ≤ k)
    (hle : k ≤ density) : (between density values)[i * (density + 1) + k]? =
      some (a + (b - a) * ofNat k / ofNat (density + 1)) := by
  obtain ⟨k, rfl⟩ := Nat.exists_eq_add_of_le' hk
  rw [getElem?_between_point ha hb hle, mul_inverse]

/-- On the line from one real number to the next, both included. -/
theorem between_real (ha : values[i]? = some (.real a)) (hb : values[i + 1]? = some (.real b)) (hk : k ≤ density + 1) :
    (between density values)[i * (density + 1) + k]? = some (.real (a + (b - a) * k / (density + 1))) := by
  have hpos : (0 : ℝ) < density + 1 := by positivity
  obtain rfl | hfirst := Nat.eq_zero_or_pos k
  · rw [Nat.add_zero, getElem?_between_value ha]
    simp
  obtain hlast | rfl := hk.lt_or_eq
  · rw [between_point ha hb hfirst (Nat.le_of_lt_succ hlast), Unrounded.real_sub, Unrounded.ofNat_eq,
      Unrounded.ofNat_eq, Unrounded.real_mul, Nat.cast_succ, Unrounded.real_div hpos.ne', Unrounded.real_add]
  · rw [← Nat.succ_mul, getElem?_between_value hb]
    simp [hpos.ne']

theorem between_linear (values : List Unrounded) (density : ℕ) : Linear values density (between density values) := by
  refine ⟨fun i k a b ha hb hk hle => between_point ha hb hk hle, fun i k a b ha hb hk => ?_⟩
  refine ⟨_, _, between_real ha hb (Nat.le_succ_of_le hk), between_real ha hb (Nat.succ_le_succ hk), ?_⟩
  rw [Nat.cast_succ]
  ring

end Interpolation

/-! ## In a session -/

theorem Moment.fills_populate {m : Moment} (hs : m.session.view.Sound) (target source : VectorId) (density : ℕ) :
    m.Fills (.populate target source density) target
      (m.session.store.valuesOf source >>= fun xs => Interpolation.populate xs density) := by
  refine fills_of_issue hs (fun _ => not_false) (congrArg m.session.begin ?_)
  rw [Store.populate]
  cases m.session.store.valuesOf source with
  | ok xs | error e => rfl

/-- **Populating keeps the values and interpolates between them.** The outcome is told by
the number of values and of points; the values stand at equal distances, and in exact
arithmetic the points between two are on the straight line. At every moment of a run,
populating a target from a source, which may be the same vector, puts that there, and
nothing is changed if it fails. -/
theorem Run.populate_interpolates :
    (∀ (α : Type) [Element α] (values : List α) density,
      Interpolation.Populates values density (Interpolation.populate values density)) ∧
    (∀ (values : List Unrounded) density points, 2 ≤ values.length → Interpolation.populate values density = .ok points →
      Interpolation.Linear values density points) ∧
    ∀ config host random s₀ steps m, Session.ofConfig config host random = .ok s₀ → Run ⟨s₀, false⟩ steps m →
      ∀ target source density, m.Fills (.populate target source density) target
        (m.session.store.valuesOf source >>= fun xs => Interpolation.populate xs density) := by
  refine ⟨fun α _ values density => Interpolation.populate_populates values density, ?_, ?_⟩
  · intro values density points hlen hpoints
    rw [Interpolation.populate_ok hlen hpoints]
    exact Interpolation.between_linear values density
  · intro config host random s₀ steps m hs₀ hrun target source density
    exact Moment.fills_populate (hrun.sound hs₀) target source density

/-- Two gaps of a line, a vector populated from itself, and more points than a word can count. -/
theorem Run.populate_interpolates_ofItself :
    let y : List Unrounded := [.real 0, .real 4, .real 8]
    let m := Moment.outcome ⟨.initial, false⟩ Moment.attended
    Interpolation.Linear y 1 (Interpolation.between 1 y) ∧
    (∃ m₁, Exchange.Calm m (.populate ⟨1, 0⟩ ⟨1, 0⟩ 1) m₁ (.ok .done) ∧
      m₁.session.store.valuesOf ⟨1, 0⟩ = .ok [2.0, nan, nan, nan, 4.0]) ∧
    Exchange.Calm m (.populate ⟨0, 0⟩ ⟨1, 0⟩ (Buffer.sizeLimit - 1)) m (.error (.outOfMemory Buffer.unbounded)) := by
  intro y m
  obtain ⟨houtcome, hexact, hruns⟩ := Run.populate_interpolates
  have hfills := hruns _ _ _ _ _ m Session.ofConfig_initial Moment.run_attended
  have hcalm : Exchange.Calm m (.populate ⟨1, 0⟩ ⟨1, 0⟩ 1) _ (.ok .done) :=
    .of_work (n := 0) (by decide +kernel) (by decide +kernel) (by decide +kernel) (by decide +kernel)
  refine ⟨hexact y 1 _ (by decide) (Interpolation.populate_of_fits (by decide) (by decide)), ⟨_, hcalm, ?_⟩, ?_⟩
  · exact (hfills ⟨1, 0⟩ ⟨1, 0⟩ 1).values_of_target (by decide +kernel) hcalm
  · refine (hfills ⟨0, 0⟩ ⟨1, 0⟩ (Buffer.sizeLimit - 1)).calm_of_error (by decide +kernel) ?_
    have hxs : m.session.store.valuesOf ⟨1, 0⟩ = .ok [2.0, nan, 4.0] := by decide +kernel
    rw [hxs]
    exact (houtcome Float [2.0, nan, 4.0] (Buffer.sizeLimit - 1)).uncountable (by decide) (by decide)

end VectorEngine
