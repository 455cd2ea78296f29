/-
The extrema of a vector, and what a series remembers of them.

The smallest finite element is one that no finite element is before, and so is the
largest the other way round. A series remembers its extrema from one reading to
the next; every operation either forgets them or leaves the values as they are, so
what is remembered is never out of date.
-/
import Mathlib
import VectorEngine.Proofs.Number.Comparison
import VectorEngine.Proofs.Operation
import VectorEngine.Proofs.Outcome

namespace VectorEngine

/-! ## The first element of a list -/

/-- `before` puts the elements of `P` in a total preorder. -/
structure Ranks {α : Type} (P : α → Prop) (before : α → α → Bool) : Prop where
  asymm : ∀ {a b}, P a → P b → before a b = true → before b a = false
  trans : ∀ {a b c}, P a → P b → P c → before b a = false → before c b = false → before c a = false

namespace Ranks

variable {α : Type} {P : α → Prop} {before : α → α → Bool} {a b : α}

theorem irrefl (h : Ranks P before) (ha : P a) : before a a = false := by
  cases hself : before a a with
  | false => rfl
  | true => exact hself ▸ h.asymm ha ha hself

theorem flip (h : Ranks P before) : Ranks P fun a b => before b a where
  asymm ha hb hab := h.asymm hb ha hab
  trans ha hb hc hba hcb := h.trans hc hb ha hcb hba

/-- Keeping the earlier of two at every step ends with an element that none is
before. -/
theorem foldl_first (h : Ranks P before) {pick : α → α → α} (hpick : ∀ a b, pick a b = if before b a then b else a) :
    ∀ {rest : List α} {a : α}, (∀ x ∈ a :: rest, P x) →
      rest.foldl pick a ∈ a :: rest ∧ ∀ x ∈ a :: rest, before x (rest.foldl pick a) = false
  | [], a, hP => by simpa using h.irrefl (hP a List.mem_cons_self)
  | b :: rest, a, hP => by
    have ha : P a := hP a (by simp)
    have hb : P b := hP b (by simp)
    obtain ⟨hchosen, hbeforeA, hbeforeB⟩ : (pick a b = a ∨ pick a b = b) ∧ before a (pick a b) = false ∧
        before b (pick a b) = false := by
      rw [hpick]
      split
      · next hba => exact ⟨.inr rfl, h.asymm hb ha hba, h.irrefl hb⟩
      · next hba => exact ⟨.inl rfl, h.irrefl ha, by simpa using hba⟩
    have hpicked : P (pick a b) := by
      rcases hchosen with he | he
      · rwa [he]
      · rwa [he]
    have hrest : ∀ x ∈ pick a b :: rest, P x :=
      List.forall_mem_cons.2 ⟨hpicked, fun x hx => hP x (by simp [hx])⟩
    obtain ⟨hmem, hfirst⟩ := h.foldl_first hpick hrest
    have hlast : P (rest.foldl pick (pick a b)) := hrest _ hmem
    -- What is not before the one picked is not before the last one picked.
    have hpast {x : α} (hx : P x) (hbefore : before x (pick a b) = false) :
        before x (rest.foldl pick (pick a b)) = false :=
      h.trans hlast hpicked hx (hfirst _ List.mem_cons_self) hbefore
    refine ⟨?_, fun x hx => ?_⟩
    · rw [List.foldl_cons]
      rcases List.mem_cons.1 hmem with he | hmem
      · rw [he]
        rcases hchosen with hchosen | hchosen
        · simp [hchosen]
        · simp [hchosen]
      · simp [hmem]
    · rcases List.mem_cons.1 hx with rfl | hx
      · exact hpast ha hbeforeA
      rcases List.mem_cons.1 hx with rfl | hx
      · exact hpast hb hbeforeB
      · exact hfirst x (List.mem_cons_of_mem _ hx)

end Ranks

namespace Statistics

variable {α : Type} [Element α] {y : List α}

theorem finite_of_mem {x : α} (h : x ∈ finite y) : Element.isFinite x = true := (List.mem_filter.1 h).2

theorem min_blank (h : finite y = []) : min y = Element.blank := by rw [min, h]

theorem max_blank (h : finite y = []) : max y = Element.blank := by rw [max, h]

/-- No finite element is less than the smallest one. -/
theorem min_spec (hless : Ranks (fun x : α => Element.isFinite x = true) Element.less) (h : finite y ≠ []) :
    min y ∈ finite y ∧ ∀ x ∈ finite y, Element.less x (min y) = false := by
  have hfinite : ∀ x ∈ finite y, Element.isFinite x = true := fun x => finite_of_mem
  unfold min
  cases hy : finite y with
  | nil => exact absurd hy h
  | cons a rest => exact hless.foldl_first (fun _ _ => rfl) (hy ▸ hfinite)

/-- The largest finite element is not less than any. -/
theorem max_spec (hless : Ranks (fun x : α => Element.isFinite x = true) Element.less) (h : finite y ≠ []) :
    max y ∈ finite y ∧ ∀ x ∈ finite y, Element.less (max y) x = false := by
  have hfinite : ∀ x ∈ finite y, Element.isFinite x = true := fun x => finite_of_mem
  unfold max
  cases hy : finite y with
  | nil => exact absurd hy h
  | cons a rest => exact hless.flip.foldl_first (fun _ _ => rfl) (hy ▸ hfinite)

end Statistics

/-! ## Doubles -/

theorem isNaN_of_isFinite {x : Float} (h : x.isFinite = true) : x.isNaN = false := by
  change x.toModel.unpack.isFinite = true at h
  show x.toModel.unpack.isNaN = false
  cases hx : x.toModel.unpack with
  | notANumber | infinity =>
    rw [hx] at h
    cases h
  | zero | finite => rfl

theorem le_iff_rank {a b : Float} (ha : a.isNaN = false) (hb : b.isNaN = false) :
    a ≤ b ↔ (compareRanks (floatRank a) (floatRank b)).isLE = true := by
  show decide ((a.toModel.unpack.compare b.toModel.unpack).any (·.isLE) = true) = true ↔ _
  simp [compare_unpacked ha hb, floatRank]

/-- Of two numbers one is at most the other. -/
theorem le_of_not_lt {a b : Float} (ha : a.isNaN = false) (hb : b.isNaN = false) (h : ¬b < a) : a ≤ b := by
  rw [less_iff_rank hb ha] at h
  rw [le_iff_rank ha hb, Ordering.isLE_iff_ne_gt]
  exact fun hgt => h (Std.OrientedCmp.gt_iff_lt.1 hgt)

theorem isNaN_of_le {a b : Float} (h : a ≤ b) : a.isNaN = false ∧ b.isNaN = false := by
  change decide ((a.toModel.unpack.compare b.toModel.unpack).any (·.isLE) = true) = true at h
  constructor
  · refine Bool.eq_false_iff.2 fun ha => ?_
    rw [(compare_of_isNaN ha b).1] at h
    cases h
  · refine Bool.eq_false_iff.2 fun hb => ?_
    rw [(compare_of_isNaN hb a).2] at h
    cases h

theorem float_le_trans {a b c : Float} (hab : a ≤ b) (hbc : b ≤ c) : a ≤ c := by
  obtain ⟨ha, hb⟩ := isNaN_of_le hab
  obtain ⟨-, hc⟩ := isNaN_of_le hbc
  rw [le_iff_rank ha hb] at hab
  rw [le_iff_rank hb hc] at hbc
  rw [le_iff_rank ha hc]
  exact Std.TransCmp.isLE_trans hab hbc

theorem float_ranks : Ranks (fun x : Float => Element.isFinite x = true) Element.less where
  asymm ha hb hab := by
    simp only [less_float, decide_eq_true_eq, decide_eq_false_iff_not] at hab ⊢
    rw [less_iff_rank (isNaN_of_isFinite ha) (isNaN_of_isFinite hb)] at hab
    rw [less_iff_rank (isNaN_of_isFinite hb) (isNaN_of_isFinite ha)]
    exact Std.OrientedCmp.not_lt_of_lt hab
  trans ha hb hc hba hcb := by
    have ha := isNaN_of_isFinite ha
    have hb := isNaN_of_isFinite hb
    have hc := isNaN_of_isFinite hc
    simp only [less_float, decide_eq_false_iff_not] at hba hcb ⊢
    have hab := (le_iff_rank ha hb).1 (le_of_not_lt ha hb hba)
    have hbc := (le_iff_rank hb hc).1 (le_of_not_lt hb hc hcb)
    rw [less_iff_rank hc ha]
    exact Std.OrientedCmp.not_lt_of_isLE (Std.TransCmp.isLE_trans hab hbc)

/-- The extrema are those of the values: blank if no value is finite, and in order
otherwise. -/
structure Extrema.Describes (e : Extrema) (values : List Float) : Prop where
  min_eq : e.min = Statistics.min values
  max_eq : e.max = Statistics.max values
  blank : (∀ x ∈ values, x.isFinite = false) → e.min.isNaN = true ∧ e.max.isNaN = true
  ordered : e.min.isNaN = false ∨ e.max.isNaN = false → e.min ≤ e.max

theorem Extrema.ofValues_describes (values : List Float) : (Extrema.ofValues values).Describes values where
  min_eq := rfl
  max_eq := rfl
  blank h := by
    have hnone : Statistics.finite values = [] :=
      List.filter_eq_nil_iff.2 fun x hx => Bool.eq_false_iff.1 (h x hx)
    simp only [ofValues, Statistics.min_blank hnone, Statistics.max_blank hnone]
    exact ⟨rfl, rfl⟩
  ordered h := by
    have hsome : Statistics.finite values ≠ [] := by
      intro hnone
      simp only [ofValues, Statistics.min_blank hnone, Statistics.max_blank hnone] at h
      rcases h with h | h
      · cases h
      · cases h
    obtain ⟨hmin, hleast⟩ := Statistics.min_spec float_ranks hsome
    obtain ⟨hmax, -⟩ := Statistics.max_spec float_ranks hsome
    refine le_of_not_lt (isNaN_of_isFinite (Statistics.finite_of_mem hmin))
      (isNaN_of_isFinite (Statistics.finite_of_mem hmax)) ?_
    exact of_decide_eq_false (hleast _ hmax)

/-! ## Series -/

namespace Series

/-- What is remembered of the extrema is right. -/
def Recalls (s : Series) : Prop := ∀ e, s.extrema = some e → e = .ofValues s.values

variable {s s' : Series}

theorem recalls_of_none (h : s.extrema = none) : s.Recalls := by
  intro e he
  rw [h] at he
  cases he

theorem readExtrema_eq (h : s.Recalls) :
    s.readExtrema = (.ofValues s.values, { s with extrema := some (.ofValues s.values) }) := by
  unfold readExtrema
  cases he : s.extrema with
  | none => rfl
  | some e => rw [h e he]; rfl

theorem readExtrema_recalls (h : s.Recalls) : s.readExtrema.2.Recalls := by
  rw [readExtrema_eq h]
  intro e he
  exact (Option.some.inj he).symm

theorem withBuffer_map_ok {result : Except Error Buffer} (h : s.withBuffer <$> result = .ok s') :
    s'.extrema = none := by
  obtain ⟨b, -, rfl⟩ := map_ok_iff.1 h
  rfl

theorem set_forgets {i : Nat} {x : Float} (h : s.set i x = .ok s') : s'.extrema = none := by
  unfold set at h
  split at h
  · cases h
  dsimp only at h
  split at h
  · obtain ⟨b, -, h⟩ := bind_ok_iff.1 h
    cases h
    rfl
  · cases h
    rfl

theorem fill_forgets {first last : Nat} {x : Float} (h : s.fill first last x = .ok s') : s'.extrema = none := by
  unfold fill at h
  split at h
  · cases h
    rfl
  · cases h

theorem removeSpan_forgets {first last : Nat} (h : s.removeSpan first last = .ok s') : s'.extrema = none := by
  unfold removeSpan at h
  split at h
  · cases h
    rfl
  · cases h

theorem splice_forgets {values : List Float} {at? : Option Nat} (h : s.splice values at? = .ok s') :
    s'.extrema = none := by
  unfold splice at h
  dsimp only at h
  split at h
  · cases h
  split at h
  · obtain ⟨b, -, h⟩ := bind_ok_iff.1 h
    cases h
    rfl
  · cases h
    rfl

/-- **Every operation** forgets the extrema, unless it leaves the values alone. -/
theorem Operation.forgets {o : Operation} (h : o.apply s = .ok s') :
    s'.extrema = none ∨ s'.values = s.values ∧ s'.extrema = s.extrema := by
  cases o with
  | setValues | setLength | changeLength | setCapacity | append => exact .inl (withBuffer_map_ok h)
  | setOffset offset =>
    cases h
    exact .inr ⟨rfl, rfl⟩
  | clear | rewrite | invalidate =>
    cases h
    exact .inl rfl
  | set => exact .inl (set_forgets h)
  | fill => exact .inl (fill_forgets h)
  | removeSpan => exact .inl (removeSpan_forgets h)
  | splice => exact .inl (splice_forgets h)
  | fillSequence =>
    obtain ⟨count, -, h⟩ := bind_ok_iff.1 h
    obtain ⟨sized, -, h⟩ := bind_ok_iff.1 h
    cases h
    exact .inl rfl
  | writeIndex =>
    obtain ⟨index, -, h⟩ := bind_ok_iff.1 h
    cases index with
    | element | append => exact .inl (set_forgets h)
    | range => exact .inl (fill_forgets h)
    | aggregate => cases h
  | unsetIndex =>
    obtain ⟨span, -, h⟩ := bind_ok_iff.1 h
    exact .inl (removeSpan_forgets h)
  | deleteIndices =>
    obtain ⟨spans, -, h⟩ := bind_ok_iff.1 h
    exact .inl (withBuffer_map_ok h)

theorem use_recalls (h : s.Recalls) (u : Use) : (s.use u).Recalls := by
  cases u with
  | read => exact readExtrema_recalls h
  | change o =>
    simp only [use]
    split
    · next s' hs' =>
      rcases o.forgets hs' with hnone | ⟨hvalues, hextrema⟩
      · exact recalls_of_none hnone
      · intro e he
        rw [hvalues]
        exact h e (hextrema ▸ he)
    · exact h

theorem withCapacity_recalls {capacity : Nat} (h : withCapacity capacity = .ok s) : s.Recalls := by
  obtain ⟨b, -, h⟩ := bind_ok_iff.1 h
  cases h
  exact recalls_of_none rfl

theorem lasting_recalls : Lasting Recalls := ⟨withCapacity_recalls, use_recalls⟩

theorem Recalls.describes (h : s.Recalls) : s.readExtrema.1.Describes s.values := by
  rw [readExtrema_eq h]
  exact Extrema.ofValues_describes _

end Series
end VectorEngine
