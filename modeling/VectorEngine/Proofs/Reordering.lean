/-
Rows that are put in order.

To compare rows after they were moved is to compare the ones they were
(`SortKeys.compareRows_reorder`). So rows moved into their order are in order where
they are then, and a stable sort leaves them there, equal ones too; if one of each
class of equal rows was kept, no two are equal any more, and all are kept.
-/
import Mathlib
import VectorEngine.Proofs.Interleaving
import VectorEngine.Proofs.Sorting

namespace VectorEngine

namespace SortKeys

variable {α : Type} [Element α] {s : SortKeys α} {rows : List Nat} {a b : Nat}

/-- The keys after their rows were put into this order. -/
def reorder (s : SortKeys α) (rows : List Nat) : SortKeys α :=
  ⟨s.keys.map fun key => (rows.map fun row => key.getD row Element.blank).toArray, s.decreasing⟩

theorem rows_reorder (hkeys : s.keys ≠ []) : (s.reorder rows).rows = rows.length := by
  obtain ⟨key, keys, hcons⟩ := List.exists_cons_of_ne_nil hkeys
  simp [SortKeys.rows, reorder, hcons]

/-- **Rows compare as before they were moved.** -/
theorem compareRows_reorder (ha : a < rows.length) (hb : b < rows.length) :
    (s.reorder rows).compareRows a b = s.compareRows rows[a] rows[b] := by
  unfold compareRows reorder
  rw [List.foldr_map]
  simp [ha, hb]

theorem compare_reorder (ha : a < rows.length) (hb : b < rows.length) :
    (s.reorder rows).compare a b = s.compare rows[a] rows[b] := by
  unfold compare
  rw [compareRows_reorder ha hb]
  rfl

/-- What holds of any two rows in their order holds of them where they are moved to. -/
theorem pairwise_range {R S : Nat → Nat → Prop} (h : rows.Pairwise R)
    (hRS : ∀ (a b : Nat) (ha : a < rows.length) (hb : b < rows.length), R rows[a] rows[b] → S a b) :
    (List.range rows.length).Pairwise S := by
  rw [List.pairwise_iff_getElem] at h ⊢
  intro a b ha hb hab
  rw [List.length_range] at ha hb
  rw [List.getElem_range, List.getElem_range]
  exact hRS a b ha hb (h a b ha hb hab)

/-- Rows that are in order stay. -/
theorem order_eq_range (h : (List.range s.rows).Pairwise fun a b => (s.compare a b).isLE) :
    s.order = List.range s.rows := by
  simp only [order, bne_gt_eq_isLE]
  exact List.mergeSort_of_pairwise h

/-- Rows of which no two are equal are all kept. -/
theorem distinct_eq_self (h : rows.Pairwise fun a b => s.compareRows a b ≠ .eq) : s.distinct rows = rows := by
  have hafter : ∀ (kept : Nat) (rows : List Nat), (kept :: rows).Pairwise (fun a b => s.compareRows a b ≠ .eq) →
      s.distinctAfter kept rows = rows := by
    intro kept rows
    induction rows generalizing kept with
    | nil => exact fun _ => rfl
    | cons row rows ih =>
      intro h
      rw [distinctAfter, if_neg (List.rel_of_pairwise_cons h List.mem_cons_self), ih row h.of_cons]
  cases rows with
  | nil => rfl
  | cons row rows => rw [distinct, hafter row rows h]

theorem order_reorder (hkeys : s.keys ≠ []) (h : rows.Pairwise fun a b => (s.compare a b).isLE) :
    (s.reorder rows).order = List.range rows.length := by
  rw [order_eq_range, rows_reorder hkeys]
  rw [rows_reorder hkeys]
  refine pairwise_range h fun a b ha hb hle => ?_
  rwa [compare_reorder ha hb]

theorem distinct_reorder (h : rows.Pairwise fun a b => s.compareRows a b ≠ .eq) :
    (s.reorder rows).distinct (List.range rows.length) = List.range rows.length := by
  refine distinct_eq_self (pairwise_range h fun a b ha hb hne => ?_)
  rwa [compareRows_reorder ha hb]

end SortKeys

section Doubles

variable {keys : List (List Float)} {options : SortOptions} {rows : List Nat} {n : Nat}

/-- Rows are given once each, and all of them unless one of each class is asked for. -/
structure GivesRows (options : SortOptions) (n : Nat) (rows : List Nat) : Prop where
  distinct : rows.Nodup
  bounded : ∀ row ∈ rows, row < n
  all : options.unique = false → rows.Perm (List.range n)

theorem GivesRows.length_le (h : GivesRows options n rows) : rows.length ≤ n := by
  have hsub := List.subperm_of_subset h.distinct fun row hrow => List.mem_range.2 (h.bounded row hrow)
  simpa using hsub.length_le

theorem sortRows_ok (hkeys : keys ≠ []) (hlength : ∀ key ∈ keys, key.length = n) :
    ∃ rows, sortRows options keys = .ok rows := by
  refine ⟨_, (sortRows_eq options).trans (map_ok_iff.2 ⟨_, SortKeys.ofKeys_ok_iff.2 ⟨hkeys, ?_, rfl⟩, rfl⟩)⟩
  intro key hkey key' hkey'
  rw [hlength key hkey, hlength key' hkey']

/-- **Sorted rows are sorted into the order they have**, whatever the options. -/
theorem sortRows_pick (h : sortRows options keys = .ok rows) (hlength : ∀ key ∈ keys, key.length = n) :
    GivesRows options n rows ∧
      sortRows options (keys.map (Element.pick · rows)) = .ok (List.range rows.length) := by
  rw [sortRows_eq] at h
  obtain ⟨s, hs, hrows⟩ := map_ok_iff.1 h
  obtain ⟨hkeys, -, rfl⟩ := SortKeys.ofKeys_ok_iff.1 hs
  set s : SortKeys Float := ⟨keys.map List.toArray, options.decreasing⟩ with hsdef
  have hskeys : s.keys ≠ [] := by simpa [hsdef] using hkeys
  have hn : s.rows = n := by
    obtain ⟨key, keys, rfl⟩ := List.exists_cons_of_ne_nil hkeys
    exact hlength key List.mem_cons_self
  have hagain : SortKeys.ofKeys (keys.map (Element.pick · rows)) options.decreasing = .ok (s.reorder rows) := by
    refine SortKeys.ofKeys_ok_iff.2 ⟨by simpa using hkeys, ?_, ?_⟩
    · simp [pick_eq]
    · simp [SortKeys.reorder, hsdef, Element.pick]
  rw [sortRows_eq, hagain]
  have horder : s.Orders n s.order := hn ▸ SortKeys.orders_order
  have hnodup : s.order.Nodup := horder.perm.nodup_iff.2 List.nodup_range
  have hbounded : ∀ row ∈ s.order, row < n := fun row hrow => List.mem_range.1 (horder.perm.mem_iff.1 hrow)
  cases hunique : options.unique with
  | false =>
    rw [hunique, if_neg Bool.false_ne_true] at hrows
    subst hrows
    refine ⟨⟨hnodup, hbounded, fun _ => horder.perm⟩, ?_⟩
    exact congrArg Except.ok (SortKeys.order_reorder hskeys horder.increasing)
  | true =>
    rw [hunique, if_pos rfl] at hrows
    subst hrows
    have hkept := SortKeys.compresses_distinct horder
    have hdiffer : (s.distinct s.order).Pairwise fun a b => s.compareRows a b ≠ .eq := by
      refine hkept.strict.imp fun {a b} hlt heq => ?_
      rw [SortKeys.compare_eq_iff.2 heq] at hlt
      cases hlt
    have hincreasing := horder.increasing.sublist hkept.sublist
    refine ⟨⟨hnodup.sublist hkept.sublist, fun row hrow => hbounded row (hkept.sublist.subset hrow), ?_⟩, ?_⟩
    · rw [hunique]
      exact fun hfalse => absurd hfalse Bool.noConfusion
    · show Except.ok ((s.reorder (s.distinct s.order)).distinct (s.reorder (s.distinct s.order)).order) = _
      rw [SortKeys.order_reorder hskeys hincreasing, SortKeys.distinct_reorder hdiffer]

end Doubles
end VectorEngine
