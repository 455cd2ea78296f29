/-
What a stable sort makes of a list.

It is a rearrangement in order, in which elements that compare equal stand as they
stood. A list has only one such arrangement (`Arranges.unique`), however it is found, and
leaving elements out of both takes an arrangement to an arrangement (`Arranges.filter`).
So what is sorted and then filtered was filtered and then sorted.
-/
import Mathlib.Data.List.Sort

namespace VectorEngine

variable {α : Type} {cmp : α → α → Ordering} {l s s' : List α}

/-- The elements in order, those of each class of equal ones as they stood. -/
structure Arranges (cmp : α → α → Ordering) (l s : List α) : Prop where
  perm : s.Perm l
  increasing : s.Pairwise fun a b => (cmp a b).isLE
  stable : ∀ a ∈ l, (s.filter fun b => cmp a b = .eq) = l.filter fun b => cmp a b = .eq

theorem bne_gt_eq_isLE (o : Ordering) : (o != .gt) = o.isLE := by cases o <;> rfl

theorem Arranges.filter (h : Arranges cmp l s) (p : α → Bool) : Arranges cmp (l.filter p) (s.filter p) where
  perm := h.perm.filter p
  increasing := h.increasing.filter p
  stable a ha := by rw [List.filter_comm, h.stable a (List.mem_of_mem_filter ha), List.filter_comm]

variable [Std.TransCmp cmp]

/-- Sorting finds the arrangement. -/
theorem arranges_mergeSort (l : List α) : Arranges cmp l (l.mergeSort fun a b => (cmp a b).isLE) := by
  have htrans (a b c : α) : (cmp a b).isLE → (cmp b c).isLE → (cmp a c).isLE := Std.TransCmp.isLE_trans
  have htotal (a b : α) : ((cmp a b).isLE || (cmp b a).isLE) = true := by
    rw [show cmp b a = (cmp a b).swap from Std.OrientedCmp.eq_swap]
    cases cmp a b <;> rfl
  have hperm : (l.mergeSort fun a b => (cmp a b).isLE).Perm l := List.mergeSort_perm _ _
  refine ⟨hperm, List.pairwise_mergeSort htrans htotal l, fun a _ => ?_⟩
  -- A class is in order, so all of it is found in the sorted list as it stood.
  have hclass : (l.filter fun b => cmp a b = .eq).Pairwise fun b c => (cmp b c).isLE := by
    refine List.pairwise_of_forall_mem_list fun b hb c hc => ?_
    have hab : cmp a b = .eq := by simpa using (List.mem_filter.1 hb).2
    have hac : cmp a c = .eq := by simpa using (List.mem_filter.1 hc).2
    rw [Std.TransCmp.eq_trans (Std.OrientedCmp.eq_symm hab) hac]
    rfl
  have hfound := List.sublist_mergeSort htrans htotal hclass List.filter_sublist
  have hkept := hfound.filter fun b => cmp a b = .eq
  rw [List.filter_filter] at hkept
  simp only [Bool.and_self] at hkept
  exact (hkept.eq_of_length (hperm.filter _).length_eq.symm).symm

/-- In a list in order the first element is not after any. -/
theorem isLE_head {a b : α} (hl : (a :: l).Pairwise fun a b => (cmp a b).isLE) (hb : b ∈ a :: l) : (cmp a b).isLE := by
  cases List.mem_cons.1 hb with
  | inl heq =>
    have haa : cmp a a = .eq := Std.ReflCmp.compare_self
    rw [heq, haa]
    rfl
  | inr hb => exact List.rel_of_pairwise_cons hl hb

/-- A list in order is its own arrangement. -/
theorem Arranges.eq_self (h : Arranges cmp l s) (hl : l.Pairwise fun a b => (cmp a b).isLE) : s = l := by
  obtain ⟨hperm, hs, hstable⟩ := h
  induction l generalizing s with
  | nil => exact hperm.eq_nil
  | cons a l ih =>
    cases s with
    | nil => exact absurd hperm.symm.eq_nil (List.cons_ne_nil a l)
    | cons b s =>
      -- Neither first element is after the other, so both lead the same class.
      have hab : cmp a b = .eq := Std.OrientedCmp.isLE_antisymm (isLE_head hl (hperm.subset List.mem_cons_self))
        (isLE_head hs (hperm.symm.subset List.mem_cons_self))
      have haa : cmp a a = .eq := Std.ReflCmp.compare_self
      have hlead := hstable a List.mem_cons_self
      rw [List.filter_cons_of_pos (by simpa using hab), List.filter_cons_of_pos (by simpa using haa)] at hlead
      obtain ⟨rfl, -⟩ := List.cons.inj hlead
      refine congrArg (b :: ·) (ih hl.of_cons hperm.cons_inv hs.of_cons fun c hc => ?_)
      have hclass := hstable c (List.mem_cons_of_mem b hc)
      by_cases hcb : cmp c b = .eq
      · simpa [hcb] using hclass
      · simpa [hcb] using hclass

/-- **A list has one arrangement.** -/
theorem Arranges.unique (h : Arranges cmp l s) (h' : Arranges cmp l s') : s = s' := by
  refine eq_self ⟨h.perm.trans h'.perm.symm, h.increasing, fun a ha => ?_⟩ h'.increasing
  have hmem : a ∈ l := h'.perm.subset ha
  rw [h.stable a hmem, h'.stable a hmem]

end VectorEngine
