/-
What a view of every so many elements shows, and what is written through it.

The positions a view looks at are its places in turn (`place`). They lie inside the
list and no two are the same, so elements written through a view are read back, and
the elements between its places stay as they were.
-/
import VectorEngine.Strided
import VectorEngine.Proofs.Interleaving

namespace VectorEngine.Strided

variable {v : Strided} {elements : List Float} {i k : Nat} {x : Float}

/-- The distance of two elements looked at in turn. -/
def stride (v : Strided) : Nat := max v.step.natAbs 1

/-- The position looked at after `k` others. -/
def place (v : Strided) (k : Nat) : Nat :=
  if v.step < 0 then v.values.length - 1 - k * v.stride else k * v.stride

/-! ## Positions -/

theorem positions_eq (v : Strided) :
    v.positions = (List.range ((v.values.length + v.stride - 1) / v.stride)).map v.place := by
  unfold positions place stride
  dsimp only
  split
  · rw [List.map_map]
    rfl
  · rfl

/-- Places are looked at as long as they are inside the list. -/
theorem lt_length_positions : k < v.positions.length ↔ k * v.stride < v.values.length := by
  have hpos : 0 < v.stride := Nat.le_max_right _ _
  rw [positions_eq, List.length_map, List.length_range, Nat.lt_iff_add_one_le, Nat.le_div_iff_mul_le hpos, Nat.add_mul,
    Nat.one_mul]
  omega

theorem getElem?_positions (hk : k < v.positions.length) : v.positions[k]? = some (v.place k) := by
  rw [positions_eq, List.length_map, List.length_range] at hk
  rw [positions_eq, List.getElem?_map, List.getElem?_range hk]
  rfl

theorem place_lt (hk : k < v.positions.length) : v.place k < v.values.length := by
  rw [lt_length_positions] at hk
  unfold place
  split <;> omega

/-- **The positions looked at are inside the list.** -/
theorem lt_of_mem_positions (hi : i ∈ v.positions) : i < v.values.length := by
  obtain ⟨k, hk⟩ := List.mem_iff_getElem?.1 hi
  obtain ⟨hlt, -⟩ := List.getElem?_eq_some_iff.1 hk
  rw [getElem?_positions hlt, Option.some.injEq] at hk
  exact hk ▸ place_lt hlt

/-- **No position is looked at twice.** -/
theorem nodup_positions (v : Strided) : v.positions.Nodup := by
  have hpos : 0 < v.stride := Nat.le_max_right _ _
  refine List.nodup_iff_getElem?_ne_getElem?.2 fun j k hjk hk hsame => ?_
  have hj : j < v.positions.length := hjk.trans hk
  rw [getElem?_positions hj, getElem?_positions hk, Option.some.injEq] at hsame
  rw [lt_length_positions] at hj hk
  have hbefore : j * v.stride < k * v.stride := Nat.mul_lt_mul_of_pos_right hjk hpos
  unfold place at hsame
  split at hsame <;> omega

/-! ## Reading -/

/-- A view of every element in order. -/
theorem positions_one (h : v.step = 1) : v.positions = List.range v.values.length := by
  have hstride : v.stride = 1 := by rw [stride, h]; rfl
  have hplace : v.place = id := by
    funext k
    rw [place, if_neg (by omega), hstride, Nat.mul_one]
    rfl
  rw [positions_eq, hstride, hplace, List.map_id, Nat.div_one, Nat.add_sub_cancel]

/-- Elements lie next to each other if there is at most one, or every one is looked
at in order. -/
theorem isContiguous_iff : v.isContiguous = true ↔ v.values.length ≤ v.stride ∨ v.step = 1 := by
  have hcount : v.positions.length ≤ 1 ↔ v.values.length ≤ v.stride := by
    rw [← not_lt, lt_length_positions, Nat.one_mul, not_lt]
  simp only [isContiguous, Bool.or_eq_true, decide_eq_true_eq, beq_iff_eq, hcount]

/-- **Elements are read from the places looked at, in turn**, if they lie next to
each other. -/
theorem read_eq_ok_iff {arg : String} : v.read arg = .ok elements ↔
    v.isContiguous = true ∧ elements.length = v.positions.length ∧
      ∀ k < elements.length, elements[k]? = v.values[v.place k]? := by
  have hpick : Element.pick v.values v.positions = elements ↔ elements.length = v.positions.length ∧
      ∀ k < elements.length, elements[k]? = v.values[v.place k]? := by
    have hplace (k : Nat) (hk : k < v.positions.length) :
        (Element.pick v.values v.positions)[k]? = v.values[v.place k]? := by
      rw [pick_eq, List.getElem?_map, getElem?_positions hk, Option.map_some, List.getD_eq_getElem?_getD,
        List.getElem?_eq_getElem (place_lt hk), Option.getD_some]
    constructor
    · rintro rfl
      have hlength : (Element.pick v.values v.positions).length = v.positions.length := by
        rw [pick_eq, List.length_map]
      exact ⟨hlength, fun k hk => hplace k (hlength ▸ hk)⟩
    · rintro ⟨hlength, helements⟩
      refine List.ext_getElem? fun k => ?_
      by_cases hk : k < v.positions.length
      · rw [hplace k hk, helements k (hlength ▸ hk)]
      · rw [List.getElem?_eq_none (by rw [pick_eq, List.length_map]; omega), List.getElem?_eq_none (by omega)]
  rw [← hpick, read]
  split
  · next h => simp [h]
  · next h => simp [h]

theorem read_one {arg : String} (h : v.step = 1) : v.read arg = .ok v.values := by
  rw [read, if_pos (isContiguous_iff.2 (.inr h)), positions_one h, pick_range]

/-! ## Writing -/

/-- Values put one after the other at the positions they come with. -/
def put (slots : List Float) (writes : List (Nat × Float)) : List Float :=
  writes.foldl (fun slots w => slots.set w.1 w.2) slots

theorem write_eq (v : Strided) (elements : List Float) :
    v.write elements = put v.values (v.positions.zip elements) := by
  have hfold (writes : List (Nat × Float)) (slots : Array Float) :
      (writes.foldl (fun slots w => slots.setIfInBounds w.1 w.2) slots).toList = put slots.toList writes := by
    induction writes generalizing slots with
    | nil => rfl
    | cons w writes ih => rw [List.foldl_cons, ih, Array.toList_setIfInBounds]; rfl
  exact hfold _ _

@[simp] theorem length_put (slots : List Float) (writes : List (Nat × Float)) :
    (put slots writes).length = slots.length := by
  induction writes generalizing slots with
  | nil => rfl
  | cons w writes ih => exact (ih _).trans List.length_set

theorem getElem?_put_of_not_mem {writes : List (Nat × Float)} (hi : i ∉ writes.map (·.1)) (slots : List Float) :
    (put slots writes)[i]? = slots[i]? := by
  induction writes generalizing slots with
  | nil => rfl
  | cons w writes ih =>
    rw [List.map_cons, List.mem_cons, not_or] at hi
    exact (ih hi.2 _).trans (List.getElem?_set_ne (Ne.symm hi.1))

/-- At different positions no value is written over. -/
theorem getElem?_put_of_mem {writes : List (Nat × Float)} (hnodup : (writes.map (·.1)).Nodup) (hw : (i, x) ∈ writes)
    {slots : List Float} (hi : i < slots.length) : (put slots writes)[i]? = some x := by
  induction writes generalizing slots with
  | nil => cases hw
  | cons w writes ih =>
    rw [List.map_cons, List.nodup_cons] at hnodup
    rcases List.mem_cons.1 hw with rfl | hw
    · exact (getElem?_put_of_not_mem hnodup.1 _).trans (List.getElem?_set_self hi)
    · exact ih hnodup.2 hw (by rwa [List.length_set])

@[simp] theorem length_write (v : Strided) (elements : List Float) : (v.write elements).length = v.values.length := by
  rw [write_eq, length_put]

/-- **Elements between the places looked at stay as they were.** -/
theorem getElem?_write_of_not_mem (hi : i ∉ v.positions) (elements : List Float) :
    (v.write elements)[i]? = v.values[i]? := by
  rw [write_eq]
  refine getElem?_put_of_not_mem (fun hmem => hi ?_) _
  obtain ⟨w, hw, rfl⟩ := List.mem_map.1 hmem
  exact (List.of_mem_zip hw).1

/-- **An element is written at its place.** -/
theorem getElem?_write (hlength : elements.length = v.positions.length) (hk : k < elements.length) :
    (v.write elements)[v.place k]? = elements[k]? := by
  have hplace : k < v.positions.length := hlength ▸ hk
  have hnodup : ((v.positions.zip elements).map (·.1)).Nodup := by
    rw [List.map_fst_zip hlength.ge]
    exact nodup_positions v
  have hw : (v.place k, elements[k]) ∈ v.positions.zip elements := by
    refine List.mem_iff_getElem?.2 ⟨k, ?_⟩
    rw [List.getElem?_zip_eq_some]
    exact ⟨getElem?_positions hplace, List.getElem?_eq_getElem hk⟩
  rw [write_eq, getElem?_put_of_mem hnodup hw (place_lt hplace), List.getElem?_eq_getElem hk]

/-- **What is written through a view is read back.** -/
theorem read_write {arg : String} (hcontiguous : v.isContiguous = true)
    (hlength : elements.length = v.positions.length) :
    ({ v with values := v.write elements } : Strided).read arg = .ok elements := by
  have hpositions : ({ v with values := v.write elements } : Strided).positions = v.positions := by
    simp only [positions, length_write]
  have hplace (k : Nat) : ({ v with values := v.write elements } : Strided).place k = v.place k := by
    simp only [place, stride, length_write]
  refine read_eq_ok_iff.2 ⟨by rwa [isContiguous, hpositions], hpositions ▸ hlength, fun k hk => ?_⟩
  rw [hplace]
  exact (getElem?_write hlength hk).symm

/-- Every second element is refused; every third, from the last one backwards, is the
last one only. -/
example : (⟨[1.0, 2.0, 3.0], 2⟩ : Strided).read "array_view" = .error (.nonContiguous "array_view") ∧
    (⟨[1.0, 2.0, 3.0], -3⟩ : Strided).read "array_view" = .ok [3.0] := by decide +kernel

end VectorEngine.Strided
