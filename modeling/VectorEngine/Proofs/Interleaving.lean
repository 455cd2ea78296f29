/-
Columns row by row, and back.

Row by row, the element of row `i` and column `k` comes at `i * count + k`. To deal
values out to `count` columns takes them from there, so the one undoes the other, for
any number of columns of one length.
-/
import Mathlib
import VectorEngine.Store.Combine
import VectorEngine.Proofs.Sorting

namespace VectorEngine

variable {columns : List (List Float)} {values : List Float} {count n k row : Nat}

/-- Rows of one length one after the other. -/
theorem getElem?_rows {α : Type} {f : Nat → List α} (hf : ∀ row, (f row).length = count) (hrow : row < n)
    (hk : k < count) : ((List.range n).flatMap f)[row * count + k]? = (f row)[k]? := by
  induction n with
  | zero => omega
  | succ n ih =>
    have hlength : ((List.range n).flatMap f).length = n * count := by
      simp [List.length_flatMap, hf]
    rw [List.range_succ, List.flatMap_append, List.flatMap_singleton]
    by_cases hlast : row = n
    · subst hlast
      rw [List.getElem?_append_right (by omega), hlength, Nat.add_sub_cancel_left]
    · have hbefore : row * count + k < n * count := by
        have : (row + 1) * count ≤ n * count := Nat.mul_le_mul_right count (by omega)
        rw [Nat.add_mul, Nat.one_mul] at this
        omega
      rw [List.getElem?_append_left (by omega)]
      exact ih (by omega)

theorem rows_eq (hlength : ∀ column ∈ columns, column.length = n) (hne : columns ≠ []) :
    (columns.headD []).length = n := by
  obtain ⟨column, columns, rfl⟩ := List.exists_cons_of_ne_nil hne
  exact hlength column List.mem_cons_self

theorem length_interleave (hlength : ∀ column ∈ columns, column.length = n) :
    (interleave columns).length = columns.length * n := by
  by_cases hne : columns = []
  · simp [hne, interleave]
  · unfold interleave
    rw [rows_eq hlength hne]
    simp [List.length_flatMap, Nat.mul_comm]

theorem pick_eq (values : List Float) (positions : List Nat) :
    Element.pick values positions = positions.map fun i => values.getD i nan := by
  unfold Element.pick
  exact List.map_congr_left fun i _ => getD_toArray values i

theorem pick_range (values : List Float) : Element.pick values (List.range values.length) = values := by
  rw [pick_eq]
  refine List.ext_getElem (by simp) fun i hi _ => ?_
  rw [List.length_map, List.length_range] at hi
  simp [hi]

theorem getElem?_interleave {column : List Float} (hlength : ∀ column ∈ columns, column.length = n)
    (hcount : columns.length = count) (hrow : row < n) (hk : columns[k]? = some column) :
    (interleave columns)[row * count + k]? = column[row]? := by
  obtain ⟨hlt, hget⟩ := List.getElem?_eq_some_iff.1 hk
  have hne : columns ≠ [] := List.ne_nil_of_length_pos (by omega)
  have hinside : row < column.length := by
    rw [hlength column (hget ▸ List.getElem_mem hlt)]
    exact hrow
  unfold interleave
  rw [rows_eq hlength hne]
  refine (getElem?_rows (by simp [hcount]) hrow (hcount ▸ hlt)).trans ?_
  simp [hk, hinside]

theorem length_deal : (deal values count k).length = values.length / count := by
  simp [deal, pick_eq]

theorem getElem?_deal (hk : k < count) (hrow : row < values.length / count) :
    (deal values count k)[row]? = values[row * count + k]? := by
  have hinside : row * count + k < values.length := by
    have h := Nat.mul_le_mul_right count hrow
    have hle := Nat.div_mul_le_self values.length count
    rw [Nat.succ_mul] at h
    omega
  simp [deal, pick_eq, hrow, hinside]

/-- **Dealing out undoes interleaving.** -/
theorem deal_interleave (hlength : ∀ column ∈ columns, column.length = n) (hk : k < columns.length) :
    deal (interleave columns) columns.length k = columns[k] := by
  have hcount : 0 < columns.length := by omega
  have hrows : (interleave columns).length / columns.length = n := by
    rw [length_interleave hlength, Nat.mul_div_cancel_left n hcount]
  refine List.ext_getElem? fun row => ?_
  by_cases hrow : row < n
  · rw [getElem?_deal hk (by rwa [hrows]), getElem?_interleave hlength rfl hrow (List.getElem?_eq_getElem hk)]
  · have hcolumn := hlength _ (List.getElem_mem hk)
    rw [List.getElem?_eq_none (by rw [length_deal]; omega), List.getElem?_eq_none (by omega)]

/-- **Interleaving undoes dealing out.** -/
theorem interleave_deal (hcount : 0 < count) (hdvd : count ∣ values.length) :
    interleave ((List.range count).map (deal values count)) = values := by
  obtain ⟨n, hn⟩ := hdvd
  have hrows : values.length / count = n := by
    rw [hn, Nat.mul_div_cancel_left n hcount]
  have hlength : ∀ column ∈ (List.range count).map (deal values count), column.length = n := by
    intro column hcolumn
    obtain ⟨k, -, rfl⟩ := List.mem_map.1 hcolumn
    rw [length_deal, hrows]
  have hcolumns : ((List.range count).map (deal values count)).length = count := by simp
  refine List.ext_getElem? fun i => ?_
  by_cases hi : i < values.length
  · have hrow : i / count < n := Nat.div_lt_of_lt_mul (by omega)
    have hk : i % count < count := Nat.mod_lt i hcount
    have hcut : i / count * count + i % count = i := Nat.div_add_mod' i count
    have hcolumn : ((List.range count).map (deal values count))[i % count]? = some (deal values count (i % count)) := by
      simp [hk]
    have h := getElem?_interleave hlength hcolumns hrow hcolumn
    rwa [getElem?_deal hk (by omega), hcut] at h
  · have hall := length_interleave hlength
    rw [hcolumns] at hall
    rw [List.getElem?_eq_none (by omega), List.getElem?_eq_none (by omega)]

end VectorEngine
