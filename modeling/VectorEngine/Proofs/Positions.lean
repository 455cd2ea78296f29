/-
Positions found in a vector, and read again.

What a search or a class of elements finds is told with the offset of the vector
added, and an index token is read with it taken off. Both go wrong only beyond 64
bits, which no position reaches (`Series.InUse.stored`). So where neither the sums do,
the decimal of a position told names the element it was told for.
-/
import Mathlib
import VectorEngine.Proofs.Access
import VectorEngine.Store.Combine

namespace VectorEngine

/-! ## Bounds -/

/-- The number lies between the bounds, whichever of them is the lower one. -/
def Between (low high x : Float) : Prop := low ≤ x ∧ x ≤ high ∨ high ≤ x ∧ x ≤ low

/-- A blank is neither between bounds nor a bound of anything. -/
theorem Between.numbers {low high x : Float} (h : Between low high x) :
    low.isNaN = false ∧ high.isNaN = false ∧ x.isNaN = false := by
  obtain ⟨hlow, hhigh⟩ | ⟨hhigh, hlow⟩ := h
  · exact ⟨(isNaN_of_le hlow).1, (isNaN_of_le hhigh).2, (isNaN_of_le hlow).2⟩
  · exact ⟨(isNaN_of_le hlow).2, (isNaN_of_le hhigh).1, (isNaN_of_le hlow).1⟩

/-- In the order found by comparing them the bounds do for either order. -/
theorem between_iff (low high x : Float) : Between low high x ↔
    if low ≤ high then low ≤ x ∧ x ≤ high else high ≤ x ∧ x ≤ low := by
  split
  · next hle =>
    refine or_iff_left_of_imp fun ⟨hhigh, hlow⟩ => ?_
    exact ⟨float_le_trans hle hhigh, float_le_trans hlow hle⟩
  · next hle => exact or_iff_right fun ⟨hlow, hhigh⟩ => hle (float_le_trans hlow hhigh)

theorem Text.isSpace_of_isDigit {c : Char} (h : c.isDigit = true) : Text.isSpace c = false := by
  obtain ⟨hlow, hhigh⟩ := Decimal.toNat_of_isDigit h
  simp only [Text.isSpace, Bool.or_eq_false_iff, Bool.and_eq_false_iff, beq_eq_false_iff_ne, decide_eq_false_iff_not]
  omega

theorem Text.trim_eq_self {cs : List Char} (h : ∀ c ∈ cs, isSpace c = false) : trim cs = cs := by
  have hdrop : ∀ {cs : List Char}, (∀ c ∈ cs, isSpace c = false) → cs.dropWhile isSpace = cs := by
    intro cs h
    rw [List.dropWhile_eq_self_iff]
    intro hpos
    simp [h _ (List.getElem_mem hpos)]
  rw [trim, hdrop h, hdrop (by simpa using h), List.reverse_reverse]

namespace Series

variable {s : Series} {aggregates : Aggregates} {p : Nat} {x : Float}

/-- The decimal of a position with the offset added names the element there. -/
theorem readIndex_toString (hs : s.buffer.Stored) (hx : s.get? p = some x) (hword : Decimal.IsWord (p + s.offset))
    (hfree : aggregates.find? (toString ((p : Int) + s.offset)) = none) :
    s.readIndex aggregates (toString ((p : Int) + s.offset)) = .ok (.scalar x) := by
  obtain ⟨hp, rfl⟩ := List.getElem?_eq_some_iff.1 hx
  have hlength : p < s.length := lt_of_lt_of_eq hp hs.sound.length_values
  have hposition : Decimal.IsWord p := by
    have hlimit : Buffer.slotLimit < 2 ^ 63 := by decide
    have hcapacity : s.length ≤ s.buffer.capacity := hs.sound.length_le
    have hstored := hs.capacity_lt
    constructor <;> omega
  have hinteger := Decimal.integer_toString (p + s.offset)
  have hliteral : Index.Literal s.offset (toString ((p : Int) + s.offset)).toList p :=
    ⟨p + s.offset, hinteger, hword, by omega, by rwa [Int.add_sub_cancel]⟩
  have hspaces : ∀ c ∈ (toString ((p : Int) + s.offset)).toList, Text.isSpace c = false := by
    intro c hc
    obtain hdigit | rfl | rfl := hinteger.mem c hc
    · exact Text.isSpace_of_isDigit hdigit
    · decide
    · decide
  have hresolve : s.resolve aggregates (toString ((p : Int) + s.offset)) .read = .ok (.element p) := by
    refine Index.resolve_ok_iff.2 ?_
    rw [Text.trim_eq_self hspaces]
    exact .element hliteral.no_colon (by rwa [String.ofList_toList]) (.literal hliteral hlength)
  rw [readIndex, hresolve]
  show Except.ok (IndexValue.scalar (s.values.getD p nan)) = _
  rw [List.getD_eq_getElem _ _ hp]

/-- The numbers told are those of the elements chosen, in increasing order, and the
decimal of each reads the element it was told for. -/
structure Located (s : Series) (aggregates : Aggregates) (chosen : Float → Prop) (found : List Int) : Prop where
  increasing : found.Pairwise (· < ·)
  complete : ∀ p x, s.get? p = some x → chosen x → (p : Int) + s.offset ∈ found
  reads : ∀ e ∈ found, ∃ p x, s.get? p = some x ∧ chosen x ∧ e = p + s.offset ∧
    s.readIndex aggregates (toString e) = .ok (.scalar x)

/-- The positions of the elements with a property. -/
theorem filter_zipIdx (values : List Float) (q : Float → Bool) :
    (values.zipIdx.filter fun p => q p.1).map Prod.snd =
      (List.range values.length).filter fun i => q (values.getD i nan) := by
  rw [zipIdx_eq, List.filter_map, List.map_map]
  exact List.map_id' _

/-- **Elements chosen by a property** are located by the positions it filters. -/
theorem located_filter (hs : s.buffer.Stored) (hword : ∀ p < s.length, Decimal.IsWord (p + s.offset))
    (hfree : ∀ i : Int, aggregates.find? (toString i) = none) {chosen : Float → Prop} {q : Float → Bool}
    (hq : ∀ x, q x = true ↔ chosen x) : s.Located aggregates chosen
      (Store.external s.offset ((List.range s.values.length).filter fun i => q (s.values.getD i nan))) where
  increasing := by
    refine List.pairwise_map.2 (List.Pairwise.filter _ ?_)
    exact List.pairwise_lt_range.imp fun hlt => by omega
  complete := by
    intro p x hx hchosen
    obtain ⟨hp, rfl⟩ := List.getElem?_eq_some_iff.1 hx
    refine List.mem_map_of_mem (List.mem_filter.2 ⟨List.mem_range.2 hp, ?_⟩)
    rw [List.getD_eq_getElem _ _ hp]
    exact (hq _).2 hchosen
  reads := by
    intro e he
    obtain ⟨p, hmem, rfl⟩ := List.mem_map.1 he
    obtain ⟨hp, hchosen⟩ := List.mem_filter.1 hmem
    have hp := List.mem_range.1 hp
    rw [List.getD_eq_getElem _ _ hp, hq] at hchosen
    have hx : s.get? p = some s.values[p] := List.getElem?_eq_getElem hp
    have hinside : p < s.length := lt_of_lt_of_eq hp hs.sound.length_values
    exact ⟨p, _, hx, hchosen, rfl, readIndex_toString hs hx (hword p hinside) (hfree _)⟩

/-- A search filters the positions by the bounds in the order they compare in. -/
theorem search_eq (s : Series) (low high : Float) : ∃ q : Float → Bool, (∀ x, q x = true ↔ Between low high x) ∧
    s.search low high = (List.range s.values.length).filter fun i => q (s.values.getD i nan) := by
  unfold search
  split
  next low' high' hbounds =>
  let q : Float → Bool := fun x => low' ≤ x && x ≤ high'
  refine ⟨q, fun x => ?_, filter_zipIdx s.values q⟩
  show (low' ≤ x && x ≤ high') = true ↔ _
  rw [between_iff, Bool.and_eq_true, decide_eq_true_eq, decide_eq_true_eq]
  split at hbounds <;> next hle =>
    cases hbounds
    simp only [hle, if_true, if_false]

end Series

/-! ## Classes -/

namespace ElementClass

theorem positions_eq (c : ElementClass) (values : List Float) :
    c.positions values = (List.range values.length).filter fun i => c.contains (values.getD i nan) :=
  Series.filter_zipIdx values c.contains

theorem count_eq (c : ElementClass) (values : List Float) : c.count values = (c.positions values).length := by
  have hvalues : (List.range values.length).map (fun i => values.getD i nan) = values := by
    have h := congrArg (List.map Prod.fst) (Series.zipIdx_eq values)
    rw [List.zipIdx_map_fst, List.map_map] at h
    exact h.symm
  rw [count, positions_eq, ← List.countP_eq_length_filter]
  conv_lhs => rw [← hvalues, List.countP_map]
  rfl

/-- The positions not blank are those of zeros and the others. -/
theorem positions_nonempty (values : List Float) :
    (positions nonempty values).Perm (positions zero values ++ positions nonzero values) := by
  have hzero : ∀ x : Float, (contains zero x && contains nonempty x) = contains zero x := by
    intro x
    cases hx : x.isNaN with
    | true => simp only [contains, Element.same, (beq_eq_false_of_isNaN hx _).1, Bool.false_and]
    | false => simp only [contains, isBlank_float, hx, Bool.not_false, Bool.and_true]
  have hnonzero : ∀ x : Float, (!contains zero x && contains nonempty x) = contains nonzero x := fun x =>
    Bool.and_comm _ _
  simp only [positions_eq]
  refine (List.filter_append_perm (fun i => contains zero (values.getD i nan)) _).symm.trans (List.Perm.of_eq ?_)
  rw [List.filter_filter, List.filter_filter]
  congr 1
  · exact List.filter_congr fun i _ => hzero _
  · exact List.filter_congr fun i _ => hnonzero _

/-- Every position is that of a blank, a zero or another element, once. -/
theorem positions_all (values : List Float) :
    (positions empty values ++ (positions zero values ++ positions nonzero values)).Perm
      (List.range values.length) := by
  have hblank : (positions empty values ++ positions nonempty values).Perm (List.range values.length) := by
    simp only [positions_eq]
    exact List.filter_append_perm _ _
  exact ((positions_nonempty values).append_left _).symm.trans hblank

end ElementClass

/-! ## Stores -/

/-- No aggregate has the decimal of an integer for a name. -/
def Aggregates.Spare (aggregates : Aggregates) : Prop := ∀ i : Int, aggregates.find? (toString i) = none

/-- The names a store starts with end in letters. -/
theorem Aggregates.spare_initial : initial.Spare := by
  intro i
  have hletters : ∀ n ∈ initial.names, n.toList.getLast?.any Char.isDigit = false := by decide +kernel
  rw [← NameTable.contains_eq_false]
  refine Bool.eq_false_iff.2 fun hcontains => ?_
  have hletter := hletters _ (NameTable.contains_iff_mem_names.1 hcontains)
  obtain ⟨c, hc, hdigit⟩ := (Decimal.integer_toString i).isDigit_getLast
  rw [hc, Option.any_some, hdigit] at hletter
  cases hletter

namespace Store

variable {s : Store} {id : VectorId} {v : NamedVector}

/-- What is found in the vector of an id, and read where it was found. -/
structure Locates (s : Store) (id : VectorId) (v : Series) : Prop where
  /-- The elements between the bounds. There are none if a bound is blank, and no blank is one. -/
  search : ∀ low high?, ∃ found, s.search id low high? = .ok found ∧
    v.Located s.aggregates (Between low (high?.getD low)) found ∧
    (low.isNaN = true ∨ (high?.getD low).isNaN = true → found = []) ∧
    ∀ p x, v.get? p = some x → x.isNaN = true → (p : Int) + v.offset ∉ found
  /-- The elements of a class, which are as many as are counted. -/
  indices : ∀ c, ∃ found, s.indices id c = .ok found ∧
    v.Located s.aggregates (fun x => c.contains x = true) found ∧ c.count v.values = found.length
  /-- Every position is that of a blank, a zero or another element, once; these two are not blank. -/
  partition : ∃ empty zero nonzero nonempty, s.indices id .empty = .ok empty ∧ s.indices id .zero = .ok zero ∧
    s.indices id .nonzero = .ok nonzero ∧ s.indices id .nonempty = .ok nonempty ∧
    (empty ++ (zero ++ nonzero)).Perm (external v.offset (List.range v.length)) ∧ nonempty.Perm (zero ++ nonzero)

theorem search_of_get? (hv : s.get? id = some v) (low : Float) (high? : Option Float) :
    s.search id low high? = .ok (external v.series.offset (v.series.search low (high?.getD low))) := by
  rw [search, get_of_get? hv]
  rfl

theorem indices_of_get? (hv : s.get? id = some v) (c : ElementClass) :
    s.indices id c = .ok (external v.series.offset (c.positions v.series.values)) := by
  rw [indices, get_of_get? hv]
  rfl

theorem external_append (offset : Int) (front back : List Nat) :
    external offset (front ++ back) = external offset front ++ external offset back := List.map_append

/-- **Positions told are read back.** Where adding the offset to the positions stays
within 64 bits and no aggregate is named by an integer, the decimal of every position
that a search or a class tells reads the element it is told for. A search tells the
positions of the elements between its bounds, and of no others, in increasing order,
and so does a class of its own; the classes divide up the positions. -/
theorem positions_read_back (hv : s.get? id = some v) (huse : v.series.InUse)
    (hword : ∀ p < v.series.length, Decimal.IsWord (p + v.series.offset)) (hspare : s.aggregates.Spare) :
    s.Locates id v.series := by
  have hstored := huse.stored
  refine ⟨fun low high? => ?_, fun c => ?_, ?_⟩
  · obtain ⟨q, hq, hsearch⟩ := v.series.search_eq low (high?.getD low)
    have hlocated := Series.located_filter hstored hword hspare hq
    rw [← hsearch] at hlocated
    refine ⟨_, search_of_get? hv low high?, hlocated, fun hblank => ?_, fun p x hx hnan hmem => ?_⟩
    · refine List.eq_nil_iff_forall_not_mem.2 fun e he => ?_
      obtain ⟨p, x, -, hbetween, -⟩ := hlocated.reads e he
      obtain ⟨hlow, hhigh, -⟩ := hbetween.numbers
      rw [hlow, hhigh] at hblank
      cases hblank with
      | inl h | inr h => cases h
    · obtain ⟨p', x', hx', hbetween, he, -⟩ := hlocated.reads _ hmem
      obtain rfl : p = p' := by omega
      obtain rfl := Option.some.inj (hx.symm.trans hx')
      rw [hbetween.numbers.2.2] at hnan
      cases hnan
  · have hlocated := Series.located_filter hstored hword hspare fun x => iff_of_eq (Eq.refl (c.contains x = true))
    rw [← ElementClass.positions_eq] at hlocated
    exact ⟨_, indices_of_get? hv c, hlocated, (c.count_eq _).trans (List.length_map _).symm⟩
  · have hindices := indices_of_get? hv
    refine ⟨_, _, _, _, hindices .empty, hindices .zero, hindices .nonzero, hindices .nonempty, ?_, ?_⟩
    · have hlength : v.series.values.length = v.series.length := hstored.sound.length_values
      rw [← external_append, ← external_append, ← hlength]
      exact (ElementClass.positions_all v.series.values).map _
    · rw [← external_append]
      exact (ElementClass.positions_nonempty v.series.values).map _

end Store

/-- A vector whose positions are told at the lower end of 64 bits. -/
def Moment.lowOffset : List (Option Request) :=
  [some (.create (some "v")), none, some (.edit ⟨0, 0⟩ (Series.setValues [2.0, nan, -1.0, 0.0, 5.0])), none,
    some (.edit ⟨0, 0⟩ (Series.setOffset (-9223372036854775808))), none]

theorem Store.positions_read_back_lowOffset :
    let s := (Moment.outcome ⟨.initial, false⟩ Moment.lowOffset).session.store
    ∃ v, s.get? ⟨0, 0⟩ = some v ∧ s.Locates ⟨0, 0⟩ v.series ∧
      s.search ⟨0, 0⟩ 2.0 (some (-1.0)) =
        .ok [-9223372036854775808, -9223372036854775806, -9223372036854775805] ∧
      s.indices ⟨0, 0⟩ .empty = .ok [-9223372036854775807] := by
  intro s
  let start : Series := { buffer := ⟨Buffer.blanks 64, 0⟩ }
  let us : List Series.Use := [.change (.setValues [2.0, nan, -1.0, 0.0, 5.0]),
    .change (.setOffset (-9223372036854775808))]
  let v : NamedVector := { name := "v", series := start.uses us, policy := .onIdle }
  have hstart : Series.withCapacity 64 = .ok start := by decide +kernel
  have hv : s.get? ⟨0, 0⟩ = some v := by decide +kernel
  have hwords : ∀ p < 5, Decimal.IsWord ((p : Nat) + -9223372036854775808) := by
    intro p hp
    constructor <;> omega
  have hplaces : v.series.length = 5 ∧ v.series.offset = -9223372036854775808 := by decide +kernel
  have hlocates := Store.positions_read_back hv ⟨64, start, us, hstart, rfl⟩ (by rwa [hplaces.1, hplaces.2])
    Aggregates.spare_initial
  exact ⟨v, hv, hlocates, by decide +kernel, by decide +kernel⟩

end VectorEngine
