/-
Reading where a token has written.

A token means something else for reading than for writing in one case only: where it
means the place after the last element, and that is an element once it is written.
So it is enough to say where the places written to are afterwards (`Index.placed`):
every other token means the same thing again, read in the series it has changed.
-/
import Mathlib
import VectorEngine.Proofs.Index
import VectorEngine.Proofs.Interleaving
import VectorEngine.Proofs.Series
import VectorEngine.Proofs.Session.Run

namespace VectorEngine

namespace Index

/-- What has been written to, among the elements that there are then. -/
def placed (length : Nat) : Index → Index
  | append => element length
  | index => index

/-- How many elements there are after writing. -/
def lengthAfter (length : Nat) : Index → Nat
  | append => length + 1
  | _ => length

/-- What is read where every element is `x`. -/
def filled (x : Float) : Index → IndexValue
  | range first last => .list (List.replicate (max first last - min first last + 1) x)
  | _ => .scalar x

variable {aggregates : Aggregates} {length : Nat} {offset : Int} {mode : IndexMode} {cs : List Char}
  {index : Index} {first last p : Nat}

theorem Literal.no_colon {i : Nat} (h : Literal offset cs i) : ':' ∉ cs := by
  obtain ⟨e, hinteger, -⟩ := h
  intro hmem
  exact absurd (hinteger.mem ':' hmem) (by decide)

/-- A token that means something for writing means, for reading, the place it has
written to. -/
theorem Means.placed (h : Means aggregates length offset .write cs index) (happend : cs ≠ "++end".toList) :
    Means aggregates (index.lengthAfter length) offset .read cs (index.placed length) := by
  cases h with
  | range hcs hleft hlength hfirst hlast => exact .range hcs hleft hlength hfirst hlast
  | append hcs => exact absurd hcs happend
  | aggregate _ _ _ hmode => cases hmode
  | element hcolon hnone hplace => exact .element hcolon hnone hplace
  | next hcolon hnone _ hliteral => exact .element hcolon hnone (.literal hliteral (Nat.lt_succ_self length))

theorem Means.ne_aggregate (h : Means aggregates length offset .write cs index) (f : Aggregate) :
    index ≠ .aggregate f := by
  rintro rfl
  cases h with
  | aggregate _ _ _ hmode => cases hmode

theorem Means.eq_append (h : Means aggregates length offset .write cs index) (happend : cs = "++end".toList) :
    index = .append := by
  have hcolon : ':' ∉ cs := happend ▸ by decide
  have hsame := (single?_eq_some_iff hcolon).2 h
  rw [single?, if_pos (ofList_eq_iff.2 happend), if_pos rfl] at hsame
  exact (Option.some.inj hsame).symm

/-- Only the integer of the next place makes room for another element, apart from the
token made for that. -/
theorem Means.append_iff (h : Means aggregates length offset .write cs index) (happend : cs ≠ "++end".toList) :
    index = .append ↔ Literal offset cs length := by
  constructor
  · intro he
    subst he
    cases h with
    | append hcs => exact absurd hcs happend
    | next _ _ _ hliteral => exact hliteral
  · intro hliteral
    cases h with
    | range hcs =>
      subst hcs
      exact absurd (by simp) hliteral.no_colon
    | append => rfl
    | aggregate _ _ _ hmode => cases hmode
    | element hcolon hnone hplace =>
      exfalso
      have hnext : place? cs length offset = some length := place?_eq_some_iff.2 (.inr hliteral)
      have hinside := Option.filter_eq_some_iff.1 (element?_eq_some_iff.2 hplace)
      obtain rfl := Option.some.inj (hnext.symm.trans hinside.1)
      exact lt_irrefl _ hplace.lt
    | next => rfl

theorem length_positions (first last : Nat) :
    (range first last).positions.length = max first last - min first last + 1 := by
  simp only [positions]
  split
  · rw [List.length_range']
    omega
  · rw [List.length_reverse, List.length_range']
    omega

theorem mem_positions_range : p ∈ (range first last).positions ↔ min first last ≤ p ∧ p ≤ max first last :=
  (walks_positions first last).between p

end Index

namespace Series

/-- A value has been written to every place the index stands for, and to no other. -/
structure Wrote (s : Series) (index : Index) (x : Float) (s' : Series) : Prop where
  offset : s'.offset = s.offset
  length : s'.length = index.lengthAfter s.length
  get? : ∀ p, s'.get? p = if p ∈ (index.placed s.length).positions then some x else s.get? p

variable {s s' : Series} {aggregates : Aggregates} {token : String} {index : Index} {x : Float}

theorem set_wrote {i : Nat} (hs : s.buffer.Sound) (hi : i < s.length) (h : s.set i x = .ok s') :
    s.Wrote (.element i) x s' := by
  rw [set_of_lt hi] at h
  cases h
  obtain ⟨-, hvalues⟩ := hs.write (show i + [x].length ≤ s.buffer.length from hi)
  refine ⟨rfl, rfl, fun p => ?_⟩
  show (s.buffer.write i [x]).values[p]? = if p ∈ [i] then some x else s.values[p]?
  rw [hvalues, Buffer.getElem?_overwrite (hs.length_values ▸ hi.le), List.length_singleton]
  simp only [List.mem_singleton]
  by_cases hp : p = i
  · subst hp
    rw [if_pos (by omega), if_pos rfl, Nat.sub_self]
    rfl
  · rw [if_neg (by omega), if_neg hp]
    rfl

theorem append_wrote (hs : s.buffer.Sound) (h : s.set s.length x = .ok s') : s.Wrote .append x s' := by
  rw [set_length] at h
  obtain ⟨hs', hvalues⟩ := append_sound hs h
  have hoffset : s'.offset = s.offset := by
    obtain ⟨b, -, rfl⟩ := map_ok_iff.1 h
    rfl
  have hlength : s.values.length = s.length := hs.length_values
  refine ⟨hoffset, ?_, fun p => ?_⟩
  · calc s'.length = s'.values.length := hs'.length_values.symm
      _ = s.length + 1 := by rw [hvalues, List.length_append, hlength, List.length_singleton]
  · show s'.values[p]? = if p ∈ [s.length] then some x else s.values[p]?
    rw [hvalues]
    simp only [List.mem_singleton]
    obtain hlt | rfl | hgt := lt_trichotomy p s.length
    · rw [if_neg hlt.ne, List.getElem?_append_left (hlength ▸ hlt)]
    · rw [if_pos rfl, ← hlength, List.getElem?_concat_length]
    · rw [if_neg hgt.ne', List.getElem?_eq_none (by simp; omega), List.getElem?_eq_none (by omega)]

theorem fill_wrote {first last : Nat} (hs : s.buffer.Sound) (hspan : s.hasSpan (min first last) (max first last) = true)
    (h : s.fill (min first last) (max first last) x = .ok s') : s.Wrote (.range first last) x s' := by
  rw [fill_of_hasSpan hspan] at h
  cases h
  obtain ⟨-, hlast⟩ : _ ∧ max first last < s.buffer.length := hasSpan_iff.1 hspan
  have hfits : min first last + (List.replicate (max first last + 1 - min first last) x).length ≤ s.buffer.length := by
    rw [List.length_replicate]
    omega
  obtain ⟨-, hvalues⟩ := hs.write hfits
  refine ⟨rfl, rfl, fun p => ?_⟩
  show (s.buffer.write _ _).values[p]? = if p ∈ (Index.range first last).positions then some x else s.values[p]?
  rw [hvalues, Buffer.getElem?_overwrite (by rw [hs.length_values]; omega), List.length_replicate]
  by_cases hp : min first last ≤ p ∧ p ≤ max first last
  · rw [if_pos (by omega), if_pos (Index.mem_positions_range.2 hp), List.getElem?_replicate_of_lt (by omega)]
  · rw [if_neg (by omega), if_neg (fun hmem => hp (Index.mem_positions_range.1 hmem))]
    rfl

/-- **Writing by a token** writes to the places it means. -/
theorem writeIndex_wrote (hs : s.buffer.Sound) (h : s.writeIndex aggregates token x = .ok s') :
    ∃ index, s.resolve aggregates token .write = .ok index ∧ s.Wrote index x s' := by
  obtain ⟨index, hresolve, hwrite⟩ := bind_ok_iff.1 h
  obtain ⟨hinside, hspans⟩ := resolve_inside hs.length_le hresolve
  refine ⟨index, hresolve, ?_⟩
  cases index with
  | element i =>
    have hi : i < s.length := (hinside i List.mem_cons_self).trans_le hs.length_values.le
    exact set_wrote hs hi hwrite
  | append => exact append_wrote hs hwrite
  | range first last => exact fill_wrote hs (hspans _ _ rfl) hwrite
  | aggregate => cases hwrite

/-- What was written is what is read there. -/
theorem Wrote.read (hwrote : s.Wrote index x s') (hindex : ∀ f, index ≠ .aggregate f)
    (h : s'.resolve aggregates token .read = .ok (index.placed s.length)) :
    s'.readIndex aggregates token = .ok (index.filled x) := by
  have hread : ∀ p ∈ (index.placed s.length).positions, s'.values.getD p nan = x := by
    intro p hp
    have hget : s'.values[p]? = some x := (hwrote.get? p).trans (if_pos hp)
    rw [List.getD_eq_getElem?_getD, hget, Option.getD_some]
  unfold readIndex
  rw [h]
  cases index with
  | element i => exact congrArg (Except.ok ∘ IndexValue.scalar) (hread i List.mem_cons_self)
  | append => exact congrArg (Except.ok ∘ IndexValue.scalar) (hread s.length List.mem_cons_self)
  | range first last =>
    refine congrArg (Except.ok ∘ IndexValue.list) ?_
    rw [pick_eq, ← Index.length_positions]
    exact List.map_eq_replicate_iff.2 hread
  | aggregate f => exact absurd rfl (hindex f)

end Series

/-- **Reading finds what was written.** Whatever a series has been through, a token
that could be written to reads what was written there, once for each position if it is
a range, and all other positions read as before. The series is as long as before, or
longer by one if the token was the integer of the place after the last element. What
is written to `++end` is read at `end`. A token that could not be written to leaves
the vector, and the whole session, as it was. -/
theorem Series.read_after_write {capacity : Nat} {s₀ : Series} (hnew : Series.withCapacity capacity = .ok s₀)
    (us : List Use) (aggregates : Aggregates) (token : String) (x : Float) :
    let s := s₀.uses us
    let cs := Text.trim token.toList
    (∀ s', s.writeIndex aggregates token x = .ok s' → ∃ index, s.resolve aggregates token .write = .ok index ∧
      (∀ p, s'.get? p = if p ∈ (index.placed s.length).positions then some x else s.get? p) ∧
      (cs ≠ "++end".toList → s'.readIndex aggregates token = .ok (index.filled x) ∧
        (s'.length = s.length ∨ s'.length = s.length + 1) ∧
        (s'.length = s.length + 1 ↔ Index.Literal s.offset cs s.length)) ∧
      (cs = "++end".toList → s'.length = s.length + 1 ∧
        (aggregates.find? "end" = none → s'.readIndex aggregates "end" = .ok (.scalar x)))) ∧
    ∀ e, s.writeIndex aggregates token x = .error e → ∀ (session : Session) id v,
      session.store.get? id = some v → v.series = s →
        session.submit (.edit id (Series.writeIndex aggregates token x)) = (session, .finished (.error e)) ∧
        session.submit (.update id (Series.writeIndex aggregates token x)) = (session, .finished (.error e)) := by
  intro s cs
  have hs : s.buffer.Sound := uses_sound hnew us
  constructor
  · intro s' h
    obtain ⟨index, hresolve, hwrote⟩ := writeIndex_wrote hs h
    have hmeans := Index.resolve_ok_iff.1 hresolve
    have hlength := hwrote.length
    refine ⟨index, hresolve, hwrote.get?, fun happend => ⟨?_, ?_, ?_⟩, fun happend => ?_⟩
    · refine hwrote.read hmeans.ne_aggregate (Index.resolve_ok_iff.2 ?_)
      rw [hlength, hwrote.offset]
      exact hmeans.placed happend
    · rw [hlength]
      cases index with
      | append => exact .inr rfl
      | _ => exact .inl rfl
    · rw [← hmeans.append_iff happend, hlength]
      cases index with
      | append => exact iff_of_true rfl rfl
      | _ => exact iff_of_false (Nat.lt_succ_self _).ne nofun
    · obtain rfl := hmeans.eq_append happend
      refine ⟨hlength, fun hend => hwrote.read hmeans.ne_aggregate (Index.resolve_ok_iff.2 ?_)⟩
      rw [hlength]
      have htrim : Text.trim "end".toList = "end".toList := by decide
      rw [htrim]
      exact .element (by decide) hend (.last rfl rfl)
  · intro e h session id v hv hseries
    exact Session.submit_refused hv (hseries ▸ h)

/-- The elements from the last one back to the one called -1 are written over, and then
one more is added by the number it will have. -/
theorem Series.read_after_write_backwards :
    let start : Series := ⟨⟨Buffer.blanks 2, 0⟩, 0, none⟩
    let us : List Series.Use := [.change (.append [1.0, 2.0, 3.0, 4.0]), .change (.setOffset (-2))]
    let s := start.uses us
    let filled := start.uses (us ++ [.change (.writeIndex .initial " end : -1 " 9.0)])
    let longer := filled.uses [.change (.writeIndex .initial "2" nan)]
    s.writeIndex .initial " end : -1 " 9.0 = .ok filled ∧ filled.values = [1.0, 9.0, 9.0, 9.0] ∧
      filled.readIndex .initial " end : -1 " = .ok (.list [9.0, 9.0, 9.0]) ∧
      filled.writeIndex .initial "2" nan = .ok longer ∧ longer.readIndex .initial "2" = .ok (.scalar nan) ∧
      longer.length = 5 := by
  intro start us s filled longer
  have hnew : Series.withCapacity 2 = .ok start := by decide +kernel
  have hfilled : s.writeIndex .initial " end : -1 " 9.0 = .ok filled := by decide +kernel
  have hlonger : filled.writeIndex .initial "2" nan = .ok longer := by decide +kernel
  obtain ⟨index₁, hindex₁, -, hread₁, -⟩ := (Series.read_after_write hnew us .initial " end : -1 " 9.0).1 filled hfilled
  obtain ⟨index₂, hindex₂, -, hread₂, -⟩ := (Series.read_after_write hnew (us ++ _) .initial "2" nan).1 longer hlonger
  have hplaces : s.length = 4 ∧ s.offset = -2 ∧ filled.length = 4 ∧ filled.offset = -2 := by decide +kernel
  obtain ⟨hlength, hoffset, hlength', hoffset'⟩ := hplaces
  have hbackwards : s.resolve .initial " end : -1 " .write = .ok (.range 3 1) := by
    rw [Series.resolve, hlength, hoffset]
    rfl
  have hnext : filled.resolve .initial "2" .write = .ok .append := by
    rw [Series.resolve, hlength', hoffset']
    rfl
  obtain rfl := Except.ok.inj (hbackwards.symm.trans hindex₁)
  obtain rfl := Except.ok.inj (hnext.symm.trans hindex₂)
  exact ⟨hfilled, by decide +kernel, (hread₁ (by decide)).1, hlonger, (hread₂ (by decide)).1, by decide +kernel⟩

end VectorEngine
