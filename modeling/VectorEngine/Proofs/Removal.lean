/-
Removing the elements that tokens name.

Tokens are resolved before anything is removed, each to a span of positions, so which
positions are left does not depend on the order of the tokens or on what they have in
common (`deleteIndices_of_deletable`). Removing one span in place ends with the very
same slots as writing anew what is outside of it.
-/
import Mathlib
import VectorEngine.Proofs.Index
import VectorEngine.Proofs.Series
import VectorEngine.Proofs.Session.Run

namespace VectorEngine

theorem Index.mem_positions {index : Index} {low high : Nat} (h : index.span? = some (low, high)) (p : Nat) :
    p ∈ index.positions ↔ low ≤ p ∧ p ≤ high := by
  cases index with
  | element i =>
    cases h
    rw [positions, List.mem_singleton]
    omega
  | range first last =>
    cases h
    exact (walks_positions first last).between p
  | append | aggregate => cases h

namespace Series

/-- The token is resolved, for reading, to an element or to a range. -/
def Deletable (s : Series) (aggregates : Aggregates) (token : String) : Prop :=
  (∃ i, s.resolve aggregates token .read = .ok (.element i)) ∨
    ∃ first last, s.resolve aggregates token .read = .ok (.range first last)

/-- The token, resolved for reading, names the position, by itself or with others. -/
def Names (s : Series) (aggregates : Aggregates) (token : String) (p : Nat) : Prop :=
  ∃ index, s.resolve aggregates token .read = .ok index ∧ p ∈ index.positions

variable {s s' : Series} {aggregates : Aggregates} {token : String} {tokens tokens' : List String} {low high : Nat}
  {xs : List Float} {spans : List (Nat × Nat)} {e : Error}

/-! ## Spans -/

theorem readSpan_ok_iff : s.readSpan aggregates token = .ok (low, high) ↔
    ∃ index, s.resolve aggregates token .read = .ok index ∧ index.span? = some (low, high) := by
  unfold readSpan
  rw [bind_ok_iff]
  refine exists_congr fun index => and_congr_right fun _ => ?_
  cases index.span? with
  | none => exact iff_of_false nofun nofun
  | some span =>
    rw [Option.some.injEq]
    exact ⟨Except.ok.inj, congrArg Except.ok⟩

theorem readSpan_names (h : s.readSpan aggregates token = .ok (low, high)) (p : Nat) :
    s.Names aggregates token p ↔ low ≤ p ∧ p ≤ high := by
  obtain ⟨index, hresolve, hspan⟩ := readSpan_ok_iff.1 h
  rw [← Index.mem_positions hspan]
  constructor
  · intro ⟨index', hresolve', hp⟩
    obtain rfl := Except.ok.inj (hresolve.symm.trans hresolve')
    exact hp
  · intro hp
    exact ⟨index, hresolve, hp⟩

theorem readSpan_hasSpan (hs : s.buffer.Sound) (h : s.readSpan aggregates token = .ok (low, high)) :
    s.hasSpan low high = true := by
  obtain ⟨index, hresolve, hspan⟩ := readSpan_ok_iff.1 h
  exact (resolve_inside hs.length_le hresolve).2 low high hspan

theorem deletable_iff : s.Deletable aggregates token ↔ ∃ span, s.readSpan aggregates token = .ok span := by
  constructor
  · rintro (⟨i, h⟩ | ⟨first, last, h⟩)
    · exact ⟨(i, i), readSpan_ok_iff.2 ⟨_, h, rfl⟩⟩
    · exact ⟨(min first last, max first last), readSpan_ok_iff.2 ⟨_, h, rfl⟩⟩
  · intro ⟨(low, high), h⟩
    obtain ⟨index, hresolve, hspan⟩ := readSpan_ok_iff.1 h
    cases index with
    | element i => exact .inl ⟨i, hresolve⟩
    | range first last => exact .inr ⟨first, last, hresolve⟩
    | append | aggregate => cases hspan

/-- Element by element: a position is outside all the spans, or one of the tokens names it. -/
theorem outside_iff (h : tokens.mapM (s.readSpan aggregates) = .ok spans) (p : Nat) :
    (!spans.any fun span => span.1 ≤ p && p ≤ span.2) = true ↔ ∀ token ∈ tokens, ¬s.Names aggregates token p := by
  have hspans := mapM_ok_iff.1 h
  clear h
  induction hspans with
  | nil => simp
  | @cons token span tokens spans hspan _ ih =>
    rw [List.any_cons, Bool.not_or, Bool.and_eq_true, List.forall_mem_cons, readSpan_names hspan]
    refine and_congr ?_ ih
    rw [← Bool.decide_and, Bool.not_eq_true', decide_eq_false_iff_not]

/-! ## What is left -/

theorem valuesOutside_eq (s : Series) (spans : List (Nat × Nat)) : s.valuesOutside spans =
    ((List.range s.values.length).filter fun p => !spans.any fun span => span.1 ≤ p && p ≤ span.2).map
      fun p => s.values.getD p nan := by
  rw [valuesOutside, zipIdx_eq, List.filter_map, List.map_map]
  rfl

theorem setValues_of_le (hs : s.buffer.Sound) (h : xs.length ≤ s.buffer.capacity) :
    s.setValues xs = .ok (s.withBuffer (.holding xs (s.buffer.capacity - xs.length))) := by
  have hroom : s.buffer.values.length + (s.buffer.capacity - s.buffer.length) = s.buffer.capacity := by
    rw [hs.length_values]
    have := hs.length_le
    omega
  have hassign : s.buffer.assign xs = .ok (.holding xs (s.buffer.capacity - xs.length)) := by
    rw [hs.eq_holding, Buffer.assign_holding (by omega), Buffer.capacity_holding]
  unfold setValues
  rw [hassign]
  rfl

theorem spans_iff : (∃ spans, tokens.mapM (s.readSpan aggregates) = .ok spans) ↔
    ∀ token ∈ tokens, s.Deletable aggregates token := by
  constructor
  · intro ⟨spans, hspans⟩
    have hall := mapM_ok_iff.1 hspans
    clear hspans
    induction hall with
    | nil => exact List.forall_mem_nil _
    | cons hspan _ ih => exact List.forall_mem_cons.2 ⟨deletable_iff.2 ⟨_, hspan⟩, ih⟩
  · intro h
    cases hspans : tokens.mapM (s.readSpan aggregates) with
    | ok spans => exact ⟨spans, rfl⟩
    | error e =>
      obtain ⟨front, token, back, rfl, herror, -⟩ := mapM_error_iff.1 hspans
      obtain ⟨span, hspan⟩ := deletable_iff.1 (h token (by simp))
      rw [herror] at hspan
      cases hspan

/-- **What is deleted** is what the tokens name, and the rest is moved together. -/
theorem deleteIndices_of_deletable (hs : s.buffer.Sound) (h : ∀ token ∈ tokens, s.Deletable aggregates token) :
    ∃ kept : List Nat, kept.Pairwise (· < ·) ∧
      (∀ p, p ∈ kept ↔ p < s.length ∧ ∀ token ∈ tokens, ¬s.Names aggregates token p) ∧
      s.deleteIndices aggregates tokens = .ok (s.withBuffer
        (.holding (kept.map fun p => s.values.getD p nan) (s.buffer.capacity - kept.length))) := by
  obtain ⟨spans, hspans⟩ := spans_iff.2 h
  have hlength : s.values.length = s.length := hs.length_values
  have hvalues := valuesOutside_eq s spans
  refine ⟨(List.range s.values.length).filter fun p => !spans.any fun span => span.1 ≤ p && p ≤ span.2,
    List.pairwise_lt_range.filter _, fun p => ?_, ?_⟩
  · rw [List.mem_filter, List.mem_range, outside_iff hspans, hlength]
  · have hroom : (s.valuesOutside spans).length ≤ s.buffer.capacity := by
      rw [hvalues, List.length_map]
      calc _ ≤ (List.range s.values.length).length := List.length_filter_le _ _
        _ = s.length := by rw [List.length_range, hlength]
        _ ≤ s.buffer.capacity := hs.length_le
    rw [deleteIndices, hspans]
    show s.setValues (s.valuesOutside spans) = _
    rw [setValues_of_le hs hroom, hvalues, List.length_map]

theorem deleteIndices_ok_iff (hs : s.buffer.Sound) :
    (∃ s', s.deleteIndices aggregates tokens = .ok s') ↔ ∀ token ∈ tokens, s.Deletable aggregates token := by
  constructor
  · intro ⟨s', h⟩
    obtain ⟨spans, hspans, -⟩ := bind_ok_iff.1 h
    exact spans_iff.1 ⟨spans, hspans⟩
  · intro h
    obtain ⟨kept, -, -, hdelete⟩ := deleteIndices_of_deletable hs h
    exact ⟨_, hdelete⟩

/-- Positions from one on. -/
theorem map_getD_range' (values : List Float) {k n : Nat} (h : k + n ≤ values.length) :
    (List.range' k n).map (fun p => values.getD p nan) = (values.drop k).take n := by
  refine List.ext_getElem (by simp; omega) fun i hi _ => ?_
  rw [List.length_map, List.length_range'] at hi
  have hget : k + i < values.length := by omega
  simp [hget]

/-- A token by itself: the elements after its span are moved down in place. -/
theorem deleteIndices_singleton (hs : s.buffer.Sound) (aggregates : Aggregates) (token : String) :
    s.deleteIndices aggregates [token] = s.unsetIndex aggregates token := by
  cases hspan : s.readSpan aggregates token with
  | error e =>
    rw [deleteIndices, unsetIndex, hspan, List.mapM_cons, hspan]
    rfl
  | ok span =>
    obtain ⟨low, high⟩ := span
    have hinside := readSpan_hasSpan hs hspan
    obtain ⟨hlow, hhigh⟩ := hasSpan_iff.1 hinside
    have hlength : s.values.length = s.length := hs.length_values
    obtain ⟨kept, hsorted, hmem, hdelete⟩ := deleteIndices_of_deletable hs
      (List.forall_mem_singleton.2 (deletable_iff.2 ⟨_, hspan⟩))
    -- Both lists of positions increase, so they are one.
    have hkept : kept = List.range' 0 low ++ List.range' (high + 1) (s.length - (high + 1)) := by
      refine hsorted.eq_of_mem_iff ?_ fun p => ?_
      · rw [List.pairwise_append]
        refine ⟨List.pairwise_lt_range', List.pairwise_lt_range', fun a ha b hb => ?_⟩
        rw [List.mem_range'_1] at ha hb
        omega
      · rw [hmem, List.forall_mem_singleton, readSpan_names hspan, List.mem_append, List.mem_range'_1,
          List.mem_range'_1]
        omega
    have htail : (s.values.drop (high + 1)).take (s.length - (high + 1)) = s.values.drop (high + 1) :=
      List.take_of_length_le (by rw [List.length_drop, hlength])
    have hrest : kept.map (fun p => s.values.getD p nan) = s.values.take low ++ s.values.drop (high + 1) := by
      rw [hkept, List.map_append, map_getD_range' _ (by omega), map_getD_range' _ (by omega), List.drop_zero, htail]
    have hroom : s.buffer.capacity - kept.length = s.buffer.capacity - s.length + (high - low + 1) := by
      have hle : s.length ≤ s.buffer.capacity := hs.length_le
      rw [hkept, List.length_append, List.length_range', List.length_range']
      omega
    have hremove : s.buffer.removeSpan low high = .holding (s.values.take low ++ s.values.drop (high + 1))
        (s.buffer.capacity - s.length + (high - low + 1)) :=
      calc s.buffer.removeSpan low high
        _ = (Buffer.holding s.values (s.buffer.capacity - s.length)).removeSpan low high :=
          congrArg (·.removeSpan low high) hs.eq_holding
        _ = _ := Buffer.removeSpan_holding hlow (hlength ▸ hhigh)
    rw [hdelete, hrest, hroom, ← hremove, unsetIndex, hspan]
    exact (removeSpan_of_hasSpan hinside).symm

end Series

/-- **Deleting removes what the tokens name.** Whatever a series has been through, the
elements named by tokens can be deleted if each token is resolved, in the series as it
is, to an element or a range. What is left then are the values at all positions that
no token names, in their order; so it is the same for all lists of tokens that name
the same positions together. Otherwise the vector, and the whole session, is left as
it was. To delete by a single token is to unset it. -/
theorem Series.delete_union {capacity : Nat} {s₀ : Series} (hnew : Series.withCapacity capacity = .ok s₀)
    (us : List Use) (aggregates : Aggregates) :
    let s := s₀.uses us
    (∀ tokens, (∃ s', s.deleteIndices aggregates tokens = .ok s') ↔ ∀ token ∈ tokens, s.Deletable aggregates token) ∧
    (∀ tokens s', s.deleteIndices aggregates tokens = .ok s' → ∃ kept : List Nat, kept.Pairwise (· < ·) ∧
      (∀ p, p ∈ kept ↔ p < s.length ∧ ∀ token ∈ tokens, ¬s.Names aggregates token p) ∧
      s'.values.map some = kept.map s.get?) ∧
    (∀ tokens tokens' s₁ s₂, s.deleteIndices aggregates tokens = .ok s₁ → s.deleteIndices aggregates tokens' = .ok s₂ →
      (∀ p, (∃ token ∈ tokens, s.Names aggregates token p) ↔ ∃ token ∈ tokens', s.Names aggregates token p) →
      s₁ = s₂) ∧
    (∀ tokens e, s.deleteIndices aggregates tokens = .error e → ∀ (session : Session) id v,
      session.store.get? id = some v → v.series = s →
        session.submit (.edit id (Series.deleteIndices aggregates tokens)) = (session, .finished (.error e)) ∧
        session.submit (.update id (Series.deleteIndices aggregates tokens)) = (session, .finished (.error e))) ∧
    ∀ token, s.deleteIndices aggregates [token] = s.unsetIndex aggregates token := by
  intro s
  have hs : s.buffer.Sound := uses_sound hnew us
  refine ⟨fun tokens => deleteIndices_ok_iff hs, fun tokens s' h => ?_, fun tokens tokens' s₁ s₂ h₁ h₂ hsame => ?_,
    fun tokens e h session id v hv hseries => Session.submit_refused hv (hseries ▸ h),
    deleteIndices_singleton hs aggregates⟩
  · obtain ⟨kept, hsorted, hmem, hdelete⟩ := deleteIndices_of_deletable hs ((deleteIndices_ok_iff hs).1 ⟨s', h⟩)
    obtain rfl := Except.ok.inj (hdelete.symm.trans h)
    refine ⟨kept, hsorted, hmem, ?_⟩
    show ((Buffer.holding _ _).values).map some = _
    rw [Buffer.values_holding, List.map_map]
    refine List.map_congr_left fun p hp => ?_
    have hp : p < s.values.length := ((hmem p).1 hp).1.trans_le hs.length_values.ge
    show some (s.values.getD p nan) = s.values[p]?
    rw [List.getD_eq_getElem?_getD, List.getElem?_eq_getElem hp, Option.getD_some]
  · obtain ⟨kept₁, hsorted₁, hmem₁, hdelete₁⟩ :=
      deleteIndices_of_deletable hs ((deleteIndices_ok_iff hs).1 ⟨s₁, h₁⟩)
    obtain ⟨kept₂, hsorted₂, hmem₂, hdelete₂⟩ :=
      deleteIndices_of_deletable hs ((deleteIndices_ok_iff hs).1 ⟨s₂, h₂⟩)
    obtain rfl : kept₁ = kept₂ := by
      refine hsorted₁.eq_of_mem_iff hsorted₂ fun p => ?_
      have hnames := not_congr (hsame p)
      push Not at hnames
      rw [hmem₁, hmem₂, hnames]
    exact Except.ok.inj (h₁.symm.trans (hdelete₁.trans (hdelete₂.symm.trans h₂)))

/-- The positions 0 to 3 and 5, some of them named twice and backwards. -/
theorem Series.delete_union_overlapping :
    let start : Series := ⟨⟨Buffer.blanks 2, 0⟩, 0, none⟩
    let us : List Series.Use := [.change (.append [0.0, 1.0, 2.0, 3.0, 4.0, 5.0]), .change (.setOffset 10)]
    let s := start.uses us
    let tokens := ["end", "13:11", "12", " :+12", "15"]
    let rest := s.uses [.change (.deleteIndices .initial tokens)]
    (∀ token ∈ tokens, s.Deletable .initial token) ∧ rest.values = [4.0] ∧
      (∃ kept : List Nat, kept.Pairwise (· < ·) ∧
        (∀ p, p ∈ kept ↔ p < s.length ∧ ∀ token ∈ tokens, ¬s.Names .initial token p) ∧
        rest.values.map some = kept.map s.get?) ∧
      s.deleteIndices .initial ["13:11"] = s.unsetIndex .initial "13:11" := by
  intro start us s tokens rest
  have hnew : Series.withCapacity 2 = .ok start := by decide +kernel
  have hdelete : s.deleteIndices .initial tokens = .ok rest := by decide +kernel
  obtain ⟨hdeletable, hkept, -, -, hsingle⟩ := Series.delete_union hnew us .initial
  exact ⟨(hdeletable tokens).1 ⟨rest, hdelete⟩, by decide +kernel, hkept tokens rest hdelete, hsingle "13:11"⟩

end VectorEngine
