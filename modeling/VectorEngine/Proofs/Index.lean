/-
What index tokens mean.

`Means` is the grammar of tokens, with the integers spelled out (`Decimal.Integer`)
and nothing of the order in which a resolver tries things. A token means one thing
at most, and resolving finds it or refuses the token (`resolve_iff_means`); what it
finds lies inside the vector, so nobody who reads or writes there has to look again.
-/
import Mathlib
import VectorEngine.Series
import VectorEngine.Proofs.Number.Literal

namespace VectorEngine

namespace Index

/-! ## The grammar of tokens -/

/-- An integer names the position as far from the offset; nothing is named beyond
64 bits. -/
def Literal (offset : Int) (cs : List Char) (i : Nat) : Prop :=
  ∃ e : Int, Decimal.Integer cs e ∧ Decimal.IsWord e ∧ e - offset = i ∧ Decimal.IsWord (e - offset)

/-- The position of an element: the last one, or that of an integer. -/
inductive Place (length : Nat) (offset : Int) (cs : List Char) (i : Nat) : Prop
  | last : cs = "end".toList → i + 1 = length → Place length offset cs i
  | literal : Literal offset cs i → i < length → Place length offset cs i

/-- One side of a range. Where nothing is written it is `default`. -/
inductive Side (length : Nat) (offset : Int) (default : Nat) (cs : List Char) : Nat → Prop
  | missing : Text.trim cs = [] → Side length offset default cs default
  | place {i : Nat} : Place length offset (Text.trim cs) i → Side length offset default cs i

/-- What a token means that has no blanks at its ends. -/
inductive Means (aggregates : Aggregates) (length : Nat) (offset : Int) (mode : IndexMode) (cs : List Char) :
    Index → Prop
  | range {left right : List Char} {first last : Nat} : cs = left ++ ':' :: right → ':' ∉ left → 0 < length →
    Side length offset 0 left first → Side length offset (length - 1) right last →
    Means aggregates length offset mode cs (.range first last)
  | append : cs = "++end".toList → mode = .write → Means aggregates length offset mode cs .append
  | aggregate {f : Aggregate} : ':' ∉ cs → cs ≠ "++end".toList → aggregates.find? (String.ofList cs) = some f →
    mode = .read → Means aggregates length offset mode cs (.aggregate f)
  | element {i : Nat} : ':' ∉ cs → aggregates.find? (String.ofList cs) = none → Place length offset cs i →
    Means aggregates length offset mode cs (.element i)
  | next : ':' ∉ cs → aggregates.find? (String.ofList cs) = none → mode = .write → Literal offset cs length →
    Means aggregates length offset mode cs .append

variable {aggregates : Aggregates} {token : String} {length default i : Nat} {offset : Int} {mode : IndexMode}
  {cs left right : List Char} {index : Index}

/-! ## Places -/

theorem ofList_eq_iff {text : String} : String.ofList cs = text ↔ cs = text.toList := by
  constructor
  · intro h
    rw [← h, String.toList_ofList]
  · intro h
    rw [h, String.ofList_toList]

theorem not_literal_end : ¬Literal offset "end".toList i := by
  intro ⟨e, hinteger, _⟩
  obtain ⟨c, hc, hdigit⟩ := hinteger.isDigit_getLast
  obtain rfl := Option.some.inj ((by decide : "end".toList.getLast? = some 'd').symm.trans hc)
  exact absurd hdigit (by decide)

theorem not_literal_appending : ¬Literal offset "++end".toList i := by
  intro ⟨e, hinteger, _⟩
  obtain ⟨c, hc, hdigit⟩ := hinteger.isDigit_getLast
  obtain rfl := Option.some.inj ((by decide : "++end".toList.getLast? = some 'd').symm.trans hc)
  exact absurd hdigit (by decide)

theorem place?_eq_some_iff :
    place? cs length offset = some i ↔ cs = "end".toList ∧ i + 1 = length ∨ Literal offset cs i := by
  simp only [place?, ofList_eq_iff]
  by_cases hend : cs = "end".toList
  · subst hend
    simp only [if_true, not_literal_end, or_false, true_and]
    split
    · simp only [reduceCtorEq, false_iff]
      omega
    · simp only [Option.some.injEq]
      omega
  · simp only [hend, if_false, false_and, false_or]
    constructor
    · intro h
      split at h
      · next e hread =>
        obtain ⟨hinteger, hword⟩ := Decimal.readInt64?_eq_some_iff.1 hread
        split at h
        · next hdifference =>
          obtain rfl := Option.some.inj h
          exact ⟨e, hinteger, hword, by omega, Decimal.isInt64_eq_true_iff.1 hdifference.2⟩
        · cases h
      · cases h
    · intro ⟨e, hinteger, hword, hi, hdifference⟩
      have hread := Decimal.readInt64?_eq_some_iff.2 ⟨hinteger, hword⟩
      simp only [hread]
      rw [if_pos ⟨by omega, Decimal.isInt64_eq_true_iff.2 hdifference⟩, hi, Int.toNat_natCast]

theorem element?_eq_some_iff : element? cs length offset = some i ↔ Place length offset cs i := by
  rw [element?, Option.filter_eq_some_iff, place?_eq_some_iff, decide_eq_true_iff]
  constructor
  · intro ⟨hplace, hlt⟩
    cases hplace with
    | inl hlast => exact .last hlast.1 hlast.2
    | inr hliteral => exact .literal hliteral hlt
  · intro hplace
    cases hplace with
    | last hend hlast => exact ⟨.inl ⟨hend, hlast⟩, by omega⟩
    | literal hliteral hlt => exact ⟨.inr hliteral, hlt⟩

theorem Place.lt (h : Place length offset cs i) : i < length := by
  cases h with
  | last _ hlast => omega
  | literal _ hlt => exact hlt

/-- Nothing is written where a place is missing. -/
theorem Place.ne_nil (h : Place length offset cs i) : cs ≠ [] := by
  intro hnil
  subst hnil
  cases h with
  | last hend => exact absurd hend (by decide)
  | literal hliteral =>
    obtain ⟨e, hinteger, _⟩ := hliteral
    obtain ⟨c, hc, _⟩ := hinteger.isDigit_getLast
    cases hc

theorem side?_eq_some_iff : side? cs default length offset = some i ↔ Side length offset default cs i := by
  unfold side?
  by_cases hnil : Text.trim cs = []
  · rw [if_pos hnil, Option.some.injEq]
    constructor
    · intro h
      exact h ▸ .missing hnil
    · intro h
      cases h with
      | missing => rfl
      | place hplace => exact absurd hnil hplace.ne_nil
  · rw [if_neg hnil, element?_eq_some_iff]
    constructor
    · exact .place
    · intro h
      cases h with
      | missing h => exact absurd h hnil
      | place hplace => exact hplace

theorem Side.lt (h : Side length offset default cs i) (hdefault : default < length) : i < length := by
  cases h with
  | missing => exact hdefault
  | place hplace => exact hplace.lt

/-! ## Tokens -/

theorem range?_eq_some_iff : range? left right length offset = some index ↔ ∃ first last, 0 < length ∧
    Side length offset 0 left first ∧ Side length offset (length - 1) right last ∧ index = .range first last := by
  unfold range?
  by_cases hlength : length = 0
  · simp [hlength]
  · simp only [hlength, if_false, Option.bind_eq_bind, Option.bind_eq_some_iff, side?_eq_some_iff, pure,
      Option.some.injEq, exists_and_left, Nat.pos_of_ne_zero hlength, true_and]
    simp only [eq_comm (a := index)]

/-- A text is cut at its first colon. -/
theorem cut_colon (hleft : ':' ∉ left) (right : List Char) :
    (left ++ ':' :: right).takeWhile (· ≠ ':') = left ∧ (left ++ ':' :: right).dropWhile (· ≠ ':') = ':' :: right := by
  have hall : ∀ c ∈ left, (c ≠ ':' : Bool) = true := by
    intro c hc
    have hne : c ≠ ':' := fun he => hleft (he ▸ hc)
    simpa using hne
  constructor
  · rw [List.takeWhile_append_of_pos hall, List.takeWhile_cons_of_neg (by simp), List.append_nil]
  · rw [List.dropWhile_append_of_pos hall, List.dropWhile_cons_of_neg (by simp)]

theorem dropWhile_of_not_mem (h : ':' ∉ cs) : cs.dropWhile (· ≠ ':') = [] := by
  rw [List.dropWhile_eq_nil_iff]
  intro c hc
  have hne : c ≠ ':' := fun he => h (he ▸ hc)
  simpa using hne

theorem single?_eq_some_iff (hcolon : ':' ∉ cs) :
    single? aggregates cs length offset mode = some index ↔ Means aggregates length offset mode cs index := by
  simp only [single?, ofList_eq_iff]
  have hnorange : ∀ {left right : List Char}, cs ≠ left ++ ':' :: right := by
    intro left right he
    exact hcolon (by simp [he])
  by_cases happend : cs = "++end".toList
  · rw [if_pos happend]
    constructor
    · intro h
      split at h
      · next hmode =>
        obtain rfl := Option.some.inj h
        exact .append happend hmode
      · cases h
    · intro h
      cases h with
      | range hcs => exact absurd hcs hnorange
      | append _ hmode => rw [if_pos hmode]
      | aggregate _ hne => exact absurd happend hne
      | element _ _ hplace =>
        subst happend
        cases hplace with
        | last hend => exact absurd hend (by decide)
        | literal hliteral => exact absurd hliteral not_literal_appending
      | next _ _ _ hliteral =>
        subst happend
        exact absurd hliteral not_literal_appending
  rw [if_neg happend]
  cases hfind : aggregates.find? (String.ofList cs) with
  | some f =>
    dsimp only
    constructor
    · intro h
      split at h
      · next hmode =>
        obtain rfl := Option.some.inj h
        exact .aggregate hcolon happend hfind hmode
      · cases h
    · intro h
      cases h with
      | range hcs => exact absurd hcs hnorange
      | append h => exact absurd h happend
      | aggregate _ _ hf hmode =>
        rw [hfind, Option.some.injEq] at hf
        rw [if_pos hmode, hf]
      | element _ hf | next _ hf =>
        rw [hfind] at hf
        cases hf
  | none =>
    simp only [Option.bind_eq_bind, Option.bind_eq_some_iff, place?_eq_some_iff]
    constructor
    · intro ⟨i, hplace, h⟩
      split at h
      · next hlt =>
        obtain rfl := Option.some.inj h
        exact .element hcolon hfind (element?_eq_some_iff.1 (Option.filter_eq_some_iff.2
          ⟨place?_eq_some_iff.2 hplace, by simpa using hlt⟩))
      · split at h
        · next hlt hnext =>
          obtain ⟨hmode, rfl⟩ := hnext
          obtain rfl := Option.some.inj h
          cases hplace with
          | inl hlast => omega
          | inr hliteral => exact .next hcolon hfind hmode hliteral
        · cases h
    · intro h
      cases h with
      | range hcs => exact absurd hcs hnorange
      | append h => exact absurd h happend
      | aggregate _ _ hf =>
        rw [hfind] at hf
        cases hf
      | @element i _ _ hplace =>
        have hi := Option.filter_eq_some_iff.1 (element?_eq_some_iff.2 hplace)
        exact ⟨i, place?_eq_some_iff.1 hi.1, if_pos hplace.lt⟩
      | next _ _ hmode hliteral =>
        exact ⟨length, .inr hliteral, by rw [if_neg (lt_irrefl _), if_pos ⟨hmode, rfl⟩]⟩

theorem range_means_iff (hleft : ':' ∉ left) : Means aggregates length offset mode (left ++ ':' :: right) index ↔
    range? left right length offset = some index := by
  rw [range?_eq_some_iff]
  have hcolon : ':' ∈ left ++ ':' :: right := by simp
  constructor
  · intro h
    cases h with
    | @range left' right' first last hcs hleft' hlength hfirst hlast =>
      -- There is one first colon.
      obtain ⟨hl, hr⟩ := cut_colon hleft right
      obtain ⟨hl', hr'⟩ := cut_colon hleft' right'
      rw [hcs, hl'] at hl
      rw [hcs, hr'] at hr
      obtain rfl := hl
      obtain ⟨_, rfl⟩ := List.cons.inj hr
      exact ⟨first, last, hlength, hfirst, hlast, rfl⟩
    | append h =>
      rw [h] at hcolon
      exact absurd hcolon (by decide)
    | aggregate h | element h | next h => exact absurd hcolon h
  · intro ⟨first, last, hlength, hfirst, hlast, hindex⟩
    subst hindex
    exact .range rfl hleft hlength hfirst hlast

/-- **Resolving finds what a token means.** -/
theorem resolve_ok_iff : resolve aggregates token length offset mode = .ok index ↔
    Means aggregates length offset mode (Text.trim token.toList) index := by
  unfold resolve
  dsimp only
  by_cases hcolon : ':' ∈ Text.trim token.toList
  · obtain ⟨left, right, hcs, hleft⟩ := List.eq_append_cons_of_mem hcolon
    obtain ⟨htake, hdrop⟩ := cut_colon hleft right
    rw [hcs, hdrop, htake, range_means_iff hleft]
    dsimp only
    split
    · next h => rw [h, Except.ok.injEq, Option.some.injEq]
    · next h => simp [h]
  · rw [dropWhile_of_not_mem hcolon, ← single?_eq_some_iff hcolon]
    dsimp only
    split
    · next h => rw [h, Except.ok.injEq, Option.some.injEq]
    · next h => simp [h]

theorem resolve_badIndex {e : Error} (h : resolve aggregates token length offset mode = .error e) :
    e = .badIndex token := by
  unfold resolve at h
  dsimp only at h
  split at h
  · cases h
  · exact (Except.error.inj h).symm

/-! ## Positions -/

/-- The positions go from `first` to `last` by single steps, over every position
between them once. -/
structure Walks (first last : Nat) (positions : List Nat) : Prop where
  starts : positions.head? = some first
  ends : positions.getLast? = some last
  between : ∀ p, p ∈ positions ↔ min first last ≤ p ∧ p ≤ max first last
  once : positions.Nodup
  steps : positions.IsChain fun a b => if first ≤ last then b = a + 1 else a = b + 1

theorem walks_range' {low high : Nat} (h : low ≤ high) :
    (List.range' low (high + 1 - low)).head? = some low ∧ (List.range' low (high + 1 - low)).getLast? = some high ∧
      (∀ p, p ∈ List.range' low (high + 1 - low) ↔ low ≤ p ∧ p ≤ high) ∧
      (List.range' low (high + 1 - low)).IsChain fun a b => b = a + 1 := by
  obtain ⟨k, rfl⟩ := Nat.exists_eq_add_of_le h
  have hk : low + k + 1 - low = k + 1 := by omega
  rw [hk]
  refine ⟨rfl, ?_, fun p => ?_, List.isChain_range' low (k + 1) 1⟩
  · rw [List.range'_concat, List.getLast?_concat, Nat.one_mul]
  · rw [List.mem_range'_1]
    omega

/-- **A range is walked from its first position to its last.** -/
theorem walks_positions (first last : Nat) : Walks first last (Index.range first last).positions := by
  unfold positions
  by_cases h : first ≤ last
  · obtain ⟨hhead, hlast, hmem, hchain⟩ := walks_range' h
    simp only [h, if_true]
    refine ⟨hhead, hlast, ?_, List.nodup_range', ?_⟩
    · intro p
      rw [hmem, Nat.min_eq_left h, Nat.max_eq_right h]
    · simpa only [h, if_true] using hchain
  · obtain ⟨hhead, hlast, hmem, hchain⟩ := walks_range' (Nat.le_of_not_le h)
    simp only [h, if_false]
    refine ⟨?_, ?_, ?_, List.nodup_reverse.2 List.nodup_range', ?_⟩
    · rw [List.head?_reverse, hlast]
    · rw [List.getLast?_reverse, hhead]
    · intro p
      rw [List.mem_reverse, hmem, Nat.min_eq_right (by omega), Nat.max_eq_left (by omega)]
    · rw [List.isChain_reverse]
      simpa only [h, if_false] using hchain

/-- What a token means lies inside the vector. -/
theorem Means.lt {first last : Nat} (h : Means aggregates length offset mode cs (.range first last)) :
    first < length ∧ last < length := by
  cases h with
  | range _ _ hlength hfirst hlast => exact ⟨hfirst.lt hlength, hlast.lt (by omega)⟩

theorem Means.positions_lt (h : Means aggregates length offset mode cs index) : ∀ p ∈ index.positions, p < length := by
  cases index with
  | element i =>
    cases h with
    | element _ _ hplace => simpa [positions] using hplace.lt
  | range first last =>
    obtain ⟨hfirst, hlast⟩ := h.lt
    intro p hp
    have hp := ((walks_positions first last).between p).1 hp
    omega
  | append | aggregate => simp [positions]

theorem Means.span_lt (h : Means aggregates length offset mode cs index) {low high : Nat}
    (hspan : index.span? = some (low, high)) : low ≤ high ∧ high < length := by
  cases index with
  | element i =>
    cases h with
    | element _ _ hplace =>
      cases hspan
      exact ⟨Nat.le_refl _, hplace.lt⟩
  | range first last =>
    obtain ⟨hfirst, hlast⟩ := h.lt
    cases hspan
    omega
  | append | aggregate => cases hspan

end Index

/-- The spans and positions a series is asked for are there. -/
theorem Series.resolve_inside {s : Series} {aggregates : Aggregates} {token : String} {mode : IndexMode} {index : Index}
    (hs : s.length ≤ s.buffer.capacity) (h : s.resolve aggregates token mode = .ok index) :
    (∀ p ∈ index.positions, p < s.values.length) ∧
      ∀ low high, index.span? = some (low, high) → s.hasSpan low high = true := by
  have hmeans := Index.resolve_ok_iff.1 h
  have hlength : s.values.length = s.length := List.length_take_of_le hs
  constructor
  · intro p hp
    rw [hlength]
    exact hmeans.positions_lt p hp
  · intro low high hspan
    simpa [hasSpan] using hmeans.span_lt hspan

/-- **Index tokens are resolved by their grammar, and never out of bounds.** A
token is resolved to what it means, and if it means nothing it is refused as it was
written. All positions and spans are of existing elements, and a range is walked
from its first position to its last; so whoever resolves a token in a series finds
the elements there. -/
theorem Index.resolve_iff_means (aggregates : Aggregates) (token : String) (length : Nat) (offset : Int)
    (mode : IndexMode) :
    (∀ index, resolve aggregates token length offset mode = .ok index ↔
      Means aggregates length offset mode (Text.trim token.toList) index) ∧
    (∀ e, resolve aggregates token length offset mode = .error e ↔
      e = .badIndex token ∧ ∀ index, ¬Means aggregates length offset mode (Text.trim token.toList) index) ∧
    (∀ index, resolve aggregates token length offset mode = .ok index →
      (∀ p ∈ index.positions, p < length) ∧
      ∀ low high, index.span? = some (low, high) → low ≤ high ∧ high < length) ∧
    (∀ first last, Walks first last (range first last).positions) ∧
    ∀ (s : Series) index, s.length ≤ s.buffer.capacity → s.resolve aggregates token mode = .ok index →
      (∀ p ∈ index.positions, p < s.values.length) ∧
      ∀ low high, index.span? = some (low, high) → s.hasSpan low high = true := by
  refine ⟨fun index => resolve_ok_iff, fun e => ?_, fun index h => ?_, walks_positions,
    fun s index hs h => Series.resolve_inside hs h⟩
  · constructor
    · intro h
      refine ⟨resolve_badIndex h, fun index hmeans => ?_⟩
      rw [resolve_ok_iff.2 hmeans] at h
      cases h
    · intro ⟨he, hnone⟩
      cases hresolve : resolve aggregates token length offset mode with
      | error e' => rw [he, resolve_badIndex hresolve]
      | ok index => exact absurd (resolve_ok_iff.1 hresolve) (hnone index)
  · have hmeans := resolve_ok_iff.1 h
    exact ⟨hmeans.positions_lt, fun low high hspan => hmeans.span_lt hspan⟩

/-- A range from the last element back to the one at offset 5 that is called 6. -/
theorem Index.resolve_iff_means_backwards :
    let s : Series := ⟨.ofValues [4.0, nan, 1.0, 2.5], 5, none⟩
    s.resolve .initial " end : +6 " .read = .ok (.range 3 1) ∧
      Means .initial 4 5 .read (Text.trim " end : +6 ".toList) (.range 3 1) ∧ (range 3 1).positions = [3, 2, 1] ∧
      (∀ p ∈ (range 3 1).positions, p < s.values.length) ∧ s.hasSpan 1 3 = true := by
  intro s
  have hresolve : resolve .initial " end : +6 " 4 5 .read = .ok (.range 3 1) := by rfl
  obtain ⟨hmeans, _, _, _, hseries⟩ := Index.resolve_iff_means .initial " end : +6 " 4 5 .read
  obtain ⟨hpositions, hspan⟩ := hseries s (.range 3 1) (by decide) hresolve
  exact ⟨hresolve, (hmeans _).1 hresolve, by decide, hpositions, hspan 1 3 rfl⟩

end VectorEngine
