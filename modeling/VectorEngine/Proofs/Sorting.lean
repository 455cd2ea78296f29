/-
Sorted rows.

Comparing rows key by key is a total preorder as soon as comparing elements is.
Sorting then gives the rows in that order, equal ones by row number, and keeping
the first of every run of neighbours that are equal keeps the first row of every
class of equal rows: in a sorted list equal rows have none but equal ones
between them.
-/
import VectorEngine.Proofs.Arrangement
import VectorEngine.Proofs.Number.Comparison
import VectorEngine.Proofs.Outcome

namespace VectorEngine

namespace SortKeys

variable {α : Type} {s : SortKeys α}

/-! ## Checking the keys -/

/-- Keys are refused unless there is one and all have the same length. -/
theorem ofKeys_ok_iff {keys : List (List α)} {decreasing : Bool} :
    ofKeys keys decreasing = .ok s ↔ keys ≠ [] ∧ (∀ key ∈ keys, ∀ key' ∈ keys, key.length = key'.length) ∧
      s = ⟨keys.map List.toArray, decreasing⟩ := by
  cases keys with
  | nil => simp [ofKeys]
  | cons first rest =>
    unfold ofKeys
    cases hfind : (first :: rest).find? fun key => key.length != first.length with
    | some odd =>
      have hodd : odd.length ≠ first.length := by simpa using List.find?_some hfind
      have hmem : odd ∈ first :: rest := List.mem_of_find?_eq_some hfind
      simp only [hfind, reduceCtorEq, false_iff]
      intro ⟨_, hsame, _⟩
      exact hodd (hsame odd hmem first (by simp))
    | none =>
      have hfirst : ∀ key ∈ first :: rest, key.length = first.length := by simpa using hfind
      simp only [hfind, Except.ok.injEq]
      constructor
      · intro hs
        exact ⟨by simp, fun key hkey key' hkey' => (hfirst key hkey).trans (hfirst key' hkey').symm, hs.symm⟩
      · intro ⟨_, _, hs⟩
        exact hs.symm

variable [Element α]

/-! ## The order of rows -/

section Order

variable [Std.TransCmp (compareElements : α → α → Ordering)]

/-- Comparing by the first of some keys that tells the rows apart. -/
instance keysOrder (keys : List (Array α)) : Std.TransCmp fun a b : Nat => keys.foldr
    (fun key rest => (compareElements (key.getD a Element.blank) (key.getD b Element.blank)).then rest) .eq := by
  induction keys with
  | nil => exact { eq_swap := rfl, isLE_trans := fun _ _ => rfl }
  | cons key keys ih =>
    have hkey : Std.TransCmp fun a b : Nat =>
        compareElements (key.getD a Element.blank) (key.getD b Element.blank) :=
      { eq_swap := Std.OrientedCmp.eq_swap, isLE_trans := Std.TransCmp.isLE_trans }
    exact inferInstanceAs (Std.TransCmp (compareLex _ _))

instance rowsOrder : Std.TransCmp s.compareRows := keysOrder s.keys

/-- The direction does not matter for being an order. -/
instance directedOrder : Std.TransCmp s.compare := by
  have hdecreasing : Std.TransCmp fun a b => (s.compareRows a b).swap := by
    have hswap : (fun a b => (s.compareRows a b).swap) = fun a b => s.compareRows b a := by
      funext a b
      exact Std.OrientedCmp.eq_swap.symm
    rw [hswap]
    exact inferInstance
  unfold compare
  cases s.decreasing with
  | false => exact rowsOrder
  | true => exact hdecreasing

end Order

/-- The rows are equal on every key. -/
theorem compareRows_eq_iff {a b : Nat} : s.compareRows a b = .eq ↔
    ∀ key ∈ s.keys, compareElements (key.getD a Element.blank) (key.getD b Element.blank) = .eq := by
  unfold compareRows
  induction s.keys with
  | nil => simp
  | cons key keys ih => simp only [List.foldr_cons, Ordering.then_eq_eq, List.forall_mem_cons, ih]

/-- Equal rows are equal in either direction. -/
theorem compare_eq_iff {a b : Nat} : s.compare a b = .eq ↔ s.compareRows a b = .eq := by
  unfold compare
  cases s.decreasing with
  | false => rfl
  | true => simp

/-! ## Sorting -/

/-- All `n` rows, none before a smaller one, and equal ones by row number. -/
structure Orders (s : SortKeys α) (n : Nat) (order : List Nat) : Prop where
  perm : order.Perm (List.range n)
  increasing : order.Pairwise fun a b => (s.compare a b).isLE
  stable : order.Pairwise fun a b => s.compareRows a b = .eq → a < b

/-- The rows of an order in which no two are equal, with the first of every class
of equal ones. -/
structure Compresses (s : SortKeys α) (order kept : List Nat) : Prop where
  sublist : kept.Sublist order
  strict : kept.Pairwise fun a b => s.compare a b = .lt
  covers : ∀ row ∈ order, ∃ k ∈ kept, s.compareRows k row = .eq ∧ k ≤ row

variable [Std.TransCmp (compareElements : α → α → Ordering)]

theorem arranges_order : Arranges s.compare (List.range s.rows) s.order := by
  simp only [order, bne_gt_eq_isLE]
  exact arranges_mergeSort _

theorem orders_order : s.Orders s.rows s.order := by
  have horder : Arranges s.compare (List.range s.rows) s.order := arranges_order
  refine ⟨horder.perm, horder.increasing, ?_⟩
  rw [List.pairwise_iff_forall_sublist]
  intro a b hsub heq
  -- The class of both rows stands as among all rows, and those stand by number.
  have ha : a ∈ List.range s.rows := horder.perm.subset (hsub.subset List.mem_cons_self)
  have hclass := hsub.filter fun row => s.compare a row = .eq
  have haa : s.compareRows a a = .eq := Std.ReflCmp.compare_self
  rw [horder.stable a ha] at hclass
  simp only [compare_eq_iff, List.filter_cons, haa, heq, decide_true, if_true, List.filter_nil] at hclass
  exact List.rel_of_pairwise_cons ((List.pairwise_lt_range.filter _).sublist hclass) List.mem_cons_self

/-! ## Keeping one of equal rows -/

/-- Of rows after one that is kept, the first of every run of equal ones is kept. -/
theorem compresses_distinctAfter {kept : Nat} {rows : List Nat}
    (hincreasing : (kept :: rows).Pairwise fun a b => (s.compare a b).isLE)
    (hstable : (kept :: rows).Pairwise fun a b => s.compareRows a b = .eq → a < b) :
    s.Compresses (kept :: rows) (kept :: s.distinctAfter kept rows) := by
  have hrefl {a : Nat} : s.compareRows a a = .eq := Std.ReflCmp.compare_self
  induction rows generalizing kept with
  | nil => exact ⟨.refl _, by simp [distinctAfter], by simp [distinctAfter, hrefl]⟩
  | cons row rows ih =>
    unfold distinctAfter
    by_cases heq : s.compareRows kept row = .eq
    · rw [if_pos heq]
      have hdrop : (kept :: rows).Sublist (kept :: row :: rows) := (List.sublist_cons_self row rows).cons_cons kept
      have h := ih (hincreasing.sublist hdrop) (hstable.sublist hdrop)
      refine ⟨h.sublist.trans hdrop, h.strict, ?_⟩
      intro r hr
      by_cases hrow : r = row
      · subst hrow
        exact ⟨kept, by simp, heq, (List.rel_of_pairwise_cons hstable (by simp) heq).le⟩
      · exact h.covers r (by simpa [hrow] using hr)
    · rw [if_neg heq]
      have h := ih hincreasing.of_cons hstable.of_cons
      have hlt : s.compare kept row = .lt := by
        have hle : (s.compare kept row).isLE := List.rel_of_pairwise_cons hincreasing (by simp)
        have hne : s.compare kept row ≠ .eq := fun h => heq (compare_eq_iff.1 h)
        revert hle hne
        cases s.compare kept row <;> simp
      refine ⟨h.sublist.cons_cons kept, h.strict.cons ?_, ?_⟩
      · intro r hr
        cases List.mem_cons.1 (h.sublist.subset hr) with
        | inl hrow => exact hrow ▸ hlt
        | inr hrow => exact Std.TransCmp.lt_of_lt_of_isLE hlt (List.rel_of_pairwise_cons hincreasing.of_cons hrow)
      · intro r hr
        cases List.mem_cons.1 hr with
        | inl hkept => exact ⟨kept, by simp, hkept ▸ hrefl, hkept ▸ Nat.le_refl _⟩
        | inr hrow =>
          obtain ⟨k, hk, hkr⟩ := h.covers r hrow
          exact ⟨k, List.mem_cons_of_mem kept hk, hkr⟩

theorem compresses_distinct {n : Nat} {order : List Nat} (h : s.Orders n order) :
    s.Compresses order (s.distinct order) := by
  cases order with
  | nil => exact ⟨.refl _, .nil, by simp⟩
  | cons row rows => exact compresses_distinctAfter h.increasing h.stable

namespace Compresses

variable {order kept : List Nat} {k k' row : Nat}

/-- Two rows that are kept differ. -/
theorem eq_of_compareRows (h : s.Compresses order kept) (hk : k ∈ kept) (hk' : k' ∈ kept)
    (heq : s.compareRows k k' = .eq) : k = k' := by
  have : Std.Symm fun a b => s.compareRows a b ≠ .eq := ⟨fun a b hab h => hab (Std.OrientedCmp.eq_symm h)⟩
  have hdiffer : kept.Pairwise fun a b => s.compareRows a b ≠ .eq := by
    apply h.strict.imp
    intro a b hlt heq
    rw [compare_eq_iff.2 heq] at hlt
    cases hlt
  by_contra hne
  exact hdiffer.forall hk hk' hne heq

/-- The kept row is the first of its class. -/
theorem le_of_compareRows (h : s.Compresses order kept) (hk : k ∈ kept) (hrow : row ∈ order)
    (heq : s.compareRows k row = .eq) : k ≤ row := by
  obtain ⟨k', hk', heq', hle⟩ := h.covers row hrow
  have : s.compareRows k k' = .eq := Std.TransCmp.eq_trans heq (Std.OrientedCmp.eq_symm heq')
  exact h.eq_of_compareRows hk hk' this ▸ hle

end Compresses

end SortKeys

/-! ## Rows of doubles -/

/-- The rows are equal on a key: equal as numbers or both blank. -/
def EqualAt (a b : Nat) (key : List Float) : Prop :=
  ((key.getD a nan).isNaN = true ∧ (key.getD b nan).isNaN = true) ∨ (key.getD a nan == key.getD b nan) = true

/-- The first row has the smaller number on a key, or a number against a blank. -/
def BeforeAt (a b : Nat) (key : List Float) : Prop :=
  ((key.getD a nan).isNaN = false ∧ (key.getD b nan).isNaN = true) ∨ key.getD a nan < key.getD b nan

/-- The rows are equal on every key. -/
def EqualRows (keys : List (List Float)) (a b : Nat) : Prop := ∀ key ∈ keys, EqualAt a b key

/-- The first row is before the second on the first key that tells them apart. -/
def RowBefore (keys : List (List Float)) (a b : Nat) : Prop :=
  ∃ front key back, keys = front ++ key :: back ∧ EqualRows front a b ∧ BeforeAt a b key

section Doubles

variable {keys : List (List Float)} {decreasing : Bool} {a b : Nat}

theorem getD_toArray (key : List Float) (i : Nat) : key.toArray.getD i Element.blank = key.getD i nan := by
  simp
  rfl

theorem compareRows_eq_iff_equalRows :
    (⟨keys.map List.toArray, decreasing⟩ : SortKeys Float).compareRows a b = .eq ↔ EqualRows keys a b := by
  simp only [SortKeys.compareRows_eq_iff, List.forall_mem_map, getD_toArray, compareElements_eq_iff]
  rfl

theorem rowBefore_cons {key : List Float} :
    RowBefore (key :: keys) a b ↔ BeforeAt a b key ∨ EqualAt a b key ∧ RowBefore keys a b := by
  constructor
  · intro ⟨front, key', back, hkeys, hfront, hbefore⟩
    cases front with
    | nil =>
      obtain ⟨rfl, rfl⟩ := List.cons.inj hkeys
      exact .inl hbefore
    | cons k front =>
      obtain ⟨rfl, rfl⟩ := List.cons.inj hkeys
      exact .inr ⟨hfront key (by simp), front, key', back, rfl, fun k hk => hfront k (by simp [hk]), hbefore⟩
  · intro h
    cases h with
    | inl hbefore => exact ⟨[], key, keys, rfl, by simp [EqualRows], hbefore⟩
    | inr h =>
      obtain ⟨hequal, front, key', back, rfl, hfront, hbefore⟩ := h
      exact ⟨key :: front, key', back, rfl, List.forall_mem_cons.2 ⟨hequal, hfront⟩, hbefore⟩

theorem compareRows_lt_iff_rowBefore :
    (⟨keys.map List.toArray, decreasing⟩ : SortKeys Float).compareRows a b = .lt ↔ RowBefore keys a b := by
  unfold SortKeys.compareRows
  induction keys with
  | nil => simp [RowBefore]
  | cons key keys ih =>
    simp only [List.map_cons, List.foldr_cons, Ordering.then_eq_lt, ih, rowBefore_cons, getD_toArray,
      compareElements_lt_iff, compareElements_eq_iff]
    rfl

theorem sortRows_eq (options : SortOptions) :
    sortRows options keys = (SortKeys.ofKeys keys options.decreasing).map
      fun s => if options.unique then s.distinct s.order else s.order := by
  unfold sortRows
  cases SortKeys.ofKeys keys options.decreasing with
  | error e => rfl
  | ok s => rfl

/-- Sorting fails exactly when there is no key or two differ in length. -/
theorem sortRows_error_iff {options : SortOptions} :
    (∃ e, sortRows options keys = .error e) ↔ keys = [] ∨ ∃ key ∈ keys, ∃ key' ∈ keys, key.length ≠ key'.length := by
  rw [sortRows_eq]
  cases hs : SortKeys.ofKeys keys options.decreasing with
  | ok s =>
    obtain ⟨hkeys, hsame, -⟩ := SortKeys.ofKeys_ok_iff.1 hs
    simpa [Except.map, hkeys] using hsame
  | error e =>
    simp only [Except.map, Except.error.injEq, exists_eq', true_iff]
    by_contra hnone
    have hok : SortKeys.ofKeys keys options.decreasing = .ok ⟨keys.map List.toArray, options.decreasing⟩ :=
      SortKeys.ofKeys_ok_iff.2 ⟨fun h => hnone (.inl h), fun key hkey key' hkey' =>
        not_not.1 fun hne => hnone (.inr ⟨key, hkey, key', hkey', hne⟩), rfl⟩
    rw [hs] at hok
    cases hok

end Doubles

/-- **Sorted rows.** Sorting rows by keys fails only without a key or with keys
of different lengths. Otherwise comparing rows is a total preorder, decided by
the first key that tells two rows apart, and the rows are given in that order or
its reverse, equal ones by row number either way. Of every class of equal rows
the option to keep one keeps the row with the smallest number. -/
theorem sortRows_correct (keys : List (List Float)) (decreasing : Bool) :
    (∀ unique, (∃ e, sortRows ⟨decreasing, unique⟩ keys = .error e) ↔
      keys = [] ∨ ∃ key ∈ keys, ∃ key' ∈ keys, key.length ≠ key'.length) ∧
    ∀ n, keys ≠ [] → (∀ key ∈ keys, key.length = n) →
      let s : SortKeys Float := ⟨keys.map List.toArray, decreasing⟩
      (∀ a b, s.compareRows b a = (s.compareRows a b).swap) ∧
      (∀ a b c, (s.compareRows a b).isLE → (s.compareRows b c).isLE → (s.compareRows a c).isLE) ∧
      (∀ a b, s.compareRows a b = .eq ↔ EqualRows keys a b) ∧
      (∀ a b, s.compareRows a b = .lt ↔ RowBefore keys a b) ∧
      ∃ order, sortRows ⟨decreasing, false⟩ keys = .ok order ∧
        order.Perm (List.range n) ∧
        order.Pairwise (fun a b => (s.compare a b).isLE) ∧
        order.Pairwise (fun a b => EqualRows keys a b → a < b) ∧
        ∃ kept, sortRows ⟨decreasing, true⟩ keys = .ok kept ∧
          kept.Sublist order ∧
          kept.Pairwise (fun a b => s.compare a b = .lt) ∧
          ∀ row < n, ∃ k ∈ kept, EqualRows keys k row ∧ (∀ k' ∈ kept, EqualRows keys k' row → k' = k) ∧
            ∀ r < n, EqualRows keys k r → k ≤ r := by
  refine ⟨fun unique => sortRows_error_iff, ?_⟩
  intro n hkeys hlength s
  have hs : SortKeys.ofKeys keys decreasing = .ok s :=
    SortKeys.ofKeys_ok_iff.2 ⟨hkeys, fun key hkey key' hkey' => (hlength key hkey).trans (hlength key' hkey').symm, rfl⟩
  have hequal {a b : Nat} : s.compareRows a b = .eq ↔ EqualRows keys a b := compareRows_eq_iff_equalRows
  have hrows : s.rows = n := by
    obtain ⟨key, keys, rfl⟩ := List.exists_cons_of_ne_nil hkeys
    exact hlength key (by simp)
  have horder : s.Orders n s.order := hrows ▸ SortKeys.orders_order
  have hkept := SortKeys.compresses_distinct horder
  have hall : sortRows ⟨decreasing, false⟩ keys = .ok s.order := by
    rw [sortRows_eq, hs]
    rfl
  have hunique : sortRows ⟨decreasing, true⟩ keys = .ok (s.distinct s.order) := by
    rw [sortRows_eq, hs]
    rfl
  refine ⟨fun a b => Std.OrientedCmp.eq_swap, fun a b c => Std.TransCmp.isLE_trans, fun a b => hequal,
    fun a b => compareRows_lt_iff_rowBefore, s.order, hall, horder.perm, horder.increasing,
    horder.stable.imp fun hlt heq => hlt (hequal.2 heq), s.distinct s.order, hunique, hkept.sublist, hkept.strict, ?_⟩
  intro row hrow
  have hmem {r : Nat} (hr : r < n) : r ∈ s.order := horder.perm.mem_iff.2 (List.mem_range.2 hr)
  obtain ⟨k, hk, heq, -⟩ := hkept.covers row (hmem hrow)
  refine ⟨k, hk, hequal.1 heq, ?_, ?_⟩
  · intro k' hk' heq'
    exact hkept.eq_of_compareRows hk' hk (Std.TransCmp.eq_trans (hequal.2 heq') (Std.OrientedCmp.eq_symm heq))
  · intro r hr hkr
    exact hkept.le_of_compareRows hk (hmem hr) (hequal.2 hkr)

/-- The two zeros are equal on a key, so the first and the last of these rows are
one class. -/
theorem sortRows_correct_zeros :
    let keys : List (List Float) := [[1.0, nan, 1.0], [0.0, 2.0, -0.0]]
    keys ≠ [] ∧ (∀ key ∈ keys, key.length = 3) ∧ EqualRows keys 0 2 ∧
      ∃ order kept, sortRows ⟨true, false⟩ keys = .ok order ∧ sortRows ⟨true, true⟩ keys = .ok kept ∧
        order.Perm [0, 1, 2] ∧ order.Pairwise (fun a b => EqualRows keys a b → a < b) ∧ kept.Sublist order ∧
        ∀ row < 3, ∃ k ∈ kept, EqualRows keys k row ∧ (∀ k' ∈ kept, EqualRows keys k' row → k' = k) ∧
          ∀ r < 3, EqualRows keys k r → k ≤ r := by
  intro keys
  have hkeys : keys ≠ [] := by simp [keys]
  have hlength : ∀ key ∈ keys, key.length = 3 := by simp [keys]
  have hzeros : EqualRows keys 0 2 := by
    intro key hkey
    refine .inr ?_
    revert key
    decide
  obtain ⟨-, -, -, -, order, horder, hperm, -, hstable, kept, hkept, hsublist, -, hclasses⟩ :=
    (sortRows_correct keys true).2 3 hkeys hlength
  exact ⟨hkeys, hlength, hzeros, order, kept, horder, hkept, hperm, hstable, hsublist, hclasses⟩

end VectorEngine
