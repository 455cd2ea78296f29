/-
How a text falls into tokens.

Groups and arguments are cut out by counting delimiters, and what the count comes
to over a piece of text is a fold (`depthAfter?`): `group` ends where it first comes
back to its start (`group_eq_some`). Every other token ends before the first
character that cannot belong to it, so behind a character that no token goes on
with the reading starts afresh (`reads_append`), and a text can be cut at its
closing parentheses just as its tokens can (`tokens_append`, `tokens_split`).
-/
import Mathlib
import VectorEngine.Expression.Lexer
import VectorEngine.Proofs.Outcome

namespace VectorEngine

/-- The text a token takes over as it stands, without a look at what is in it. The
argument of a call is not among them: it ends at a parenthesis. -/
def Token.raw : Token → List Char
  | .script text | .quoted text | .braced text => text.toList
  | _ => []

theorem Text.inRanges_eq (ranges : Array (Nat × Nat)) (n : Nat) :
    Text.inRanges ranges n = ranges.toList.any fun r => r.1 ≤ n && n ≤ r.2 := by
  simp only [Text.inRanges, Array.any_toList]

namespace Lexer

section Depth

variable {α : Type} [DecidableEq α]

/-- How many groups are open after `x`; nothing if it closes the one that
everything stands in. -/
def depthAfter? (opening closing : α) (depth : Nat) (x : α) : Option Nat :=
  if x = opening ∧ opening ≠ closing then some (depth + 1)
  else if x ≠ closing then some depth
  else match depth with
    | 0 => none
    | depth + 1 => some depth

/-- All groups that open in `xs` close there, and no others do. -/
def Balanced (opening closing : α) (xs : List α) : Prop := xs.foldlM (depthAfter? opening closing) 0 = some 0

instance (opening closing : α) (xs : List α) : Decidable (Balanced opening closing xs) :=
  inferInstanceAs (Decidable (_ = _))

variable {opening closing x : α} {xs ys : List α} {d d' : Nat}

theorem depthAfter?_opening (h : opening ≠ closing) : depthAfter? opening closing d opening = some (d + 1) :=
  if_pos ⟨rfl, h⟩

theorem depthAfter?_other (h : x ≠ opening) (h' : x ≠ closing) : depthAfter? opening closing d x = some d := by
  simp [depthAfter?, h, h']

@[simp] theorem depthAfter?_zero_closing : depthAfter? opening closing 0 closing = none := by
  unfold depthAfter?
  rw [if_neg fun h => h.2 h.1.symm, if_neg (by simp)]

@[simp] theorem depthAfter?_succ_closing : depthAfter? opening closing (d + 1) closing = some d := by
  unfold depthAfter?
  rw [if_neg fun h => h.2 h.1.symm, if_neg (by simp)]

theorem eq_closing_of_depthAfter? (h : depthAfter? opening closing d x = none) : x = closing ∧ d = 0 := by
  unfold depthAfter? at h
  split at h
  · cases h
  · split at h
    · cases h
    · next hx =>
      cases d with
      | zero => exact ⟨not_not.1 hx, rfl⟩
      | succ d => cases h

/-- Inside further groups the count is the same, from a higher start. -/
theorem foldlM_depthAfter?_add (h : xs.foldlM (depthAfter? opening closing) d = some d') (k : Nat) :
    xs.foldlM (depthAfter? opening closing) (d + k) = some (d' + k) := by
  induction xs generalizing d with
  | nil =>
    simp only [List.foldlM_nil, pure, Option.some.injEq] at h ⊢
    omega
  | cons x xs ih =>
    simp only [List.foldlM_cons, bind, Option.bind_eq_some_iff] at h ⊢
    obtain ⟨m, hm, h⟩ := h
    refine ⟨m + k, ?_, ih h⟩
    unfold depthAfter? at hm ⊢
    split at hm
    · cases hm
      rw [if_pos ‹_›]
      congr 1
      omega
    · rw [if_neg ‹_›]
      split at hm
      · cases hm
        rw [if_pos ‹_›]
      · rw [if_neg ‹_›]
        cases d with
        | zero => cases hm
        | succ d =>
          cases hm
          rw [Nat.add_right_comm]

theorem Balanced.foldlM (h : Balanced opening closing xs) (d : Nat) :
    xs.foldlM (depthAfter? opening closing) d = some d := by
  have := foldlM_depthAfter?_add h d
  rwa [Nat.zero_add] at this

theorem Balanced.append (h : Balanced opening closing xs) (h' : Balanced opening closing ys) :
    Balanced opening closing (xs ++ ys) := by
  unfold Balanced
  rw [List.foldlM_append, h]
  exact h'

theorem balanced_of_others (h : ∀ x ∈ xs, x ≠ opening ∧ x ≠ closing) : Balanced opening closing xs := by
  induction xs with
  | nil => rfl
  | cons x xs ih =>
    obtain ⟨hx, hxs⟩ := List.forall_mem_cons.1 h
    unfold Balanced
    rw [List.foldlM_cons, depthAfter?_other hx.1 hx.2]
    exact ih hxs

theorem balanced_singleton (h : x ≠ opening) (h' : x ≠ closing) : Balanced opening closing [x] :=
  balanced_of_others fun y hy => by
    rw [List.mem_singleton.1 hy]
    exact ⟨h, h'⟩

theorem Balanced.enclosed (h : Balanced opening closing xs) (hne : opening ≠ closing) :
    Balanced opening closing (opening :: xs ++ [closing]) := by
  have hinner := h.foldlM 1
  unfold Balanced
  rw [List.cons_append, List.foldlM_cons, depthAfter?_opening hne, Option.bind_eq_bind, Option.bind_some,
    List.foldlM_append, hinner]
  simp [bind]

/-- What closes too much stays so, whatever follows. -/
theorem not_balanced_append (h : Balanced opening closing xs) : ¬Balanced opening closing (xs ++ closing :: ys) := by
  unfold Balanced at *
  rw [List.foldlM_append, h]
  simp [bind]

omit [DecidableEq α] in
/-- Cut at `x`, a list has one front part of which no other one goes beyond that `x`. -/
theorem eq_of_append_cons {xs' ys' : List α} (heq : xs ++ x :: ys = xs' ++ x :: ys')
    (h : ∀ zs, xs' ≠ xs ++ x :: zs) (h' : ∀ zs, xs ≠ xs' ++ x :: zs) : xs = xs' ∧ ys = ys' := by
  rcases List.append_eq_append_iff.1 heq with ⟨as, hxs', has⟩ | ⟨as, hxs, has⟩
  · cases as with
    | nil =>
      rw [List.append_nil] at hxs'
      exact ⟨hxs'.symm, (List.cons.inj has).2⟩
    | cons a as =>
      obtain ⟨rfl, -⟩ := List.cons.inj has
      exact absurd hxs' (h as)
  · cases as with
    | nil =>
      rw [List.append_nil] at hxs
      exact ⟨hxs, (List.cons.inj has).2.symm⟩
    | cons a as =>
      obtain ⟨rfl, -⟩ := List.cons.inj has
      exact absurd hxs (h' as)

end Depth

/-! ## Groups -/

section Group

variable {opening closing x : Char} {d : Nat} {cs text rest v : List Char}

theorem group_cons : group opening closing d (x :: cs) =
    match depthAfter? opening closing d x with
    | none => some ([], cs)
    | some d' => (group opening closing d' cs).map fun (text, after) => (x :: text, after) := by
  unfold depthAfter?
  show (if x = opening ∧ opening ≠ closing then _ else _) = _
  split
  · rfl
  · split
    · rfl
    · cases d <;> rfl

/-- A group ends where the count of its delimiters comes back to the start. -/
theorem group_eq_some : group opening closing d cs = some (text, rest) ↔
    cs = text ++ closing :: rest ∧ text.foldlM (depthAfter? opening closing) d = some 0 := by
  induction cs generalizing d text with
  | nil => simp [group]
  | cons x cs ih =>
    rw [group_cons]
    cases hx : depthAfter? opening closing d x with
    | none =>
      obtain ⟨rfl, rfl⟩ := eq_closing_of_depthAfter? hx
      cases text with
      | nil => simp [eq_comm]
      | cons y text =>
        simp only [Option.some.injEq, Prod.mk.injEq, List.cons_append, List.cons.injEq, List.foldlM_cons]
        refine iff_of_false (by simp) ?_
        rintro ⟨⟨rfl, -⟩, hcount⟩
        rw [hx] at hcount
        cases hcount
    | some d' =>
      simp only [Option.map_eq_some_iff, Prod.exists, Prod.mk.injEq]
      constructor
      · rintro ⟨text, rest, hgroup, rfl, rfl⟩
        obtain ⟨rfl, hcount⟩ := ih.1 hgroup
        exact ⟨rfl, by rwa [List.foldlM_cons, hx]⟩
      · rintro ⟨heq, hcount⟩
        cases text with
        | nil =>
          obtain ⟨rfl, -⟩ := List.cons.inj heq
          cases hcount
          rw [depthAfter?_zero_closing] at hx
          cases hx
        | cons y text =>
          obtain ⟨rfl, htail⟩ := List.cons.inj heq
          rw [List.foldlM_cons, hx] at hcount
          exact ⟨text, rest, ih.2 ⟨htail, hcount⟩, rfl, rfl⟩

theorem group_append : group opening closing d (cs ++ v) = some (text, rest ++ v) ↔
    group opening closing d cs = some (text, rest) := by
  rw [group_eq_some, group_eq_some, ← List.cons_append, ← List.append_assoc, List.append_cancel_right_eq]

end Group

/-! ## Where tokens end -/

/-- A character no token goes on with. -/
def breaks (b : Char) : Bool := !isNameChar b && !(['(', '+', '-', '&', '|', '=', '<', '>'] : List Char).contains b

variable {b c d : Char} {cs rest u v : List Char} {t : Token} {ts ts' : List Token}

theorem isNameChar_of_breaks (h : breaks b = true) : isNameChar b = false := by
  simp only [breaks, Bool.and_eq_true, Bool.not_eq_true'] at h
  exact h.1

theorem ne_of_breaks (h : breaks b = true) : b ≠ '(' ∧ b ≠ '+' ∧ b ≠ '-' ∧ b ≠ '&' ∧ b ≠ '|' ∧ b ≠ '=' ∧ b ≠ '<' ∧
    b ≠ '>' := by
  simp only [breaks, Bool.and_eq_true, Bool.not_eq_true'] at h
  simpa using h.2

theorem symbol?_less (h : d ≠ '=') (h' : d ≠ '<') : symbol? ('<' :: d :: rest) = some (.op .less, d :: rest) := by
  simp [symbol?, h, h']

theorem symbol?_greater (h : d ≠ '=') (h' : d ≠ '>') : symbol? ('>' :: d :: rest) = some (.op .greater, d :: rest) := by
  simp [symbol?, h, h']

theorem symbol?_not (h : d ≠ '=') : symbol? ('!' :: d :: rest) = some (.not, d :: rest) := by
  simp [symbol?, h]

/-- A text at whose front there is no operator starts with no character that is one. -/
theorem not_mem_of_symbol? (h : symbol? (c :: cs) = none) :
    c ∉ ['+', '-', '*', '/', '%', '^', '<', '>', '!', '(', ')'] := by
  unfold symbol? at h
  split at h
  case h_20 =>
    simp only [List.cons.injEq, List.mem_cons, List.not_mem_nil, or_false, not_or] at *
    grind
  all_goals cases h

theorem symbol?_append_of_some (hb : breaks b = true) (h : symbol? (c :: cs) = some (t, rest)) :
    symbol? (c :: (cs ++ b :: v)) = some (t, rest ++ b :: v) := by
  obtain ⟨-, -, -, -, -, heq, hless, hgreater⟩ := ne_of_breaks hb
  unfold symbol? at h
  split at h
  case h_15 hne hne' h' =>
    cases h'; cases h
    cases cs with
    | nil => exact symbol?_less heq hless
    | cons d cs => exact symbol?_less (by rintro rfl; exact hne _ rfl) (by rintro rfl; exact hne' _ rfl)
  case h_16 hne hne' h' =>
    cases h'; cases h
    cases cs with
    | nil => exact symbol?_greater heq hgreater
    | cons d cs => exact symbol?_greater (by rintro rfl; exact hne _ rfl) (by rintro rfl; exact hne' _ rfl)
  case h_17 hne h' =>
    cases h'; cases h
    cases cs with
    | nil => exact symbol?_not heq
    | cons d cs => exact symbol?_not (by rintro rfl; exact hne _ rfl)
  case h_20 => cases h
  all_goals
    rename_i h'
    cases h'; cases h
    rfl

theorem symbol?_append_of_none (hb : breaks b = true) (h : symbol? (c :: cs) = none) :
    symbol? (c :: (cs ++ b :: v)) = none := by
  obtain ⟨-, -, -, hand, hor, heq, -⟩ := ne_of_breaks hb
  by_contra hsome
  unfold symbol? at hsome
  split at hsome
  case h_1 h' | h_2 h' | h_3 h' =>
    obtain ⟨rfl, htail⟩ := List.cons.inj h'
    cases cs with
    | nil => simp_all
    | cons d cs =>
      obtain ⟨rfl, -⟩ := List.cons.inj htail
      cases h
  case h_20 => exact hsome rfl
  all_goals
    rename_i h'
    obtain ⟨rfl, -⟩ := List.cons.inj h'
    exact not_mem_of_symbol? h (by decide)

theorem isNumberStart_of_breaks (h : breaks b = true) : isNumberStart b = false ∧ isExponentMark b = false := by
  have hname := isNameChar_of_breaks h
  refine ⟨?_, ?_⟩
  · by_contra hnumber
    simp only [isNumberStart, Bool.not_eq_false, Bool.or_eq_true, beq_iff_eq] at hnumber
    rcases hnumber with hdigit | rfl
    · simp only [isNameChar, Text.isAlphanumeric, Char.isAlphanum, hdigit, Bool.or_true] at hname
      split at hname
      · simp at hname
      · simp only [Char.isDigit, Bool.and_eq_true, decide_eq_true_eq, UInt32.le_iff_toNat_le] at hdigit
        have : b.toNat ≤ 57 := hdigit.2
        omega
    · exact absurd hname (by decide)
  · by_contra hmark
    simp only [isExponentMark, Bool.not_eq_false, Bool.or_eq_true, beq_iff_eq] at hmark
    rcases hmark with rfl | rfl
    · exact absurd hname (by decide)
    · exact absurd hname (by decide)

theorem numberTail_append (hb : breaks b = true) :
    numberTail c (cs ++ b :: v) = ((numberTail c cs).1, (numberTail c cs).2 ++ b :: v) := by
  induction cs generalizing c with
  | nil =>
    obtain ⟨-, hplus, hminus, -⟩ := ne_of_breaks hb
    simp [numberTail, isNumberStart_of_breaks hb, hplus, hminus]
  | cons d cs ih =>
    simp only [List.cons_append, numberTail, ih]
    split <;> rfl

theorem numberTail_eq (c : Char) (cs : List Char) : (numberTail c cs).1 ++ (numberTail c cs).2 = cs := by
  induction cs generalizing c with
  | nil => rfl
  | cons d cs ih =>
    simp only [numberTail]
    split
    · simp [ih]
    · rfl

theorem dropWhile_append (hb : breaks b = true) :
    (cs ++ b :: v).dropWhile isNameChar = cs.dropWhile isNameChar ++ b :: v := by
  rw [List.dropWhile_append, List.dropWhile_cons_of_neg (by simp [isNameChar_of_breaks hb])]
  split
  · next h => rw [List.isEmpty_iff.1 h]; rfl
  · rfl

theorem takeWhile_append (hb : breaks b = true) :
    (cs ++ b :: v).takeWhile isNameChar = cs.takeWhile isNameChar := by
  rw [List.takeWhile_append, List.takeWhile_cons_of_neg (by simp [isNameChar_of_breaks hb]), List.append_nil]
  split
  · next h => exact (List.IsPrefix.eq_of_length (List.takeWhile_prefix _) h).symm
  · rfl

/-- The token read off the front of a text, and the text after it. -/
def Reads {cs : List Char} (x : Except SyntaxError (Lexed cs)) (t : Token) (rest : List Char) : Prop :=
  ∃ l, x = .ok l ∧ l.token = t ∧ l.rest = rest

theorem reads_lexGroup {opening closing : Char} {delimiter : String} {token : String → Token} :
    Reads (lexGroup opening closing delimiter token c cs) t rest ↔
      ∃ text, group opening closing 0 cs = some (text, rest) ∧ t = token (String.ofList text) := by
  unfold Reads lexGroup
  split
  · next text after h => simp [h, eq_comm, and_comm]
  · next h => simp [h]

theorem reads_lexNumber : Reads (lexNumber c cs) t rest ↔
    ∃ x, Decimal.readFloat? (c :: (numberTail c cs).1) = some x ∧ t = .number x ∧ rest = (numberTail c cs).2 := by
  unfold Reads lexNumber
  dsimp only
  split
  · next x h => simp [h, eq_comm]
  · next h => simp [h]

theorem reads_lexName : Reads (lexName c cs) t rest ↔
    (∃ after args, cs.dropWhile isNameChar = '(' :: after ∧ group '(' ')' 0 after = some (args, rest) ∧
      t = .call (String.ofList (c :: cs.takeWhile isNameChar)) (String.ofList args)) ∨
    (cs.dropWhile isNameChar).head? ≠ some '(' ∧ t = .name (String.ofList (c :: cs.takeWhile isNameChar)) ∧
      rest = cs.dropWhile isNameChar := by
  unfold Reads lexName
  dsimp only
  split
  · next after h =>
    split
    · next args rest' hg => simp [h, hg, eq_comm, and_comm]
    · next hg => simp [h, hg]
  · next h =>
    have hhead : (cs.dropWhile isNameChar).head? ≠ some '(' := fun hhead => by
      obtain ⟨after, hafter⟩ := List.head?_eq_some_iff.1 hhead
      exact h after hafter
    constructor
    · rintro ⟨l, hl, rfl, rfl⟩
      cases hl
      exact .inr ⟨hhead, rfl, rfl⟩
    · rintro (⟨after, -, hafter, -⟩ | ⟨-, rfl, rfl⟩)
      · exact absurd hafter (h after)
      · exact ⟨_, rfl, rfl, rfl⟩

theorem reads_next_of_some {p : Token × List Char} (h : symbol? (c :: cs) = some p) :
    Reads (next c cs) t rest ↔ p = (t, rest) := by
  unfold Reads next
  split
  · next token rest' h' =>
    obtain rfl := Option.some.inj (h.symm.trans h')
    simp [eq_comm]
  · next h' => simp_all

theorem next_of_none (h : symbol? (c :: cs) = none) : next c cs =
    if c = '[' then lexGroup '[' ']' "]" .script c cs
    else if c = '\x7b' then lexGroup '\x7b' '\x7d' "\x7d" .braced c cs
    else if c = '"' then lexGroup '"' '"' "quote" .quoted c cs
    else if isNumberStart c then lexNumber c cs
    else if isNameStart c then lexName c cs
    else .error (.strayCharacter c) := by
  unfold next
  split
  · simp_all
  · rfl

theorem reads_lexGroup_append {opening closing : Char} {delimiter : String} {token : String → Token} :
    Reads (lexGroup opening closing delimiter token c (cs ++ v)) t (rest ++ v) ↔
      Reads (lexGroup opening closing delimiter token c cs) t rest := by
  simp only [reads_lexGroup, group_append]

theorem reads_lexNumber_append (hb : breaks b = true) : Reads (lexNumber c (cs ++ b :: v)) t (rest ++ b :: v) ↔
    Reads (lexNumber c cs) t rest := by
  simp only [reads_lexNumber, numberTail_append hb, List.append_cancel_right_eq]

theorem reads_lexName_append (hb : breaks b = true) : Reads (lexName c (cs ++ b :: v)) t (rest ++ b :: v) ↔
    Reads (lexName c cs) t rest := by
  simp only [reads_lexName, dropWhile_append hb, takeWhile_append hb, List.append_cancel_right_eq]
  cases cs.dropWhile isNameChar with
  | nil => simp [(ne_of_breaks hb).1]
  | cons d after =>
    simp only [List.cons_append, List.cons.injEq, List.head?_cons]
    refine or_congr ?_ Iff.rfl
    constructor
    · rintro ⟨after, args, ⟨rfl, rfl⟩, hgroup, rfl⟩
      exact ⟨_, args, ⟨rfl, rfl⟩, group_append.1 hgroup, rfl⟩
    · rintro ⟨after, args, ⟨rfl, rfl⟩, hgroup, rfl⟩
      exact ⟨_, args, ⟨rfl, rfl⟩, group_append.2 hgroup, rfl⟩

/-- Behind a character that no token goes on with, the reading starts afresh. -/
theorem reads_append (hb : breaks b = true) :
    Reads (next c (cs ++ b :: v)) t (rest ++ b :: v) ↔ Reads (next c cs) t rest := by
  cases h : symbol? (c :: cs) with
  | some p =>
    rw [reads_next_of_some h, reads_next_of_some (symbol?_append_of_some hb h)]
    cases p
    simp
  | none =>
    rw [next_of_none h, next_of_none (symbol?_append_of_none hb h)]
    split
    · exact reads_lexGroup_append
    split
    · exact reads_lexGroup_append
    split
    · exact reads_lexGroup_append
    split
    · exact reads_lexNumber_append hb
    split
    · exact reads_lexName_append hb
    · simp [Reads]

/-! ## Token after token -/

/-- The text falls into these tokens. -/
inductive Lexes : List Char → List Token → Prop
  | nil : Lexes [] []
  | space {c : Char} {cs : List Char} {ts : List Token} : Text.isSpace c = true → Lexes cs ts → Lexes (c :: cs) ts
  | token {c : Char} {cs rest : List Char} {t : Token} {ts : List Token} : Text.isSpace c = false →
    Reads (next c cs) t rest → Lexes rest ts → Lexes (c :: cs) (t :: ts)

theorem tokens_nil : tokens [] = .ok [] := by rw [tokens.eq_def]

theorem tokens_space (hc : Text.isSpace c = true) : tokens (c :: cs) = tokens cs := by
  rw [tokens.eq_def]
  exact if_pos hc

theorem tokens_token (hc : Text.isSpace c = false) : tokens (c :: cs) =
    next c cs >>= fun lexed => tokens lexed.rest >>= fun ts => .ok (lexed.token :: ts) := by
  rw [tokens.eq_def]
  exact if_neg (by simp [hc])

theorem Lexes.tokens_eq (h : Lexes cs ts) : tokens cs = .ok ts := by
  induction h with
  | nil => exact tokens_nil
  | space hc _ ih => rw [tokens_space hc, ih]
  | token hc hread _ ih =>
    obtain ⟨lexed, hlexed, rfl, rfl⟩ := hread
    rw [tokens_token hc, hlexed]
    show (tokens lexed.rest >>= _) = _
    rw [ih]
    rfl

theorem tokens_eq_ok : tokens cs = .ok ts ↔ Lexes cs ts := by
  refine ⟨fun h => ?_, Lexes.tokens_eq⟩
  induction cs using tokens.induct generalizing ts with
  | case1 =>
    rw [tokens_nil] at h
    cases h
    exact .nil
  | case2 c cs hc ih =>
    rw [tokens_space hc] at h
    exact .space hc (ih h)
  | case3 c cs hc ih =>
    have hc : Text.isSpace c = false := Bool.eq_false_of_not_eq_true hc
    simp only [tokens_token hc, bind_ok_iff, Except.ok.injEq] at h
    obtain ⟨lexed, hlexed, ts', hts', rfl⟩ := h
    exact .token hc ⟨lexed, hlexed, rfl, rfl⟩ (ih lexed hts')

/-- The characters a token was read off, and what they do to the count of
parentheses. -/
structure Lexeme (t : Token) (w : List Char) : Prop where
  depth : ∀ d, Balanced '(' ')' t.raw → w.foldlM (depthAfter? '(' ')') d = depthAfter? .opening .closing d t
  closing : t = .closing → w = [')']

theorem lexeme_of_balanced {w : List Char} (h : Balanced '(' ')' t.raw → Balanced '(' ')' w) (ho : t ≠ .opening)
    (hc : t ≠ .closing) : Lexeme t w where
  depth d hraw := by rw [(h hraw).foldlM d, depthAfter?_other ho hc]
  closing ht := absurd ht hc

theorem lexeme_opening : Lexeme .opening ['('] where
  depth d _ := by
    rw [depthAfter?_opening (by simp)]
    rfl
  closing := nofun

theorem lexeme_closing : Lexeme .closing [')'] where
  depth d _ := by cases d <;> simp [bind]
  closing _ := rfl

theorem symbol?_lexeme (h : symbol? (c :: cs) = some (t, rest)) : ∃ w, c :: cs = w ++ rest ∧ Lexeme t w := by
  unfold symbol? at h
  split at h
  case h_20 => cases h
  case h_18 h' =>
    cases h'; cases h
    exact ⟨_, rfl, lexeme_opening⟩
  case h_19 h' =>
    cases h'; cases h
    exact ⟨_, rfl, lexeme_closing⟩
  case h_1 h' | h_2 h' | h_3 h' | h_4 h' | h_5 h' | h_6 h' | h_7 h' | h_8 h' =>
    cases h'; cases h
    exact ⟨[_, _], rfl, lexeme_of_balanced (fun _ => by decide) (by simp) (by simp)⟩
  all_goals
    rename_i h'
    cases h'; cases h
    exact ⟨[_], rfl, lexeme_of_balanced (fun _ => by decide) (by simp) (by simp)⟩

theorem numberTail_balanced (c : Char) (cs : List Char) : Balanced '(' ')' (numberTail c cs).1 := by
  refine balanced_of_others ?_
  induction cs generalizing c with
  | nil => simp [numberTail]
  | cons d cs ih =>
    simp only [numberTail]
    split
    · next h =>
      refine List.forall_mem_cons.2 ⟨?_, ih d⟩
      constructor <;> rintro rfl <;> revert h <;> simp [isNumberStart, isExponentMark]
    · simp

/-- Characters of a kind that has no parentheses. -/
theorem balanced_of_forall {p : Char → Bool} (hopening : p '(' = false) (hclosing : p ')' = false)
    (h : ∀ x ∈ cs, p x = true) : Balanced '(' ')' cs := by
  refine balanced_of_others fun x hx => ⟨?_, ?_⟩
  · intro heq
    rw [← heq, h x hx] at hopening
    cases hopening
  · intro heq
    rw [← heq, h x hx] at hclosing
    cases hclosing

theorem takeWhile_balanced (cs : List Char) : Balanced '(' ')' (cs.takeWhile isNameChar) :=
  balanced_of_forall (by decide) (by decide) fun _ => List.mem_takeWhile_imp

theorem group_lexeme {opening closing : Char} {text : List Char} (h : group opening closing 0 cs = some (text, rest))
    (hc : c ≠ '(' ∧ c ≠ ')') (hclosing : closing ≠ '(' ∧ closing ≠ ')') (hraw : t.raw = text) (ho : t ≠ .opening)
    (ht : t ≠ .closing) : ∃ w, c :: cs = w ++ rest ∧ Lexeme t w := by
  obtain ⟨rfl, -⟩ := group_eq_some.1 h
  refine ⟨c :: text ++ [closing], by simp, lexeme_of_balanced (fun hbalanced => ?_) ho ht⟩
  rw [hraw] at hbalanced
  have hfirst : Balanced '(' ')' [c] := balanced_singleton hc.1 hc.2
  have hlast : Balanced '(' ')' [closing] := balanced_singleton hclosing.1 hclosing.2
  exact (hfirst.append hbalanced).append hlast

theorem number_lexeme (h : Reads (lexNumber c cs) t rest) (hc : isNumberStart c = true) :
    ∃ w, c :: cs = w ++ rest ∧ Lexeme t w := by
  obtain ⟨x, -, rfl, rfl⟩ := reads_lexNumber.1 h
  have hfirst : Balanced '(' ')' [c] :=
    balanced_of_forall (p := isNumberStart) (by decide) (by decide) (by simp [hc])
  refine ⟨c :: (numberTail c cs).1, ?_, lexeme_of_balanced (fun _ => ?_) (by simp) (by simp)⟩
  · rw [List.cons_append, numberTail_eq]
  · exact hfirst.append (numberTail_balanced c cs)

/-- A name ends before the first other character, and a call behind the argument
that starts there. -/
theorem name_lexeme (h : Reads (lexName c cs) t rest) (hc : isNameStart c = true) :
    ∃ w, c :: cs = w ++ rest ∧ Lexeme t w := by
  have hfirst : Balanced '(' ')' [c] :=
    balanced_of_forall (p := isNameStart) (by decide) (by decide) (by simp [hc])
  have hname : Balanced '(' ')' (c :: cs.takeWhile isNameChar) := hfirst.append (takeWhile_balanced cs)
  have hcs : cs.takeWhile isNameChar ++ cs.dropWhile isNameChar = cs := List.takeWhile_append_dropWhile
  obtain ⟨after, args, hafter, hgroup, rfl⟩ | ⟨-, rfl, rfl⟩ := reads_lexName.1 h
  · obtain ⟨rfl, hargs⟩ := group_eq_some.1 hgroup
    rw [hafter] at hcs
    refine ⟨c :: cs.takeWhile isNameChar ++ ('(' :: args ++ [')']), ?_, lexeme_of_balanced (fun _ => ?_) (by simp)
      (by simp)⟩
    · simp [hcs]
    · exact hname.append (Balanced.enclosed hargs (by decide))
  · refine ⟨c :: cs.takeWhile isNameChar, ?_, lexeme_of_balanced (fun _ => hname) (by simp) (by simp)⟩
    rw [List.cons_append, hcs]

/-- A token is read off the characters before the rest. -/
theorem Reads.lexeme (h : Reads (next c cs) t rest) : ∃ w, c :: cs = w ++ rest ∧ Lexeme t w := by
  cases hs : symbol? (c :: cs) with
  | some p =>
    obtain rfl := (reads_next_of_some hs).1 h
    exact symbol?_lexeme hs
  | none =>
    rw [next_of_none hs] at h
    split at h
    · next hc =>
      obtain ⟨text, hgroup, rfl⟩ := reads_lexGroup.1 h
      exact group_lexeme hgroup (by simp [hc]) (by simp) (by simp [Token.raw]) (by simp) (by simp)
    split at h
    · next hc =>
      obtain ⟨text, hgroup, rfl⟩ := reads_lexGroup.1 h
      exact group_lexeme hgroup (by simp [hc]) (by simp) (by simp [Token.raw]) (by simp) (by simp)
    split at h
    · next hc =>
      obtain ⟨text, hgroup, rfl⟩ := reads_lexGroup.1 h
      exact group_lexeme hgroup (by simp [hc]) (by simp) (by simp [Token.raw]) (by simp) (by simp)
    split at h
    · next hc => exact number_lexeme h hc
    split at h
    · next hc => exact name_lexeme h hc
    · obtain ⟨l, hl, -⟩ := h
      cases hl

/-- What is left after a token is the end of the text. -/
theorem Reads.suffix (h : Reads (next c cs) t rest) : rest <:+ cs := by
  obtain ⟨w, hw, -⟩ := h.lexeme
  cases w with
  | nil =>
    obtain ⟨l, -, -, rfl⟩ := h
    have hlength := congrArg List.length hw
    exact absurd hlength.symm (Nat.ne_of_lt l.shorter)
  | cons x w => exact ⟨w, (List.cons.inj hw).2.symm⟩

/-- Only a closing parenthesis is read as one. -/
theorem reads_closing : Reads (next c cs) .closing rest ↔ c = ')' ∧ rest = cs := by
  constructor
  · intro h
    obtain ⟨w, hw, hlexeme⟩ := h.lexeme
    rw [hlexeme.closing rfl] at hw
    obtain ⟨rfl, rfl⟩ := List.cons.inj hw
    exact ⟨rfl, rfl⟩
  · rintro ⟨rfl, rfl⟩
    exact ⟨_, rfl, rfl, rfl⟩

/-- Counted over its characters or over its tokens, a text comes to the same where
the raw texts in it come to nothing. -/
theorem Lexes.depth (h : Lexes cs ts) (hraw : ∀ t ∈ ts, Balanced '(' ')' t.raw) (d : Nat) :
    cs.foldlM (depthAfter? '(' ')') d = ts.foldlM (depthAfter? .opening .closing) d := by
  induction h generalizing d with
  | nil => rfl
  | @space c cs ts hc _ ih =>
    have hspace : Balanced '(' ')' [c] := balanced_of_forall (p := Text.isSpace) (by decide) (by decide) (by simp [hc])
    rw [← List.singleton_append, List.foldlM_append, hspace.foldlM d]
    exact ih hraw d
  | token _ hread _ ih =>
    obtain ⟨ht, hts⟩ := List.forall_mem_cons.1 hraw
    obtain ⟨w, hw, hlexeme⟩ := hread.lexeme
    rw [hw, List.foldlM_append, List.foldlM_cons, hlexeme.depth d ht]
    congr 1
    funext d
    exact ih hts d

/-- Texts that follow each other at a break fall into the tokens of the one and of
the other. -/
theorem Lexes.append (hb : breaks b = true) (h : Lexes u ts) (h' : Lexes (b :: v) ts') :
    Lexes (u ++ b :: v) (ts ++ ts') := by
  induction h with
  | nil => exact h'
  | space hc _ ih => exact .space hc ih
  | token hc hread _ ih => exact .token hc ((reads_append hb).2 hread) ih

theorem Reads.unique {x : Except SyntaxError (Lexed cs)} {t' : Token} {rest' : List Char} (h : Reads x t rest)
    (h' : Reads x t' rest') : t = t' ∧ rest = rest' := by
  obtain ⟨l, rfl, rfl, rfl⟩ := h
  obtain ⟨l', hl, rfl, rfl⟩ := h'
  cases hl
  exact ⟨rfl, rfl⟩

theorem Lexes.of_append (hb : breaks b = true) (h : Lexes u ts) (hall : Lexes (u ++ b :: v) ts') :
    ∃ r, Lexes (b :: v) r ∧ ts' = ts ++ r := by
  induction h generalizing ts' with
  | nil => exact ⟨ts', hall, rfl⟩
  | space hc _ ih =>
    cases hall with
    | space _ hrest => exact ih hrest
    | token hc' => simp [hc] at hc'
  | token hc hread _ ih =>
    cases hall with
    | space hc' => simp [hc] at hc'
    | token _ hread' hrest =>
      obtain ⟨rfl, rfl⟩ := Reads.unique ((reads_append hb).2 hread) hread'
      obtain ⟨r, hr, rfl⟩ := ih hrest
      exact ⟨r, hr, rfl⟩

theorem lexes_closing_cons : Lexes (')' :: v) ts ↔ ∃ r, Lexes v r ∧ ts = .closing :: r := by
  constructor
  · intro h
    cases h with
    | space hc => exact absurd hc (by decide)
    | token hc hread hrest =>
      obtain ⟨l, hl, rfl, rfl⟩ := hread
      cases hl
      exact ⟨_, hrest, rfl⟩
  · rintro ⟨r, hr, rfl⟩
    exact .token (by decide) (reads_closing.2 ⟨rfl, rfl⟩) hr

/-- A closing parenthesis among the tokens is one of the text. -/
theorem Lexes.split {r : List Token} (h : Lexes cs (ts ++ .closing :: r)) :
    ∃ u v, cs = u ++ ')' :: v ∧ Lexes u ts ∧ Lexes v r := by
  generalize hall : ts ++ .closing :: r = all at h
  induction h generalizing ts with
  | nil => simp at hall
  | @space c cs _ hc _ ih =>
    obtain ⟨u, v, rfl, hu, hv⟩ := ih hall
    exact ⟨c :: u, v, rfl, .space hc hu, hv⟩
  | @token c cs rest t all hc hread hrest ih =>
    cases ts with
    | nil =>
      obtain ⟨rfl, rfl⟩ := List.cons.inj hall
      obtain ⟨rfl, rfl⟩ := reads_closing.1 hread
      exact ⟨[], rest, rfl, .nil, hrest⟩
    | cons t' ts =>
      obtain ⟨rfl, htail⟩ := List.cons.inj hall
      obtain ⟨u, v, rfl, hu, hv⟩ := ih htail
      obtain ⟨w, rfl⟩ := hread.suffix
      rw [← List.append_assoc, reads_append (by decide)] at hread
      exact ⟨c :: (w ++ u), v, by simp, .token hc hread hu, hv⟩

/-! ## Names -/

variable {f : String}

/-- A name starts with no digit and no blank. -/
theorem toNat_of_isNameStart (h : isNameStart c = true) :
    c.toNat ∉ List.range' 9 5 ++ List.range' 0x30 10 ++ List.range' 0x2000 11 ++
      [0x20, 0x85, 0xa0, 0x1680, 0x2028, 0x2029, 0x202f, 0x205f, 0x3000] := by
  have hnone : ∀ n ∈ List.range' 9 5 ++ List.range' 0x30 10 ++ List.range' 0x2000 11 ++
      [0x20, 0x85, 0xa0, 0x1680, 0x2028, 0x2029, 0x202f, 0x205f, 0x3000], isNameStart (Char.ofNat n) = false := by
    simp only [isNameStart, Text.isAlphabetic, Text.inRanges_eq]
    decide +kernel
  intro hmem
  have := hnone _ hmem
  rw [Char.ofNat_toNat, h] at this
  cases this

theorem isSpace_of_isNameStart (h : isNameStart c = true) : Text.isSpace c = false := by
  by_contra hspace
  refine toNat_of_isNameStart h ?_
  simp only [Text.isSpace, Bool.not_eq_false, Bool.or_eq_true, Bool.and_eq_true, decide_eq_true_eq,
    beq_iff_eq] at hspace
  simp only [List.mem_append, List.mem_range'_1, List.mem_cons, List.not_mem_nil, or_false]
  omega

theorem isNumberStart_of_isNameStart (h : isNameStart c = true) : isNumberStart c = false := by
  by_contra hnumber
  simp only [isNumberStart, Bool.not_eq_false, Bool.or_eq_true, beq_iff_eq] at hnumber
  rcases hnumber with hdigit | rfl
  · refine toNat_of_isNameStart h ?_
    simp only [Char.isDigit, Bool.and_eq_true, decide_eq_true_eq, UInt32.le_iff_toNat_le] at hdigit
    have h48 : 48 ≤ c.toNat := hdigit.1
    have h57 : c.toNat ≤ 57 := hdigit.2
    simp only [List.mem_append, List.mem_range'_1, List.mem_cons, List.not_mem_nil, or_false]
    omega
  · exact absurd h (by decide)

/-- A character of a kind that no operator and no parenthesis is of. -/
theorem symbol?_of_kind {p : Char → Bool} (hp : "&|=!<>+-*/%^()".toList.any p = false) (h : p c = true) :
    symbol? (c :: cs) = none := by
  rw [List.any_eq_false] at hp
  by_contra hsome
  unfold symbol? at hsome
  split at hsome
  case h_20 => exact hsome rfl
  all_goals
    rename_i heq
    obtain ⟨rfl, -⟩ := List.cons.inj heq
    exact hp _ (by decide) h

theorem symbol?_of_isNameStart (h : isNameStart c = true) : symbol? (c :: cs) = none :=
  symbol?_of_kind (by decide +kernel) h

theorem next_of_isNameStart (h : isNameStart c = true) : next c cs = lexName c cs := by
  have hne : ∀ d, isNameStart d = false → c ≠ d := by
    rintro d hd rfl
    rw [h] at hd
    cases hd
  rw [next_of_none (symbol?_of_isNameStart h), if_neg (hne _ (by decide)), if_neg (hne _ (by decide)),
    if_neg (hne _ (by decide)), if_neg (by simp [isNumberStart_of_isNameStart h]), if_pos h]

theorem exists_of_isName (h : isName f = true) :
    ∃ c cs, f.toList = c :: cs ∧ isNameStart c = true ∧ ∀ x ∈ cs, isNameChar x = true := by
  unfold isName at h
  split at h
  · cases h
  · next c cs hf => exact ⟨c, cs, hf, by simpa using h⟩

/-- A name and what follows it: an argument, or else the end of the name. -/
theorem lexes_name (hname : isName f = true) {b : Char} (hb : isNameChar b = false) :
    Lexes (f.toList ++ b :: cs) ts ↔ ∃ rest t r, Lexes rest r ∧ ts = t :: r ∧
      ((∃ args, b = '(' ∧ group '(' ')' 0 cs = some (args, rest) ∧ t = .call f (String.ofList args)) ∨
        b ≠ '(' ∧ t = .name f ∧ rest = b :: cs) := by
  obtain ⟨c, name, hf, hstart, hchars⟩ := exists_of_isName hname
  have hdrop : (name ++ b :: cs).dropWhile isNameChar = b :: cs := by
    rw [List.dropWhile_append_of_pos hchars, List.dropWhile_cons_of_neg (by simp [hb])]
  have htake : (name ++ b :: cs).takeWhile isNameChar = name := by
    rw [List.takeWhile_append_of_pos hchars, List.takeWhile_cons_of_neg (by simp [hb]), List.append_nil]
  have hofList : String.ofList (c :: name) = f := by rw [← hf, String.ofList_toList]
  have hread {t : Token} {rest : List Char} : Reads (next c (name ++ b :: cs)) t rest ↔
      (∃ args, b = '(' ∧ group '(' ')' 0 cs = some (args, rest) ∧ t = .call f (String.ofList args)) ∨
        b ≠ '(' ∧ t = .name f ∧ rest = b :: cs := by
    rw [next_of_isNameStart hstart, reads_lexName, hdrop, htake, hofList]
    simp
  rw [hf, List.cons_append]
  constructor
  · intro h
    cases h with
    | space hc => simp [isSpace_of_isNameStart hstart] at hc
    | @token _ _ rest t ts _ hr hrest => exact ⟨rest, t, ts, hrest, rfl, hread.1 hr⟩
  · rintro ⟨rest, t, r, hrest, rfl, ht⟩
    exact .token (isSpace_of_isNameStart hstart) (hread.2 ht) hrest

theorem lexes_call (hname : isName f = true) : Lexes (f.toList ++ '(' :: cs) ts ↔
    ∃ args rest r, group '(' ')' 0 cs = some (args, rest) ∧ Lexes rest r ∧
      ts = .call f (String.ofList args) :: r := by
  rw [lexes_name hname (by decide)]
  constructor
  · rintro ⟨rest, t, r, hrest, rfl, ⟨args, -, hgroup, rfl⟩ | ⟨hne, -⟩⟩
    · exact ⟨args, rest, r, hgroup, hrest, rfl⟩
    · exact absurd rfl hne
  · rintro ⟨args, rest, r, hgroup, hrest, rfl⟩
    exact ⟨rest, _, r, hrest, rfl, .inl ⟨args, rfl, hgroup, rfl⟩⟩

theorem lexes_spacedCall (hname : isName f = true) : Lexes (f.toList ++ ' ' :: '(' :: cs) ts ↔
    ∃ r, Lexes cs r ∧ ts = .name f :: .opening :: r := by
  rw [lexes_name hname (by decide)]
  constructor
  · rintro ⟨rest, t, r, hrest, rfl, ⟨args, hb, -⟩ | ⟨-, rfl, rfl⟩⟩
    · exact absurd hb (by decide)
    · cases hrest with
      | token hc => exact absurd hc (by decide)
      | space _ hrest =>
        cases hrest with
        | space hc => exact absurd hc (by decide)
        | token _ hread hrest =>
          obtain ⟨l, hl, rfl, rfl⟩ := hread
          cases hl
          exact ⟨_, hrest, rfl⟩
  · rintro ⟨r, hr, rfl⟩
    refine ⟨_, _, _, .space (by decide) (.token (by decide) ⟨_, rfl, rfl, rfl⟩ hr), rfl, .inr ⟨by decide, rfl, rfl⟩⟩

end Lexer
end VectorEngine
