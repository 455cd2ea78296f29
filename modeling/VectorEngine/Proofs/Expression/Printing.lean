/-
Reading back what was written.

A token can be written in one way or, where it is a number, in several (`Token.Written`).
Whatever it is, the reading takes it as a whole when nothing or a blank follows
(`Token.Written.reads`), so tokens with blanks between them are read back as they are
(`Spaced.lexes`). Wherever the reading stands between two tokens, on the other hand, it
would have come to the same there without the text behind (`Begins.lexes`), and blanks
put in at that place are skipped.
-/
import Mathlib
import VectorEngine.Proofs.Expression.Lexing
import VectorEngine.Proofs.Number.Literal

namespace VectorEngine

/-- White space only. -/
def Text.Blank (cs : List Char) : Prop := ∀ c ∈ cs, isSpace c

instance (cs : List Char) : Decidable (Text.Blank cs) := decidable_of_iff (cs.all Text.isSpace) List.all_eq_true

/-- The source form of a token. -/
inductive Token.Written : Token → List Char → Prop
  | number {x : Float} {literal : List Char} : Decimal.Unsigned literal → Decimal.readFloat? literal = some x →
    Written (.number x) literal
  | name {text : String} : Lexer.isName text → Written (.name text) text.toList
  | call {name args : String} : Lexer.isName name → Lexer.Balanced '(' ')' args.toList →
    Written (.call name args) (name.toList ++ '(' :: args.toList ++ [')'])
  | script {text : String} : Lexer.Balanced '[' ']' text.toList → Written (.script text) ('[' :: text.toList ++ [']'])
  | quoted {text : String} : '"' ∉ text.toList → Written (.quoted text) ('"' :: text.toList ++ ['"'])
  | braced {text : String} : Lexer.Balanced '\x7b' '\x7d' text.toList →
    Written (.braced text) ('\x7b' :: text.toList ++ ['\x7d'])
  | op (o : BinaryOp) : Written (.op o) o.symbol.toList
  | not : Written .not ['!']
  | opening : Written .opening ['(']
  | closing : Written .closing [')']

/-- Tokens one after the other, with blanks between any two. -/
inductive Token.Spaced : List Token → List Char → Prop
  | nil : Spaced [] []
  | single {t : Token} {cs : List Char} : Written t cs → Spaced [t] cs
  | cons {t t' : Token} {ts : List Token} {cs gap rest : List Char} : Written t cs → Text.Blank gap → gap ≠ [] →
    Spaced (t' :: ts) rest → Spaced (t :: t' :: ts) (cs ++ gap ++ rest)

namespace Lexer

variable {b c : Char} {cs gap rest rest' u v w : List Char} {t : Token} {ts : List Token}

/-! ## Blanks -/

theorem breaks_of_isSpace (h : Text.isSpace b = true) : breaks b = true := by
  have hall : ∀ n ∈ List.range' 9 5 ++ List.range' 0x2000 11 ++
      [0x20, 0x85, 0xa0, 0x1680, 0x2028, 0x2029, 0x202f, 0x205f, 0x3000], breaks (Char.ofNat n) = true := by
    simp only [breaks, isNameChar, Text.isAlphanumeric, Text.inRanges_eq]
    decide +kernel
  have hb := hall b.toNat ?_
  · rwa [Char.ofNat_toNat] at hb
  simp only [Text.isSpace, Bool.or_eq_true, Bool.and_eq_true, decide_eq_true_eq, beq_iff_eq] at h
  simp only [List.mem_append, List.mem_range'_1, List.mem_cons, List.not_mem_nil, or_false]
  omega

theorem tokens_blank_append (h : Text.Blank gap) : tokens (gap ++ cs) = tokens cs := by
  induction gap with
  | nil => rfl
  | cons c gap ih =>
    obtain ⟨hc, hgap⟩ := List.forall_mem_cons.1 h
    rw [List.cons_append, tokens_space hc]
    exact ih hgap

/-! ## A token by itself -/

theorem isNumberStart_iff : isNumberStart c = true ↔ c.isDigit = true ∨ c = '.' := by
  simp [isNumberStart]

theorem toNat_of_isNumberStart (h : isNumberStart c = true) : 46 ≤ c.toNat ∧ c.toNat ≤ 57 ∧ c.toNat ≠ 47 := by
  obtain hdigit | rfl := isNumberStart_iff.1 h
  · simp only [Char.isDigit, Bool.and_eq_true, decide_eq_true_eq, UInt32.le_iff_toNat_le] at hdigit
    have h48 : 48 ≤ c.toNat := hdigit.1
    have h57 : c.toNat ≤ 57 := hdigit.2
    omega
  · decide

theorem next_of_isNumberStart (h : isNumberStart c = true) : next c cs = lexNumber c cs := by
  have hne : ∀ d, isNumberStart d = false → c ≠ d := by
    intro d hd heq
    rw [heq, hd] at h
    cases h
  rw [next_of_none (symbol?_of_kind (by decide) h), if_neg (hne _ (by decide)), if_neg (hne _ (by decide)),
    if_neg (hne _ (by decide)), if_pos h]

theorem isSpace_of_isNumberStart (h : isNumberStart c = true) : Text.isSpace c = false := by
  by_contra hspace
  simp only [Text.isSpace, Bool.not_eq_false, Bool.or_eq_true, Bool.and_eq_true, decide_eq_true_eq,
    beq_iff_eq] at hspace
  have := toNat_of_isNumberStart h
  omega

/-- The reading of a number goes on over digits and points. -/
theorem numberTail_of_isNumberStart (h : ∀ x ∈ u, isNumberStart x) (hv : ∀ p, numberTail p v = (v, [])) (p : Char) :
    numberTail p (u ++ v) = (u ++ v, []) := by
  induction u generalizing p with
  | nil => exact hv p
  | cons x u ih =>
    obtain ⟨hx, hu⟩ := List.forall_mem_cons.1 h
    rw [List.cons_append, numberTail, if_pos (by simp [hx]), ih hu]

theorem numberTail_digits (h : ∀ x ∈ u, x.isDigit) (p : Char) : numberTail p u = (u, []) := by
  have := numberTail_of_isNumberStart (v := []) (fun x hx => isNumberStart_iff.2 (.inl (h x hx))) (fun _ => rfl) p
  rwa [List.append_nil] at this

theorem numberTail_exponent (h : Decimal.Exponent v) (p : Char) : numberTail p v = (v, []) := by
  cases h with
  | none => rfl
  | @marked mark digits e hmark hinteger =>
    have hmark : isExponentMark mark = true := by simpa [isExponentMark] using hmark
    have hdigits : numberTail mark digits = (digits, []) := by
      cases hinteger with
      | plain _ h => exact numberTail_digits h mark
      | positive _ h | negative _ h => rw [numberTail, if_pos (by simp [hmark]), numberTail_digits h]
    rw [numberTail, if_pos (by simp [hmark]), hdigits]

/-- The reading of a number takes all of an unsigned one. -/
theorem numberTail_unsigned (h : Decimal.Unsigned w) :
    ∃ c cs, w = c :: cs ∧ isNumberStart c = true ∧ numberTail c cs = (cs, []) := by
  obtain ⟨front, back, rfl, hfront, hback⟩ := h
  have hstarts : front ≠ [] ∧ ∀ x ∈ front, isNumberStart x := by
    cases hfront with
    | whole hne hdigits => exact ⟨hne, fun x hx => isNumberStart_iff.2 (.inl (hdigits x hx))⟩
    | pointed hne hdigits =>
      refine ⟨by simp, fun x hx => isNumberStart_iff.2 ?_⟩
      obtain hx | hx := List.mem_append.1 hx
      · exact .inl (hdigits x (List.mem_append_left _ hx))
      · obtain rfl | hx := List.mem_cons.1 hx
        · exact .inr rfl
        · exact .inl (hdigits x (List.mem_append_right _ hx))
  obtain ⟨hne, hstarts⟩ := hstarts
  obtain ⟨c, cs, rfl⟩ := List.exists_cons_of_ne_nil hne
  obtain ⟨hc, hcs⟩ := List.forall_mem_cons.1 hstarts
  exact ⟨c, cs ++ back, rfl, hc, numberTail_of_isNumberStart hcs (numberTail_exponent hback) c⟩

theorem reads_group {opening closing : Char} {delimiter text : String} {token : String → Token}
    (h : Balanced opening closing text.toList) :
    Reads (lexGroup opening closing delimiter token c (text.toList ++ [closing])) (token text) [] :=
  reads_lexGroup.2 ⟨text.toList, group_eq_some.2 ⟨rfl, h⟩, by rw [String.ofList_toList]⟩

/-- What a token is written as is read as that token, all of it. -/
theorem reads_written (h : t.Written w) :
    ∃ c cs, w = c :: cs ∧ Text.isSpace c = false ∧ Reads (next c cs) t [] := by
  cases h with
  | number hliteral hx =>
    obtain ⟨c, cs, rfl, hc, htail⟩ := numberTail_unsigned hliteral
    refine ⟨c, cs, rfl, isSpace_of_isNumberStart hc, ?_⟩
    rw [next_of_isNumberStart hc, reads_lexNumber, htail]
    exact ⟨_, hx, rfl, rfl⟩
  | @name text hname =>
    obtain ⟨c, cs, htext, hc, hcs⟩ := exists_of_isName hname
    have htake : cs.takeWhile isNameChar = cs := List.takeWhile_eq_self_iff.2 hcs
    have hdrop : cs.dropWhile isNameChar = [] := List.dropWhile_eq_nil_iff.2 hcs
    refine ⟨c, cs, htext, isSpace_of_isNameStart hc, ?_⟩
    rw [next_of_isNameStart hc, reads_lexName, htake, hdrop, ← htext, String.ofList_toList]
    exact .inr ⟨by simp, rfl, rfl⟩
  | @call name args hname hargs =>
    obtain ⟨c, cs, htext, hc, hcs⟩ := exists_of_isName hname
    have hend : isNameChar '(' = false := by decide
    have htake : (cs ++ '(' :: (args.toList ++ [')'])).takeWhile isNameChar = cs := by
      rw [List.takeWhile_append_of_pos hcs, List.takeWhile_cons_of_neg (by simp [hend]), List.append_nil]
    have hdrop : (cs ++ '(' :: (args.toList ++ [')'])).dropWhile isNameChar = '(' :: (args.toList ++ [')']) := by
      rw [List.dropWhile_append_of_pos hcs, List.dropWhile_cons_of_neg (by simp [hend])]
    refine ⟨c, cs ++ '(' :: (args.toList ++ [')']), by simp [htext], isSpace_of_isNameStart hc, ?_⟩
    rw [next_of_isNameStart hc, reads_lexName, htake, hdrop, ← htext, String.ofList_toList]
    exact .inl ⟨_, args.toList, rfl, group_eq_some.2 ⟨rfl, hargs⟩, by rw [String.ofList_toList]⟩
  | @script text htext => exact ⟨'[', text.toList ++ [']'], rfl, by decide, reads_group htext⟩
  | @quoted text htext =>
    refine ⟨'"', text.toList ++ ['"'], rfl, by decide, reads_group (balanced_of_others fun x hx => ?_)⟩
    have hne : x ≠ '"' := fun heq => htext (heq ▸ hx)
    exact ⟨hne, hne⟩
  | @braced text htext => exact ⟨'\x7b', text.toList ++ ['\x7d'], rfl, by decide, reads_group htext⟩
  | op o => cases o <;> exact ⟨_, _, rfl, by decide, _, rfl, rfl, rfl⟩
  | not | opening | closing => exact ⟨_, _, rfl, by decide, _, rfl, rfl, rfl⟩

/-! ## What follows a token -/

/-- `rest'` starts as `rest` does, or else where no token goes on. -/
def Resumes (rest rest' : List Char) : Prop := ∀ x, rest'.head? = some x → breaks x = true ∨ rest.head? = some x

/-- What a token may go on with is not put behind it. -/
theorem Resumes.ne {x : Char} {more : List Char} (hr : Resumes rest (x :: more)) (hb : breaks c = false)
    (h : ∀ more, rest ≠ c :: more) : x ≠ c := by
  intro heq
  subst heq
  obtain hbreaks | hhead := hr x rfl
  · rw [hb] at hbreaks
    cases hbreaks
  · obtain ⟨more, hmore⟩ := List.head?_eq_some_iff.1 hhead
    exact h more hmore

theorem symbol?_resume (hr : Resumes rest rest') (h : symbol? (c :: (w ++ rest)) = some (t, rest)) :
    symbol? (c :: (w ++ rest')) = some (t, rest') := by
  have hsingle : ∀ {x : Char} {cs : List Char}, w ++ cs = x :: cs → w = [x] := fun h =>
    List.append_cancel_right (h.trans List.singleton_append.symm)
  have hnil : ∀ {cs : List Char}, w ++ cs = cs → w = [] := List.append_left_eq_self.1
  have hequal : breaks '=' = false := by decide
  unfold symbol? at h
  split at h
  case h_20 => cases h
  case h_1 h' | h_2 h' | h_3 h' | h_4 h' | h_5 h' | h_6 h' | h_7 h' | h_8 h' =>
    cases h
    obtain ⟨rfl, htail⟩ := List.cons.inj h'
    rw [hsingle htail]
    rfl
  case h_15 hne hne' h' =>
    cases h
    obtain ⟨rfl, htail⟩ := List.cons.inj h'
    rw [hnil htail]
    cases rest' with
    | nil => rfl
    | cons x more => exact symbol?_less (hr.ne hequal hne) (hr.ne (by decide) hne')
  case h_16 hne hne' h' =>
    cases h
    obtain ⟨rfl, htail⟩ := List.cons.inj h'
    rw [hnil htail]
    cases rest' with
    | nil => rfl
    | cons x more => exact symbol?_greater (hr.ne hequal hne) (hr.ne (by decide) hne')
  case h_17 hne h' =>
    cases h
    obtain ⟨rfl, htail⟩ := List.cons.inj h'
    rw [hnil htail]
    cases rest' with
    | nil => rfl
    | cons x more => exact symbol?_not (hr.ne hequal hne)
  all_goals
    rename_i h'
    cases h
    obtain ⟨rfl, htail⟩ := List.cons.inj h'
    rw [hnil htail]
    rfl

/-- A number ends before what it cannot go on with. -/
theorem numberTail_eq_nil : numberTail c cs = ([], cs) ↔ ∀ x, cs.head? = some x →
    ¬(isNumberStart x || isExponentMark x || ((x == '+' || x == '-') && isExponentMark c)) = true := by
  cases cs with
  | nil => exact iff_of_true rfl nofun
  | cons x cs =>
    rw [numberTail]
    split
    · next h => exact iff_of_false (by simp) fun hall => hall x rfl h
    · next h =>
      refine iff_of_true rfl fun y hy => ?_
      obtain rfl := Option.some.inj hy
      exact h

theorem numberTail_resume (hr : Resumes rest rest') (h : numberTail c (w ++ rest) = (w, rest)) :
    numberTail c (w ++ rest') = (w, rest') := by
  induction w generalizing c with
  | nil =>
    rw [List.nil_append, numberTail_eq_nil] at h ⊢
    intro x hx
    obtain hb | hx := hr x hx
    · obtain ⟨-, hplus, hminus, -⟩ := ne_of_breaks hb
      simp [isNumberStart_of_breaks hb, hplus, hminus]
    · exact h x hx
  | cons x w ih =>
    rw [List.cons_append, numberTail] at h ⊢
    split at h
    · next hx =>
      simp only [Prod.mk.injEq, List.cons.injEq, true_and] at h
      rw [if_pos hx, ih (Prod.ext h.1 h.2)]
    · cases h

theorem lexGroup_resume {opening closing : Char} {delimiter : String} {token : String → Token}
    (h : Reads (lexGroup opening closing delimiter token c (w ++ rest)) t rest) :
    Reads (lexGroup opening closing delimiter token c (w ++ rest')) t rest' := by
  have halone : Reads (lexGroup opening closing delimiter token c w) t [] := reads_lexGroup_append.1 h
  exact reads_lexGroup_append.2 halone

theorem lexNumber_resume (hr : Resumes rest rest') (h : Reads (lexNumber c (w ++ rest)) t rest) :
    Reads (lexNumber c (w ++ rest')) t rest' := by
  obtain ⟨x, hx, ht, hrest⟩ := reads_lexNumber.1 h
  have hw : numberTail c (w ++ rest) = (w, rest) := by
    have hcut := numberTail_eq c (w ++ rest)
    rw [← hrest] at hcut
    exact Prod.ext (List.append_cancel_right hcut) hrest.symm
  have hw' := numberTail_resume hr hw
  rw [hw] at hx
  exact reads_lexNumber.2 ⟨x, by rw [hw', hx], ht, by rw [hw']⟩

theorem lexName_resume (hr : Resumes rest rest') (h : Reads (lexName c (w ++ rest)) t rest) :
    Reads (lexName c (w ++ rest')) t rest' := by
  have hcut : (w ++ rest).takeWhile isNameChar ++ (w ++ rest).dropWhile isNameChar = w ++ rest :=
    List.takeWhile_append_dropWhile
  have hchars : ∀ x ∈ (w ++ rest).takeWhile isNameChar, isNameChar x := fun x hx => List.mem_takeWhile_imp hx
  rw [reads_lexName] at h ⊢
  obtain ⟨after, args, hafter, hgroup, rfl⟩ | ⟨hhead, rfl, hrest⟩ := h
  · -- a call ends with its argument, whatever follows
    obtain ⟨rfl, hargs⟩ := group_eq_some.1 hgroup
    generalize (w ++ rest).takeWhile isNameChar = name at hcut hchars ⊢
    have hw : w = name ++ '(' :: (args ++ [')']) := by
      rw [hafter] at hcut
      have hboth : w ++ rest = name ++ '(' :: (args ++ [')']) ++ rest := by simpa using hcut.symm
      exact List.append_cancel_right hboth
    have hend : isNameChar '(' = false := by decide
    have hall : w ++ rest' = name ++ '(' :: (args ++ ')' :: rest') := by simp [hw]
    refine .inl ⟨args ++ ')' :: rest', args, ?_, group_eq_some.2 ⟨rfl, hargs⟩, ?_⟩
    · rw [hall, List.dropWhile_append_of_pos hchars, List.dropWhile_cons_of_neg (by simp [hend])]
    · rw [hall, List.takeWhile_append_of_pos hchars, List.takeWhile_cons_of_neg (by simp [hend]), List.append_nil]
  · have hw : (w ++ rest).takeWhile isNameChar = w := by
      rw [← hrest] at hcut
      exact List.append_cancel_right hcut
    rw [hw] at hchars ⊢
    rw [← hrest] at hhead
    have hstop : rest.dropWhile isNameChar = rest := by
      rw [← List.dropWhile_append_of_pos hchars, ← hrest]
    have hends : ∀ x, rest'.head? = some x → isNameChar x = false ∧ x ≠ '(' := by
      intro x hx
      obtain hb | hx := hr x hx
      · exact ⟨isNameChar_of_breaks hb, (ne_of_breaks hb).1⟩
      · refine ⟨?_, fun heq => hhead (heq ▸ hx)⟩
        obtain ⟨more, rfl⟩ := List.head?_eq_some_iff.1 hx
        by_contra hname
        rw [List.dropWhile_cons_of_pos (by simpa using hname)] at hstop
        have := dropWhile_shorter isNameChar more
        rw [hstop, List.length_cons] at this
        omega
    have hstop' : rest'.takeWhile isNameChar = [] ∧ rest'.dropWhile isNameChar = rest' := by
      cases rest' with
      | nil => exact ⟨rfl, rfl⟩
      | cons x more =>
        have hx : ¬isNameChar x = true := by simp [hends x rfl]
        exact ⟨List.takeWhile_cons_of_neg hx, List.dropWhile_cons_of_neg hx⟩
    rw [List.takeWhile_append_of_pos hchars, List.dropWhile_append_of_pos hchars, hstop'.1, hstop'.2, List.append_nil]
    exact .inr ⟨fun h => (hends _ h).2 rfl, rfl, rfl⟩

/-- A token is read the same whatever follows it, as long as it does not go on. -/
theorem Reads.resume (hr : Resumes rest rest') (h : Reads (next c (w ++ rest)) t rest) :
    Reads (next c (w ++ rest')) t rest' := by
  cases hs : symbol? (c :: (w ++ rest)) with
  | some p =>
    obtain rfl := (reads_next_of_some hs).1 h
    exact (reads_next_of_some (symbol?_resume hr hs)).2 rfl
  | none =>
    rw [next_of_none hs] at h
    split at h
    · next hc =>
      subst hc
      exact lexGroup_resume h
    split at h
    · next hc =>
      subst hc
      exact lexGroup_resume h
    split at h
    · next hc =>
      subst hc
      exact lexGroup_resume h
    split at h
    · next hc =>
      rw [next_of_isNumberStart hc]
      exact lexNumber_resume hr h
    split at h
    · next hc =>
      rw [next_of_isNameStart hc]
      exact lexName_resume hr h
    · obtain ⟨l, hl, -⟩ := h
      cases hl

theorem resumes_blank (h : Text.Blank gap) (hne : gap ≠ []) : Resumes rest (gap ++ rest') := by
  obtain ⟨b, gap, rfl⟩ := List.exists_cons_of_ne_nil hne
  intro x hx
  obtain rfl := Option.some.inj hx
  exact .inl (breaks_of_isSpace (h b List.mem_cons_self))

theorem Resumes.append (h : Resumes rest rest') (u : List Char) : Resumes (u ++ rest) (u ++ rest') := by
  cases u with
  | nil => exact h
  | cons x u => exact fun y hy => .inr hy

/-! ## Token after token -/

/-- Reading the text, which `rest` follows, takes these tokens off it and stands
before `rest` then. -/
inductive Reaches (rest : List Char) : List Char → List Token → Prop
  | nil : Reaches rest [] []
  | space {c : Char} {cs : List Char} {ts : List Token} : Text.isSpace c = true → Reaches rest cs ts →
    Reaches rest (c :: cs) ts
  | token {c : Char} {w cs : List Char} {t : Token} {ts : List Token} : Text.isSpace c = false →
    Reads (next c (w ++ (cs ++ rest))) t (cs ++ rest) → Reaches rest cs ts → Reaches rest (c :: (w ++ cs)) (t :: ts)

theorem tokens_of_reads (hc : Text.isSpace c = false) (h : Reads (next c cs) t rest) :
    tokens (c :: cs) = (tokens rest).map (t :: ·) := by
  obtain ⟨l, hl, rfl, rfl⟩ := h
  rw [tokens_token hc, hl]
  show (tokens l.rest >>= _) = _
  cases tokens l.rest <;> rfl

theorem Reaches.tokens_eq (h : Reaches rest cs ts) : tokens (cs ++ rest) = (tokens rest).map (ts ++ ·) := by
  induction h with
  | nil =>
    rw [List.nil_append]
    cases tokens rest <;> rfl
  | space hc _ ih => rw [List.cons_append, tokens_space hc, ih]
  | token hc hread _ ih =>
    rw [List.cons_append, List.append_assoc, tokens_of_reads hc hread, ih]
    cases tokens rest <;> rfl

/-- Where the reading stands depends on nothing behind the next character. -/
theorem Reaches.resume (h : Reaches rest cs ts) (hr : Resumes rest rest') : Reaches rest' cs ts := by
  induction h with
  | nil => exact .nil
  | space hc _ ih => exact .space hc ih
  | @token _ _ cs _ _ hc hread _ ih => exact .token hc (hread.resume (hr.append cs)) ih

theorem Reaches.blank_append (hgap : Text.Blank gap) (h : Reaches rest cs ts) : Reaches rest (gap ++ cs) ts := by
  induction gap with
  | nil => exact h
  | cons c gap ih =>
    obtain ⟨hc, hgap⟩ := List.forall_mem_cons.1 hgap
    exact .space hc (ih hgap)

theorem Reaches.append (h : Reaches (v ++ rest) u ts) {ts' : List Token} (h' : Reaches rest v ts') :
    Reaches rest (u ++ v) (ts ++ ts') := by
  induction h with
  | nil => exact h'
  | space hc _ ih => exact .space hc ih
  | @token c w cs t ts hc hread _ ih =>
    rw [List.cons_append, List.append_assoc]
    exact .token hc (by rwa [List.append_assoc]) ih

theorem reaches_written (h : t.Written w) : Reaches [] w [t] := by
  obtain ⟨c, cs, rfl, hc, hread⟩ := reads_written h
  have hread' : Reads (next c (cs ++ [])) t [] := by
    rw [List.append_nil]
    exact hread
  have hall : Reaches [] (c :: (cs ++ [])) [t] := .token hc hread' .nil
  rwa [List.append_nil] at hall

/-- Tokens with blanks between them are read one after the other. -/
theorem reaches_spaced (h : Token.Spaced ts cs) : Reaches [] cs ts := by
  induction h with
  | nil => exact .nil
  | single hwritten => exact reaches_written hwritten
  | @cons _ _ _ _ gap more hwritten hgap hne _ ih =>
    have hresumes : Resumes [] (gap ++ more ++ []) := by
      rw [List.append_assoc]
      exact resumes_blank hgap hne
    rw [List.append_assoc]
    exact ((reaches_written hwritten).resume hresumes).append (ih.blank_append hgap)

/-- Blanks where the reading stands between two tokens are skipped. -/
theorem Reaches.tokens_insert (h : Reaches rest cs ts) (hgap : Text.Blank gap) :
    tokens (cs ++ gap ++ rest) = tokens (cs ++ rest) := by
  cases gap with
  | nil => rw [List.append_nil]
  | cons b gap =>
    have h' : Reaches (b :: gap ++ rest) cs ts := h.resume (resumes_blank hgap (List.cons_ne_nil b gap))
    rw [List.append_assoc, h'.tokens_eq, h.tokens_eq, tokens_blank_append hgap]

/-! ## Blanks at the end -/

theorem group_append_of_none {opening closing : Char} {d : Nat} (hclosing : closing ∉ v)
    (h : group opening closing d cs = none) : group opening closing d (cs ++ v) = none := by
  rw [Option.eq_none_iff_forall_ne_some] at h ⊢
  intro ⟨text, rest⟩ hgroup
  obtain ⟨hcs, hcount⟩ := group_eq_some.1 hgroup
  obtain ⟨more, htext, hmore⟩ | ⟨more, htext, hmore⟩ := List.append_eq_append_iff.1 hcs
  · -- the closing delimiter would be one of `v`
    exact hclosing (by rw [hmore]; exact List.mem_append_right _ List.mem_cons_self)
  · cases more with
    | nil => exact hclosing (by rw [← List.nil_append v, ← hmore]; exact List.mem_cons_self)
    | cons x more =>
      obtain ⟨rfl, -⟩ := List.cons.inj hmore
      exact h (text, more) (group_eq_some.2 ⟨htext, hcount⟩)

theorem lexGroup_error {opening closing : Char} {delimiter : String} {token : String → Token} {e : SyntaxError} :
    lexGroup opening closing delimiter token c cs = .error e ↔
      group opening closing 0 cs = none ∧ e = .unclosed delimiter := by
  unfold lexGroup
  split
  · next h => simp [h]
  · next h => simp [h, eq_comm]

theorem lexNumber_error {e : SyntaxError} : lexNumber c cs = .error e ↔
    Decimal.readFloat? (c :: (numberTail c cs).1) = none ∧
      e = .badNumber (String.ofList (c :: (numberTail c cs).1)) := by
  unfold lexNumber
  dsimp only
  split
  · next h => simp [h]
  · next h => simp [h, eq_comm]

theorem lexName_error {e : SyntaxError} : lexName c cs = .error e ↔
    ∃ after, cs.dropWhile isNameChar = '(' :: after ∧ group '(' ')' 0 after = none ∧ e = .unclosed ")" := by
  unfold lexName
  dsimp only
  split
  · next after h =>
    split
    · next hgroup => simp [h, hgroup]
    · next hgroup => simp [h, hgroup, eq_comm]
  · next h =>
    constructor
    · intro hok
      cases hok
    · intro herror
      obtain ⟨after, hafter, -⟩ := herror
      exact absurd hafter (h after)

theorem ne_of_blank (hgap : Text.Blank gap) (hc : Text.isSpace c = false) : c ∉ gap := by
  intro hmem
  rw [hgap c hmem] at hc
  cases hc

/-- Blanks close no group. -/
theorem lexGroup_append_error {opening closing : Char} {delimiter : String} {token : String → Token} {e : SyntaxError}
    (hgap : Text.Blank gap) (hclosing : Text.isSpace closing = false)
    (h : lexGroup opening closing delimiter token c cs = .error e) :
    lexGroup opening closing delimiter token c (cs ++ gap) = .error e := by
  obtain ⟨hgroup, he⟩ := lexGroup_error.1 h
  exact lexGroup_error.2 ⟨group_append_of_none (ne_of_blank hgap hclosing) hgroup, he⟩

/-- What is wrong at a place in a text is wrong there with blanks at the end, too. -/
theorem next_append_error {e : SyntaxError} (hgap : Text.Blank (b :: v)) (h : next c cs = .error e) :
    next c (cs ++ b :: v) = .error e := by
  have hb : breaks b = true := breaks_of_isSpace (hgap b List.mem_cons_self)
  cases hs : symbol? (c :: cs) with
  | some p =>
    obtain ⟨l, hl, -⟩ := (reads_next_of_some hs).2 (Prod.eta p).symm
    rw [h] at hl
    cases hl
  | none =>
    rw [next_of_none hs] at h
    rw [next_of_none (symbol?_append_of_none hb hs)]
    split at h
    · next hc =>
      rw [if_pos hc]
      exact lexGroup_append_error hgap (by decide) h
    rw [if_neg ‹_›]
    split at h
    · next hc =>
      rw [if_pos hc]
      exact lexGroup_append_error hgap (by decide) h
    rw [if_neg ‹_›]
    split at h
    · next hc =>
      rw [if_pos hc]
      exact lexGroup_append_error hgap (by decide) h
    rw [if_neg ‹_›]
    split at h
    · next hc =>
      rw [if_pos hc, lexNumber_error, numberTail_append hb]
      exact lexNumber_error.1 h
    rw [if_neg ‹_›]
    split at h
    · next hc =>
      rw [if_pos hc, lexName_error, dropWhile_append hb]
      obtain ⟨after, hafter, hgroup, he⟩ := lexName_error.1 h
      exact ⟨after ++ b :: v, by rw [hafter, List.cons_append],
        group_append_of_none (ne_of_blank hgap (by decide)) hgroup, he⟩
    · rw [if_neg ‹_›]
      cases h
      rfl

theorem tokens_append_blank (hgap : Text.Blank gap) : tokens (cs ++ gap) = tokens cs := by
  cases gap with
  | nil => rw [List.append_nil]
  | cons b gap =>
    have hb : breaks b = true := breaks_of_isSpace (hgap b List.mem_cons_self)
    induction cs using tokens.induct with
    | case1 =>
      have hblank : tokens (b :: gap ++ []) = tokens [] := tokens_blank_append hgap
      rwa [List.append_nil] at hblank
    | case2 c cs hc ih => rw [List.cons_append, tokens_space hc, tokens_space hc, ih]
    | case3 c cs hc ih =>
      have hc : Text.isSpace c = false := Bool.eq_false_of_not_eq_true hc
      cases hnext : next c cs with
      | error e =>
        rw [List.cons_append, tokens_token hc, tokens_token hc, hnext, next_append_error hgap hnext]
        rfl
      | ok l =>
        have hread : Reads (next c cs) l.token l.rest := ⟨l, hnext, rfl, rfl⟩
        rw [List.cons_append, tokens_of_reads hc hread, tokens_of_reads hc ((reads_append hb).2 hread), ih l]

/-- Tokens that are written with blanks between them are read back as they are.
Blanks at the ends of a text, or where the reading stands between two of its
tokens, change neither what it falls into nor what is wrong with it. -/
theorem tokenize_spaced :
    (∀ (ts : List Token) (text : String), Token.Spaced ts text.toList → tokenize text = .ok ts) ∧
    (∀ text front back : String, Text.Blank front.toList → Text.Blank back.toList →
      tokenize (front ++ text ++ back) = tokenize text) ∧
    ∀ (text gap rest : String) (ts : List Token), Reaches rest.toList text.toList ts → Text.Blank gap.toList →
      tokenize (text ++ gap ++ rest) = tokenize (text ++ rest) := by
  refine ⟨?_, ?_, ?_⟩
  · intro ts text h
    have hall := (reaches_spaced h).tokens_eq
    rw [List.append_nil, tokens_nil] at hall
    rw [tokenize, hall]
    simp [Except.map]
  · intro text front back hfront hback
    rw [tokenize, String.toList_append, String.toList_append, tokens_append_blank hback, tokens_blank_append hfront]
    rfl
  · intro text gap rest ts h hgap
    rw [tokenize, tokenize, String.toList_append, String.toList_append, String.toList_append, h.tokens_insert hgap]

/-- Neighbours that would run together: two halves of an operator, a name and a
parenthesis, delimiters of other kinds inside a group, the exponent of a number. -/
theorem tokenize_spaced_neighbours :
    tokenize "< == ! == é.1: ( f((])) [a[(]] \"\x7b\" 2.5e-3 - .5" = .ok [.op .less, .op .equal, .not, .op .equal,
      .name "é.1:", .opening, .call "f" "(])", .script "a[(]", .quoted "\x7b", .number 0.0025, .op .sub, .number 0.5] ∧
    tokenize (" " ++ "-x" ++ "\n") = tokenize "-x" ∧ tokenize ("-" ++ "\t" ++ "x") = tokenize ("-" ++ "x") := by
  have hspace : Text.Blank [' '] := by decide +kernel
  have hdigits : ∀ {cs : List Char}, cs.all Char.isDigit = true → ∀ c ∈ cs, c.isDigit := fun h => List.all_eq_true.1 h
  have hnumber : Token.Written (.number 0.0025) "2.5e-3".toList :=
    .number ⟨"2.5".toList, "e-3".toList, rfl, @Decimal.Significand.pointed ['2'] ['5'] (by simp) (hdigits rfl),
      .marked (.inl rfl) (.negative (by simp) (hdigits rfl))⟩ (by decide +kernel)
  have hpoint : Token.Written (.number 0.5) ".5".toList :=
    .number ⟨".5".toList, [], rfl, @Decimal.Significand.pointed [] ['5'] (by simp) (hdigits rfl), .none⟩
      (by decide +kernel)
  refine ⟨tokenize_spaced.1 _ _ ?_, tokenize_spaced.2.1 _ _ _ (by decide +kernel) (by decide +kernel),
    tokenize_spaced.2.2 _ _ _ [.op .sub] ?_ (by decide +kernel)⟩
  · have htext : "< == ! == é.1: ( f((])) [a[(]] \"\x7b\" 2.5e-3 - .5".toList = "<".toList ++ [' '] ++ ("==".toList ++ [' '] ++
        ("!".toList ++ [' '] ++ ("==".toList ++ [' '] ++ ("é.1:".toList ++ [' '] ++ ("(".toList ++ [' '] ++
        (("f".toList ++ '(' :: "(])".toList ++ [')']) ++ [' '] ++ (('[' :: "a[(]".toList ++ [']']) ++ [' '] ++
        (('"' :: "\x7b".toList ++ ['"']) ++ [' '] ++ ("2.5e-3".toList ++ [' '] ++ ("-".toList ++ [' '] ++
        ".5".toList)))))))))) := by decide
    rw [htext]
    refine .cons (.op .less) hspace (by simp) (.cons (.op .equal) hspace (by simp) (.cons .not hspace (by simp)
      (.cons (.op .equal) hspace (by simp) (.cons (.name (by decide +kernel)) hspace (by simp)
      (.cons .opening hspace (by simp) (.cons (.call (by decide +kernel) (by decide)) hspace (by simp)
      (.cons (.script (by decide)) hspace (by simp) (.cons (.quoted (by decide)) hspace (by simp)
      (.cons hnumber hspace (by simp) (.cons (.op .sub) hspace (by simp) (.single hpoint)))))))))))
  · exact @Reaches.token _ '-' [] [] (.op .sub) [] (by decide) ⟨_, rfl, rfl, rfl⟩ .nil

end Lexer
end VectorEngine
