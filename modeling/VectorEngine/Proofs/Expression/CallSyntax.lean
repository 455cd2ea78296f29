/-
The two ways to write a call.

`f(a)` keeps its argument as text, which ends at the parenthesis found by counting
characters, and reads that text on its own; `f (a)` reads its argument with all
else, up to the parenthesis found by counting tokens. What the first reads the
second reads as well, as the same tree, for a tree stays what it is when its first
primary is replaced by another one of the same tree (`Derives.front`). The first
fails alone where parentheses inside quoted, bracketed or braced text put the count
of characters out.
-/
import Mathlib
import VectorEngine.Proofs.Expression.Lexing
import VectorEngine.Proofs.Expression.Parsing

namespace VectorEngine

open Lexer (Balanced Lexes)

variable {functions : FunctionTable} {function : MathFunction} {s t : Stratum} {ts r : List Token} {e arg : Tree}
  {n k : Nat} {f : String}

namespace Derives

/-- In what is derived, parentheses pair up. -/
theorem balanced (h : Derives functions s ts e n) : Balanced .opening .closing ts := by
  induction h with
  | single _ _ ih => exact ih
  | unsigned _ ih => exact ih
  | binary _ _ _ _ ihl ihr => exact ihl.append ((Lexer.balanced_singleton (by simp) (by simp)).append ihr)
  | minus _ ih => exact (Lexer.balanced_singleton (by simp) (by simp)).append ih
  | not _ ih => exact (Lexer.balanced_singleton (by simp) (by simp)).append ih
  | enclosed _ ih => exact ih.enclosed (by simp)
  | applied _ _ ih => exact (Lexer.balanced_singleton (by simp) (by simp)).append (ih.enclosed (by simp))
  | _ => exact Lexer.balanced_singleton (by simp) (by simp)

theorem operand_ne_primary (h : s.operand? = some t) : t ≠ .primary := by
  cases s <;> cases h <;> simp

/-- What starts with no sign starts with a primary, for which any other one of the
same tree may stand. -/
theorem front (h : Derives functions s ts e n) (hs : s ≠ .primary) (hsub : ts.head? ≠ some (.op .sub))
    (hnot : ts.head? ≠ some .not) : ∃ a r x k, ts = a ++ r ∧ r.head? ≠ some .opening ∧
      Derives functions .primary a x k ∧ ∀ b, Derives functions .primary b x k → Derives functions s (b ++ r) e n := by
  induction h with
  | single ht _ ih =>
    obtain ⟨a, r, x, k, rfl, hr, ha, hreplace⟩ := ih (operand_ne_primary ht) hsub hnot
    exact ⟨a, r, x, k, rfl, hr, ha, fun b hb => .single ht (hreplace b hb)⟩
  | @binary s t o left right l r' m n' ht ho hleft hright ihl _ =>
    have hhead : (left ++ .op o :: right).head? = left.head? := by
      cases left with
      | nil => exact absurd rfl hleft.ne_nil
      | cons => rfl
    obtain ⟨a, r, x, k, rfl, hr, ha, hreplace⟩ := ihl hs (hhead ▸ hsub) (hhead ▸ hnot)
    refine ⟨a, r ++ .op o :: right, x, k, by simp, ?_, ha, fun b hb => ?_⟩
    · cases r with
      | nil => simp
      | cons => exact hr
    · rw [← List.append_assoc]
      exact .binary ht ho (hreplace b hb) hright
  | minus => exact absurd rfl hsub
  | not => exact absurd rfl hnot
  | @unsigned ts x k h _ =>
    exact ⟨ts, [], x, k, by simp, by simp, h, fun b hb => by simpa using .unsigned hb⟩
  | _ => exact absurd rfl hs

/-- Written with a blank, a call may be written without one, if its argument is. -/
theorem called_of_applied (h : Derives functions .or (.name f :: .opening :: ts) e n) :
    ∃ inner r arg k, ts = inner ++ .closing :: r ∧ Derives functions .or inner arg k ∧
      ∀ args, Lexer.tokenize args = .ok inner → Derives functions .or (.call f args :: r) e n := by
  obtain ⟨a, r, x, k, hts, hr, ha, hreplace⟩ := h.front (by simp) (by simp) (by simp)
  cases ha with
  | single ht | binary ht => cases ht
  | @applied name function inner arg k hfind hinner =>
    simp only [List.cons_append, List.append_assoc, List.nil_append, List.cons.injEq, Token.name.injEq,
      true_and] at hts
    obtain ⟨rfl, rfl⟩ := hts
    exact ⟨inner, r, arg, k, rfl, hinner, fun args hargs => hreplace _ (.called hfind hargs hinner)⟩
  | vector name =>
    simp only [List.cons_append, List.nil_append, List.cons.injEq] at hts
    exact absurd (by rw [← hts.2]; rfl) hr
  | _ => simp at hts

/-- Written without a blank, a call may be written with one. -/
theorem applied_of_called {args : String} (hf : functions.find? f = some function)
    (h : Derives functions .or (.call f args :: r) e n) : ∃ inner arg k, Lexer.tokenize args = .ok inner ∧
      Derives functions .or inner arg k ∧
      Derives functions .or (.name f :: .opening :: (inner ++ .closing :: r)) e n := by
  obtain ⟨a, r', x, k, hts, -, ha, hreplace⟩ := h.front (by simp) (by simp) (by simp)
  cases ha with
  | single ht | binary ht => cases ht
  | @called name args function inner arg k hfind hargs hinner =>
    simp only [List.cons_append, List.nil_append, List.cons.injEq, Token.call.injEq] at hts
    obtain ⟨⟨rfl, rfl⟩, rfl⟩ := hts
    have happlied := hreplace _ (.applied hfind hinner)
    exact ⟨inner, arg, k, hargs, hinner, by simpa using happlied⟩
  | indexed index hnone => simp_all
  | _ => simp at hts

end Derives

namespace Parser

theorem parse_iff_lexes {source : String} : parse source functions = .ok e ↔
    ∃ ts, Lexes source.toList ts ∧ Within functions maxNesting .or ts e := by
  rw [parse_eq_ok]
  constructor
  · rintro ⟨k, hk⟩
    obtain ⟨ts, hts, -⟩ := whole_eq_ok.1 hk
    exact ⟨ts, Lexer.tokens_eq_ok.1 hts, ((whole_operand hts).1 hk).2⟩
  · rintro ⟨ts, hts, hwithin⟩
    exact ⟨_, (whole_operand hts.tokens_eq).2 ⟨rfl, hwithin⟩⟩

/-- `f (a)` is read as `e`, and `u` is the argument of `f` there. -/
def Applies (functions : FunctionTable) (f a : String) (e : Tree) (u : List Char) (inner : List Token) : Prop :=
  ∃ v r, a.toList ++ [')'] = u ++ ')' :: v ∧ Lexes u inner ∧ Balanced .opening .closing inner ∧ Lexes v r ∧
    Within functions maxNesting .or (.name f :: .opening :: (inner ++ .closing :: r)) e

theorem parse_spacedCall (hname : Lexer.isName f = true) {a : String} :
    parse (f ++ " (" ++ a ++ ")") functions = .ok e ↔ ∃ u inner, Applies functions f a e u inner := by
  have htext : (f ++ " (" ++ a ++ ")").toList = f.toList ++ ' ' :: '(' :: (a.toList ++ [')']) := by simp
  simp only [parse_iff_lexes, htext, Lexer.lexes_spacedCall hname]
  constructor
  · rintro ⟨_, ⟨r, hr, rfl⟩, n, hderives, hlimits⟩
    obtain ⟨inner, r, arg, k, rfl, hinner, -⟩ := hderives.called_of_applied
    obtain ⟨u, v, ha, hu, hv⟩ := hr.split
    exact ⟨u, inner, v, r, ha, hu, hinner.balanced, hv, n, hderives, hlimits⟩
  · rintro ⟨u, inner, v, r, ha, hu, -, hv, hwithin⟩
    rw [ha]
    exact ⟨_, ⟨_, hu.append (by decide) (Lexer.lexes_closing_cons.2 ⟨r, hv, rfl⟩), rfl⟩, hwithin⟩

/-- Without the blank, the parentheses of the argument have to pair up as
characters too. -/
theorem parse_call (hf : functions.find? f = some function) (hname : Lexer.isName f = true) {a : String} :
    parse (f ++ "(" ++ a ++ ")") functions = .ok e ↔
      ∃ u inner, Applies functions f a e u inner ∧ Balanced '(' ')' u := by
  have htext : (f ++ "(" ++ a ++ ")").toList = f.toList ++ '(' :: (a.toList ++ [')']) := by simp
  simp only [parse_iff_lexes, htext, Lexer.lexes_call hname, Lexer.group_eq_some]
  constructor
  · rintro ⟨_, ⟨u, v, r, ⟨ha, hbalanced⟩, hv, rfl⟩, n, hderives, hlimits⟩
    obtain ⟨inner, arg, k, htokens, hinner, happlied⟩ := hderives.applied_of_called hf
    have hu : Lexes u inner := Lexer.tokens_eq_ok.1 (by simpa [Lexer.tokenize] using htokens)
    exact ⟨u, inner, ⟨v, r, ha, hu, hinner.balanced, hv, n, happlied, hlimits⟩, hbalanced⟩
  · rintro ⟨u, inner, ⟨v, r, ha, hu, hinner, hv, n, happlied, hlimits⟩, hbalanced⟩
    obtain ⟨inner', r', arg, k, hsplit, hinner', hcalled⟩ := happlied.called_of_applied
    obtain ⟨rfl, rfl⟩ := Lexer.eq_of_append_cons hsplit
      (fun _ h => Lexer.not_balanced_append hinner (h ▸ hinner'.balanced))
      (fun _ h => Lexer.not_balanced_append hinner'.balanced (h ▸ hinner))
    have htokens : Lexer.tokenize (String.ofList u) = .ok inner := by simpa [Lexer.tokenize] using hu.tokens_eq
    exact ⟨_, ⟨u, v, r, ⟨ha, hbalanced⟩, hv, rfl⟩, n, hcalled _ htokens, hlimits⟩

/-- No argument goes on behind the parenthesis that closes it. -/
theorem ne_append_of_balanced {u u' : List Char} {ts ts' : List Token} (hu : Lexes u ts) (hu' : Lexes u' ts')
    (h : Balanced .opening .closing ts) (h' : Balanced .opening .closing ts') (w : List Char) :
    u' ≠ u ++ ')' :: w := by
  rintro rfl
  obtain ⟨r, hr, rfl⟩ := hu.of_append (by decide) hu'
  obtain ⟨r, -, rfl⟩ := Lexer.lexes_closing_cons.1 hr
  exact Lexer.not_balanced_append h h'

theorem Applies.eq {a : String} {u u' v' : List Char} {inner inner' : List Token}
    (h : Applies functions f a e u inner) (ha : a.toList ++ [')'] = u' ++ ')' :: v') (hu' : Lexes u' inner')
    (hinner' : Balanced .opening .closing inner') : u = u' := by
  obtain ⟨v, r, ha', hu, hinner, -⟩ := h
  exact (Lexer.eq_of_append_cons (ha'.symm.trans ha) (ne_append_of_balanced hu hu' hinner hinner')
    (ne_append_of_balanced hu' hu hinner' hinner)).1

/-- Where what is taken over as it stands has its parentheses paired, those of the
argument pair up as characters. -/
theorem Applies.balanced {a : String} {u : List Char} {inner : List Token} (h : Applies functions f a e u inner)
    (hraw : ∀ ts, Lexer.tokenize (a ++ ")") = .ok ts → ∀ t ∈ ts, Balanced '(' ')' t.raw) : Balanced '(' ')' u := by
  obtain ⟨v, r, ha, hu, hinner, hv, -⟩ := h
  have hall : Lexes (a ++ ")").toList (inner ++ .closing :: r) := by
    have htext : (a ++ ")").toList = u ++ ')' :: v := by simpa using ha
    rw [htext]
    exact hu.append (by decide) (Lexer.lexes_closing_cons.2 ⟨r, hv, rfl⟩)
  have hdepth := hu.depth (fun t ht => hraw _ hall.tokens_eq t (by simp [ht])) 0
  exact hdepth.trans hinner

/-- **The two ways to write a call.** What `f(a)` is read as `f (a)` is read as too.
The two agree unless `f (a)` can be read and its argument, the text up to the
parenthesis that closes it among the tokens, has other parentheses than those,
which do not pair up with them. -/
theorem call_syntaxes_agree_iff (hf : functions.find? f = some function) (hname : Lexer.isName f = true) (a : String) :
    (∀ e, parse (f ++ "(" ++ a ++ ")") functions = .ok e → parse (f ++ " (" ++ a ++ ")") functions = .ok e) ∧
    ((∀ e, parse (f ++ "(" ++ a ++ ")") functions = .ok e ↔ parse (f ++ " (" ++ a ++ ")") functions = .ok e) ↔
      ∀ e u v ts, parse (f ++ " (" ++ a ++ ")") functions = .ok e → a.toList ++ [')'] = u ++ ')' :: v →
        Lexer.tokens u = .ok ts → Balanced .opening .closing ts → Balanced '(' ')' u) ∧
    ((∀ ts, Lexer.tokenize (a ++ ")") = .ok ts → ∀ t ∈ ts, Balanced '(' ')' t.raw) →
      ∀ e, parse (f ++ "(" ++ a ++ ")") functions = .ok e ↔ parse (f ++ " (" ++ a ++ ")") functions = .ok e) := by
  have hcalled : ∀ e, parse (f ++ "(" ++ a ++ ")") functions = .ok e →
      parse (f ++ " (" ++ a ++ ")") functions = .ok e := fun e h => by
    obtain ⟨u, inner, happlies, -⟩ := (parse_call hf hname).1 h
    exact (parse_spacedCall hname).2 ⟨u, inner, happlies⟩
  refine ⟨hcalled, ⟨fun hagree e u v ts h ha hts hbalanced => ?_, fun hpaired e => ⟨hcalled e, fun h => ?_⟩⟩,
    fun hraw e => ⟨hcalled e, fun h => ?_⟩⟩
  · obtain ⟨u', inner, happlies, hu'⟩ := (parse_call hf hname).1 ((hagree e).2 h)
    rwa [happlies.eq ha (Lexer.tokens_eq_ok.1 hts) hbalanced] at hu'
  · obtain ⟨u, inner, happlies⟩ := (parse_spacedCall hname).1 h
    obtain ⟨v, r, ha, hu, hinner, -⟩ := id happlies
    exact (parse_call hf hname).2 ⟨u, inner, happlies, hpaired e u v inner h ha hu.tokens_eq hinner⟩
  · obtain ⟨u, inner, happlies⟩ := (parse_spacedCall hname).1 h
    exact (parse_call hf hname).2 ⟨u, inner, happlies, happlies.balanced hraw⟩

/-- Parentheses that pair up inside a quoted text do no harm. -/
theorem call_syntaxes_agree_iff_quotedPair : FunctionTable.initial.find? "mean" = some (.statistic .mean) ∧
    Lexer.isName "mean" = true ∧
    Lexer.tokenize ("x + \"()\"" ++ ")") = .ok [.name "x", .op .add, .quoted "()", .closing] ∧
    ∀ e, parse ("mean" ++ "(" ++ "x + \"()\"" ++ ")") .initial = .ok e ↔
      parse ("mean" ++ " (" ++ "x + \"()\"" ++ ")") .initial = .ok e := by
  have hmean : FunctionTable.initial.find? "mean" = some (.statistic .mean) := rfl
  have htokens : Lexer.tokenize ("x + \"()\"" ++ ")") = .ok [.name "x", .op .add, .quoted "()", .closing] := by
    decide +kernel
  refine ⟨hmean, by decide, htokens, (call_syntaxes_agree_iff hmean (by decide) "x + \"()\"").2.2 ?_⟩
  intro ts hts
  obtain rfl := Except.ok.inj (htokens.symm.trans hts)
  decide

/-- A parenthesis alone in a quoted text does: without the blank, the call is not
closed. -/
theorem not_agree_quotedParenthesis : FunctionTable.initial.find? "mean" = some (.statistic .mean) ∧
    Lexer.isName "mean" = true ∧
    parse ("mean" ++ "(" ++ "\"(\"" ++ ")") .initial = .error (.unclosed ")") ∧
    parse ("mean" ++ " (" ++ "\"(\"" ++ ")") .initial = .ok (.call "mean" (.statistic .mean) (.quoted "(")) := by
  have hmean : FunctionTable.initial.find? "mean" = some (.statistic .mean) := rfl
  have hcalled : Lexer.tokenize ("mean" ++ "(" ++ "\"(\"" ++ ")") = .error (.unclosed ")") := by decide +kernel
  have hspaced : Lexer.tokenize ("mean" ++ " (" ++ "\"(\"" ++ ")") =
      .ok [.name "mean", .opening, .quoted "(", .closing] := by decide +kernel
  refine ⟨hmean, by decide, ?_, ?_⟩
  · unfold parse whole
    rw [hcalled]
    rfl
  · have hquoted : Derives .initial .or [.quoted "("] (.quoted "(") 1 :=
      Derives.loosen (.unsigned (.quoted "(")) (by decide) (by decide)
    have hderives : Derives .initial .or [.name "mean", .opening, .quoted "(", .closing] _ 2 :=
      Derives.loosen (.unsigned (.applied hmean hquoted)) (by decide) (by decide)
    exact parse_iff_lexes.2 ⟨_, Lexer.tokens_eq_ok.1 hspaced, 2, hderives, by decide, by decide⟩

end Parser
end VectorEngine
