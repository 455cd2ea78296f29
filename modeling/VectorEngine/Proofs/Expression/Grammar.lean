/-
The grammar of expressions, and that it is unambiguous.

Binary operators are ordered into strata, and on each they bind to the left; the
operands of the tightest one carry signs, and under the signs stand the
primaries. `Derives` says which tree some tokens have, and how many operands lie
in each other there: a parenthesis, a call and a sign open one each, in
arguments that are kept as text as well. No limit is set on either.

Tokens have at most one tree (`Derives.unique`). The grammar is left-recursive, so
this is proved along the chain of operators that follows the leftmost operand
(`Derives.leads`).
-/
import Mathlib
import VectorEngine.Expression.Parser

namespace VectorEngine

/-- The strata of expressions, the loosest first. -/
inductive Stratum
  | or
  | and
  | equality
  | relational
  | shift
  | additive
  | multiplicative
  | power
  | unary
  | primary
deriving DecidableEq, Repr

/-- The place of a stratum in that order. -/
def Stratum.rank : Stratum → Nat
  | or => 0
  | and => 1
  | equality => 2
  | relational => 3
  | shift => 4
  | additive => 5
  | multiplicative => 6
  | power => 7
  | unary => 8
  | primary => 9

/-- What the operands of a binary operator are on a stratum that has one. -/
def Stratum.operand? : Stratum → Option Stratum
  | or => some and
  | and => some equality
  | equality => some relational
  | relational => some shift
  | shift => some additive
  | additive => some multiplicative
  | multiplicative => some power
  | power => some unary
  | unary | primary => none

/-- The stratum a binary operator belongs to. -/
def BinaryOp.stratum : BinaryOp → Stratum
  | or => .or
  | and => .and
  | equal | notEqual => .equality
  | less | lessEq | greater | greaterEq => .relational
  | shiftLeft | shiftRight => .shift
  | add | sub => .additive
  | mul | div | mod => .multiplicative
  | pow => .power

/-- On a stratum the tokens have this tree, and this many operands lie in each
other at most. -/
inductive Derives (functions : FunctionTable) : Stratum → List Token → Tree → Nat → Prop
  | single {s t : Stratum} {ts : List Token} {e : Tree} {n : Nat} : s.operand? = some t →
    Derives functions t ts e n → Derives functions s ts e n
  | binary {s t : Stratum} {o : BinaryOp} {left right : List Token} {l r : Tree} {m n : Nat} :
    s.operand? = some t → o.stratum = s → Derives functions s left l m → Derives functions t right r n →
    Derives functions s (left ++ .op o :: right) (.binary o l r) (max m n)
  | minus {ts : List Token} {e : Tree} {n : Nat} : Derives functions .unary ts e n →
    Derives functions .unary (.op .sub :: ts) (.unary .neg e) (n + 1)
  | not {ts : List Token} {e : Tree} {n : Nat} : Derives functions .unary ts e n →
    Derives functions .unary (.not :: ts) (.unary .not e) (n + 1)
  | unsigned {ts : List Token} {e : Tree} {n : Nat} : Derives functions .primary ts e n →
    Derives functions .unary ts e (n + 1)
  | number (x : Float) : Derives functions .primary [.number x] (.number x) 0
  | enclosed {ts : List Token} {e : Tree} {n : Nat} : Derives functions .or ts e n →
    Derives functions .primary (.opening :: ts ++ [.closing]) e n
  | applied {name : String} {function : MathFunction} {ts : List Token} {e : Tree} {n : Nat} :
    functions.find? name = some function → Derives functions .or ts e n →
    Derives functions .primary (.name name :: .opening :: ts ++ [.closing]) (.call name function e) n
  /-- The argument is kept as text, which is an expression of its own. -/
  | called {name args : String} {function : MathFunction} {ts : List Token} {e : Tree} {n : Nat} :
    functions.find? name = some function → Lexer.tokenize args = .ok ts → Derives functions .or ts e n →
    Derives functions .primary [.call name args] (.call name function e) n
  | indexed {name : String} (index : String) : functions.find? name = none →
    Derives functions .primary [.call name index] (.indexed name index) 0
  | vector (name : String) : Derives functions .primary [.name name] (.vector name) 0
  | script (text : String) : Derives functions .primary [.script text] (.script text) 0
  | quoted (text : String) : Derives functions .primary [.quoted text] (.quoted text) 0
  | braced (text : String) : Derives functions .primary [.braced text] (.braced text) 0

/-- From the tree of the tokens before, the operators of a stratum and their
right operands lead to this tree. -/
inductive Chains (functions : FunctionTable) (s : Stratum) : Tree → Nat → List Token → Tree → Nat → Prop
  | nil (e : Tree) (n : Nat) : Chains functions s e n [] e n
  | cons {t : Stratum} {o : BinaryOp} {l r e : Tree} {m k n : Nat} {right ts : List Token} : s.operand? = some t →
    o.stratum = s → Derives functions t right r k → Chains functions s (.binary o l r) (max m k) ts e n →
    Chains functions s l m (.op o :: right ++ ts) e n

namespace Stratum

variable {s t : Stratum} {ts : List Token}

theorem rank_operand (h : s.operand? = some t) : t.rank = s.rank + 1 := by
  cases s <;> cases h <;> rfl

theorem eq_of_rank_eq (h : s.rank = t.rank) : s = t := by
  cases s <;> cases t <;> first | rfl | exact absurd h (by decide)

theorem operand_of_rank_lt (h : s.rank < t.rank) (ht : t ≠ primary) : ∃ u, s.operand? = some u := by
  have hs : s.rank < 8 := by cases t <;> simp_all [rank] <;> omega
  cases s <;> first | exact ⟨_, rfl⟩ | exact absurd hs (by decide)

/-- What follows an operand of the stratum: no parenthesis, and no operator that
binds tighter. -/
def Follows (s : Stratum) (ts : List Token) : Prop :=
  ts.head? ≠ some .opening ∧ ∀ o, ts.head? = some (.op o) → o.stratum.rank ≤ s.rank

/-- What follows an expression of the stratum: no operator of the stratum either. -/
def Stops (s : Stratum) (ts : List Token) : Prop :=
  ts.head? ≠ some .opening ∧ ∀ o, ts.head? = some (.op o) → o.stratum.rank < s.rank

theorem Stops.follows (h : s.Stops ts) : s.Follows ts := ⟨h.1, fun o ho => Nat.le_of_lt (h.2 o ho)⟩

theorem Follows.stops (h : s.Follows ts) (ht : s.operand? = some t) : t.Stops ts := by
  refine ⟨h.1, fun o ho => ?_⟩
  have := h.2 o ho
  rw [rank_operand ht]
  omega

theorem Stops.op_ne {o : BinaryOp} (h : s.Stops (.op o :: ts)) : o.stratum ≠ s := by
  rintro rfl
  exact Nat.lt_irrefl _ (h.2 o rfl)

theorem stops_nil (s : Stratum) : s.Stops [] := by simp [Stops]

theorem stops_closing (s : Stratum) (ts : List Token) : s.Stops (.closing :: ts) := by simp [Stops]

/-- An operator follows the operands of its stratum. -/
theorem follows_op {o : BinaryOp} (h : o.stratum = s) (ts : List Token) : s.Follows (.op o :: ts) := by
  subst h
  simp [Follows]

theorem rank_stratum_lt (o : BinaryOp) : o.stratum.rank < unary.rank := by cases o <;> decide

/-- Signs and primaries are followed by any operator. -/
theorem Follows.stops_unary (h : s.Follows ts) : unary.Stops ts := ⟨h.1, fun o _ => rank_stratum_lt o⟩

theorem Follows.stops_primary (h : s.Follows ts) : primary.Stops ts :=
  ⟨h.1, fun o _ => Nat.lt_trans (rank_stratum_lt o) (by decide)⟩

end Stratum

variable {functions : FunctionTable} {s t : Stratum} {ts a b r r' : List Token} {e e' l : Tree} {m n n' : Nat}

namespace Chains

/-- A chain goes on with one more operator. -/
theorem snoc {o : BinaryOp} {right : List Token} {x : Tree} {k : Nat} (h : Chains functions s l m ts e n)
    (ht : s.operand? = some t) (ho : o.stratum = s) (hright : Derives functions t right x k) :
    Chains functions s l m (ts ++ .op o :: right) (.binary o e x) (max n k) := by
  induction h with
  | nil e n =>
    have hone := Chains.cons (l := e) (m := n) ht ho hright (.nil _ _)
    rwa [List.append_nil] at hone
  | cons ht' ho' hright' _ ih =>
    rw [List.cons_append, List.cons_append, List.append_assoc]
    exact .cons ht' ho' hright' ih

/-- Where no operator of the stratum follows, the chain has ended. -/
theorem eq_nil (h : Chains functions s l m ts e n) (hs : s.Stops (ts ++ r)) : ts = [] ∧ e = l ∧ n = m := by
  cases h with
  | nil => exact ⟨rfl, rfl, rfl⟩
  | cons _ ho _ _ => exact absurd ho hs.op_ne

/-- What a chain begins with follows an operand of the stratum. -/
theorem stops_operand (h : Chains functions s l m ts e n) (ht : s.operand? = some t) (hr : s.Stops r) :
    t.Stops (ts ++ r) := by
  cases h with
  | nil => exact hr.follows.stops ht
  | cons _ ho _ _ =>
    rw [List.cons_append, List.cons_append]
    exact (Stratum.follows_op ho _).stops ht

/-- Along a chain the tree grows, and so does the number of operands in each other. -/
theorem le (h : Chains functions s l m ts e n) : l.height ≤ e.height ∧ m ≤ n := by
  induction h with
  | nil => exact ⟨Nat.le_refl _, Nat.le_refl _⟩
  | cons _ _ _ _ ih =>
    simp only [Tree.height] at ih
    omega

end Chains

/-- Whatever else the tokens up to a stop derive starts with these, and goes on
with operators of the stratum. -/
def Leads (functions : FunctionTable) (s : Stratum) (a : List Token) (e : Tree) (n : Nat) : Prop :=
  ∀ b e' n' r r', Derives functions s b e' n' → a ++ r = b ++ r' → s.Follows r → s.Stops r' →
    ∃ c, r = c ++ r' ∧ b = a ++ c ∧ Chains functions s e n c e' n'

/-- Where the stratum ends with the tokens, nothing else is derived. -/
theorem Leads.unique (h : Leads functions s a e n) (hb : Derives functions s b e' n') (hab : a ++ r = b ++ r')
    (hr : s.Stops r) (hr' : s.Stops r') : a = b ∧ e = e' ∧ n = n' ∧ r = r' := by
  obtain ⟨c, rfl, rfl, hchain⟩ := h _ _ _ _ _ hb hab hr.follows hr'
  obtain ⟨rfl, rfl, rfl⟩ := hchain.eq_nil hr
  exact ⟨(List.append_nil a).symm, rfl, rfl, rfl⟩

namespace Derives

/-- The leftmost operand, and the operators after it. -/
theorem leftmost (h : Derives functions s ts e n) (ht : s.operand? = some t) : ∃ a b l m, ts = a ++ b ∧
    Derives functions t a l m ∧ Chains functions s l m b e n := by
  induction h with
  | @single s t' ts e n ht' h =>
    obtain rfl : t' = t := Option.some.inj (ht'.symm.trans ht)
    exact ⟨ts, [], e, n, (List.append_nil _).symm, h, .nil e n⟩
  | binary ht' ho _ hright ihl _ =>
    obtain ⟨a, b, l, m, rfl, ha, hb⟩ := ihl ht
    exact ⟨a, _, l, m, List.append_assoc _ _ _, ha, hb.snoc ht' ho hright⟩
  | _ => cases ht

/-- An expression of a stratum, other than a primary, is one of every looser stratum. -/
theorem loosen {s : Stratum} (h : Derives functions t ts e n) (ht : t ≠ .primary) (hst : s.rank ≤ t.rank) :
    Derives functions s ts e n := by
  by_cases hrank : s.rank = t.rank
  · exact Stratum.eq_of_rank_eq hrank ▸ h
  · obtain ⟨u, hu⟩ := Stratum.operand_of_rank_lt (Nat.lt_of_le_of_ne hst hrank) ht
    have := Stratum.rank_operand hu
    exact .single hu (h.loosen ht (by omega))
termination_by t.rank - s.rank

theorem ne_nil (h : Derives functions s ts e n) : ts ≠ [] := by
  induction h with
  | single _ _ ih => exact ih
  | unsigned _ ih => exact ih
  | _ => simp

theorem head?_of_append (h : Derives functions s b e n) {token : Token} {rest : List Token}
    (hb : token :: rest = b ++ r) : b.head? = some token := by
  cases b with
  | nil => exact absurd rfl h.ne_nil
  | cons x b =>
    rw [(List.cons.inj hb).1]
    rfl

/-- A primary starts with no operator. -/
theorem primary_head (h : Derives functions .primary b e n) {token : Token} (hb : b.head? = some token) :
    (∀ o, token ≠ .op o) ∧ token ≠ .not := by
  cases h with
  | single ht | binary ht => cases ht
  | _ =>
    cases hb
    simp

/-- A token that is all of every primary it starts. -/
theorem leads_token {token : Token} (htoken : ∀ {b e' n'}, Derives functions .primary b e' n' →
    b.head? = some token → b = [token] ∧ e' = e ∧ n' = n) : Leads functions .primary [token] e n := by
  intro b e' n' r r' hb hab _ _
  obtain ⟨rfl, rfl, rfl⟩ := htoken hb (hb.head?_of_append hab)
  exact ⟨[], (List.cons.inj hab).2, rfl, .nil _ _⟩

/-- A sign, after which all that starts with it goes on with an operand. -/
theorem leads_sign {token : Token} {f : Tree → Tree} (hsign : ∀ {b e' n'}, Derives functions .unary b e' n' →
      b.head? = some token → ∃ c x k, b = token :: c ∧ Derives functions .unary c x k ∧ e' = f x ∧ n' = k + 1)
    (h : Leads functions .unary a e n) : Leads functions .unary (token :: a) (f e) (n + 1) := by
  intro b e' n' r r' hb hab hr hr'
  obtain ⟨c, x, k, rfl, hc, rfl, rfl⟩ := hsign hb (hb.head?_of_append hab)
  obtain ⟨rfl, rfl, rfl, rfl⟩ := h.unique hc (List.cons.inj hab).2 hr.stops_unary hr'
  exact ⟨[], rfl, (List.append_nil _).symm, .nil _ _⟩

/-- An operand goes on with the operators of its stratum. -/
theorem leads_single (ht : s.operand? = some t) (h : Leads functions t a e n) : Leads functions s a e n := by
  intro b e' n' r r' hb hab hr hr'
  obtain ⟨b, c, l, m, rfl, hb, hchain⟩ := hb.leftmost ht
  rw [List.append_assoc] at hab
  obtain ⟨rfl, rfl, rfl, hrest⟩ := h.unique hb hab (hr.stops ht) (hchain.stops_operand ht hr')
  exact ⟨c, hrest, rfl, hchain⟩

/-- What starts with the left side goes on with the operator and its right side. -/
theorem leads_binary {o : BinaryOp} {left right : List Token} {l x : Tree} {m k : Nat} (ht : s.operand? = some t)
    (ho : o.stratum = s) (hleft : Leads functions s left l m) (hright : Leads functions t right x k) :
    Leads functions s (left ++ .op o :: right) (.binary o l x) (max m k) := by
  intro b e' n' r r' hb hab hr hr'
  rw [List.append_assoc] at hab
  obtain ⟨c, hc, rfl, hchain⟩ := hleft _ _ _ _ _ hb hab (Stratum.follows_op ho _) hr'
  cases hchain with
  | nil =>
    rw [List.cons_append, List.nil_append] at hc
    subst hc
    exact absurd ho hr'.op_ne
  | @cons t' o' _ x' _ _ k' _ right' ts ht' ho' hright' hrest =>
    obtain rfl : t' = t := Option.some.inj (ht'.symm.trans ht)
    simp only [List.cons_append, List.append_assoc, List.cons.injEq, Token.op.injEq] at hc
    obtain ⟨rfl, hc⟩ := hc
    obtain ⟨rfl, rfl, rfl, hr⟩ := hright.unique hright' hc (hr.stops ht) (hrest.stops_operand ht hr')
    exact ⟨ts, hr, by simp, hrest⟩

/-- **Tokens derive one tree, as far as they go.** -/
theorem leads (h : Derives functions s a e n) : Leads functions s a e n := by
  induction h with
  | single ht _ ih => exact leads_single ht ih
  | binary ht ho _ _ ihl ihr => exact leads_binary ht ho ihl ihr
  | minus _ ih =>
    refine leads_sign (fun hb hhead => ?_) ih
    cases hb with
    | single ht | binary ht => cases ht
    | minus hb => exact ⟨_, _, _, rfl, hb, rfl, rfl⟩
    | not => cases hhead
    | unsigned hb => exact absurd rfl ((hb.primary_head hhead).1 _)
  | not _ ih =>
    refine leads_sign (fun hb hhead => ?_) ih
    cases hb with
    | single ht | binary ht => cases ht
    | minus => cases hhead
    | not hb => exact ⟨_, _, _, rfl, hb, rfl, rfl⟩
    | unsigned hb => exact absurd rfl (hb.primary_head hhead).2
  | unsigned ha ih =>
    intro b e' n' r r' hb hab hr hr'
    cases hb with
    | single ht | binary ht => cases ht
    | minus => exact absurd rfl ((ha.primary_head (ha.head?_of_append hab.symm)).1 _)
    | not => exact absurd rfl (ha.primary_head (ha.head?_of_append hab.symm)).2
    | unsigned hb =>
      obtain ⟨rfl, rfl, rfl, rfl⟩ := ih.unique hb hab hr.stops_primary hr'.follows.stops_primary
      exact ⟨[], rfl, (List.append_nil _).symm, .nil _ _⟩
  | enclosed _ ih =>
    intro b e' n' r r' hb hab hr hr'
    cases hb with
    | single ht | binary ht => cases ht
    | enclosed hb =>
      simp only [List.cons_append, List.append_assoc, List.cons.injEq, true_and, List.nil_append] at hab
      obtain ⟨rfl, rfl, rfl, hr⟩ := ih.unique hb hab (Stratum.stops_closing _ _) (Stratum.stops_closing _ _)
      exact ⟨[], (List.cons.inj hr).2, (List.append_nil _).symm, .nil _ _⟩
    | _ => simp at hab
  | applied hf _ ih =>
    intro b e' n' r r' hb hab hr hr'
    cases hb with
    | single ht | binary ht => cases ht
    | applied hf' hb =>
      simp only [List.cons_append, List.append_assoc, List.cons.injEq, Token.name.injEq, true_and,
        List.nil_append] at hab
      obtain ⟨rfl, hab⟩ := hab
      obtain rfl := Option.some.inj (hf.symm.trans hf')
      obtain ⟨rfl, rfl, rfl, hr⟩ := ih.unique hb hab (Stratum.stops_closing _ _) (Stratum.stops_closing _ _)
      exact ⟨[], (List.cons.inj hr).2, (List.append_nil _).symm, .nil _ _⟩
    | vector =>
      simp only [List.cons_append, List.cons.injEq, List.nil_append] at hab
      exact absurd (by rw [← hab.2]; rfl) hr'.1
    | _ => simp at hab
  | vector name =>
    intro b e' n' r r' hb hab hr hr'
    cases hb with
    | single ht | binary ht => cases ht
    | applied =>
      simp only [List.cons_append, List.cons.injEq, List.nil_append] at hab
      exact absurd (by rw [hab.2]; rfl) hr.1
    | vector =>
      simp only [List.cons_append, List.cons.injEq, Token.name.injEq, List.nil_append] at hab
      obtain ⟨rfl, rfl⟩ := hab
      exact ⟨[], rfl, rfl, .nil _ _⟩
    | _ => simp at hab
  | called hf ht _ ih =>
    refine leads_token fun hb hhead => ?_
    cases hb with
    | single ht | binary ht => cases ht
    | called hf' ht' hb =>
      simp only [List.head?_cons, Option.some.injEq, Token.call.injEq] at hhead
      obtain ⟨rfl, rfl⟩ := hhead
      obtain rfl := Option.some.inj (hf.symm.trans hf')
      obtain rfl := Except.ok.inj (ht.symm.trans ht')
      obtain ⟨-, rfl, rfl, -⟩ := ih.unique hb rfl (Stratum.stops_nil _) (Stratum.stops_nil _)
      exact ⟨rfl, rfl, rfl⟩
    | indexed _ hnone =>
      simp_all
    | _ => simp at hhead
  | indexed index hnone =>
    refine leads_token fun hb hhead => ?_
    cases hb with
    | single ht | binary ht => cases ht
    | _ => simp_all
  | number | script | quoted | braced =>
    refine leads_token fun hb hhead => ?_
    cases hb with
    | single ht | binary ht => cases ht
    | _ => simp_all

/-- **Tokens have at most one tree.** -/
theorem unique (h : Derives functions s ts e n) (h' : Derives functions s ts e' n') : e = e' ∧ n = n' := by
  obtain ⟨-, he, hn, -⟩ := h.leads.unique h' rfl (Stratum.stops_nil s) (Stratum.stops_nil s)
  exact ⟨he, hn⟩

end Derives
end VectorEngine
