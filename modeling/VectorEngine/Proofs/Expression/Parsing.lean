/-
The parser reads what the grammar derives, and nothing else.

A rule of the parser belongs to a stratum of the grammar. It is sound if what it
reads off the front of some tokens is derived there, within the limits
(`Sound`), and complete if it reads whatever is derived up to a stop
(`Complete`). A level is both as soon as the rule for its operands is
(`Sound.level`, `Complete.level`), so an expression is as soon as an operand is,
and operands are by induction on how many may still lie in each other.
-/
import Mathlib
import VectorEngine.Proofs.Expression.Grammar
import VectorEngine.Proofs.Outcome

namespace VectorEngine.Parser

variable {functions : FunctionTable} {s t : Stratum} {rule next : Rule} {operators : List BinaryOp}
  {ts ts' rest : List Token} {e l r : Tree} {budget k m n : Nat}

/-! ## What is read -/

/-- The tree read, its height as the parser counts it, and the tokens left. -/
def Yields (x : Except SyntaxError (Parsed ts)) (e : Tree) (k : Nat) (rest : List Token) : Prop :=
  ∃ p, x = .ok p ∧ p.tree = e ∧ p.height = k ∧ p.rest = rest

/-- The same of what a level has read when no operator of it follows any more. -/
def Extends (operators : List BinaryOp) (next : Rule) (l : Tree) (m : Nat) (ts : List Token) (e : Tree) (k : Nat)
    (rest : List Token) : Prop :=
  ∃ c, chain operators next l m ts = .ok c ∧ c.tree = e ∧ c.height = k ∧ c.rest = rest

theorem taller_eq_ok : taller m = .ok k ↔ m < maxHeight ∧ k = m + 1 := by
  unfold taller
  split
  · next h => simp [h, eq_comm]
  · next h => simp [h]

theorem operator?_eq_some {token : Token} {o : BinaryOp} (h : operator? operators token = some o) :
    token = .op o ∧ o ∈ operators := by
  unfold operator? at h
  split at h
  · split at h
    · next ho =>
      cases h
      exact ⟨rfl, ho⟩
    · cases h
  · cases h

theorem extends_end (h : ∀ o, ts.head? = some (.op o) → o ∉ operators) :
    Extends operators next l m ts e k rest ↔ e = l ∧ k = m ∧ rest = ts := by
  cases ts with
  | nil => simp [Extends, chain, eq_comm]
  | cons token ts =>
    have hnone : operator? operators token = none := by
      refine Option.eq_none_iff_forall_ne_some.2 fun o ho => ?_
      obtain ⟨rfl, hmem⟩ := operator?_eq_some ho
      exact h o rfl hmem
    unfold Extends
    rw [chain, hnone]
    simp [eq_comm]

theorem extends_op {o : BinaryOp} (ho : o ∈ operators) : Extends operators next l m (.op o :: ts) e k rest ↔
    ∃ r i mid, Yields (next ts) r i mid ∧ max m i < maxHeight ∧
      Extends operators next (.binary o l r) (max m i + 1) mid e k rest := by
  have hsome : operator? operators (.op o) = some o := if_pos ho
  unfold Extends Yields
  rw [chain, hsome]
  simp only [bind_ok_iff, taller_eq_ok, pure, Except.pure, Except.ok.injEq]
  constructor
  · rintro ⟨c, ⟨p, hp, i, ⟨hi, rfl⟩, c', hc', rfl⟩, rfl, rfl, rfl⟩
    exact ⟨p.tree, p.height, p.rest, ⟨p, hp, rfl, rfl, rfl⟩, hi, c', hc', rfl, rfl, rfl⟩
  · rintro ⟨r, i, mid, ⟨p, hp, rfl, rfl, rfl⟩, hi, c', hc', rfl, rfl, rfl⟩
    exact ⟨_, ⟨p, hp, _, ⟨hi, rfl⟩, c', hc', rfl⟩, rfl, rfl, rfl⟩

theorem yields_level : Yields (level operators next ts) e k rest ↔
    ∃ l m mid, Yields (next ts) l m mid ∧ Extends operators next l m mid e k rest := by
  unfold Extends Yields level
  simp only [bind_ok_iff, pure, Except.pure, Except.ok.injEq]
  constructor
  · rintro ⟨_, ⟨p, hp, c, hc, rfl⟩, rfl, rfl, rfl⟩
    exact ⟨_, _, _, ⟨p, hp, rfl, rfl, rfl⟩, c, hc, rfl, rfl, rfl⟩
  · rintro ⟨_, _, _, ⟨p, hp, rfl, rfl, rfl⟩, c, hc, rfl, rfl, rfl⟩
    exact ⟨_, ⟨p, hp, c, hc, rfl⟩, rfl, rfl, rfl⟩

theorem yields_enclosed : Yields (enclosed rule ts) e k rest ↔ Yields (expression rule ts) e k (.closing :: rest) := by
  unfold Yields enclosed
  simp only [bind_ok_iff]
  constructor
  · rintro ⟨p, ⟨q, hq, hp⟩, rfl, rfl, rfl⟩
    split at hp
    · next hrest =>
      cases hp
      exact ⟨q, hq, rfl, rfl, hrest⟩
    · cases hp
  · rintro ⟨⟨_, _, _, _⟩, hq, rfl, rfl, rfl⟩
    exact ⟨_, ⟨_, hq, rfl⟩, rfl, rfl, rfl⟩

theorem yields_leaf {token : Token} : Yields (leaf l token ts) e k rest ↔ e = l ∧ k = 1 ∧ rest = ts := by
  simp [Yields, leaf, eq_comm]

theorem yields_node {wrap : Tree → Tree} {x : Except SyntaxError (Parsed ts')} (h : ts'.length ≤ ts.length) :
    Yields (x >>= fun p => node wrap h p) e k rest ↔
      ∃ y i, Yields x y i rest ∧ i < maxHeight ∧ e = wrap y ∧ k = i + 1 := by
  unfold Yields node
  simp only [bind_ok_iff, taller_eq_ok, pure, Except.pure, Except.ok.injEq]
  constructor
  · rintro ⟨_, ⟨p, hp, i, ⟨hi, rfl⟩, rfl⟩, rfl, rfl, rfl⟩
    exact ⟨_, _, ⟨p, hp, rfl, rfl, rfl⟩, hi, rfl, rfl⟩
  · rintro ⟨_, _, ⟨p, hp, rfl, rfl, rfl⟩, hi, rfl, rfl⟩
    exact ⟨_, ⟨p, hp, _, ⟨hi, rfl⟩, rfl⟩, rfl, rfl, rfl⟩

theorem whole_eq_ok {source : String} : whole rule source = .ok (e, k) ↔
    ∃ ts, Lexer.tokenize source = .ok ts ∧ Yields (expression rule ts) e k [] := by
  unfold whole Yields
  rw [bind_ok_iff]
  refine exists_congr fun ts => and_congr_right fun _ => ?_
  by_cases hnil : ts = []
  · subst hnil
    refine iff_of_false (fun h => ?_) fun ⟨p, _⟩ => absurd p.shorter (Nat.not_lt_zero _)
    rw [if_pos rfl] at h
    cases h
  · rw [if_neg hnil]
    simp only [bind_ok_iff]
    constructor
    · rintro ⟨p, hp, h⟩
      split at h
      · next hrest =>
        cases h
        exact ⟨p, hp, rfl, rfl, hrest⟩
      · cases h
    · rintro ⟨p, hp, rfl, rfl, hrest⟩
      refine ⟨p, hp, ?_⟩
      rw [hrest]
      rfl

/-! ## Operands -/

theorem yields_sign {o : BinaryOp} (ho : o = .sub) : Yields (operand functions (budget + 1) (.op o :: ts)) e k rest ↔
    ∃ y i, Yields (operand functions budget ts) y i rest ∧ i < maxHeight ∧ e = .unary .neg y ∧ k = i + 1 := by
  subst ho
  exact yields_node _

theorem yields_not : Yields (operand functions (budget + 1) (.not :: ts)) e k rest ↔
    ∃ y i, Yields (operand functions budget ts) y i rest ∧ i < maxHeight ∧ e = .unary .not y ∧ k = i + 1 :=
  yields_node _

theorem yields_opening : Yields (operand functions (budget + 1) (.opening :: ts)) e k rest ↔
    Yields (expression (operand functions budget) ts) e k (.closing :: rest) := by
  rw [← yields_enclosed]
  unfold Yields
  simp only [operand, bind_ok_iff, pure, Except.pure, Except.ok.injEq]
  constructor
  · rintro ⟨_, ⟨p, hp, rfl⟩, rfl, rfl, rfl⟩
    exact ⟨p, hp, rfl, rfl, rfl⟩
  · rintro ⟨p, hp, rfl, rfl, rfl⟩
    exact ⟨_, ⟨p, hp, rfl⟩, rfl, rfl, rfl⟩

theorem yields_applied {name : String} {function : MathFunction} (hf : functions.find? name = some function) :
    Yields (operand functions (budget + 1) (.name name :: .opening :: ts)) e k rest ↔ ∃ y i,
      Yields (expression (operand functions budget) ts) y i (.closing :: rest) ∧ i < maxHeight ∧
        e = .call name function y ∧ k = i + 1 := by
  simp only [operand, hf, yields_node, yields_enclosed]

theorem yields_vector {name : String} (h : functions.find? name = none ∨ ts.head? ≠ some .opening) :
    Yields (operand functions (budget + 1) (.name name :: ts)) e k rest ↔ e = .vector name ∧ k = 1 ∧ rest = ts := by
  cases hf : functions.find? name with
  | none =>
    simp only [operand, hf]
    exact yields_leaf
  | some function =>
    have hhead := h.resolve_left (by simp [hf])
    cases ts with
    | nil =>
      simp only [operand, hf]
      exact yields_leaf
    | cons token ts =>
      cases token with
      | opening => simp at hhead
      | _ =>
        simp only [operand, hf]
        exact yields_leaf

theorem yields_called {name args : String} {function : MathFunction} (hf : functions.find? name = some function) :
    Yields (operand functions (budget + 1) (.call name args :: ts)) e k rest ↔ ∃ y i,
      whole (operand functions budget) args = .ok (y, i) ∧ i < maxHeight ∧ e = .call name function y ∧ k = i + 1 ∧
        rest = ts := by
  unfold Yields
  simp only [operand, hf, bind_ok_iff, taller_eq_ok, pure, Except.pure, Except.ok.injEq]
  constructor
  · rintro ⟨_, ⟨⟨y, i⟩, hw, k, ⟨hi, rfl⟩, rfl⟩, rfl, rfl, rfl⟩
    exact ⟨y, i, hw, hi, rfl, rfl, rfl⟩
  · rintro ⟨y, i, hw, hi, rfl, rfl, rfl⟩
    exact ⟨_, ⟨⟨y, i⟩, hw, _, ⟨hi, rfl⟩, rfl⟩, rfl, rfl, rfl⟩

theorem yields_indexed {name index : String} (hf : functions.find? name = none) :
    Yields (operand functions (budget + 1) (.call name index :: ts)) e k rest ↔
      e = .indexed name index ∧ k = 1 ∧ rest = ts := by
  simp only [operand, hf, yields_leaf]

/-! ## Soundness and completeness of a level -/

/-- On the stratum the tokens derive the tree, within the limits. -/
def Within (functions : FunctionTable) (budget : Nat) (s : Stratum) (ts : List Token) (e : Tree) : Prop :=
  ∃ n, Derives functions s ts e n ∧ n ≤ budget ∧ e.height ≤ maxHeight

/-- What the rule reads is derived, and is as high as the rule says. -/
def Sound (functions : FunctionTable) (budget : Nat) (s : Stratum) (rule : Rule) : Prop :=
  ∀ ts e k rest, Yields (rule ts) e k rest →
    k = e.height ∧ ∃ front, ts = front ++ rest ∧ Within functions budget s front e

/-- What is derived the rule reads, up to a stop. -/
def Complete (functions : FunctionTable) (budget : Nat) (s : Stratum) (rule : Rule) : Prop :=
  ∀ ts e rest, Within functions budget s ts e → s.Stops rest → Yields (rule (ts ++ rest)) e e.height rest

theorem Yields.shorter {x : Except SyntaxError (Parsed ts)} (h : Yields x e k rest) : rest.length < ts.length := by
  obtain ⟨p, -, -, -, rfl⟩ := h
  exact p.shorter

theorem Sound.extends (h : Sound functions budget t next) (ht : s.operand? = some t)
    (hs : ∀ o, o ∈ operators ↔ o.stratum = s) {ts front : List Token} {l : Tree}
    (hl : Within functions budget s front l) (hext : Extends operators next l l.height ts e k rest) :
    k = e.height ∧ ∃ back, ts = back ++ rest ∧ Within functions budget s (front ++ back) e := by
  by_cases hop : ∃ o ts', ts = .op o :: ts' ∧ o ∈ operators
  · obtain ⟨o, ts, rfl, ho⟩ := hop
    obtain ⟨r, i, mid, hr, hi, hrest⟩ := (extends_op ho).1 hext
    have hshorter := hr.shorter
    obtain ⟨rfl, right, hts, n, hright, hn, -⟩ := h _ _ _ _ hr
    obtain ⟨m, hleft, hm, -⟩ := hl
    have hl' : Within functions budget s (front ++ .op o :: right) (.binary o l r) :=
      ⟨max m n, .binary ht ((hs o).1 ho) hleft hright, Nat.max_le.2 ⟨hm, hn⟩, hi⟩
    obtain ⟨hk, back, hback, hall⟩ := Sound.extends h ht hs hl' hrest
    exact ⟨hk, .op o :: right ++ back, by simp [hts, hback], by simpa using hall⟩
  · rw [extends_end fun o ho hmem => hop ?_] at hext
    · obtain ⟨rfl, rfl, rfl⟩ := hext
      exact ⟨rfl, [], rfl, by simpa using hl⟩
    · obtain ⟨ts', rfl⟩ := List.head?_eq_some_iff.1 ho
      exact ⟨o, ts', rfl, hmem⟩
termination_by ts.length
decreasing_by
  subst_vars
  simp only [List.length_cons]
  omega

theorem Sound.level (h : Sound functions budget t next) (ht : s.operand? = some t)
    (hs : ∀ o, o ∈ operators ↔ o.stratum = s) : Sound functions budget s (level operators next) := by
  intro ts e k rest hread
  obtain ⟨l, m, mid, hl, hext⟩ := yields_level.1 hread
  obtain ⟨rfl, front, rfl, n, hfront, hn, hheight⟩ := h _ _ _ _ hl
  obtain ⟨hk, back, rfl, hall⟩ := Sound.extends h ht hs ⟨n, .single ht hfront, hn, hheight⟩ hext
  exact ⟨hk, front ++ back, (List.append_assoc _ _ _).symm, hall⟩

theorem Complete.extends (h : Complete functions budget t next) (ht : s.operand? = some t)
    (hs : ∀ o, o ∈ operators ↔ o.stratum = s) (hchain : Chains functions s l m ts e n) (hn : n ≤ budget)
    (hheight : e.height ≤ maxHeight) (hrest : s.Stops rest) :
    Extends operators next l l.height (ts ++ rest) e e.height rest := by
  induction hchain with
  | nil e n =>
    refine (extends_end fun o ho hmem => ?_).2 ⟨rfl, rfl, rfl⟩
    obtain ⟨ts', rfl⟩ := List.head?_eq_some_iff.1 ho
    exact hrest.op_ne ((hs o).1 hmem)
  | @cons t' o l r e m i n right ts ht' ho hright hchain ih =>
    obtain rfl : t' = t := Option.some.inj (ht'.symm.trans ht)
    have hle := hchain.le
    have hmax : max l.height r.height + 1 ≤ e.height := hle.1
    rw [List.cons_append, List.cons_append, List.append_assoc]
    refine (extends_op ((hs o).2 ho)).2 ⟨r, r.height, ts ++ rest, ?_, by omega, ih hn hheight⟩
    exact h _ _ _ ⟨i, hright, by omega, by omega⟩ (hchain.stops_operand ht hrest)

theorem Complete.level (h : Complete functions budget t next) (ht : s.operand? = some t)
    (hs : ∀ o, o ∈ operators ↔ o.stratum = s) : Complete functions budget s (level operators next) := by
  rintro ts e rest ⟨n, hts, hn, hheight⟩ hrest
  obtain ⟨front, back, l, m, rfl, hfront, hchain⟩ := hts.leftmost ht
  have hle := hchain.le
  rw [List.append_assoc, yields_level]
  refine ⟨l, l.height, back ++ rest, ?_, h.extends ht hs hchain hn hheight hrest⟩
  exact h _ _ _ ⟨m, hfront, by omega, by omega⟩ (hchain.stops_operand ht hrest)

/-! ## Expressions and operands -/

/-- What every level takes over from its operands holds of expressions if it holds
of their operands. -/
theorem expression_of_levels {P : Stratum → Rule → Prop}
    (hlevel : ∀ {s t operators next}, s.operand? = some t → (∀ o, o ∈ operators ↔ o.stratum = s) → P t next →
      P s (level operators next)) (h : P .unary rule) : P .or (expression rule) := by
  refine hlevel rfl ?_ (hlevel rfl ?_ (hlevel rfl ?_ (hlevel rfl ?_ (hlevel rfl ?_ (hlevel rfl ?_ (hlevel rfl ?_
    (hlevel rfl ?_ h)))))))
  all_goals
    intro o
    cases o <;> decide

theorem Sound.expression (h : Sound functions budget .unary rule) : Sound functions budget .or (expression rule) :=
  expression_of_levels (fun ht hs h => h.level ht hs) h

theorem Complete.expression (h : Complete functions budget .unary rule) :
    Complete functions budget .or (expression rule) :=
  expression_of_levels (fun ht hs h => h.level ht hs) h

/-- A primary is an operand, one deeper. -/
theorem within_primary (h : Derives functions .primary ts e n) (hn : n ≤ budget) (hheight : e.height ≤ maxHeight) :
    Within functions (budget + 1) .unary ts e := ⟨n + 1, .unsigned h, Nat.succ_le_succ hn, hheight⟩

theorem sound_leaf {token : Token} (hl : Derives functions .primary [token] l 0) (hone : l.height = 1)
    (h : e = l ∧ k = 1 ∧ rest = ts) :
    k = e.height ∧ ∃ front, token :: ts = front ++ rest ∧ Within functions (budget + 1) .unary front e := by
  obtain ⟨rfl, rfl, rfl⟩ := h
  exact ⟨hone.symm, [token], rfl, within_primary hl (Nat.zero_le _) (hone ▸ by decide)⟩

theorem operand_sound (functions : FunctionTable) (budget : Nat) :
    Sound functions budget .unary (operand functions budget) := by
  induction budget with
  | zero =>
    rintro ts e k rest ⟨p, hp, -⟩
    cases hp
  | succ budget ih =>
    intro ts e k rest h
    cases ts with
    | nil => exact absurd h.shorter (Nat.not_lt_zero _)
    | cons token ts =>
      cases token with
      | number x => exact sound_leaf (.number x) rfl (yields_leaf.1 h)
      | script text => exact sound_leaf (.script text) rfl (yields_leaf.1 h)
      | quoted text => exact sound_leaf (.quoted text) rfl (yields_leaf.1 h)
      | braced text => exact sound_leaf (.braced text) rfl (yields_leaf.1 h)
      | closing =>
        obtain ⟨p, hp, -⟩ := h
        cases hp
      | not =>
        obtain ⟨y, i, hy, hi, rfl, rfl⟩ := yields_not.1 h
        obtain ⟨rfl, front, rfl, n, hfront, hn, -⟩ := ih _ _ _ _ hy
        exact ⟨rfl, .not :: front, rfl, n + 1, .not hfront, Nat.succ_le_succ hn, hi⟩
      | op o =>
        by_cases ho : o = .sub
        · obtain ⟨y, i, hy, hi, rfl, rfl⟩ := (yields_sign ho).1 h
          obtain ⟨rfl, front, rfl, n, hfront, hn, -⟩ := ih _ _ _ _ hy
          exact ⟨rfl, .op o :: front, rfl, n + 1, ho ▸ .minus hfront, Nat.succ_le_succ hn, hi⟩
        · obtain ⟨p, hp, -⟩ := h
          cases o <;> first | cases hp | exact absurd rfl ho
      | opening =>
        obtain ⟨rfl, front, rfl, n, hfront, hn, hheight⟩ := ih.expression _ _ _ _ (yields_opening.1 h)
        exact ⟨rfl, .opening :: front ++ [.closing], by simp, within_primary (.enclosed hfront) hn hheight⟩
      | name name =>
        by_cases happlied : functions.find? name = none ∨ ts.head? ≠ some .opening
        · exact sound_leaf (.vector name) rfl ((yields_vector happlied).1 h)
        · obtain ⟨hf, hopening⟩ := not_or.1 happlied
          obtain ⟨function, hf⟩ := Option.ne_none_iff_exists'.1 hf
          obtain ⟨ts, rfl⟩ := List.head?_eq_some_iff.1 (not_not.1 hopening)
          obtain ⟨y, i, hy, hi, rfl, rfl⟩ := (yields_applied hf).1 h
          obtain ⟨rfl, front, rfl, n, hfront, hn, -⟩ := ih.expression _ _ _ _ hy
          exact ⟨rfl, .name name :: .opening :: front ++ [.closing], by simp,
            within_primary (.applied hf hfront) hn hi⟩
      | call name args =>
        cases hf : functions.find? name with
        | none => exact sound_leaf (.indexed args hf) rfl ((yields_indexed hf).1 h)
        | some function =>
          obtain ⟨y, i, hy, hi, rfl, rfl, rfl⟩ := (yields_called hf).1 h
          obtain ⟨inner, htokens, hinner⟩ := whole_eq_ok.1 hy
          obtain ⟨rfl, front, rfl, n, hfront, hn, -⟩ := ih.expression _ _ _ _ hinner
          rw [List.append_nil] at htokens
          exact ⟨rfl, [_], rfl, within_primary (.called hf htokens hfront) hn hi⟩

theorem operand_complete (functions : FunctionTable) (budget : Nat) :
    Complete functions budget .unary (operand functions budget) := by
  induction budget with
  | zero =>
    rintro ts e rest ⟨n, hts, hn, -⟩ -
    cases hts with
    | single ht | binary ht => cases ht
    | minus | not | unsigned => exact absurd hn (Nat.not_succ_le_zero _)
  | succ budget ih =>
    rintro ts e rest ⟨n, hts, hn, hheight⟩ hrest
    cases hts with
    | single ht | binary ht => cases ht
    | minus hts =>
      have hread := ih _ _ _ ⟨_, hts, Nat.le_of_succ_le_succ hn, Nat.le_of_succ_le hheight⟩ hrest
      exact (yields_sign rfl).2 ⟨_, _, hread, hheight, rfl, rfl⟩
    | not hts =>
      have hread := ih _ _ _ ⟨_, hts, Nat.le_of_succ_le_succ hn, Nat.le_of_succ_le hheight⟩ hrest
      exact yields_not.2 ⟨_, _, hread, hheight, rfl, rfl⟩
    | unsigned hts =>
      have hn := Nat.le_of_succ_le_succ hn
      have hexpression := ih.expression
      cases hts with
      | single ht | binary ht => cases ht
      | number | script | quoted | braced => exact yields_leaf.2 ⟨rfl, rfl, rfl⟩
      | indexed index hnone => exact (yields_indexed hnone).2 ⟨rfl, rfl, rfl⟩
      | vector name => exact (yields_vector (.inr hrest.1)).2 ⟨rfl, rfl, rfl⟩
      | @enclosed ts _ _ hts =>
        have hread := hexpression _ _ _ ⟨_, hts, hn, hheight⟩ (Stratum.stops_closing _ rest)
        have htokens : (Token.opening :: ts ++ [.closing]) ++ rest = .opening :: (ts ++ .closing :: rest) := by simp
        rw [htokens, yields_opening]
        exact hread
      | @applied name _ ts _ _ hf hts =>
        have hread := hexpression _ _ _ ⟨_, hts, hn, Nat.le_of_succ_le hheight⟩ (Stratum.stops_closing _ rest)
        have htokens : (Token.name name :: .opening :: ts ++ [.closing]) ++ rest =
          .name name :: .opening :: (ts ++ .closing :: rest) := by simp
        rw [htokens, yields_applied hf]
        exact ⟨_, _, hread, hheight, rfl, rfl⟩
      | called hf htokens hts =>
        have hread := hexpression _ _ _ ⟨_, hts, hn, Nat.le_of_succ_le hheight⟩ (Stratum.stops_nil _)
        rw [List.append_nil] at hread
        exact (yields_called hf).2 ⟨_, _, whole_eq_ok.2 ⟨_, htokens, hread⟩, hheight, rfl, rfl, rfl⟩

/-! ## Texts -/

/-- A text is read as a tree just when its tokens derive the tree within the
limits, and the height the parser counts is that of the tree. -/
theorem whole_operand {source : String} (h : Lexer.tokenize source = .ok ts) :
    whole (operand functions budget) source = .ok (e, k) ↔ k = e.height ∧ Within functions budget .or ts e := by
  rw [whole_eq_ok]
  constructor
  · rintro ⟨ts', hts', hread⟩
    obtain rfl := Except.ok.inj (h.symm.trans hts')
    obtain ⟨hk, front, rfl, hwithin⟩ := (operand_sound functions budget).expression _ _ _ _ hread
    exact ⟨hk, by rwa [List.append_nil]⟩
  · rintro ⟨rfl, hwithin⟩
    have hread := (operand_complete functions budget).expression _ _ _ hwithin (Stratum.stops_nil _)
    exact ⟨ts, h, by rwa [List.append_nil] at hread⟩

theorem parse_eq_ok {source : String} : parse source functions = .ok e ↔
    ∃ k, whole (operand functions maxNesting) source = .ok (e, k) := by
  unfold parse
  cases whole (operand functions maxNesting) source with
  | error => simp [Functor.map, Except.map]
  | ok p => cases p; simp [Functor.map, Except.map]

/-- **The parser accepts its grammar.** Of a text that has tokens it reads a tree
just when the tokens derive it with at most a hundred operands in each other and
the tree is at most a thousand nodes high. No other tree is derived from them,
whatever its height, and the height the parser counts is that of the tree. -/
theorem parse_iff_derives {source : String} (h : Lexer.tokenize source = .ok ts) (e : Tree) :
    (parse source functions = .ok e ↔ ∃ n, Derives functions .or ts e n ∧ n ≤ 100 ∧ e.height ≤ 1000) ∧
      (parse source functions = .ok e → ∀ e' n, Derives functions .or ts e' n → e' = e) ∧
      ∀ k, whole (operand functions maxNesting) source = .ok (e, k) ↔
        parse source functions = .ok e ∧ k = e.height := by
  have hparse : parse source functions = .ok e ↔ Within functions 100 .or ts e := by
    rw [parse_eq_ok]
    simp only [whole_operand h, exists_eq_left]
    rfl
  refine ⟨hparse, fun hread e' n he' => ?_, fun k => ?_⟩
  · obtain ⟨m, hts, -⟩ := hparse.1 hread
    exact (he'.unique hts).1
  · rw [hparse, whole_operand h, and_comm]
    rfl

theorem parse_iff_derives_nestedCall :
    Lexer.tokenize "-x ^ sin(y(2) || (!z))" = .ok [.op .sub, .name "x", .op .pow, .call "sin" "y(2) || (!z)"] ∧
      parse "-x ^ sin(y(2) || (!z))" .initial = .ok (.binary .pow (.unary .neg (.vector "x"))
        (.call "sin" (.total Float.sin) (.binary .or (.indexed "y" "2") (.unary .not (.vector "z"))))) := by
  have htokens : Lexer.tokenize "-x ^ sin(y(2) || (!z))" =
      .ok [.op .sub, .name "x", .op .pow, .call "sin" "y(2) || (!z)"] := by decide +kernel
  have hargs : Lexer.tokenize "y(2) || (!z)" =
      .ok [.call "y" "2", .op .or, .opening, .not, .name "z", .closing] := by decide +kernel
  have hsin : FunctionTable.initial.find? "sin" = some (.total Float.sin) := rfl
  have hy : Derives .initial .or [.call "y" "2"] (.indexed "y" "2") 1 :=
    Derives.loosen (.unsigned (.indexed "2" rfl)) (by decide) (by decide)
  have hz : Derives .initial .or [.not, .name "z"] (.unary .not (.vector "z")) 2 :=
    Derives.loosen (.not (.unsigned (.vector "z"))) (by decide) (by decide)
  have hor := Derives.binary (s := .or) (t := .and) (o := .or) rfl rfl hy
    (Derives.loosen (.unsigned (.enclosed hz)) (by decide) (by decide))
  have hx : Derives .initial .power [.op .sub, .name "x"] (.unary .neg (.vector "x")) 2 :=
    .single rfl (.minus (.unsigned (.vector "x")))
  have hpower := Derives.binary (o := .pow) rfl rfl hx (.unsigned (.called hsin hargs hor))
  exact ⟨htokens, (parse_iff_derives htokens _).1.2
    ⟨4, Derives.loosen hpower (by decide) (by decide), by decide, by decide⟩⟩

end VectorEngine.Parser
