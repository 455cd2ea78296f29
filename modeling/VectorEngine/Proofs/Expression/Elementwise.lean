/-
Whole vectors against their elements.

An expression made of numbers, vectors, operators other than the shifts, and
functions of single numbers treats the elements of its vectors one by one: it
gives for whole vectors what it gives at every position, where each vector is
cut down to the one element that stands there. Such an expression leaves no
traces, so both sides are results alone.
-/
import VectorEngine.Expression.Evaluate
import VectorEngine.Proofs.Expression.Broadcasting

namespace VectorEngine

/-- Treats the elements of its vectors one by one. -/
def Tree.Pointwise : Tree → Prop
  | number _ | vector _ => True
  | unary _ operand => operand.Pointwise
  | binary op left right => op.isShift = false ∧ left.Pointwise ∧ right.Pointwise
  | call _ (.point _) arg => arg.Pointwise
  | _ => False

/-- The names of the vectors that are read whole. -/
def Tree.vectors : Tree → List String
  | vector name => [name]
  | unary _ operand => operand.vectors
  | binary _ left right => left.vectors ++ right.vectors
  | call _ _ arg => arg.vectors
  | _ => []

/-- A series of `n` values cut down to the one at position `i`; any other stays
as it is. -/
def Series.cut (n i : Nat) (s : Series) : Series :=
  if s.values.length = n then s.withBuffer (.scalar (s.values.getD i nan)) else s

namespace Scope

/-- The vector of that name has `n` values. -/
def spans (scope : Scope) (n : Nat) (name : String) : Bool :=
  (scope.vector? name).any fun s => s.values.length == n

/-- The scope at one position: every vector of `n` values is cut down. -/
def position (scope : Scope) (n i : Nat) : Scope :=
  { scope with vector? := fun name => (scope.vector? name).map (Series.cut n i) }

end Scope

theorem Series.values_cut {s : Series} {n i : Nat} (hs : s.values.length = 1 ∨ s.values.length = n) (hi : i < n) :
    (s.cut n i).values = [entry s.values i] := by
  unfold cut
  split
  · next hn =>
    rw [entry_eq_getElem (hn ▸ hi), List.getElem_eq_getD nan]
    rfl
  · next hn =>
    obtain ⟨x, hx⟩ := List.length_eq_one_iff.1 (hs.resolve_right hn)
    rw [hx]
    rfl

/-! ## Computations that leave no traces -/

/-- The computation ends with `r` and leaves every trace as it was. -/
def Steady {α : Type} (c : Evaluation α) (r : Except Error α) : Prop := ∀ traces, c.run.run traces = (r, traces)

namespace Steady

variable {α β : Type} {c : Evaluation α} {r : Except Error α}

theorem lift (r : Except Error α) : Steady (liftM r) r := by
  intro traces
  cases r with
  | error e => rfl
  | ok a => rfl

theorem pure (a : α) : Steady (Pure.pure a) (.ok a) := fun _ => rfl

theorem bind (h : Steady c r) {f : α → Evaluation β} {g : α → Except Error β} (hf : ∀ a, Steady (f a) (g a)) :
    Steady (c >>= f) (r >>= g) := by
  intro traces
  rw [ExceptT.run_bind, StateT.run_bind, h traces]
  cases r with
  | error e => rfl
  | ok a => exact hf a traces

end Steady

theorem Scope.apply_run (function : MathFunction) (values : List Float) (traces : Traces) :
    (Scope.apply function values).run.run traces =
      ((function.apply values traces.generator).1,
        { traces with generator := (function.apply values traces.generator).2 }) := by
  have hlift := Steady.lift (function.apply values traces.generator).1
  exact hlift { traces with generator := (function.apply values traces.generator).2 }

/-- A function of single numbers asks nothing of the generator. -/
theorem Scope.steady_apply (f : Float → Except Error Float) (values : List Float) :
    Steady (Scope.apply (.point f) values) (values.mapM fun x => if x.isNaN then .ok x else f x) :=
  Scope.apply_run (.point f) values

/-! ## Whole results and results at positions -/

/-- A whole result and the results at each of `n` positions tell the same. A
`wide` one has a value for each position, any other a single value for all. -/
inductive Agree (n : Nat) (wide : Bool) : Except Error (List Float) → (Nat → Except Error (List Float)) → Prop
  | values {values : List Float} {parts : Nat → Except Error (List Float)}
      (length : values.length = if wide then n else 1) (parts_eq : ∀ i < n, parts i = .ok [entry values i]) :
      Agree n wide (.ok values) parts
  | fails {e e' : Error} {i : Nat} {parts : Nat → Except Error (List Float)}
      (lt : i < n) (part_eq : parts i = .error e') : Agree n wide (.error e) parts

variable {n : Nat} {wide wide' : Bool}

namespace Agree

variable {r : Except Error (List Float)} {rs rs' : Nat → Except Error (List Float)}

/-- What is computed number by number agrees; where one number stands for all,
the same is computed at every position. -/
theorem mapM (hn : 0 < n) {f : Nat → Except Error Float} (hf : wide = false → ∀ i, f i = f 0) :
    Agree n wide ((List.range (if wide then n else 1)).mapM f) fun i => (f i).map fun x => [x] := by
  cases hr : (List.range (if wide then n else 1)).mapM f with
  | error e =>
    obtain ⟨i, hi, hfail, -⟩ := mapM_range_error_iff.1 hr
    have hi' : i < n := by
      cases wide with
      | true => exact hi
      | false => simp at hi; omega
    exact .fails hi' (show _ = Except.error e by simp [hfail, Except.map])
  | ok values =>
    obtain ⟨hlength, hvalues⟩ := mapM_range_ok_iff.1 hr
    refine .values hlength fun i hi => ?_
    cases wide with
    | true =>
      have hi' : i < values.length := by simpa [hlength] using hi
      simp [hvalues i hi', entry_eq_getElem hi', Except.map]
    | false =>
      obtain ⟨x, rfl⟩ := List.length_eq_one_iff.1 hlength
      simp [hf rfl i, hvalues 0 (by simp), Except.map]

theorem congr (h : Agree n wide r rs) (hrs : ∀ i < n, rs i = rs' i) : Agree n wide r rs' := by
  cases h with
  | values hlength hparts => exact .values hlength fun i hi => hrs i hi ▸ hparts i hi
  | fails hi hpart => exact .fails hi (hrs _ hi ▸ hpart)

/-- Computations that go on in agreement from values that agree. -/
theorem bind (h : Agree n wide r rs) {g : List Float → Except Error (List Float)}
    {gs : Nat → List Float → Except Error (List Float)}
    (hg : ∀ values, values.length = (if wide then n else 1) →
      Agree n wide' (g values) fun i => gs i [entry values i]) :
    Agree n wide' (r >>= g) fun i => rs i >>= gs i := by
  cases h with
  | fails hi hpart => exact .fails hi (by rw [hpart]; rfl)
  | values hlength hparts =>
    apply (hg _ hlength).congr
    intro i hi
    rw [hparts i hi]
    rfl

end Agree

/-! ## Operators and functions -/

theorem singleton_mapM (f : Float → Except Error Float) (x : Float) : [x].mapM f = (f x).map fun y => [y] := by
  cases h : f x with
  | error e => simp [h, bind, Except.bind, Except.map]
  | ok y => simp [h, bind, Except.bind, Except.map, pure, Except.pure]

/-- What is applied to each number agrees. -/
theorem agree_point (hn : 0 < n) (f : Float → Except Error Float) {values : List Float}
    (hlength : values.length = if wide then n else 1) :
    Agree n wide (values.mapM f) fun i => [entry values i].mapM f := by
  simp only [singleton_mapM]
  rw [mapM_eq_entries, hlength]
  refine .mapM hn fun hwide i => ?_
  rw [entry_of_length_one (by simpa [hwide] using hlength) i 0]

theorem agree_unary (hn : 0 < n) (op : UnaryOp) {values : List Float}
    (hlength : values.length = if wide then n else 1) :
    Agree n wide (.ok (values.map op.apply)) fun i => .ok [op.apply (entry values i)] := by
  have hmap (values : List Float) :
      values.mapM (fun x => (.ok (op.apply x) : Except Error Float)) = .ok (values.map op.apply) := List.mapM_pure
  have h := agree_point hn (fun x => .ok (op.apply x)) hlength
  simp only [hmap] at h
  exact h

theorem agree_binary (hn : 0 < n) {op : BinaryOp} (hop : op.isShift = false) {a b : List Float}
    (ha : a.length = if wide then n else 1) (hb : b.length = if wide' then n else 1) :
    Agree n (wide || wide') (op.apply a b) fun i => op.apply [entry a i] [entry b i] := by
  have hmatch : a.length = 1 ∨ b.length = 1 ∨ a.length = b.length := by
    cases wide <;> cases wide' <;> simp_all
  have hcount : (if a.length = 1 then b.length else a.length) = if wide || wide' then n else 1 := by
    cases wide <;> cases wide' <;> simp_all
  simp only [BinaryOp.apply_singleton_right hop, singleton_mapM]
  rw [BinaryOp.apply_eq_entries hop hmatch, hcount]
  refine .mapM hn fun hwide i => ?_
  obtain ⟨rfl, rfl⟩ := Bool.or_eq_false_iff.1 hwide
  rw [entry_of_length_one ha i 0, entry_of_length_one hb i 0]

/-! ## Expressions -/

variable {scope : Scope}

/-- A vector of one or of `n` values agrees with what it is cut down to. -/
theorem agree_vector (hn : 0 < n) {name : String}
    (hlength : ∀ s, scope.vector? name = some s → s.values.length = 1 ∨ s.values.length = n) :
    Agree n (scope.spans n name) (scope.find name >>= fun s => .ok s.values)
      fun i => (scope.position n i).find name >>= fun s => .ok s.values := by
  unfold Scope.find Scope.spans Scope.position
  cases hname : scope.vector? name with
  | none => exact .fails hn (show _ = Except.error (.notFound name) by simp [hname, bind, Except.bind])
  | some s =>
    refine .values ?_ fun i hi => ?_
    · by_cases hs : s.values.length = n
      · simp [hs]
      · simpa [hs] using hlength s hname
    · simp [hname, bind, Except.bind, Series.values_cut (hlength s hname) hi]

/-- A pointwise expression leaves no traces, and its results agree. -/
theorem Tree.agrees (hn : 0 < n) {tree : Tree} (h : tree.Pointwise)
    (hlength : ∀ name ∈ tree.vectors, ∀ s, scope.vector? name = some s →
      s.values.length = 1 ∨ s.values.length = n) :
    ∃ r rs, Steady (tree.evaluate scope) r ∧ (∀ i, Steady (tree.evaluate (scope.position n i)) (rs i)) ∧
      Agree n (tree.vectors.any (scope.spans n)) r rs := by
  induction tree with
  | number x => exact ⟨_, _, .pure _, fun _ => .pure _, .values rfl fun _ _ => rfl⟩
  | vector name =>
    have hread (scope : Scope) :
        Steady ((Tree.vector name).evaluate scope) (scope.find name >>= fun s => .ok s.values) :=
      .bind (.lift _) fun s => .pure s.values
    refine ⟨_, _, hread scope, fun i => hread _, ?_⟩
    simpa [Tree.vectors] using agree_vector hn (hlength name (by simp [Tree.vectors]))
  | indexed | script | quoted | braced => exact h.elim
  | unary op operand ih =>
    obtain ⟨r, rs, hr, hrs, hagree⟩ := ih h hlength
    refine ⟨_, _, .bind hr fun a => .pure _, fun i => .bind (hrs i) fun a => .pure _, hagree.bind ?_⟩
    intro values hvalues
    exact agree_unary hn op hvalues
  | binary op left right ihl ihr =>
    obtain ⟨hop, hleft, hright⟩ := h
    obtain ⟨r, rs, hr, hrs, hagree⟩ := ihl hleft fun name hname => hlength name (List.mem_append_left _ hname)
    obtain ⟨r', rs', hr', hrs', hagree'⟩ := ihr hright fun name hname => hlength name (List.mem_append_right _ hname)
    refine ⟨_, _, .bind hr fun a => .bind hr' fun b => .lift _,
      fun i => .bind (hrs i) fun a => .bind (hrs' i) fun b => .lift _, ?_⟩
    simp only [Tree.vectors, List.any_append]
    refine hagree.bind fun a ha => hagree'.bind fun b hb => ?_
    exact agree_binary hn hop ha hb
  | call name function arg ih =>
    cases function with
    | scalar | vector | fill => exact h.elim
    | point f =>
      obtain ⟨r, rs, hr, hrs, hagree⟩ := ih h hlength
      refine ⟨_, _, .bind hr fun a => Scope.steady_apply f a, fun i => .bind (hrs i) fun a => Scope.steady_apply f a,
        hagree.bind fun values hvalues => ?_⟩
      exact agree_point hn _ hvalues

/-- Evaluation ends with values. -/
def Expression.Succeeds (e : Expression) (scope : Scope) (traces : Traces) : Prop :=
  ∃ values traces', e.evaluate scope traces = (.ok values, traces')

/-- **Element by element.** Where every vector a pointwise expression names has
one or `n` values, the expression can be evaluated exactly if it can at every
position. Its values are then those it has at the positions: `n` of them if some
vector has `n`, else one for all. -/
theorem Expression.evaluate_elementwise {e : Expression} (he : e.tree.Pointwise) {scope : Scope} {n : Nat} (hn : 0 < n)
    (hlength : ∀ name ∈ e.tree.vectors, ∀ s, scope.vector? name = some s →
      s.values.length = 1 ∨ s.values.length = n) (traces : Traces) :
    (e.Succeeds scope traces ↔ ∀ i < n, e.Succeeds (scope.position n i) traces) ∧
      ∀ values traces', e.evaluate scope traces = (.ok values, traces') → traces' = traces ∧
        values.length = (if e.tree.vectors.any (scope.spans n) then n else 1) ∧
        ∀ i < n, e.evaluate (scope.position n i) traces = (.ok [entry values i], traces) := by
  obtain ⟨r, rs, hr, hrs, hagree⟩ := Tree.agrees hn he hlength
  have hwhole : e.evaluate scope traces = (r, traces) := hr traces
  have hparts (i : Nat) : e.evaluate (scope.position n i) traces = (rs i, traces) := hrs i traces
  simp only [Succeeds, hwhole, hparts]
  cases hagree with
  | values hvalues hentries =>
    constructor
    · exact ⟨fun _ i hi => ⟨_, _, congrArg (·, traces) (hentries i hi)⟩, fun _ => ⟨_, _, rfl⟩⟩
    · intro values traces' h
      cases h
      exact ⟨rfl, hvalues, fun i hi => congrArg (·, traces) (hentries i hi)⟩
  | @fails e e' i rs hi hpart =>
    constructor
    · constructor
      · intro ⟨_, _, h⟩
        cases h
      · intro h
        obtain ⟨values, traces', hok⟩ := h i hi
        rw [hpart] at hok
        cases hok
    · intro values traces' h
      cases h

/-- The quotient of a number and a vector. -/
def Expression.quotient (x : Float) (name : String) : Expression :=
  ⟨FloatText.plain x ++ " / " ++ name, .binary .div (.number x) (.vector name)⟩

/-- A scope of a single vector. -/
def Scope.only (name : String) (values : List Float) : Scope where
  vector? asked := if asked = name then some { buffer := .ofValues values } else none
  aggregates := .initial
  host := .silent

/-- A blank among the divisors gives a blank and no division by zero. -/
theorem Expression.evaluate_elementwise_quotient :
    let e := Expression.quotient 6.0 "v"
    let scope := Scope.only "v" [2.0, nan, 3.0]
    let traces : Traces := { generator := { word := fun _ => 0 } }
    e.tree.Pointwise ∧ 0 < 3 ∧
      (∀ name ∈ e.tree.vectors, ∀ s, scope.vector? name = some s → s.values.length = 1 ∨ s.values.length = 3) ∧
      (∀ i < 3, e.Succeeds (scope.position 3 i) traces) ∧
      e.Succeeds scope traces ∧
      ∀ values traces', e.evaluate scope traces = (.ok values, traces') → traces' = traces ∧ values.length = 3 ∧
        ∀ i < 3, e.evaluate (scope.position 3 i) traces = (.ok [entry values i], traces) := by
  intro e scope traces
  have hpointwise : e.tree.Pointwise := ⟨rfl, trivial, trivial⟩
  have hlength : ∀ name ∈ e.tree.vectors, ∀ s, scope.vector? name = some s →
      s.values.length = 1 ∨ s.values.length = 3 := by
    intro name hname s hs
    obtain rfl := List.mem_singleton.1 hname
    cases hs
    exact .inr rfl
  have hparts : ∀ i < 3, e.Succeeds (scope.position 3 i) traces := by
    intro i hi
    match i with
    | 0 | 1 | 2 => exact ⟨_, _, rfl⟩
  obtain ⟨hiff, hvalues⟩ := Expression.evaluate_elementwise hpointwise (by decide) hlength traces
  exact ⟨hpointwise, by decide, hlength, hparts, hiff.2 hparts, hvalues⟩

end VectorEngine
