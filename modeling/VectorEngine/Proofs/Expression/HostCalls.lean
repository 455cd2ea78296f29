/-
What the host is asked.

Evaluating an expression is working off its nodes, each after its operands and these from
left to right, on a stack of the values found so far (`Tree.evaluate_eq_workAll`). A node that
is left to the host asks it once, whatever comes of that, and no other node asks it
anything (`Tree.work_consults`). So the host is asked for the operands of all nodes worked off, in
the order in which they are written, and an evaluation that fails stops with the first
node that does.
-/
import Mathlib
import VectorEngine.Proofs.Expression.Elementwise

namespace VectorEngine

/-- The host has been asked `call` since, and `before` is all that it was asked before that. -/
def Traces.Made (traces traces' : Traces) (before : List HostCall) (call : HostCall) : Prop :=
  traces.calls <+: before ∧ before ++ [call] <+: traces'.calls

/-- A computation ends with `r`, and what it has to do with the host is in the traces. -/
structure Consults {α : Type} (c : Host → Evaluation α) (host : Host) (traces : Traces) (r : Except Error α)
    (traces' : Traces) : Prop where
  run : (c host).run.run traces = (r, traces')
  kept : traces.calls <+: traces'.calls
  /-- What the host refuses ends it. -/
  refused : ∀ before call e, traces.Made traces' before call → host before call = .error e →
    r = .error e ∧ traces'.calls = before ++ [call]
  /-- A host that answers these calls alike cannot be told apart. -/
  only : ∀ host', (∀ before call, traces.Made traces' before call → host' before call = host before call) →
    (c host').run.run traces = (r, traces')

namespace Tree

/-- The nodes in the order in which they are worked off. -/
def nodes : Tree → List Tree
  | unary op operand => operand.nodes ++ [unary op operand]
  | binary op left right => left.nodes ++ right.nodes ++ [binary op left right]
  | call name function arg => arg.nodes ++ [call name function arg]
  | leaf => [leaf]

/-- The operands left to the host as they are written, from left to right. -/
def hostCalls : Tree → List HostCall
  | script text => [.script text]
  | quoted text => [.substitute text]
  | unary _ operand => operand.hostCalls
  | binary _ left right => left.hostCalls ++ right.hostCalls
  | call _ _ arg => arg.hostCalls
  | number _ | vector _ | indexed .. | braced _ => []

/-- What the node itself asks of the host. -/
def hostCall? : Tree → Option HostCall
  | script text => some (.script text)
  | quoted text => some (.substitute text)
  | _ => none

/-- Works off a node: takes the values of its operands from the stack and leaves its own
there. -/
def work (scope : Scope) : Tree → List (List Float) → Evaluation (List (List Float))
  | unary op _, a :: stack => return a.map op.apply :: stack
  | binary op _ _, b :: a :: stack => do return (← op.apply a b) :: stack
  | call _ function _, a :: stack => do return (← Scope.apply function a) :: stack
  -- The operands have been worked off before, so they are there.
  | unary .., stack | binary .., stack | call .., stack => return stack
  | leaf, stack => do return (← leaf.evaluate scope) :: stack

/-- Works off nodes one after the other, up to the first that fails. -/
def workAll (scope : Scope) (ns : List Tree) (stack : List (List Float)) : Evaluation (List (List Float)) :=
  ns.foldlM (fun stack n => n.work scope stack) stack

theorem filterMap_nodes (tree : Tree) : tree.nodes.filterMap hostCall? = tree.hostCalls := by
  induction tree with
  | number | vector | indexed | script | quoted | braced => rfl
  | unary _ _ ih | call _ _ _ ih =>
    rw [nodes, List.filterMap_append, ih]
    exact List.append_nil _
  | binary _ _ _ ihl ihr =>
    rw [nodes, List.filterMap_append, List.filterMap_append, ihl, ihr]
    exact List.append_nil _

variable {scope : Scope} {stack stack' : List (List Float)} {ns : List Tree} {traces traces' : Traces} {e : Error}

theorem workAll_append (front back : List Tree) (stack : List (List Float)) :
    workAll scope (front ++ back) stack = workAll scope front stack >>= workAll scope back := List.foldlM_append

theorem workAll_singleton (n : Tree) (stack : List (List Float)) : workAll scope [n] stack = n.work scope stack :=
  bind_pure _

/-- **Evaluating a tree is working off its nodes.** -/
theorem evaluate_eq_workAll (tree : Tree) (stack : List (List Float)) :
    (tree.evaluate scope >>= fun values => pure (values :: stack)) = workAll scope tree.nodes stack := by
  induction tree generalizing stack with
  | number | vector | indexed | script | quoted | braced => simp only [nodes, workAll_singleton, work]
  | unary op operand ih =>
    simp only [nodes, workAll_append, workAll_singleton, ← ih, evaluate, bind_assoc, pure_bind, work]
  | binary op left right ihl ihr =>
    simp only [nodes, workAll_append, workAll_singleton, ← ihl, ← ihr, evaluate, bind_assoc, pure_bind, work]
  | call name function arg ih =>
    simp only [nodes, workAll_append, workAll_singleton, ← ih, evaluate, bind_assoc, pure_bind, work]

end Tree

/-! ## Computations that ask the host -/

namespace Traces

variable {traces traces₁ traces' : Traces} {before : List HostCall} {call : HostCall}

theorem Made.left (h : traces.Made traces₁ before call) (hkept : traces₁.calls <+: traces'.calls) :
    traces.Made traces' before call := ⟨h.1, h.2.trans hkept⟩

theorem Made.right (h : traces₁.Made traces' before call) (hkept : traces.calls <+: traces₁.calls) :
    traces.Made traces' before call := ⟨hkept.trans h.1, h.2⟩

/-- A call has been made before a moment in between or after it. -/
theorem Made.cases (h : traces.Made traces' before call) (hkept : traces₁.calls <+: traces'.calls) :
    traces.Made traces₁ before call ∨ traces₁.Made traces' before call := by
  have hbefore : before <+: traces'.calls := (List.prefix_append before [call]).trans h.2
  by_cases hlength : traces₁.calls.length ≤ before.length
  · exact .inr ⟨List.prefix_of_prefix_length_le hkept hbefore hlength, h.2⟩
  · refine .inl ⟨h.1, List.prefix_of_prefix_length_le h.2 hkept ?_⟩
    rw [List.length_append, List.length_singleton]
    omega

theorem not_made_self : ¬traces.Made traces before call := by
  intro ⟨h, h'⟩
  have hle := (h'.trans h).length_le
  rw [List.length_append, List.length_singleton] at hle
  omega

end Traces

namespace Evaluation

variable {α β : Type} {c : Evaluation α} {traces traces₁ : Traces}

theorem run_bind_ok {a : α} {f : α → Evaluation β} (h : c.run.run traces = (.ok a, traces₁)) :
    (c >>= f).run.run traces = (f a).run.run traces₁ := by
  rw [ExceptT.run_bind, StateT.run_bind, h]
  rfl

theorem run_bind_error {e : Error} {f : α → Evaluation β} (h : c.run.run traces = (.error e, traces₁)) :
    (c >>= f).run.run traces = (.error e, traces₁) := by
  rw [ExceptT.run_bind, StateT.run_bind, h]
  rfl

end Evaluation

theorem Scope.ask_run (scope : Scope) (call : HostCall) (traces : Traces) : (scope.ask call).run.run traces =
    (scope.host traces.calls call, { traces with calls := traces.calls ++ [call] }) := by
  have hlift := Steady.lift (scope.host traces.calls call)
  exact hlift { traces with calls := traces.calls ++ [call] }

namespace Consults

variable {α β : Type} {c : Host → Evaluation α} {f : Host → α → Evaluation β} {host : Host} {a : α} {e : Error}
  {traces traces₁ traces' : Traces} {r : Except Error α} {r' : Except Error β}

/-- A computation that asks nothing. -/
theorem of_silent (h : ∀ host', (c host').run.run traces = (r, traces')) (hcalls : traces'.calls = traces.calls) :
    Consults c host traces r traces' := by
  have hnone : ∀ before call, ¬traces.Made traces' before call := by
    intro before call hmade
    have hsame : traces'.calls <+: traces.calls := hcalls ▸ List.prefix_rfl
    exact Traces.not_made_self (hmade.left hsame)
  exact ⟨h host, hcalls ▸ List.prefix_rfl, fun before call _ hmade => absurd hmade (hnone before call),
    fun host' _ => h host'⟩

/-- A computation that asks once, and goes on with the answer. -/
theorem of_ask {call : HostCall} {g : String → Except Error α} (h : ∀ host', (c host').run.run traces =
      (host' traces.calls call >>= g, { traces with calls := traces.calls ++ [call] })) :
    Consults c host traces (host traces.calls call >>= g) { traces with calls := traces.calls ++ [call] } := by
  have hmade : ∀ before call', traces.Made { traces with calls := traces.calls ++ [call] } before call' →
      before = traces.calls ∧ call' = call := by
    intro before call' ⟨hfront, hback⟩
    obtain ⟨new, rfl⟩ := hfront
    rw [List.append_assoc, List.prefix_append_right_inj] at hback
    obtain ⟨rest, hrest⟩ := hback
    cases new with
    | nil => exact ⟨List.append_nil _, (List.cons.inj hrest).1⟩
    | cons _ new => simp at hrest
  refine ⟨h host, List.prefix_append _ _, fun before call' e hcall hrefuses => ?_, fun host' hsame => ?_⟩
  · obtain ⟨rfl, rfl⟩ := hmade before call' hcall
    rw [hrefuses]
    exact ⟨rfl, rfl⟩
  · rw [h host', hsame traces.calls call ⟨List.prefix_rfl, List.prefix_rfl⟩]

theorem bind_ok (h : Consults c host traces (.ok a) traces₁)
    (hf : Consults (fun host => f host a) host traces₁ r' traces') :
    Consults (fun host => c host >>= f host) host traces r' traces' := by
  refine ⟨(Evaluation.run_bind_ok h.run).trans hf.run, h.kept.trans hf.kept, fun before call e hmade hrefuses => ?_,
    fun host' hsame => ?_⟩
  · obtain hfirst | hlater := hmade.cases hf.kept
    · cases (h.refused before call e hfirst hrefuses).1
    · exact hf.refused before call e hlater hrefuses
  · have hc := h.only host' fun before call hmade => hsame before call (hmade.left hf.kept)
    refine (Evaluation.run_bind_ok hc).trans ?_
    exact hf.only host' fun before call hmade => hsame before call (hmade.right h.kept)

theorem bind_error (h : Consults c host traces (.error e) traces') :
    Consults (fun host => c host >>= f host) host traces (.error e) traces' := by
  refine ⟨Evaluation.run_bind_error h.run, h.kept, fun before call e' hmade hrefuses => ?_,
    fun host' hsame => Evaluation.run_bind_error (h.only host' hsame)⟩
  obtain ⟨he, hlast⟩ := h.refused before call e' hmade hrefuses
  cases he
  exact ⟨rfl, hlast⟩

end Consults

/-! ## Working off nodes -/

/-- The scope before another host. -/
def Scope.before (scope : Scope) (host : Host) : Scope := { scope with host := host }

namespace Tree

variable {scope : Scope}

/-- **A node asks the host at most once**, whatever comes of it. -/
theorem work_consults (scope : Scope) (n : Tree) (stack : List (List Float)) (traces : Traces) :
    ∃ r traces', Consults (fun host => n.work (scope.before host) stack) scope.host traces r traces' ∧
      traces'.calls = traces.calls ++ n.hostCall?.toList := by
  have hsilent {c : Host → Evaluation (List (List Float))} {r : Except Error (List (List Float))} {traces' : Traces}
      (h : ∀ host', (c host').run.run traces = (r, traces')) (hcalls : traces'.calls = traces.calls) :
      ∃ r traces', Consults c scope.host traces r traces' ∧ traces'.calls = traces.calls ++ [] :=
    ⟨r, traces', .of_silent h hcalls, by rw [hcalls, List.append_nil]⟩
  have hsteady {c : Evaluation (List Float)} {r : Except Error (List Float)} (h : Steady c r) :
      Steady (c >>= fun values => pure (values :: stack)) (r >>= fun values => .ok (values :: stack)) :=
    h.bind fun values => .pure _
  have hasks (call : HostCall) (host' : Host) :
      (((scope.before host').ask call >>= fun text => (liftM (scope.readText text) : Evaluation (List Float))) >>=
          fun values => pure (values :: stack)).run.run traces =
        (host' traces.calls call >>= fun text => scope.readText text >>= fun values => .ok (values :: stack),
          { traces with calls := traces.calls ++ [call] }) := by
    have hask : ((scope.before host').ask call).run.run traces =
        (host' traces.calls call, { traces with calls := traces.calls ++ [call] }) := Scope.ask_run _ call traces
    rw [bind_assoc]
    cases h : host' traces.calls call with
    | error e => exact Evaluation.run_bind_error (hask.trans (congrArg (·, _) h))
    | ok text =>
      exact (Evaluation.run_bind_ok (hask.trans (congrArg (·, _) h))).trans (hsteady (.lift (scope.readText text)) _)
  cases n with
  | number x => exact hsilent (fun _ => hsteady (.pure [x]) traces) rfl
  | vector name => exact hsilent (fun _ => hsteady (.bind (.lift (scope.find name)) fun s => .pure s.values) traces) rfl
  | indexed name index => exact hsilent (fun _ => hsteady (.lift (scope.readIndex name index)) traces) rfl
  | braced text => exact hsilent (fun _ => hsteady (.lift (scope.readText text)) traces) rfl
  | script text => exact ⟨_, _, .of_ask (hasks (.script text)), rfl⟩
  | quoted text => exact ⟨_, _, .of_ask (hasks (.substitute text)), rfl⟩
  | unary op operand =>
    cases stack with
    | nil => exact hsilent (fun _ => rfl) rfl
    | cons a stack => exact hsilent (fun _ => rfl) rfl
  | binary op left right =>
    match stack with
    | [] | [_] => exact hsilent (fun _ => rfl) rfl
    | b :: a :: stack =>
      exact hsilent (fun _ => Steady.bind (.lift (op.apply a b)) (fun values => .pure (values :: stack)) traces) rfl
  | call name function arg =>
    cases stack with
    | nil => exact hsilent (fun _ => rfl) rfl
    | cons a stack =>
      have hrun : (Scope.apply function a >>= fun values => pure (values :: stack)).run.run traces =
          ((function.apply a traces.generator).1 >>= fun values => .ok (values :: stack),
            { traces with generator := (function.apply a traces.generator).2 }) := by
        have happly := Scope.apply_run function a traces
        cases h : (function.apply a traces.generator).1 with
        | error e => exact Evaluation.run_bind_error (happly.trans (congrArg (·, _) h))
        | ok values => exact Evaluation.run_bind_ok (happly.trans (congrArg (·, _) h))
      exact hsilent (fun _ => hrun) rfl

/-- How working off some nodes ends: with all of them worked off, or with the first that
fails. -/
inductive Worked (scope : Scope) (ns : List Tree) (stack : List (List Float)) (traces : Traces) :
    Except Error (List (List Float)) → Traces → Prop
  | all {stack' : List (List Float)} {traces' : Traces} : traces'.calls = traces.calls ++ ns.filterMap hostCall? →
    Worked scope ns stack traces (.ok stack') traces'
  | upTo (front : List Tree) {back : List Tree} {n : Tree} {stack₁ : List (List Float)}
      {traces₁ traces' : Traces} {e : Error} :
    ns = front ++ n :: back → (workAll scope front stack).run.run traces = (.ok stack₁, traces₁) →
    (n.work scope stack₁).run.run traces₁ = (.error e, traces') →
    traces'.calls = traces.calls ++ (front ++ [n]).filterMap hostCall? →
    Worked scope ns stack traces (.error e) traces'

/-- **Working off nodes asks the host for each of them in turn**, up to the first that fails. -/
theorem workAll_consults (scope : Scope) (ns : List Tree) (stack : List (List Float)) (traces : Traces) :
    ∃ r traces', Consults (fun host => workAll (scope.before host) ns stack) scope.host traces r traces' ∧
      Worked scope ns stack traces r traces' := by
  induction ns generalizing stack traces with
  | nil => exact ⟨.ok stack, traces, .of_silent (fun _ => rfl) rfl, .all (List.append_nil _).symm⟩
  | cons n ns ih =>
    have hcalls : n.hostCall?.toList = [n].filterMap hostCall? := by
      cases h : n.hostCall? with
      | none | some => simp [h]
    obtain ⟨r, traces₁, hfirst, hcalls₁⟩ := work_consults scope n stack traces
    rw [hcalls] at hcalls₁
    have hcons (host : Host) : workAll (scope.before host) (n :: ns) stack =
        n.work (scope.before host) stack >>= workAll (scope.before host) ns := rfl
    simp only [hcons]
    cases r with
    | error e => exact ⟨_, _, hfirst.bind_error, .upTo [] rfl rfl hfirst.run hcalls₁⟩
    | ok stack₁ =>
      obtain ⟨r', traces', hrest, hworked⟩ := ih stack₁ traces₁
      refine ⟨r', traces', hfirst.bind_ok hrest, ?_⟩
      cases hworked with
      | all hall =>
        refine .all ?_
        rw [hall, hcalls₁, List.append_assoc, ← List.filterMap_append]
        rfl
      | @upTo front back m _ _ _ _ hns hfront hm hupTo =>
        refine .upTo (n :: front) (congrArg (n :: ·) hns) ?_ hm ?_
        · show (n.work scope stack >>= workAll scope front).run.run traces = _
          exact (Evaluation.run_bind_ok hfirst.run).trans hfront
        · rw [hupTo, hcalls₁, List.append_assoc, ← List.filterMap_append]
          rfl

/-! ## Evaluating -/

/-- What the host has been asked when evaluating a tree has ended with `r`. -/
structure Asked (tree : Tree) (scope : Scope) (traces : Traces) (r : Except Error (List Float)) (traces' : Traces) :
    Prop where
  /-- If there are values, each of the operands left to it, in their order. -/
  all : ∀ values, r = .ok values → traces'.calls = traces.calls ++ tree.hostCalls
  /-- In any case the first of them. -/
  first : ∃ made, made <+: tree.hostCalls ∧ traces'.calls = traces.calls ++ made
  /-- If not, those of the nodes worked off up to the one that fails, that one included. -/
  failed : ∀ e, r = .error e → ∃ front n back stack traces₁, tree.nodes = front ++ n :: back ∧
    (workAll scope front []).run.run traces = (.ok stack, traces₁) ∧
    (n.work scope stack).run.run traces₁ = (.error e, traces') ∧
    traces'.calls = traces.calls ++ (front ++ [n]).filterMap hostCall?
  /-- What it refuses ends the evaluation. -/
  refused : ∀ before call e, traces.Made traces' before call → scope.host before call = .error e →
    r = .error e ∧ traces'.calls = before ++ [call]
  /-- It is asked nothing else: a host that answers these calls alike cannot be told apart. -/
  only : ∀ host, (∀ before call, traces.Made traces' before call → host before call = scope.host before call) →
    (tree.evaluate (scope.before host)).run.run traces = (r, traces')

/-- A computation whose values are put on the stack ends with what it ends with alone. -/
theorem push_run_iff {c : Evaluation (List Float)} {r : Except Error (List Float)} {traces traces' : Traces} :
    (c >>= fun values => pure [values]).run.run traces = (r.map fun values => [values], traces') ↔
      c.run.run traces = (r, traces') := by
  have hpush (r' : Except Error (List Float)) {traces₁ : Traces} : (r'.map (fun values => [values]), traces₁) =
      (r.map fun values => [values], traces') ↔ (r', traces₁) = (r, traces') := by
    cases r' <;> cases r <;> simp [Except.map]
  rcases hc : c.run.run traces with ⟨e | values, traces₁⟩
  · rw [Evaluation.run_bind_error hc]
    exact hpush (.error e)
  · rw [Evaluation.run_bind_ok hc]
    exact hpush (.ok values)

theorem evaluate_asked {tree : Tree} {traces traces' : Traces} {r : Except Error (List Float)}
    (h : (tree.evaluate scope).run.run traces = (r, traces')) : tree.Asked scope traces r traces' := by
  have hpush (host : Host) : workAll (scope.before host) tree.nodes [] =
      tree.evaluate (scope.before host) >>= fun values => pure [values] := (evaluate_eq_workAll tree []).symm
  obtain ⟨r', traces'', hconsults, hworked⟩ := workAll_consults scope tree.nodes [] traces
  simp only [hpush] at hconsults
  obtain ⟨rfl, rfl⟩ := Prod.mk.inj (hconsults.run.symm.trans (push_run_iff.2 h))
  have hnodes := tree.filterMap_nodes
  refine ⟨?_, ?_, ?_, ?_, ?_⟩
  · rintro values rfl
    cases hworked with
    | all hall => rw [hall, hnodes]
  · generalize r.map (fun values => [values]) = ended at hworked
    cases hworked with
    | all hall => exact ⟨_, List.prefix_rfl, hall.trans (congrArg _ hnodes)⟩
    | @upTo front back n _ _ _ _ hsplit _ _ hupTo =>
      have hfirst : front ++ [n] <+: tree.nodes := ⟨back, by rw [hsplit, List.append_assoc, List.singleton_append]⟩
      exact ⟨_, hnodes ▸ hfirst.filterMap hostCall?, hupTo⟩
  · rintro e rfl
    cases hworked with
    | upTo front hsplit hfront hn hupTo => exact ⟨front, _, _, _, _, hsplit, hfront, hn, hupTo⟩
  · intro before call e hmade hrefuses
    obtain ⟨he, hlast⟩ := hconsults.refused before call e hmade hrefuses
    exact ⟨map_error_iff.1 he, hlast⟩
  · exact fun host hsame => push_run_iff.1 (hconsults.only host hsame)

end Tree

/-- **The host is asked for its operands once each, from left to right.** To evaluate an
expression is to work off its nodes, and the operands left to the host are those of the
nodes, as they are written. It is asked for all of them if there are values, to the right of
an operator as to the left; else for those up to the first node that fails; and for nothing
else. -/
theorem Expression.host_asked_in_order (e : Expression) (scope : Scope) (traces : Traces) :
    (e.tree.evaluate scope >>= fun values => pure [values]) = Tree.workAll scope e.tree.nodes [] ∧
      e.tree.nodes.filterMap Tree.hostCall? = e.tree.hostCalls ∧
      e.tree.Asked scope traces (e.evaluate scope traces).1 (e.evaluate scope traces).2 :=
  ⟨Tree.evaluate_eq_workAll e.tree [], e.tree.filterMap_nodes, Tree.evaluate_asked rfl⟩

/-- A host that answers every script alike and leaves quoted text as it is. -/
def Host.answering (answer : String) : Host := fun _ call =>
  match call with
  | .script _ => .ok answer
  | .substitute text => .ok text

/-- The right side of a conjunction is asked for though the left one is false; a host that
runs no scripts is asked for the first of its operands only. -/
theorem Expression.host_asked_in_order_noShortcut :
    let e : Expression := ⟨"0 && [x] + \"3\"", .binary .and (.number 0.0) (.binary .add (.script "x") (.quoted "3"))⟩
    let scope (host : Host) : Scope := ⟨fun _ => none, .initial, host⟩
    let traces : Traces := { generator := { word := fun _ => 0 } }
    let asked (host : Host) := (e.evaluate (scope host) traces).2.calls
    (e.evaluate (scope (.answering "2")) traces).1 = .ok [0.0] ∧
      asked (.answering "2") = [.script "x", .substitute "3"] ∧
      (e.evaluate (scope .silent) traces).1 = .error (.invalidArg "x" .noInterpreter) ∧
      asked .silent = [.script "x"] := by
  intro e scope traces asked
  have hvalues : (e.evaluate (scope (.answering "2")) traces).1 = .ok [0.0] := by decide +kernel
  obtain ⟨-, -, hasked⟩ := Expression.host_asked_in_order e (scope (.answering "2")) traces
  obtain ⟨-, -, hsilent⟩ := Expression.host_asked_in_order e (scope .silent) traces
  exact ⟨hvalues, hasked.all _ hvalues, hsilent.refused [] (.script "x") _ ⟨List.prefix_rfl, by decide +kernel⟩ rfl⟩

end VectorEngine
