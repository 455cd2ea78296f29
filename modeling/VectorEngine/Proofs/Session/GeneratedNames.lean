/-
The names of vectors created without one.

The number for such a name is the first one, from a counter on, whose name no
vector has, and the counter passes it (`Store.chooseName_none`). Since the counter
never goes back, no name is generated twice in a run. A name generated reads as a
name and is no vector's. The functions are not asked for it, though, so it can be
one under which a vector cannot be created by name.
-/
import Mathlib
import VectorEngine.Proofs.Session.StaleIds

namespace VectorEngine

/-- The name of the vector a request creates without being given one, be it
removed at once for want of room. -/
def Request.generated? (s : Store) : Request → Option String
  | .create none | .command (.create none _) =>
    match s.create none with
    | (s', .ok id) => (s'.get? id).map (·.name)
    | (_, .error _) => none
  | _ => none

def Step.generated? (step : Step) : Option String :=
  match step.act with
  | .ask r => r.generated? step.before.session.store
  | .work _ => none

/-- The names generated for new vectors, in their order. -/
def generated (steps : List Step) : List String := steps.filterMap (·.generated?)

namespace Store

variable {s s' : Store} {id : VectorId} {v : NamedVector} {n : String}

/-- A vector can be created under the name. -/
def Accepts (s : Store) (n : String) : Prop := ∃ s' id, s.create (some n) = (s', .ok id)

/-- How a store finds names for itself, and what they are worth as given ones. -/
structure Naming (s : Store) : Prop where
  /-- The search ends, after no more numbers in use than there are names. -/
  search : ∃ k ≤ s.names.size, (∀ j < k, s.names.contains (generatedName (s.nextName + j)) = true) ∧
    s.names.contains (generatedName (s.nextName + k)) = false ∧
    s.chooseName none = ({ s with nextName := s.nextName + k + 1 }, .ok (generatedName (s.nextName + k)))
  /-- The name of a new vector could have been given, unless it is a function's. -/
  created : ∀ {s' id}, s.create none = (s', .ok id) → ∃ v, s'.get? id = some v ∧ Lexer.isName v.name = true ∧
    (∀ id' u, s.get? id' = some u → u.name ≠ v.name) ∧
    (s.Accepts v.name ↔ s.functions.contains v.name = false)

/-! ## One creation -/

/-- The vector created without a name has the next free one, and is placed as one
given that name would be. -/
theorem create_none_ok (hs : s.Coherent) (h : s.create none = (s', .ok id)) : ∃ k series v,
    v = { name := generatedName (s.nextName + k), series := series, policy := s.config.policy } ∧
      Series.withCapacity s.config.defaultCapacity = .ok series ∧
      s.names.contains v.name = false ∧ s'.get? id = some v ∧ s'.nextName = s.nextName + k + 1 ∧
      s.place v = .ok ({ s' with nextName := s.nextName }, id) := by
  obtain ⟨k, -, -, hfree, hchoose⟩ := chooseName_none s
  obtain ⟨series, hseries, hplace⟩ := (create_ok_iff hchoose).1 h
  have hcounted : ({ s with nextName := s.nextName + k + 1 } : Store).Coherent := hs.congr rfl rfl rfl
  have hget := hcounted.get?_place hplace id
  refine ⟨k, series, _, rfl, hseries, hfree, hget.trans (if_pos rfl), place_nextName hplace, ?_⟩
  rw [place_counter] at hplace
  obtain ⟨⟨s₁, id₁⟩, hplaced, heq⟩ := map_ok_iff.1 hplace
  cases heq
  have hcounter : s₁.nextName = s.nextName := place_nextName hplaced
  rw [hplaced, ← hcounter]

theorem nameRefusal?_of_free (hname : Lexer.isName n = true) (hfree : s.names.contains n = false) :
    s.nameRefusal? n = if s.functions.contains n then some .nameOfFunction else none := by
  simp only [nameRefusal?, hname, hfree, Bool.not_true, Bool.false_eq_true, if_false]

theorem Coherent.naming (hs : s.Coherent) : s.Naming where
  search := chooseName_none s
  created := by
    intro s' id h
    obtain ⟨k, series, v, hnew, hseries, hfree, hv, -, hplace⟩ := create_none_ok hs h
    have hname : v.name = generatedName (s.nextName + k) := congrArg NamedVector.name hnew
    have hlexical : Lexer.isName v.name = true := hname ▸ isName_generatedName _
    refine ⟨v, hv, hlexical, fun id' u hu hun => ?_, ?_⟩
    · have hused := hs.find?_of_get? hu
      rw [hun, NameTable.contains_eq_false.1 hfree] at hused
      cases hused
    · have hrefusal := nameRefusal?_of_free hlexical hfree
      cases hfunction : s.functions.contains v.name with
      | true =>
        rw [hfunction, if_pos rfl] at hrefusal
        have hrefused : s.create (some v.name) = (s, .error (.invalidArg v.name .nameOfFunction)) := by
          simp only [create, chooseName, hrefusal]
        simp [Accepts, hrefused]
      | false =>
        rw [hfunction, if_neg (by decide)] at hrefusal
        have hchoose : s.chooseName (some v.name) = (s, .ok v.name) := by simp only [chooseName, hrefusal]
        rw [hnew] at hplace
        have hcreate := (create_ok_iff (hname ▸ hchoose)).2 ⟨series, hseries, hplace⟩
        exact iff_of_true ⟨_, id, hname ▸ hcreate⟩ rfl

/-! ## The counter -/

theorem Changes.nextName {W : VectorId → Prop} (h : Changes W s s') : s.nextName ≤ s'.nextName := by
  induction h with
  | refl => exact Nat.le_refl _
  | tail _ hc ih => exact Nat.le_trans ih hc.nextName

theorem Opening.nextName {d? : Option Delivery} (h : Opening s s' d?) : s'.nextName = s.nextName := by
  cases h with
  | nothing => rfl
  | update | destroy => rw [modify_nextName]

theorem Begun.nextName {W : VectorId → Prop} {tasks : List Task} (h : Begun W s s' tasks) :
    s.nextName ≤ s'.nextName := by
  obtain ⟨mid, d?, rest, hc, ho, -, -⟩ := h
  exact ho.nextName ▸ hc.nextName

theorem retire_nextName (s : Store) (id : VectorId) : (s.retire id).nextName = s.nextName := by
  unfold retire
  split
  · rfl
  · dsimp only
    split <;> rfl

theorem endDelivery_nextName (s : Store) (d : Delivery) : (s.endDelivery d).nextName = s.nextName := by
  cases hd : d.event.kind with
  | updated => rw [endDelivery_updated s hd, modify_nextName]
  | destroyed => rw [endDelivery_destroyed s hd, retire_nextName]

/-- A creation with a length leaves the counter no earlier than the creation in it. -/
theorem createWithLength_nextName (s : Store) (name? : Option String) (length? : Option Nat) :
    (s.create name?).1.nextName ≤ (s.createWithLength name? length?).1.nextName := by
  unfold createWithLength
  rcases s.create name? with ⟨s₁, e | id⟩
  · exact Nat.le_refl _
  dsimp only
  split
  · exact Nat.le_refl _
  · split
    · next hupdating =>
      have hbegun : Begun (fun _ => True) s₁ _ _ := updating_begun hupdating fun t ht => by
        split at ht <;> simp_all [Task.Inert]
      exact hbegun.nextName
    · rw [retire_nextName]

end Store

theorem Move.nextName {W : VectorId → Prop} {w w' : View} {c : Option (ClientId × ClientEvent)} {f : Option VectorId}
    (hm : Move W w c f w') : w.store.nextName ≤ w'.store.nextName := by
  cases hm with
  | begun F P hc ho => exact ho.nextName ▸ hc.nextName
  | ended s d => exact Nat.le_of_eq (Store.endDelivery_nextName s d).symm
  | flush => rw [Store.modify_nextName]
  | pass | call | skip | passed => exact Nat.le_refl _

/-- **What a step generates.** A name with a number that the counter had not passed
before the step and has passed after it. -/
theorem Next.generated {m m' : Moment} {a : Act} {n : String} (h : Next m a m') (hs : m.session.store.Coherent)
    (hn : Step.generated? ⟨m, a, m'⟩ = some n) :
    ∃ i, n = Store.generatedName i ∧ m.session.store.nextName ≤ i ∧ i < m'.session.store.nextName := by
  cases h with
  | work => cases hn
  | ask s r =>
    -- Both kinds of creation, the second with a store that has gone on since.
    have hcreates : ∀ {store : Store}, (s.store.create none).1.nextName ≤ store.nextName →
        (match s.store.create none with
          | (s', .ok id) => (s'.get? id).map (·.name)
          | (_, .error _) => none) = some n →
        ∃ i, n = Store.generatedName i ∧ s.store.nextName ≤ i ∧ i < store.nextName := by
      intro store hgrown hn
      split at hn
      · next s' id hcreate =>
        obtain ⟨k, _, v, rfl, -, -, hv, hcounter, -⟩ := Store.create_none_ok hs hcreate
        rw [hv, Option.map_some, Option.some.injEq] at hn
        rw [hcreate, hcounter] at hgrown
        exact ⟨s.store.nextName + k, hn.symm, Nat.le_add_right _ k, hgrown⟩
      · cases hn
    cases r with
    | create name? =>
      cases name? with
      | some => cases hn
      | none =>
        refine hcreates (Nat.le_of_eq ?_) hn
        simp only [Session.issue]
        split <;> next hcreate => rw [hcreate]; rfl
    | command c =>
      cases c with
      | create name? length? =>
        cases name? with
        | some => cases hn
        | none =>
          refine hcreates (Nat.le_trans (Store.createWithLength_nextName s.store none length?) (Nat.le_of_eq ?_)) hn
          simp only [Session.issue, Session.execute]
          split <;> next hcreate => rw [hcreate]; rfl
      | _ => cases hn
    | _ => cases hn

/-! ## Runs -/

section

variable {s₀ : Session} {config : StoreConfig} {host : Host} {random : RandomSource} {m : Moment} {steps : List Step}
  (hs₀ : Session.ofConfig config host random = .ok s₀)

include hs₀

/-- The counter has passed the numbers of the names generated, which are all
different. -/
theorem Run.generated_passed (h : Run ⟨s₀, false⟩ steps m) : (generated steps).Nodup ∧
    ∀ n ∈ generated steps, ∃ i < m.session.store.nextName, n = Store.generatedName i := by
  induction h with
  | start => exact ⟨.nil, by simp [generated]⟩
  | @next steps m m' a hrun hnext ih =>
    obtain ⟨hnodup, hpassed⟩ := ih
    have hs := (hrun.sound hs₀).coherent
    have hgrown := (hnext.move hs).nextName
    have hlater : ∀ n ∈ generated steps, ∃ i < m'.session.store.nextName, n = Store.generatedName i := by
      intro n hn
      obtain ⟨i, hi, he⟩ := hpassed n hn
      exact ⟨i, Nat.lt_of_lt_of_le hi hgrown, he⟩
    rw [generated, List.filterMap_append, ← generated]
    cases hgenerated : Step.generated? ⟨m, a, m'⟩ with
    | none => simpa [hgenerated] using ⟨hnodup, hlater⟩
    | some n =>
      obtain ⟨i, rfl, hfrom, hto⟩ := hnext.generated hs hgenerated
      have hnew : Store.generatedName i ∉ generated steps := by
        intro hmem
        obtain ⟨j, hj, he⟩ := hpassed _ hmem
        rw [Store.generatedName_injective he] at hfrom
        exact absurd hj (Nat.not_lt.2 hfrom)
      simp only [List.filterMap_cons, hgenerated, List.filterMap_nil, List.forall_mem_append, List.forall_mem_singleton]
      exact ⟨List.nodup_append.2 ⟨hnodup, List.nodup_singleton _, fun a ha b hb hab =>
        hnew (List.mem_singleton.1 hb ▸ hab ▸ ha)⟩, hlater, i, hto, rfl⟩

/-- **Generated names.** At every moment of every run the search for a name ends,
and a vector created without a name has one that reads as a name and is no
vector's. It could have been given as the name exactly if it is no function's. No
name is generated twice in a run. -/
theorem Run.generated_names_iff (h : Run ⟨s₀, false⟩ steps m) : m.session.store.Naming ∧ (generated steps).Nodup :=
  ⟨(h.sound hs₀).coherent.naming, (h.generated_passed hs₀).1⟩

end

/-- The program has a vector created under a name like those generated, one without
a name, and another after that one is destroyed. It registers a function under the
next name. -/
def Moment.functionNamed : List (Option Request) :=
  [some (.create (some "vector1")), none, some (.create none), none, some (.destroy ⟨1, 0⟩), none, none,
    some (.create none), none, some (.registerFunction "vector4" (.total Float.abs)), none]

theorem Run.generated_names_iff_functionNamed :
    let steps := Moment.play ⟨.initial, false⟩ Moment.functionNamed
    let m := Moment.outcome ⟨.initial, false⟩ Moment.functionNamed
    generated steps = ["vector2", "vector3"] ∧ m.session.store.Naming ∧ (generated steps).Nodup := by
  intro steps m
  have hrun : Run ⟨.initial, false⟩ steps m := Moment.run_play (by decide +kernel)
  exact ⟨by decide +kernel, Run.generated_names_iff Session.ofConfig_initial hrun⟩

/-- The next vector created without a name gets that of the function, under which
none can be created by name. -/
theorem Run.not_accepted_functionNamed :
    let m := Moment.outcome ⟨.initial, false⟩ Moment.functionNamed
    let created := m.session.store.create none
    Run ⟨.initial, false⟩ (Moment.play ⟨.initial, false⟩ Moment.functionNamed) m ∧
      created.2 = .ok ⟨2, 0⟩ ∧ (created.1.get? ⟨2, 0⟩).map (·.name) = some "vector4" ∧
      ¬m.session.store.Accepts "vector4" := by
  intro m created
  refine ⟨Moment.run_play (by decide +kernel), by decide +kernel, by decide +kernel, ?_⟩
  have hrefused : (m.session.store.create (some "vector4")).2 = .error (.invalidArg "vector4" .nameOfFunction) := by
    decide +kernel
  rintro ⟨s', id, hcreate⟩
  rw [hcreate] at hrefused
  cases hrefused

end VectorEngine
