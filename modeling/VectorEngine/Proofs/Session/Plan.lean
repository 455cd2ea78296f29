/-
What is planned before several vectors are written to.

Splitting, sorting and the transforms check all they are asked for, and compute all
they write, before they write anything. A request that passes its checks has a plan,
which is what to write to which vectors in turn, and what to answer then
(`Plans.issue`); one that does not is refused (`Joint.refused`). A plan names no vector
twice and none that is not there.
-/
import Mathlib
import VectorEngine.Proofs.Session.MergeSplit
import VectorEngine.Proofs.Session.Sort

namespace VectorEngine

/-- The request is for an operation that may write to several vectors. -/
def Request.Joint : Request → Prop
  | .split .. | .sort .. | .spectrum .. | .signal .. => True
  | _ => False

/-- The outputs are there, different from the sources and from each other. -/
structure Store.Outputs (s : Store) (sources ids : List VectorId) : Prop where
  there : ∀ id ∈ ids, s.Has id
  apart : ∀ id ∈ ids, id ∉ sources
  distinct : ids.Nodup

/-- What is written back from a half spectrum. -/
def Store.restored (targetReal : VectorId) (targetImag? : Option VectorId) (half : HalfSpectrum Float) :
    List (VectorId × List Float) :=
  (targetReal, half.signal.map (·.re)) :: (targetImag?.map fun id => (id, half.signal.map (·.im))).toList

/-- The request passes its checks, and has this to write and this to answer. -/
inductive Request.Plans (s : Store) : Request → List (VectorId × List Float) → Answer → Prop
  | split {source : VectorId} {targets : List VectorId} {xs : List Float} :
    s.Splittable source targets xs → Plans s (.split source targets) (Store.dealing targets xs) .done
  | sort {keys companions : List VectorId} {options : SortOptions} {n : Nat} {rows : List Nat}
    {writes : List (VectorId × List Float)} : s.Sorts keys companions options n rows →
    (keys ++ companions).eraseDups.mapM (s.reordered n rows) = .ok writes →
    Plans s (.sort keys companions options) writes (.order rows)
  | spectrum {source : VectorId} {outputs : SpectrumOutputs VectorId} {options : SpectrumOptions Float}
    {xs : List Float} {x : Spectrum Float} : s.Outputs [source] (outputs.named.map (·.2)) →
    s.valuesOf source = .ok xs → Spectrum.ofSignal options xs = .ok x →
    Plans s (.spectrum source outputs options) (outputs.writes x) (.count x.padded)
  | signal {real targetReal : VectorId} {imag? targetImag? : Option VectorId} {includesConstant : Bool}
    {xs : List Float} {ys? : Option (List Float)} {half : HalfSpectrum Float} :
    s.Outputs (real :: imag?.toList) (targetReal :: targetImag?.toList) → s.valuesOf real = .ok xs →
    imag?.mapM s.valuesOf = .ok ys? → HalfSpectrum.ofParts includesConstant xs ys? = .ok half →
    Plans s (.signal real imag? targetReal targetImag? includesConstant)
      (Store.restored targetReal targetImag? half) .done

namespace Store

variable {s : Store} {sources ids : List VectorId} {outputs : List (String × VectorId)} {begun : Store × List Task}

/-! ## Checks -/

theorem repeatedOutput?_eq_none_iff {seen : List VectorId} :
    repeatedOutput? seen outputs = none ↔ (outputs.map (·.2)).Nodup ∧ ∀ o ∈ outputs, o.2 ∉ seen := by
  refine ⟨nodup_of_not_repeated, ?_⟩
  induction outputs generalizing seen with
  | nil => exact fun _ => rfl
  | cons o outputs ih =>
    obtain ⟨arg, id⟩ := o
    intro ⟨hnodup, hnew⟩
    obtain ⟨hid, hnodup⟩ := List.nodup_cons.1 hnodup
    obtain ⟨hfirst, hnew⟩ := List.forall_mem_cons.1 hnew
    rw [repeatedOutput?, if_neg hfirst]
    refine ih ⟨hnodup, fun o ho hseen => ?_⟩
    obtain he | hseen := List.mem_cons.1 hseen
    · exact hid (List.mem_map.2 ⟨o, ho, he⟩)
    · exact hnew o ho hseen

theorem checkOutputs_ok_iff : checkOutputs sources outputs = .ok () ↔
    (∀ id ∈ outputs.map (·.2), id ∉ sources) ∧ (outputs.map (·.2)).Nodup := by
  have hapart : (outputs.find? fun o => sources.contains o.2) = none ↔ ∀ id ∈ outputs.map (·.2), id ∉ sources := by
    rw [List.find?_eq_none, List.forall_mem_map]
    simp
  have hnodup : repeatedOutput? [] outputs = none ↔ (outputs.map (·.2)).Nodup := by
    simp [repeatedOutput?_eq_none_iff]
  rw [← hapart, ← hnodup]
  unfold checkOutputs
  cases outputs.find? fun o => sources.contains o.2 with
  | some o => simp
  | none => cases repeatedOutput? [] outputs <;> simp

theorem outputs_iff : s.Outputs sources (outputs.map (·.2)) ↔
    checkOutputs sources outputs = .ok () ∧ s.getAll (outputs.map (·.2)) = .ok () := by
  rw [checkOutputs_ok_iff, getAll_ok_iff]
  constructor
  · intro ⟨hthere, hapart, hdistinct⟩
    exact ⟨⟨hapart, hdistinct⟩, hthere⟩
  · intro ⟨⟨hapart, hdistinct⟩, hthere⟩
    exact ⟨hthere, hapart, hdistinct⟩

/-! ## Transforms -/

theorem spectrum_ok_iff {source : VectorId} {outputs : SpectrumOutputs VectorId} {options : SpectrumOptions Float}
    {next : Nat → List Task} : s.spectrum source outputs options next = .ok begun ↔
      ∃ xs x, s.Outputs [source] (outputs.named.map (·.2)) ∧ s.valuesOf source = .ok xs ∧
        Spectrum.ofSignal options xs = .ok x ∧ s.writing (outputs.writes x) (next x.padded) = begun := by
  unfold spectrum
  rw [outputs_iff]
  simp only [bind_ok_iff, lift_ok_iff, pure, Except.pure, Except.ok.injEq]
  constructor
  · rintro ⟨_, hcheck, _, hall, _, -, xs, hxs, x, hx, hbegun⟩
    exact ⟨xs, x, ⟨hcheck, hall⟩, hxs, hx, hbegun⟩
  · intro ⟨xs, x, ⟨hcheck, hall⟩, hxs, hx, hbegun⟩
    obtain ⟨_, hoptions, -⟩ := bind_ok_iff.1 hx
    exact ⟨(), hcheck, (), hall, (), hoptions, xs, hxs, x, hx, hbegun⟩

theorem restored_fst {targetReal : VectorId} {targetImag? : Option VectorId} {half : HalfSpectrum Float} :
    (restored targetReal targetImag? half).map (·.1) = targetReal :: targetImag?.toList := by
  cases targetImag? <;> rfl

theorem signal_eq (s : Store) (real targetReal : VectorId) (imag? targetImag? : Option VectorId)
    (includesConstant : Bool) (rest : List Task) :
    s.signal real imag? targetReal targetImag? includesConstant rest = (do
      let targets := ("real", targetReal) :: (targetImag?.map fun id => ("imag", id)).toList
      checkOutputs (real :: imag?.toList) targets
      s.getAll (targets.map (·.2))
      let ys? ← imag?.mapM s.valuesOf
      let half ← InputError.lift (HalfSpectrum.ofParts includesConstant (← s.valuesOf real) ys?)
      return s.writing (restored targetReal targetImag? half) rest) := by
  cases imag? <;> rfl

theorem signal_ok_iff {real targetReal : VectorId} {imag? targetImag? : Option VectorId} {includesConstant : Bool}
    {rest : List Task} : s.signal real imag? targetReal targetImag? includesConstant rest = .ok begun ↔
      ∃ xs ys? half, s.Outputs (real :: imag?.toList) (targetReal :: targetImag?.toList) ∧ s.valuesOf real = .ok xs ∧
        imag?.mapM s.valuesOf = .ok ys? ∧ HalfSpectrum.ofParts includesConstant xs ys? = .ok half ∧
        s.writing (restored targetReal targetImag? half) rest = begun := by
  have hnamed : (("real", targetReal) :: (targetImag?.map fun id => ("imag", id)).toList).map (·.2) =
      targetReal :: targetImag?.toList := by cases targetImag? <;> rfl
  rw [signal_eq, ← hnamed, outputs_iff]
  simp only [bind_ok_iff, lift_ok_iff, pure, Except.pure, Except.ok.injEq]
  constructor
  · intro ⟨_, hcheck, _, hall, ys?, hys, xs, hxs, half, hhalf, hbegun⟩
    exact ⟨xs, ys?, half, ⟨hcheck, hall⟩, hxs, hys, hhalf, hbegun⟩
  · intro ⟨xs, ys?, half, ⟨hcheck, hall⟩, hxs, hys, hhalf, hbegun⟩
    exact ⟨(), hcheck, (), hall, ys?, hys, xs, hxs, half, hhalf, hbegun⟩

end Store

namespace Request

variable {s : Session} {r : Request} {writes : List (VectorId × List Float)} {a : Answer}

/-- **A request with a plan** begins with all its writes, and notes them afterwards. -/
theorem Plans.issue (h : r.Plans s.store writes a) :
    s.issue r = s.begin (.ok (s.store.writing writes [.answer a])) := by
  cases h with
  | split h => exact congrArg s.begin (Store.split_ok_iff.2 ⟨_, h, rfl⟩)
  | sort h hwrites => exact congrArg s.begin (Store.sort_ok_iff.2 ⟨_, _, _, h, hwrites, rfl⟩)
  | spectrum h hxs hx => exact congrArg s.begin (Store.spectrum_ok_iff.2 ⟨_, _, h, hxs, hx, rfl⟩)
  | signal h hxs hys hhalf => exact congrArg s.begin (Store.signal_ok_iff.2 ⟨_, _, _, h, hxs, hys, hhalf, rfl⟩)

/-- One without is refused. -/
theorem Joint.refused (hr : r.Joint) (hnone : ¬∃ writes a, r.Plans s.store writes a) : ∃ e, s.issue r = s.fail e := by
  have hbegin : ∀ {begun : Except Error (Store × List Task)}, (∀ b, begun ≠ .ok b) → ∃ e, s.begin begun = s.fail e := by
    intro begun hbegun
    cases begun with
    | ok b => exact absurd rfl (hbegun b)
    | error e => exact ⟨e, rfl⟩
  cases r with
  | split source targets =>
    refine hbegin fun b hb => hnone ?_
    obtain ⟨xs, h, -⟩ := Store.split_ok_iff.1 hb
    exact ⟨_, _, .split h⟩
  | sort keys companions options =>
    refine hbegin fun b hb => hnone ?_
    obtain ⟨n, rows, writes, h, hwrites, -⟩ := Store.sort_ok_iff.1 hb
    exact ⟨_, _, .sort h hwrites⟩
  | spectrum source outputs options =>
    refine hbegin fun b hb => hnone ?_
    obtain ⟨xs, x, h, hxs, hx, -⟩ := Store.spectrum_ok_iff.1 hb
    exact ⟨_, _, .spectrum h hxs hx⟩
  | signal real imag? targetReal targetImag? includesConstant =>
    refine hbegin fun b hb => hnone ?_
    obtain ⟨xs, ys?, half, h, hxs, hys, hhalf, -⟩ := Store.signal_ok_iff.1 hb
    exact ⟨_, _, .signal h hxs hys hhalf⟩
  | _ => exact hr.elim

/-- A plan names every vector once, and only vectors that are there. -/
theorem Plans.targets {s : Store} (h : r.Plans s writes a) : (writes.map (·.1)).Nodup ∧ ∀ w ∈ writes, s.Has w.1 := by
  -- It is enough to know the ids that are listed.
  have hlisted : ∀ {ids : List VectorId}, writes.map (·.1) = ids → ids.Nodup → (∀ id ∈ ids, s.Has id) →
      (writes.map (·.1)).Nodup ∧ ∀ w ∈ writes, s.Has w.1 := by
    rintro _ rfl hdistinct hthere
    exact ⟨hdistinct, fun w hw => hthere w.1 (List.mem_map_of_mem hw)⟩
  cases h with
  | split h => exact hlisted Store.dealing_fst h.distinct h.there
  | sort _ hwrites =>
    obtain ⟨hids, hvalues⟩ := Store.written_of_mapM hwrites
    refine ⟨hids ▸ Store.eraseDups_nodup _, fun w hw => ?_⟩
    obtain ⟨xs, hxs, -⟩ := hvalues w hw
    exact Store.get?_of_valuesOf hxs
  | spectrum h => exact hlisted (Store.writes_targets _ _) h.distinct h.there
  | signal h => exact hlisted Store.restored_fst h.distinct h.there

end Request
end VectorEngine
