/-
How the operations on several vectors, and the commands, start.

`Writes` and `Form` tell the few ways apart; that each is begun as `Begun` says
follows from them. How a command starts goes by its kind (`Command.kind`). What is
written goes to the vectors the command names for it (`Command.targets`), to each
of them once. Flushes are taken back by two commands only (`Command.TakesBack`).
-/
import Mathlib
import VectorEngine.Proofs.Operation
import VectorEngine.Proofs.Store.Change

namespace VectorEngine

/-- The command takes back a pending flush of the vector. -/
def Command.TakesBack (s : Store) (c : Command) (id : VectorId) : Prop :=
  match c with
  | .notify name .cancel | .notify name (.policy .never) => s.lookup name = .ok id
  | _ => False

/-- What a command is there for. -/
inductive Command.Kind
  | looks
  | creates
  | destroys
  /-- Sees to what the clients of a vector are told. -/
  | notifies
  /-- Changes the contents of vectors. -/
  | changes
deriving DecidableEq

/-- Copying a vector to itself is a way to look at it. -/
def Command.kind : Command → Kind
  | .names | .values _ | .length _ none | .offset _ none | .index .. | .range .. | .search .. | .count .. | .indices ..
  | .expression none _ | .notify _ .pending | .writeBlock .. | .statistic .. => .looks
  | .create .. => .creates
  | .destroy _ => .destroys
  | .notify .. => .notifies
  | .dup source target => if source = target then .looks else .changes
  | .set .. | .append .. | .length _ (some _) | .offset _ (some _) | .clear _ | .delete .. | .setIndex .. | .unset ..
  | .merge .. | .split .. | .normalize .. | .sequence .. | .populate .. | .sort .. | .expression (some _) _
  | .spectrum .. | .signal .. | .readBlock .. => .changes

/-- The names of the vectors a command changes, in the order of their changes. -/
def Command.targets : Command → List String
  | .create .. | .names | .values _ | .length _ none | .offset _ none | .index .. | .range .. | .search ..
  | .count .. | .indices .. | .notify _ .pending | .writeBlock .. | .statistic .. => []
  | .set name _ | .append name _ | .length name (some _) | .offset name (some _) | .clear name | .delete name _
  | .setIndex name _ _ | .unset name _ | .sequence name _ _ _ | .notify name _ | .readBlock name _ _ _ _ => [name]
  | .dup _ target | .merge target _ | .populate target _ _ => [target]
  | .destroy listed => listed
  | .split _ targets => targets
  | .normalize name target? => [target?.getD name]
  | .sort keys companions _ => keys ++ companions
  | .expression target? _ => target?.toList
  | .spectrum _ outputs _ => outputs.named.map (·.2)
  | .signal _ _ targetReal targetImag? _ => targetReal :: targetImag?.toList

/-- The vectors a command changes, each once. -/
def Store.targets (s : Store) (c : Command) : List VectorId := (c.targets.filterMap s.names.find?).eraseDups

namespace Store

variable {W : VectorId → Prop} {s s' : Store} {id : VectorId} {ids : List VectorId} {tasks rest : List Task}

/-! ## Several vectors -/

/-- What an operation writes before it goes on with `rest`: nothing, one vector,
by an operation on its series, or several. -/
inductive Writes (s : Store) (rest : List Task) : List VectorId → Store → List Task → Prop
  | nothing : Writes s rest [] s rest
  | one {s' : Store} {tasks : List Task} {id : VectorId} (o : Series.Operation) :
    s.updating id o.apply rest = .ok (s', tasks) → Writes s rest [id] s' tasks
  | several {s' : Store} {tasks : List Task} {writes : List (VectorId × List Float)} :
    (∀ w ∈ writes, ∃ v, s.get? w.1 = some v) → s.writing writes rest = (s', tasks) →
    Writes s rest (writes.map (·.1)) s' tasks

theorem Writes.begun (h : Writes s rest ids s' tasks) (hi : ∀ t ∈ rest, t.Inert) : Begun W s s' tasks := by
  cases h with
  | nothing => exact .of_changes .refl hi
  | one _ h => exact updating_begun h hi
  | several _ h => exact writing_begun h hi

theorem getAll_ok : ∀ {ids : List VectorId} {u : Unit}, s.getAll ids = .ok u → ∀ id ∈ ids, ∃ v, s.get? id = some v
  | [], _, _ => by simp
  | id :: ids, u, h => by
    simp only [getAll, List.forM_eq_forM, List.forM_cons] at h
    obtain ⟨_, hid, hids⟩ := bind_ok_iff.1 h
    obtain ⟨v, hv, -⟩ := bind_ok_iff.1 hid
    intro id' hmem
    rcases List.mem_cons.1 hmem with rfl | hmem
    · exact ⟨v, get_eq_ok_iff.1 hv⟩
    · exact getAll_ok hids id' hmem

theorem get?_of_valuesOf {values : List Float} (h : s.valuesOf id = .ok values) : ∃ v, s.get? id = some v := by
  obtain ⟨v, hv, -⟩ := bind_ok_iff.1 h
  exact ⟨v, get_eq_ok_iff.1 hv⟩

/-- The values of a list computed one by one. -/
theorem mem_of_mapM_ok {α β : Type} {f : α → Except Error β} {ys : List β} : ∀ {xs : List α}, xs.mapM f = .ok ys →
    ∀ y ∈ ys, ∃ x ∈ xs, f x = .ok y
  | [], h => by
    cases h
    simp
  | x :: xs, h => by
    rw [List.mapM_cons] at h
    obtain ⟨y, hy, h⟩ := bind_ok_iff.1 h
    obtain ⟨ys', hys, h⟩ := bind_ok_iff.1 h
    cases h
    intro z hz
    rcases List.mem_cons.1 hz with rfl | hz
    · exact ⟨x, List.mem_cons_self, hy⟩
    · obtain ⟨x', hx', hz⟩ := mem_of_mapM_ok hys z hz
      exact ⟨x', List.mem_cons_of_mem _ hx', hz⟩

/-- Values computed with the elements they belong to. -/
theorem map_fst_of_mapM_ok {α β : Type} {f : α → Except Error (α × β)} (hf : ∀ x y, f x = .ok y → y.1 = x)
    {ys : List (α × β)} : ∀ {xs : List α}, xs.mapM f = .ok ys → ys.map (·.1) = xs
  | [], h => by
    cases h
    rfl
  | x :: xs, h => by
    rw [List.mapM_cons] at h
    obtain ⟨y, hy, h⟩ := bind_ok_iff.1 h
    obtain ⟨ys', hys, h⟩ := bind_ok_iff.1 h
    cases h
    rw [List.map_cons, hf x y hy, map_fst_of_mapM_ok hf hys]

theorem eraseDups_of_nodup : ∀ {ids : List VectorId}, ids.Nodup → ids.eraseDups = ids
  | [], _ => rfl
  | id :: ids, h => by
    obtain ⟨hid, hids⟩ := List.nodup_cons.1 h
    have hothers : ids.filter (fun id' => !id' == id) = ids := by
      refine List.filter_eq_self.2 fun id' hid' => ?_
      have hne : id' ≠ id := fun he => hid (he ▸ hid')
      simpa using hne
    rw [List.eraseDups_cons, hothers, eraseDups_of_nodup hids]

theorem eraseDups_nodup : ∀ ids : List VectorId, ids.eraseDups.Nodup
  | [] => .nil
  | id :: ids => by
    rw [List.eraseDups_cons, List.nodup_cons]
    exact ⟨by simp [List.mem_eraseDups], eraseDups_nodup _⟩
termination_by ids => ids.length
decreasing_by exact Nat.lt_succ_of_le (List.length_filter_le _ _)

/-- Copying writes to the target, unless it is the source. -/
theorem dup_cases {source target : VectorId} (h : s.dup source target rest = .ok (s', tasks)) :
    source = target ∧ s' = s ∧ tasks = rest ∨ source ≠ target ∧ Writes s rest [target] s' tasks := by
  unfold dup at h
  obtain ⟨values, -, h⟩ := bind_ok_iff.1 h
  obtain ⟨v, -, h⟩ := bind_ok_iff.1 h
  split at h
  · next he =>
    cases h
    exact .inl ⟨he, rfl, rfl⟩
  · next hne => exact .inr ⟨hne, .one (.setValues _) h⟩

theorem merge_writes {target : VectorId} {sources : List VectorId} (h : s.merge target sources rest = .ok (s', tasks)) :
    Writes s rest [target] s' tasks := by
  unfold merge at h
  obtain ⟨columns, -, h⟩ := bind_ok_iff.1 h
  dsimp only at h
  split at h
  · cases h
  · exact .one (.setValues _) h

theorem split_writes {source : VectorId} {targets : List VectorId} (h : s.split source targets rest = .ok (s', tasks)) :
    Writes s rest targets.eraseDups s' tasks := by
  unfold split at h
  dsimp only at h
  split at h
  · cases h
  obtain ⟨values, -, h⟩ := bind_ok_iff.1 h
  split at h
  · cases h
  split at h
  · cases h
  next hnodup =>
  obtain ⟨_, hall, h⟩ := bind_ok_iff.1 h
  have hids : (targets.zipIdx.map fun p => (p.1, deal values targets.length p.2)).map (·.1) = targets.eraseDups := by
    rw [List.map_map, eraseDups_of_nodup (by simpa using hnodup)]
    exact List.zipIdx_map_fst 0 targets
  refine hids ▸ .several (fun w hw => ?_) (Except.ok.inj h)
  obtain ⟨⟨id, k⟩, hid, rfl⟩ := List.mem_map.1 hw
  exact getAll_ok hall id (List.fst_mem_of_mem_zipIdx hid)

theorem normalize_writes {target? : Option VectorId} (h : s.normalize id target? rest = .ok (s', tasks)) :
    Writes s rest [target?.getD id] s' tasks := by
  unfold normalize at h
  obtain ⟨values, -, h⟩ := bind_ok_iff.1 h
  exact .one (.setValues _) h

theorem populate_writes {target source : VectorId} {density : Nat}
    (h : s.populate target source density rest = .ok (s', tasks)) : Writes s rest [target] s' tasks := by
  unfold populate at h
  obtain ⟨old, -, h⟩ := bind_ok_iff.1 h
  obtain ⟨values, -, h⟩ := bind_ok_iff.1 h
  exact .one (.setValues _) h

theorem sort_writes {keys companions : List VectorId} {options : SortOptions} {next : List Nat → List Task}
    (h : s.sort keys companions options next = .ok (s', tasks)) :
    ∃ rows, Writes s (next rows) (keys ++ companions).eraseDups s' tasks := by
  unfold sort at h
  obtain ⟨columns, -, h⟩ := bind_ok_iff.1 h
  obtain ⟨order, -, h⟩ := bind_ok_iff.1 h
  obtain ⟨writes, hwrites, h⟩ := bind_ok_iff.1 h
  have hids : writes.map (·.1) = (keys ++ companions).eraseDups := by
    refine map_fst_of_mapM_ok (fun id w hw => ?_) hwrites
    obtain ⟨values, -, hw⟩ := bind_ok_iff.1 hw
    split at hw
    · cases hw
      rfl
    · cases hw
  refine ⟨order, hids ▸ .several (fun w hw => ?_) (Except.ok.inj h)⟩
  obtain ⟨id, -, hid⟩ := mem_of_mapM_ok hwrites w hw
  obtain ⟨values, hvalues, hid⟩ := bind_ok_iff.1 hid
  split at hid
  · cases hid
    exact get?_of_valuesOf hvalues
  · cases hid

/-- What is written goes to the outputs, in their order. -/
theorem writes_targets (outputs : SpectrumOutputs VectorId) (x : Spectrum Float) :
    (outputs.writes x).map (·.1) = outputs.named.map (·.2) := by
  obtain ⟨real, imag, magnitude, phase, frequency⟩ := outputs
  cases real <;> cases imag <;> cases magnitude <;> cases phase <;> cases frequency <;> rfl

theorem nodup_of_not_repeated : ∀ {outputs : List (String × VectorId)} {seen : List VectorId},
    repeatedOutput? seen outputs = none → (outputs.map (·.2)).Nodup ∧ ∀ o ∈ outputs, o.2 ∉ seen
  | [], _, _ => ⟨.nil, by simp⟩
  | (arg, id) :: outputs, seen, h => by
    rw [repeatedOutput?] at h
    split at h
    · cases h
    next hid =>
    obtain ⟨hnodup, hnew⟩ := nodup_of_not_repeated h
    refine ⟨List.nodup_cons.2 ⟨fun hmem => ?_, hnodup⟩, fun o ho => ?_⟩
    · obtain ⟨o, ho, rfl⟩ := List.mem_map.1 hmem
      exact hnew o ho List.mem_cons_self
    · rcases List.mem_cons.1 ho with rfl | ho
      · exact hid
      · exact fun hseen => hnew o ho (List.mem_cons_of_mem _ hseen)

/-- Checked outputs go to different vectors. -/
theorem nodup_of_checkOutputs {sources : List VectorId} {outputs : List (String × VectorId)} {u : Unit}
    (h : checkOutputs sources outputs = .ok u) : (outputs.map (·.2)).Nodup := by
  unfold checkOutputs at h
  split at h
  · cases h
  split at h
  · cases h
  next hrepeated => exact (nodup_of_not_repeated hrepeated).1

theorem spectrum_writes {source : VectorId} {outputs : SpectrumOutputs VectorId} {options : SpectrumOptions Float}
    {next : Nat → List Task} (h : s.spectrum source outputs options next = .ok (s', tasks)) :
    ∃ n, Writes s (next n) (outputs.named.map (·.2)).eraseDups s' tasks := by
  unfold spectrum at h
  obtain ⟨_, hcheck, h⟩ := bind_ok_iff.1 h
  obtain ⟨_, hall, h⟩ := bind_ok_iff.1 h
  obtain ⟨_, -, h⟩ := bind_ok_iff.1 h
  obtain ⟨values, -, h⟩ := bind_ok_iff.1 h
  obtain ⟨x, -, h⟩ := bind_ok_iff.1 h
  rw [eraseDups_of_nodup (nodup_of_checkOutputs hcheck), ← writes_targets outputs x]
  refine ⟨x.padded, .several (fun w hw => ?_) (Except.ok.inj h)⟩
  exact getAll_ok hall w.1 (writes_targets outputs x ▸ List.mem_map.2 ⟨w, hw, rfl⟩)

theorem signal_writes {real targetReal : VectorId} {imag? targetImag? : Option VectorId} {includesConstant : Bool}
    (h : s.signal real imag? targetReal targetImag? includesConstant rest = .ok (s', tasks)) :
    Writes s rest (targetReal :: targetImag?.toList).eraseDups s' tasks := by
  unfold signal at h
  obtain ⟨_, hcheck, h⟩ := bind_ok_iff.1 h
  obtain ⟨_, hall, h⟩ := bind_ok_iff.1 h
  have hnamed : (("real", targetReal) :: (targetImag?.map fun id => ("imag", id)).toList).map (·.2) =
      targetReal :: targetImag?.toList := by cases targetImag? <;> rfl
  have hids : ∀ re im : List Float, ((targetReal, re) :: (targetImag?.map fun id => (id, im)).toList).map (·.1) =
      targetReal :: targetImag?.toList := by
    intro re im
    cases targetImag? <;> rfl
  have hwritten : ∀ re im : List Float, ∀ w ∈ (targetReal, re) :: (targetImag?.map fun id => (id, im)).toList,
      ∃ v, s.get? w.1 = some v := by
    intro re im w hw
    rw [hnamed, ← hids re im] at hall
    exact getAll_ok hall w.1 (List.mem_map.2 ⟨w, hw, rfl⟩)
  rw [eraseDups_of_nodup (hnamed ▸ nodup_of_checkOutputs hcheck)]
  dsimp only at h
  split at h
  · obtain ⟨imag, -, h⟩ := bind_ok_iff.1 h
    obtain ⟨values, -, h⟩ := bind_ok_iff.1 h
    obtain ⟨half, -, h⟩ := bind_ok_iff.1 h
    exact hids _ _ ▸ .several (hwritten _ _) (Except.ok.inj h)
  · obtain ⟨imag, -, h⟩ := bind_ok_iff.1 h
    obtain ⟨values, -, h⟩ := bind_ok_iff.1 h
    obtain ⟨half, -, h⟩ := bind_ok_iff.1 h
    exact hids _ _ ▸ .several (hwritten _ _) (Except.ok.inj h)

theorem readBlock_writes {bytes : List UInt8} {format : NumberFormat} {order : ByteOrder} {at? : Option Nat}
    {next : Nat → List Task} (h : s.readBlock id bytes format order at? next = .ok (s', tasks)) :
    ∃ n, Writes s (next n) [id] s' tasks := by
  unfold readBlock at h
  obtain ⟨values, -, h⟩ := bind_ok_iff.1 h
  exact ⟨values.length, .one (.splice _ _) h⟩

/-! ## Notification -/

theorem cancelNotify_eq {pending : Bool} (h : s.cancelNotify id = .ok (s', pending)) :
    s' = s.modify id NamedVector.takeBack := by
  unfold cancelNotify isPending at h
  obtain ⟨pending, hp, h⟩ := bind_ok_iff.1 h
  obtain ⟨v, hv, hp⟩ := bind_ok_iff.1 hp
  rw [get_eq_ok_iff] at hv
  cases hp
  cases h
  split
  · next hpending =>
    refine modify_congr fun w hw => ?_
    rw [hv, Option.some.injEq] at hw
    subst hw
    simp [NamedVector.takeBack, of_decide_eq_true hpending]
  · next hpending =>
    refine (modify_eq_self fun w hw => ?_).symm
    rw [hv, Option.some.injEq] at hw
    subst hw
    simp only [decide_eq_true_eq] at hpending
    simp [NamedVector.takeBack, hpending]

theorem cancelNotify_change {pending : Bool} (h : s.cancelNotify id = .ok (s', pending)) (hw : W id) : Change W s s' :=
  cancelNotify_eq h ▸ .takeBack s hw

theorem setPolicy_never_eq (h : s.setPolicy id .never = .ok s') :
    s' = (s.modify id fun v => { v with policy := .never }).modify id NamedVector.takeBack := by
  unfold setPolicy at h
  obtain ⟨v, -, h⟩ := bind_ok_iff.1 h
  cases h
  rw [modify_modify]
  exact modify_congr fun v _ => by simp [NamedVector.takeBack]

theorem setPolicy_eq {p : NotifyPolicy} (h : s.setPolicy id p = .ok s') (hp : p ≠ .never) :
    s' = s.modify id fun v => { v with policy := p } := by
  unfold setPolicy at h
  obtain ⟨v, -, h⟩ := bind_ok_iff.1 h
  cases h
  exact modify_congr fun v _ => by simp [hp]

theorem setPolicy_changes {p : NotifyPolicy} (h : s.setPolicy id p = .ok s') (hw : p = .never → W id) :
    Changes W s s' := by
  by_cases hp : p = .never
  · subst hp
    exact setPolicy_never_eq h ▸ .tail (.single (.policy s id .never)) (.takeBack _ (hw rfl))
  · exact setPolicy_eq h hp ▸ .single (.policy s id p)

/-! ## Commands -/

/-- Tasks that answer a command, if the vector they look at is there. -/
def Answering (s : Store) : List Task → Prop
  | [.answer _] => True
  | [.answerLength id] | [.answerOffset id] => ∃ v, s.get? id = some v
  | _ => False

theorem Answering.inert (h : s.Answering rest) : ∀ t ∈ rest, t.Inert := by
  unfold Answering at h
  split at h
  · simp [Task.Inert]
  · simp [Task.Inert]
  · simp [Task.Inert]
  · exact h.elim

/-- How a command starts that neither creates a vector nor evaluates an
expression. -/
inductive Form (s : Store) : Command → Store → List Task → Prop
  | looks {c : Command} (a : Answer) : c.kind = .looks → Form s c s [.answer a]
  | destroys {names : List String} {ids : List VectorId} : s.lookupAll names = .ok ids →
    Form s (.destroy names) s [.destroyNamed ids]
  | notifies {s' : Store} {tasks : List Task} {name : String} {id : VectorId} {action : NotifyAction} :
    action ≠ .pending → s.lookup name = .ok id → s.notifying id action = .ok (s', tasks) →
    Form s (.notify name action) s' tasks
  | changes {s' : Store} {c : Command} {ids : List VectorId} {rest tasks : List Task} : c.kind = .changes →
    s.lookupAll c.targets = .ok ids → s.Answering rest → Writes s rest ids.eraseDups s' tasks → Form s c s' tasks

variable {c : Command}

/-! Each list of names is looked up before anything is written. -/

theorem lookupAll_singleton {name : String} (h : s.lookup name = .ok id) : s.lookupAll [name] = .ok [id] := by
  rw [lookupAll, List.mapM_cons, h]
  rfl

theorem lookupAll_append {names names' : List String} {ids ids' : List VectorId} (h : s.lookupAll names = .ok ids)
    (h' : s.lookupAll names' = .ok ids') : s.lookupAll (names ++ names') = .ok (ids ++ ids') := by
  rw [lookupAll] at h h' ⊢
  rw [List.mapM_append, h, h']
  rfl

theorem lookupAll_of_lookup? {name? : Option String} {id? : Option VectorId} (h : s.lookup? name? = .ok id?) :
    s.lookupAll name?.toList = .ok id?.toList := by
  cases name? with
  | none =>
    cases h
    rfl
  | some n =>
    obtain ⟨id, hid, rfl⟩ := map_ok_iff.1 h
    exact lookupAll_singleton hid

theorem lookupAll_of_lookupOutputs {outputs : SpectrumOutputs String} {ids : SpectrumOutputs VectorId}
    (h : s.lookupOutputs outputs = .ok ids) :
    s.lookupAll (outputs.named.map (·.2)) = .ok (ids.named.map (·.2)) := by
  have hplaces : ∀ {β : Type} (o : SpectrumOutputs β), o.named.map (·.2) =
      o.real.toList ++ (o.imag.toList ++ (o.magnitude.toList ++ (o.phase.toList ++ o.frequency.toList))) := by
    rintro β ⟨real, imag, magnitude, phase, frequency⟩
    cases real <;> cases imag <;> cases magnitude <;> cases phase <;> cases frequency <;> rfl
  unfold lookupOutputs at h
  obtain ⟨real, hreal, h⟩ := bind_ok_iff.1 h
  obtain ⟨imag, himag, h⟩ := bind_ok_iff.1 h
  obtain ⟨magnitude, hmagnitude, h⟩ := bind_ok_iff.1 h
  obtain ⟨phase, hphase, h⟩ := bind_ok_iff.1 h
  obtain ⟨frequency, hfrequency, h⟩ := bind_ok_iff.1 h
  cases h
  rw [hplaces, hplaces]
  exact lookupAll_append (lookupAll_of_lookup? hreal) <| lookupAll_append (lookupAll_of_lookup? himag) <|
    lookupAll_append (lookupAll_of_lookup? hmagnitude) <|
      lookupAll_append (lookupAll_of_lookup? hphase) (lookupAll_of_lookup? hfrequency)

theorem filterMap_of_lookupAll : ∀ {names : List String} {ids : List VectorId}, s.lookupAll names = .ok ids →
    names.filterMap s.names.find? = ids
  | [], _, h => by
    cases h
    rfl
  | n :: names, ids, h => by
    rw [lookupAll, List.mapM_cons] at h
    obtain ⟨id, hid, h⟩ := bind_ok_iff.1 h
    obtain ⟨ids', hids, h⟩ := bind_ok_iff.1 h
    cases h
    rw [List.filterMap_cons_some (lookup_eq_ok_iff.1 hid), filterMap_of_lookupAll hids]

theorem targets_of_lookupAll (h : s.lookupAll c.targets = .ok ids) : s.targets c = ids.eraseDups :=
  congrArg _ (filterMap_of_lookupAll h)

/-- A command with one target writes to it. -/
theorem writing_form {name : String} (hkind : c.kind = .changes) (hc : c.targets = [name])
    (hid : s.lookup name = .ok id) (ha : s.Answering rest) (h : Writes s rest [id] s' tasks) : Form s c s' tasks :=
  have hids : s.lookupAll c.targets = .ok [id] := hc ▸ lookupAll_singleton hid
  .changes hkind hids ha h

theorem changing_form {name : String} (o : Series.Operation) (hkind : c.kind = .changes) (hc : c.targets = [name])
    (h : s.changing name o.apply = .ok (s', tasks)) : Form s c s' tasks := by
  unfold changing at h
  obtain ⟨id, hid, h⟩ := bind_ok_iff.1 h
  have hq : s.Answering quietly := trivial
  exact writing_form hkind hc hid hq (.one o h)

theorem replying_form {r : Reply} (hkind : c.kind = .looks)
    (h : (Except.ok (s.replying r) : Except Error _) = .ok (s', tasks)) : Form s c s' tasks := by
  cases h
  exact .looks (.reply r) hkind

theorem get?_of_updating {change : Series → Except Error Series} (h : s.updating id change rest = .ok (s', tasks)) :
    ∃ v, s.get? id = some v := by
  unfold updating update at h
  obtain ⟨⟨s₁, d?⟩, h₁, -⟩ := bind_ok_iff.1 h
  obtain ⟨s₂, h₂, -⟩ := bind_ok_iff.1 h₁
  obtain ⟨v, -, hv, -⟩ := edit_cases h₂
  exact ⟨v, hv⟩

/-- **How every other command starts.** -/
theorem begin_form (hs : s.Coherent) (hcreate : ∀ name? length?, c ≠ .create name? length?)
    (hexpression : ∀ target? source, c ≠ .expression target? source) (h : s.begin c = .ok (s', tasks)) :
    Form s c s' tasks := by
  have hq : s.Answering quietly := trivial
  cases c with
  | create => exact absurd rfl (hcreate _ _)
  | expression => exact absurd rfl (hexpression _ _)
  | destroy names =>
    obtain ⟨ids, hids, h⟩ := bind_ok_iff.1 h
    cases h
    exact .destroys hids
  | names => exact replying_form rfl h
  | set => exact changing_form (.setValues _) rfl rfl h
  | append => exact changing_form (.append _) rfl rfl h
  | clear => exact changing_form .clear rfl rfl h
  | delete => exact changing_form (.deleteIndices _ _) rfl rfl h
  | setIndex => exact changing_form (.writeIndex _ _ _) rfl rfl h
  | unset => exact changing_form (.unsetIndex _ _) rfl rfl h
  | sequence => exact changing_form (.fillSequence _ _ _) rfl rfl h
  | values | count | statistic =>
    obtain ⟨id, -, h⟩ := bind_ok_iff.1 h
    obtain ⟨values, -, h⟩ := bind_ok_iff.1 h
    exact replying_form rfl h
  | search | indices =>
    obtain ⟨id, -, h⟩ := bind_ok_iff.1 h
    obtain ⟨positions, -, h⟩ := bind_ok_iff.1 h
    exact replying_form rfl h
  | writeBlock =>
    obtain ⟨id, -, h⟩ := bind_ok_iff.1 h
    obtain ⟨values, -, h⟩ := bind_ok_iff.1 h
    obtain ⟨bytes, -, h⟩ := bind_ok_iff.1 h
    exact replying_form rfl h
  | length name length? =>
    cases length? with
    | none =>
      obtain ⟨id, -, h⟩ := bind_ok_iff.1 h
      obtain ⟨v, -, h⟩ := bind_ok_iff.1 h
      exact replying_form rfl h
    | some n =>
      obtain ⟨id, hid, h⟩ := bind_ok_iff.1 h
      have ha : s.Answering [.answerLength id] := get?_of_updating h
      exact writing_form rfl rfl hid ha (.one (.setLength n) h)
  | offset name offset? =>
    cases offset? with
    | none =>
      obtain ⟨id, -, h⟩ := bind_ok_iff.1 h
      obtain ⟨v, -, h⟩ := bind_ok_iff.1 h
      exact replying_form rfl h
    | some offset =>
      obtain ⟨id, hid, h⟩ := bind_ok_iff.1 h
      have ha : s.Answering [.answerOffset id] := get?_of_updating h
      exact writing_form rfl rfl hid ha (.one (.setOffset offset) h)
  | index | range =>
    obtain ⟨id, -, h⟩ := bind_ok_iff.1 h
    obtain ⟨v, -, h⟩ := bind_ok_iff.1 h
    obtain ⟨value, -, h⟩ := bind_ok_iff.1 h
    exact replying_form rfl h
  | dup source target =>
    obtain ⟨id, hid, h⟩ := bind_ok_iff.1 h
    obtain ⟨id', hid', h⟩ := bind_ok_iff.1 h
    rcases dup_cases h with ⟨rfl, rfl, rfl⟩ | ⟨hne, h⟩
    · -- A vector has one name.
      obtain ⟨v, hv, rfl⟩ := hs.get?_of_lookup hid
      obtain ⟨v', hv', rfl⟩ := hs.get?_of_lookup hid'
      obtain rfl := Option.some.inj (hv.symm.trans hv')
      exact .looks _ (if_pos rfl)
    · have hnames : source ≠ target := by
        rintro rfl
        exact hne (Except.ok.inj (hid.symm.trans hid'))
      exact writing_form (if_neg hnames) rfl hid' hq h
  | merge =>
    obtain ⟨target, htarget, h⟩ := bind_ok_iff.1 h
    obtain ⟨sources, -, h⟩ := bind_ok_iff.1 h
    exact writing_form rfl rfl htarget hq (merge_writes h)
  | split =>
    obtain ⟨_, -, h⟩ := bind_ok_iff.1 h
    obtain ⟨ids, hids, h⟩ := bind_ok_iff.1 h
    exact .changes rfl hids hq (split_writes h)
  | normalize name target? =>
    obtain ⟨id, hid, h⟩ := bind_ok_iff.1 h
    obtain ⟨id?, hid?, h⟩ := bind_ok_iff.1 h
    cases target? with
    | none =>
      cases hid?
      exact writing_form rfl rfl hid hq (normalize_writes h)
    | some target =>
      obtain ⟨id', hid', rfl⟩ := map_ok_iff.1 hid?
      exact writing_form rfl rfl hid' hq (normalize_writes h)
  | populate =>
    obtain ⟨target, htarget, h⟩ := bind_ok_iff.1 h
    obtain ⟨source, -, h⟩ := bind_ok_iff.1 h
    exact writing_form rfl rfl htarget hq (populate_writes h)
  | sort =>
    obtain ⟨ids, hids, h⟩ := bind_ok_iff.1 h
    obtain ⟨ids', hids', h⟩ := bind_ok_iff.1 h
    obtain ⟨rows, h⟩ := sort_writes h
    exact .changes rfl (lookupAll_append hids hids') hq h
  | spectrum =>
    obtain ⟨_, -, h⟩ := bind_ok_iff.1 h
    obtain ⟨ids, hids, h⟩ := bind_ok_iff.1 h
    obtain ⟨n, h⟩ := spectrum_writes h
    exact .changes rfl (lookupAll_of_lookupOutputs hids) hq h
  | signal =>
    obtain ⟨_, -, h⟩ := bind_ok_iff.1 h
    obtain ⟨_, -, h⟩ := bind_ok_iff.1 h
    obtain ⟨id, hid, h⟩ := bind_ok_iff.1 h
    obtain ⟨id?, hid?, h⟩ := bind_ok_iff.1 h
    exact .changes rfl (lookupAll_append (lookupAll_singleton hid) (lookupAll_of_lookup? hid?)) hq (signal_writes h)
  | notify name action =>
    obtain ⟨id, hid, h⟩ := bind_ok_iff.1 h
    by_cases hpending : action = .pending
    · subst hpending
      obtain ⟨pending, -, h⟩ := bind_ok_iff.1 h
      exact replying_form rfl h
    · exact .notifies hpending hid h
  | readBlock =>
    obtain ⟨id, hid, h⟩ := bind_ok_iff.1 h
    obtain ⟨n, h⟩ := readBlock_writes h
    have ha : s.Answering [.answer (.reply (.scalar (Float.ofNat n)))] := trivial
    exact writing_form rfl rfl hid ha h

theorem notifying_begun {action : NotifyAction} (h : s.notifying id action = .ok (s', tasks))
    (hcancel : action = .cancel → W id) (hnever : action = .policy .never → W id) : Begun W s s' tasks := by
  have hq : ∀ t ∈ quietly, t.Inert := by simp [quietly, Task.Inert]
  cases action with
  | policy p =>
    obtain ⟨s₁, h₁, h⟩ := bind_ok_iff.1 h
    cases h
    exact .of_changes (setPolicy_changes h₁ fun hp => hnever (hp ▸ rfl)) hq
  | now =>
    obtain ⟨⟨s₁, d?⟩, h₁, h⟩ := bind_ok_iff.1 h
    cases h
    exact notifyNow_begun h₁ hq
  | cancel =>
    obtain ⟨⟨s₁, pending⟩, h₁, h⟩ := bind_ok_iff.1 h
    cases h
    exact .of_changes (.single (cancelNotify_change h₁ (hcancel rfl))) hq
  | pending =>
    obtain ⟨pending, -, h⟩ := bind_ok_iff.1 h
    cases h
    exact .of_changes .refl (by simp [Task.Inert])

/-- Commands begin with changes, at most one opening, and inert tasks; flushes are
taken back only where the command says so. -/
theorem Form.begun (h : Form s c s' tasks) : Begun (c.TakesBack s) s s' tasks := by
  cases h with
  | looks | destroys => exact .of_changes .refl (by simp [Task.Inert])
  | notifies _ hid h =>
    refine notifying_begun h ?_ ?_
    · rintro rfl
      exact hid
    · rintro rfl
      exact hid
  | changes _ _ ha h => exact h.begun ha.inert

end Store
end VectorEngine
