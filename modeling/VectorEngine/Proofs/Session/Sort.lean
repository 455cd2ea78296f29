/-
Sorting vectors by each other.

Every vector that is listed is written once, with what it held before read through the
same rows (`Store.sort_begun`), so it does not matter which are listed more than once or
both as keys and as companions. As no vector gets longer, room is never missing
(`Store.writeAll_reordered`). Sorting again compares the rows as before, and leaves them
(`Exchange.sort_sort`).
-/
import Mathlib
import VectorEngine.Proofs.Reordering
import VectorEngine.Proofs.Session.Exchange

namespace VectorEngine

/-- The contents with their values read through the rows. -/
def Contents.reorder (c : Contents) (rows : List Nat) : Contents :=
  { c with values := rows.map fun row => c.values.getD row nan }

theorem Contents.reorder_range {c : Contents} {n : Nat} (h : c.values.length = n) : c.reorder (List.range n) = c := by
  subst h
  rw [reorder, ← pick_eq, pick_range]

namespace Store

variable {s s' : Store} {id : VectorId} {keys companions ids : List VectorId} {options : SortOptions}
  {next : List Nat → List Task} {begun : Store × List Task} {n : Nat} {xs : List Float} {rows : List Nat}

/-- There is room for as many values as there are. -/
theorem hasRoom_of_valuesOf (h : s.valuesOf id = .ok xs) (hlength : n ≤ xs.length) : s.HasRoom id n := by
  obtain ⟨c, hc, rfl⟩ := valuesOf_ok_iff.1 h
  obtain ⟨v, hv, rfl⟩ := Option.map_eq_some_iff.1 hc
  have hcapacity : v.series.buffer.values.length ≤ v.series.buffer.capacity := List.length_take_le' _ _
  exact ⟨v, hv, .inl (hlength.trans hcapacity)⟩

/-- The keys are sorted into these rows, and all that is listed has `n` values. -/
structure Sorts (s : Store) (keys companions : List VectorId) (options : SortOptions) (n : Nat) (rows : List Nat) :
    Prop where
  some : keys ≠ []
  length : s.HaveLength (keys ++ companions) n
  sorted : ∃ columns, keys.mapM s.valuesOf = .ok columns ∧ sortRows options columns = .ok rows

/-- The columns of the keys, of `n` values each. -/
theorem HaveLength.columns (h : s.HaveLength (keys ++ companions) n) :
    ∃ columns, keys.mapM s.valuesOf = .ok columns ∧ ∀ column ∈ columns, column.length = n :=
  haveLength_iff.1 fun id hid => h id (List.mem_append_left companions hid)

theorem ne_nil_of_mapM {columns : List (List Float)} (h : keys.mapM s.valuesOf = .ok columns) :
    columns ≠ [] ↔ keys ≠ [] := by
  rw [← List.length_pos_iff, ← List.length_pos_iff, (mapM_ok_iff.1 h).length_eq]

theorem exists_sorts (hkeys : keys ≠ []) (hlength : s.HaveLength (keys ++ companions) n) :
    ∃ rows, s.Sorts keys companions options n rows := by
  obtain ⟨columns, hcolumns, hcolumn⟩ := hlength.columns
  obtain ⟨rows, hrows⟩ := sortRows_ok ((ne_nil_of_mapM hcolumns).2 hkeys) hcolumn
  exact ⟨rows, hkeys, hlength, columns, hcolumns, hrows⟩

theorem Sorts.columns (h : s.Sorts keys companions options n rows) : ∃ columns, keys.mapM s.valuesOf = .ok columns ∧
    (∀ column ∈ columns, column.length = n) ∧ sortRows options columns = .ok rows := by
  obtain ⟨columns, hcolumns, hrows⟩ := h.sorted
  obtain ⟨columns', hcolumns', hcolumn⟩ := h.length.columns
  obtain rfl := Except.ok.inj (hcolumns.symm.trans hcolumns')
  exact ⟨columns, hcolumns, hcolumn, hrows⟩

theorem Sorts.givesRows (h : s.Sorts keys companions options n rows) : GivesRows options n rows := by
  obtain ⟨columns, -, hcolumn, hrows⟩ := h.columns
  exact (sortRows_pick hrows hcolumn).1

/-- What is written to a vector of the right length. -/
def reordered (s : Store) (n : Nat) (rows : List Nat) (id : VectorId) : Except Error (VectorId × List Float) := do
  let values ← s.valuesOf id
  if values.length = n then return (id, Element.pick values rows)
  else .error (.lengthMismatch n values.length)

theorem sort_eq (s : Store) (keys companions : List VectorId) (options : SortOptions) (next : List Nat → List Task) :
    s.sort keys companions options next = (do
      let columns ← keys.mapM s.valuesOf
      let rows ← InputError.lift (sortRows options columns)
      let writes ← (keys ++ companions).eraseDups.mapM (s.reordered (columns.headD []).length rows)
      return s.writing writes (next rows)) := rfl

theorem reordered_ok_iff {w : VectorId × List Float} : s.reordered n rows id = .ok w ↔
    ∃ xs, s.valuesOf id = .ok xs ∧ xs.length = n ∧ w = (id, Element.pick xs rows) := by
  rw [reordered, bind_ok_iff]
  refine exists_congr fun xs => and_congr_right fun _ => ?_
  split
  · next hlength => simp [hlength, pure, Except.pure, eq_comm]
  · next hlength => simp [hlength]

/-- All that is listed can be read through the rows if all is of the right length. -/
theorem mapM_reordered_ok (h : s.HaveLength ids n) : ∃ writes, ids.eraseDups.mapM (s.reordered n rows) = .ok writes := by
  cases hwrites : ids.eraseDups.mapM (s.reordered n rows) with
  | ok writes => exact ⟨writes, rfl⟩
  | error e =>
    obtain ⟨front, id, back, hids, hfail, -⟩ := mapM_error_iff.1 hwrites
    have hid : id ∈ ids := by
      rw [← List.mem_eraseDups, hids]
      simp
    obtain ⟨xs, hxs, hlength⟩ := h id hid
    rw [reordered_ok_iff.2 ⟨xs, hxs, hlength, rfl⟩] at hfail
    cases hfail

/-- Each of the vectors is written once, with its values read through the rows. -/
theorem written_of_mapM {writes : List (VectorId × List Float)}
    (h : ids.eraseDups.mapM (s.reordered n rows) = .ok writes) : writes.map (·.1) = ids.eraseDups ∧
      ∀ w ∈ writes, ∃ xs, s.valuesOf w.1 = .ok xs ∧ xs.length = n ∧ w.2 = Element.pick xs rows := by
  constructor
  · refine map_fst_of_mapM_ok (fun id w hw => ?_) h
    obtain ⟨xs, -, -, rfl⟩ := reordered_ok_iff.1 hw
    rfl
  · intro w hw
    obtain ⟨id, -, hid⟩ := mem_of_mapM_ok h w hw
    obtain ⟨xs, hxs, hlength, rfl⟩ := reordered_ok_iff.1 hid
    exact ⟨xs, hxs, hlength, rfl⟩

theorem haveLength_of_mapM {writes : List (VectorId × List Float)}
    (h : ids.eraseDups.mapM (s.reordered n rows) = .ok writes) : s.HaveLength ids n := by
  obtain ⟨hlisted, hvalues⟩ := written_of_mapM h
  intro id hid
  rw [← List.mem_eraseDups, ← hlisted] at hid
  obtain ⟨w, hw, rfl⟩ := List.mem_map.1 hid
  obtain ⟨xs, hxs, hlength, -⟩ := hvalues w hw
  exact ⟨xs, hxs, hlength⟩

theorem lift_ok_iff {β : Type} {x : Except InputError β} {b : β} : InputError.lift x = .ok b ↔ x = .ok b := by
  cases x <;> simp [InputError.lift]

/-- **What sorting does at once.** -/
theorem sort_ok_iff : s.sort keys companions options next = .ok begun ↔ ∃ n rows writes,
    s.Sorts keys companions options n rows ∧
      (keys ++ companions).eraseDups.mapM (s.reordered n rows) = .ok writes ∧ s.writing writes (next rows) = begun := by
  rw [sort_eq]
  simp only [bind_ok_iff, lift_ok_iff, pure, Except.pure, Except.ok.injEq]
  constructor
  · intro ⟨columns, hcolumns, rows, hrows, writes, hwrites, hbegun⟩
    obtain ⟨_, hs, -⟩ := map_ok_iff.1 ((sortRows_eq options).symm.trans hrows)
    have hkeys := (ne_nil_of_mapM hcolumns).1 (SortKeys.ofKeys_ok_iff.1 hs).1
    exact ⟨_, rows, writes, ⟨hkeys, haveLength_of_mapM hwrites, columns, hcolumns, hrows⟩, hwrites, hbegun⟩
  · intro ⟨n, rows, writes, hsorts, hwrites, hbegun⟩
    obtain ⟨columns, hcolumns, hcolumn, hrows⟩ := hsorts.columns
    have hn := rows_eq hcolumn ((ne_nil_of_mapM hcolumns).2 hsorts.some)
    exact ⟨columns, hcolumns, rows, hrows, writes, by rwa [hn], hbegun⟩

theorem exists_sort_ok (hkeys : keys ≠ []) (hlength : s.HaveLength (keys ++ companions) n) :
    ∃ begun, s.sort keys companions options next = .ok begun := by
  obtain ⟨rows, hsorts⟩ : ∃ rows, s.Sorts keys companions options n rows := exists_sorts hkeys hlength
  obtain ⟨writes, hwrites⟩ : ∃ writes, (keys ++ companions).eraseDups.mapM (s.reordered n rows) = .ok writes :=
    mapM_reordered_ok hlength
  exact ⟨_, sort_ok_iff.2 ⟨n, rows, writes, hsorts, hwrites, rfl⟩⟩

/-- Room is never missing, for no vector gets longer. -/
theorem writeAll_reordered (h : s.Sorts keys companions options n rows) {writes : List (VectorId × List Float)}
    (hwrites : (keys ++ companions).eraseDups.mapM (s.reordered n rows) = .ok writes) :
    (s.writeAll writes).2 = none ∧ ∀ id c, s.contents? id = some c → (s.writeAll writes).1.contents? id =
      some (if id ∈ keys ++ companions then c.reorder rows else c) := by
  obtain ⟨hlisted, hvalues⟩ := written_of_mapM hwrites
  have hnodup : (writes.map (·.1)).Nodup := hlisted ▸ eraseDups_nodup _
  have hall : (s.writeAll writes).2 = none := by
    refine (writeAll_none_iff hnodup).2 fun w hw => ?_
    obtain ⟨xs, hxs, hlength, hpick⟩ := hvalues w hw
    refine hasRoom_of_valuesOf hxs ?_
    rw [hpick, pick_eq, List.length_map, hlength]
    exact h.givesRows.length_le
  obtain ⟨hwritten, hothers⟩ := writeAll_contents hnodup (Prod.ext rfl hall)
  refine ⟨hall, fun id c hc => ?_⟩
  have hmem : id ∈ writes.map (·.1) ↔ id ∈ keys ++ companions := by rw [hlisted, List.mem_eraseDups]
  split
  · next hid =>
    obtain ⟨w, hw, rfl⟩ := List.mem_map.1 (hmem.2 hid)
    obtain ⟨xs, hxs, -, hpick⟩ := hvalues w hw
    obtain ⟨c', hc', rfl⟩ := valuesOf_ok_iff.1 hxs
    obtain rfl := Option.some.inj (hc.symm.trans hc')
    rw [hwritten w hw, hc, hpick, pick_eq]
    rfl
  · next hid => rw [hothers id (mt hmem.1 hid), hc]

/-- The columns of the keys once each is read through the rows. -/
theorem mapM_pick {columns : List (List Float)} (hcolumns : keys.mapM s.valuesOf = .ok columns)
    (hpick : ∀ id ∈ keys, ∀ xs, s.valuesOf id = .ok xs → s'.valuesOf id = .ok (Element.pick xs rows)) :
    keys.mapM s'.valuesOf = .ok (columns.map (Element.pick · rows)) := by
  rw [mapM_ok_iff] at hcolumns ⊢
  induction hcolumns with
  | nil => exact .nil
  | @cons id xs keys columns hxs _ ih =>
    obtain ⟨hfirst, hrest⟩ := List.forall_mem_cons.1 hpick
    exact .cons (hfirst xs hxs) (ih hrest)

/-- **What sorting does at once**, to what the vectors hold. -/
theorem sort_begun (h : s.sort keys companions options (fun rows => [.answer (.order rows)]) = .ok begun) :
    ∃ n rows, s.Sorts keys companions options n rows ∧ Task.Conclude begun.2 (.ok (.order rows)) ∧
      ∀ id c, s.contents? id = some c →
        begun.1.contents? id = some (if id ∈ keys ++ companions then c.reorder rows else c) := by
  obtain ⟨n, rows, writes, hsorts, hwrites, hbegun⟩ := sort_ok_iff.1 h
  obtain ⟨hall, hcontents⟩ := writeAll_reordered hsorts hwrites
  rw [writing_of_none hall] at hbegun
  subst hbegun
  exact ⟨n, rows, hsorts, (Task.answers_answer (.order rows)).conclude.cons _, hcontents⟩

end Store

/-! ## In an exchange -/

namespace Exchange

variable {m m' m₁ m₂ : Moment} {during before after : List Step} {result : Except Error Answer}
  {keys companions : List VectorId} {options : SortOptions} {rows : List Nat} {n : Nat}

/-- Sorting tells the rows and reads all that is listed through them, or it fails. -/
theorem sort_cases (h : Exchange m (.sort keys companions options) during m' result) (hs : m.session.view.Sound) :
    (∃ n rows, m.session.store.Sorts keys companions options n rows ∧ result = .ok (.order rows) ∧
      ((∀ step ∈ during, step.Spares) → ∀ id c, m.session.store.contents? id = some c →
        m'.session.store.contents? id = some (if id ∈ keys ++ companions then c.reorder rows else c))) ∨
    ¬(keys ≠ [] ∧ ∃ n, m.session.store.HaveLength (keys ++ companions) n) ∧ (∃ e, result = .error e) ∧ m' = m := by
  cases hsort : m.session.store.sort keys companions options fun rows => [.answer (.order rows)] with
  | ok begun =>
    obtain ⟨n, rows, hsorts, hconclude, hcontents⟩ := Store.sort_begun hsort
    have hissue : m.session.issue (.sort keys companions options) = m.session.put begun.1 begun.2 :=
      congrArg m.session.begin hsort
    refine .inl ⟨n, rows, hsorts, h.result_of_put hs hissue hconclude, fun hspares id c hc => ?_⟩
    refine h.contents hs hspares not_false ?_
    rw [hissue]
    exact hcontents id c hc
  | error e =>
    obtain ⟨hresult, hsame⟩ := h.refused hs (congrArg m.session.begin hsort)
    refine .inr ⟨?_, ⟨e, hresult⟩, hsame⟩
    intro ⟨hkeys, n, hlength⟩
    obtain ⟨begun, hbegun⟩ := Store.exists_sort_ok hkeys hlength
    rw [hsort] at hbegun
    cases hbegun

/-- **Sorting succeeds exactly if** there is a key, and all that is listed is there and of
one length; else nothing changes. -/
theorem sort_ok_iff (h : Exchange m (.sort keys companions options) during m' result) (hs : m.session.view.Sound) :
    ((∃ rows, result = .ok (.order rows)) ↔ keys ≠ [] ∧ ∃ n, m.session.store.HaveLength (keys ++ companions) n) ∧
      ((¬∃ rows, result = .ok (.order rows)) → (∃ e, result = .error e) ∧ m' = m) := by
  obtain ⟨n, rows, hsorts, hresult, -⟩ | ⟨hnot, ⟨e, hresult⟩, hsame⟩ := h.sort_cases hs
  · exact ⟨iff_of_true ⟨rows, hresult⟩ ⟨hsorts.some, n, hsorts.length⟩, fun hne => absurd ⟨rows, hresult⟩ hne⟩
  · exact ⟨by simp [hresult, hnot], fun _ => ⟨⟨e, hresult⟩, hsame⟩⟩

/-- What all the vectors hold then. -/
theorem sorted (h : Exchange m (.sort keys companions options) during m' (.ok (.order rows)))
    (hs : m.session.view.Sound) (hspares : ∀ step ∈ during, step.Spares) :
    ∃ n, m.session.store.Sorts keys companions options n rows ∧ ∀ id c, m.session.store.contents? id = some c →
      m'.session.store.contents? id = some (if id ∈ keys ++ companions then c.reorder rows else c) := by
  obtain ⟨n, rows', hsorts, hresult, hcontents⟩ | ⟨-, ⟨e, hresult⟩, -⟩ := h.sort_cases hs
  · cases hresult
    exact ⟨n, hsorts, hcontents hspares⟩
  · cases hresult

/-- **Sorting again changes nothing.** -/
theorem sort_sort (h : Exchange m (.sort keys companions options) before m₁ (.ok (.order rows)))
    (hs : m.session.view.Sound) (hbefore : ∀ step ∈ before, step.Spares)
    (h' : Exchange m₁ (.sort keys companions options) after m₂ result) (hafter : ∀ step ∈ after, step.Spares) :
    result = .ok (.order (List.range rows.length)) ∧
      ∀ id c, m₁.session.store.contents? id = some c → m₂.session.store.contents? id = some c := by
  obtain ⟨n, hsorts, hcontents⟩ := h.sorted hs hbefore
  have hs₁ := h.sound hs
  -- All that is listed has its values read through the rows.
  have hreordered : ∀ id ∈ keys ++ companions, ∀ xs, m.session.store.valuesOf id = .ok xs →
      m₁.session.store.valuesOf id = .ok (Element.pick xs rows) := by
    intro id hid xs hxs
    obtain ⟨c, hc, rfl⟩ := Store.valuesOf_ok_iff.1 hxs
    refine Store.valuesOf_ok_iff.2 ⟨_, hcontents id c hc, ?_⟩
    rw [if_pos hid, pick_eq]
    rfl
  have hlength : m₁.session.store.HaveLength (keys ++ companions) rows.length := by
    intro id hid
    obtain ⟨xs, hxs, -⟩ := hsorts.length id hid
    exact ⟨_, hreordered id hid xs hxs, by rw [pick_eq, List.length_map]⟩
  obtain ⟨rows', hresult⟩ := (h'.sort_ok_iff hs₁).1.2 ⟨hsorts.some, rows.length, hlength⟩
  subst hresult
  obtain ⟨n', hsorts', hcontents'⟩ := h'.sorted hs₁ hafter
  have hrows : rows' = List.range rows.length := by
    obtain ⟨columns, hcolumns, hcolumn, hrows⟩ := hsorts.columns
    obtain ⟨columns', hcolumns', hrows'⟩ := hsorts'.sorted
    have hpicked := Store.mapM_pick hcolumns fun id hid => hreordered id (List.mem_append_left companions hid)
    obtain rfl := Except.ok.inj (hcolumns'.symm.trans hpicked)
    exact Except.ok.inj (hrows'.symm.trans (sortRows_pick hrows hcolumn).2)
  subst hrows
  refine ⟨rfl, fun id c hc => ?_⟩
  have hsame := hcontents' id c hc
  split at hsame
  · next hid =>
    obtain ⟨xs, hxs, hxslength⟩ := hlength id hid
    obtain ⟨c', hc', rfl⟩ := Store.valuesOf_ok_iff.1 hxs
    obtain rfl := Option.some.inj (hc.symm.trans hc')
    rwa [Contents.reorder_range hxslength] at hsame
  · exact hsame

end Exchange

/-- **Sorting keeps rows together, and sorting again changes nothing.** At every moment
of a run sorting is answered if the clients it calls do not ask for more. Whatever those
ask for, it succeeds exactly if there is a key and all that is listed is there and of one
length; else it changes nothing. If nobody changes a vector meanwhile, each of the
vectors listed, as a key or as a companion and however often, holds then what it held
before, read through the rows that are told, and the others hold what they held. The
rows are those the keys are sorted into: each once, and all of them unless equal ones
collapse. Sorting the same again gives the rows as they are then, and changes nothing,
in either direction and with or without collapsing. -/
theorem Run.sort_keeps_rows {config : StoreConfig} {host : Host} {random : RandomSource} {s₀ : Session}
    {steps : List Step} {m : Moment}
    (hs₀ : Session.ofConfig config host random = .ok s₀) (h : Run ⟨s₀, false⟩ steps m) (keys companions : List VectorId)
    (options : SortOptions) :
    (m.busy = false → ∃ m₁ result, Exchange.Calm m (.sort keys companions options) m₁ result) ∧
    (∀ during m₁ result, Exchange m (.sort keys companions options) during m₁ result →
      ((∃ rows, result = .ok (.order rows)) ↔
        keys ≠ [] ∧ ∃ n, m.session.store.HaveLength (keys ++ companions) n) ∧
      ((¬∃ rows, result = .ok (.order rows)) → (∃ e, result = .error e) ∧ m₁ = m)) ∧
    ∀ m₁ rows n, Exchange.Calm m (.sort keys companions options) m₁ (.ok (.order rows)) →
      m.session.store.HaveLength (keys ++ companions) n →
      (∃ columns, keys.mapM m.session.store.valuesOf = .ok columns ∧ sortRows options columns = .ok rows) ∧
      (rows.Nodup ∧ (∀ row ∈ rows, row < n) ∧ (options.unique = false → rows.Perm (List.range n))) ∧
      (∀ id ∈ keys ++ companions, ∃ c, m.session.store.contents? id = some c ∧
        m₁.session.store.contents? id = some { c with values := rows.map fun row => c.values.getD row nan }) ∧
      (∀ id ∉ keys ++ companions, ∀ c, m.session.store.contents? id = some c →
        m₁.session.store.contents? id = some c) ∧
      ∀ m₂ result, Exchange.Calm m₁ (.sort keys companions options) m₂ result →
        result = .ok (.order (List.range rows.length)) ∧
        ∀ id c, m₁.session.store.contents? id = some c → m₂.session.store.contents? id = some c := by
  have hs := h.sound hs₀
  refine ⟨fun hturn => ?_, fun during m₁ result hsort => hsort.sort_ok_iff hs, ?_⟩
  · refine Exchange.Calm.exists_of_begin hturn hs rfl fun store tasks hok => ?_
    obtain ⟨rows, hwrites⟩ := Store.sort_writes hok
    exact ⟨_, _, hwrites⟩
  · intro m₁ rows n hfirst hlength
    obtain ⟨before, hfirst, hbefore⟩ := hfirst
    obtain ⟨n', hsorts, hcontents⟩ := hfirst.sorted hs hbefore
    have hn : n' = n := by
      obtain ⟨id, hid⟩ := List.exists_mem_of_ne_nil keys hsorts.some
      obtain ⟨xs, hxs, hlength'⟩ := hsorts.length id (List.mem_append_left companions hid)
      obtain ⟨ys, hys, hlength⟩ := hlength id (List.mem_append_left companions hid)
      obtain rfl := Except.ok.inj (hxs.symm.trans hys)
      exact hlength'.symm.trans hlength
    subst hn
    obtain ⟨hdistinct, hbounded, hall⟩ := hsorts.givesRows
    refine ⟨hsorts.sorted, ⟨hdistinct, hbounded, hall⟩, fun id hid => ?_, fun id hid c hc => ?_, ?_⟩
    · obtain ⟨xs, hxs, -⟩ := hlength id hid
      obtain ⟨c, hc, -⟩ := Store.valuesOf_ok_iff.1 hxs
      refine ⟨c, hc, ?_⟩
      rw [hcontents id c hc, if_pos hid]
      rfl
    · rw [hcontents id c hc, if_neg hid]
    · intro m₂ result hagain
      obtain ⟨after, hagain, hafter⟩ := hagain
      exact hfirst.sort_sort hs hbefore hagain hafter

/-- Two vectors, the first with a client that is told of every change, and with zeros of
both signs. -/
def Moment.signedZeros : List (Option Request) :=
  [some (.create none), none, some (.create none), none, some (.registerClient ⟨0, 0⟩ true), none,
    some (.setPolicy ⟨0, 0⟩ .always), none, some (.edit ⟨0, 0⟩ (Series.setValues [nan, 0.0, 2.0, -0.0])), none,
    some (.edit ⟨1, 0⟩ (Series.setValues [4.0, 5.0, 6.0, 7.0])), none]

/-- The first vector is a key twice and a companion too. -/
theorem Run.sort_keeps_rows_repeated :
    let m := Moment.outcome ⟨.initial, false⟩ Moment.signedZeros
    let sort := Request.sort [⟨0, 0⟩, ⟨0, 0⟩] [⟨1, 0⟩, ⟨0, 0⟩] { decreasing := true, unique := true }
    ∃ m₁ m₂ rows, Exchange.Calm m sort m₁ (.ok (.order rows)) ∧ rows.Nodup ∧ (∀ row ∈ rows, row < 4) ∧
      (∃ c, m.session.store.contents? ⟨1, 0⟩ = some c ∧ c.values = [4.0, 5.0, 6.0, 7.0] ∧
        m₁.session.store.contents? ⟨1, 0⟩ = some { c with values := rows.map fun row => c.values.getD row nan }) ∧
      Exchange.Calm m₁ sort m₂ (.ok (.order (List.range rows.length))) ∧
      ∀ id c, m₁.session.store.contents? id = some c → m₂.session.store.contents? id = some c := by
  intro m sort
  have hrun : Run ⟨.initial, false⟩ (Moment.play ⟨.initial, false⟩ Moment.signedZeros) m :=
    Moment.run_play (by decide +kernel)
  have hturn : m.busy = false := by decide +kernel
  have hlength : m.session.store.HaveLength ([⟨0, 0⟩, ⟨0, 0⟩] ++ [⟨1, 0⟩, ⟨0, 0⟩]) 4 := by
    have hfirst : m.session.store.valuesOf ⟨0, 0⟩ = .ok [nan, 0.0, 2.0, -0.0] := by decide +kernel
    have hsecond : m.session.store.valuesOf ⟨1, 0⟩ = .ok [4.0, 5.0, 6.0, 7.0] := by decide +kernel
    simp only [List.cons_append, List.nil_append, Store.HaveLength, List.forall_mem_cons]
    exact ⟨⟨_, hfirst, rfl⟩, ⟨_, hfirst, rfl⟩, ⟨_, hsecond, rfl⟩, ⟨_, hfirst, rfl⟩, List.forall_mem_nil _⟩
  obtain ⟨hanswered, hsucceeds, hsorts⟩ := Run.sort_keeps_rows Session.ofConfig_initial hrun [⟨0, 0⟩, ⟨0, 0⟩]
    [⟨1, 0⟩, ⟨0, 0⟩] { decreasing := true, unique := true }
  obtain ⟨m₁, result, before, hfirst, hbefore⟩ := hanswered hturn
  obtain ⟨rows, hresult⟩ := (hsucceeds before m₁ result hfirst).1.2 ⟨by simp, 4, hlength⟩
  subst hresult
  obtain ⟨-, ⟨hdistinct, hbounded, -⟩, hlisted, -, hagain⟩ := hsorts m₁ rows 4 ⟨before, hfirst, hbefore⟩ hlength
  obtain ⟨hanswered', -, -⟩ := Run.sort_keeps_rows Session.ofConfig_initial (hfirst.run hrun) [⟨0, 0⟩, ⟨0, 0⟩]
    [⟨1, 0⟩, ⟨0, 0⟩] { decreasing := true, unique := true }
  obtain ⟨m₂, result, hsecond⟩ := hanswered' hfirst.returned
  obtain ⟨hresult, hsame⟩ := hagain m₂ result hsecond
  subst hresult
  obtain ⟨c, hc, hc₁⟩ := hlisted ⟨1, 0⟩ (by simp)
  have hvalues : (m.session.store.contents? ⟨1, 0⟩).map (·.values) = some [4.0, 5.0, 6.0, 7.0] := by decide +kernel
  rw [hc] at hvalues
  exact ⟨m₁, m₂, rows, ⟨before, hfirst, hbefore⟩, hdistinct, hbounded, ⟨c, hc, Option.some.inj hvalues, hc₁⟩, hsecond,
    hsame⟩

end VectorEngine
