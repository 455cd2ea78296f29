/-
Merging and splitting undo each other.

Both read all they need before they write, so it does not matter which of the vectors
are the same: what they write is told by the values from before (`interleaved`,
`dealing`). When they succeed, and what the vectors hold then, is told for one
exchange each; that one undoes the other is then a fact about interleaving.
-/
import Mathlib
import VectorEngine.Proofs.Interleaving
import VectorEngine.Proofs.Session.Filling

namespace VectorEngine

namespace Store

/-- The values of the sources row by row, which are merged if there are as many of each. -/
def interleaved (s : Store) (sources : List VectorId) : Except Error (List Float) := do
  let columns ← sources.mapM s.valuesOf
  let rows := (columns.headD []).length
  match columns.find? fun c => c.length != rows with
  | some odd => .error (.lengthMismatch rows odd.length)
  | none => .ok (interleave columns)

/-- The source and the targets are there, and its values can be dealt out evenly to
them, who are different. -/
structure Splittable (s : Store) (source : VectorId) (targets : List VectorId) (xs : List Float) : Prop where
  values : s.valuesOf source = .ok xs
  there : ∀ id ∈ targets, s.Has id
  distinct : targets.Nodup
  some : targets ≠ []
  even : targets.length ∣ xs.length

variable {s s' : Store} {id target source : VectorId} {ids sources targets : List VectorId} {rest tasks : List Task}
  {columns : List (List Float)} {xs : List Float} {n : Nat} {result : Except Error Answer}

/-! ## Merging -/

theorem merge_eq (s : Store) (target : VectorId) (sources : List VectorId) (rest : List Task) :
    s.merge target sources rest = s.interleaved sources >>= fun values =>
      s.updating target (Series.setValues values) rest := by
  cases hcolumns : sources.mapM s.valuesOf with
  | error e => simp only [merge, interleaved, hcolumns, bind, Except.bind]
  | ok columns =>
    simp only [merge, interleaved, hcolumns, bind, Except.bind]
    cases columns.find? fun c => c.length != (columns.headD []).length <;> rfl

theorem interleaved_ok_iff : s.interleaved sources = .ok xs ↔ ∃ columns n, sources.mapM s.valuesOf = .ok columns ∧
    (∀ column ∈ columns, column.length = n) ∧ xs = interleave columns := by
  constructor
  · intro h
    obtain ⟨columns, hcolumns, hrest⟩ := bind_ok_iff.1 h
    dsimp only at hrest
    split at hrest
    · cases hrest
    · next heven =>
      cases hrest
      refine ⟨columns, (columns.headD []).length, hcolumns, fun column hcolumn => ?_, rfl⟩
      simpa using List.find?_eq_none.1 heven column hcolumn
  · rintro ⟨columns, n, hcolumns, hlength, rfl⟩
    have heven : (columns.find? fun c => c.length != (columns.headD []).length) = none := by
      refine List.find?_eq_none.2 fun column hcolumn => ?_
      rw [rows_eq hlength (List.ne_nil_of_mem hcolumn), hlength column hcolumn]
      simp
    simp only [interleaved, hcolumns, bind, Except.bind, heven]

/-! ## Splitting -/

theorem getAll_ok_iff : s.getAll ids = .ok () ↔ ∀ id ∈ ids, s.Has id := by
  refine ⟨getAll_ok, fun hids => ?_⟩
  rw [getAll, List.forM_eq_forM]
  induction ids with
  | nil => rfl
  | cons id ids ih =>
    obtain ⟨⟨v, hv⟩, hids⟩ := List.forall_mem_cons.1 hids
    rw [List.forM_cons, get_of_get? hv]
    exact ih hids

/-- What goes where when the values are dealt out. -/
def dealing (targets : List VectorId) (xs : List Float) : List (VectorId × List Float) :=
  targets.zipIdx.map fun (id, k) => (id, deal xs targets.length k)

theorem dealing_fst : (dealing targets xs).map (·.1) = targets := by
  rw [dealing, List.map_map]
  exact List.zipIdx_map_fst 0 targets

theorem mem_dealing {k : Nat} (hk : k < targets.length) :
    (targets[k], deal xs targets.length k) ∈ dealing targets xs := by
  refine List.mem_map.2 ⟨(targets[k], k), ?_, rfl⟩
  simp [List.mem_zipIdx_iff_getElem?]

theorem length_of_mem_dealing {w : VectorId × List Float} (hw : w ∈ dealing targets xs) :
    w.2.length = xs.length / targets.length := by
  obtain ⟨p, -, rfl⟩ := List.mem_map.1 hw
  exact length_deal

/-- Values that can be dealt out are written to the targets. -/
theorem split_ok_iff {begun : Store × List Task} : s.split source targets rest = .ok begun ↔
    ∃ xs, s.Splittable source targets xs ∧ s.writing (dealing targets xs) rest = begun := by
  unfold split
  constructor
  · intro h
    dsimp only at h
    split at h
    · cases h
    next hsome =>
    obtain ⟨xs, hxs, h⟩ := bind_ok_iff.1 h
    split at h
    · cases h
    next heven =>
    split at h
    · cases h
    next hdistinct =>
    obtain ⟨_, hall, h⟩ := bind_ok_iff.1 h
    exact ⟨xs, ⟨hxs, getAll_ok hall, not_not.1 hdistinct, hsome, Nat.dvd_of_mod_eq_zero (not_not.1 heven)⟩,
      Except.ok.inj h⟩
  · intro ⟨xs, h, hwriting⟩
    rw [if_neg h.some, h.values, getAll_ok_iff.2 h.there]
    simp only [bind, Except.bind, pure, Except.pure]
    rw [if_neg (not_not.2 (Nat.mod_eq_zero_of_dvd h.even)), if_neg (not_not.2 h.distinct)]
    exact congrArg Except.ok hwriting

/-- Dealing out ends well if each of the targets has room for its share. -/
theorem dealing_room (hdistinct : targets.Nodup) : (s.writeAll (dealing targets xs)).2 = none ↔
    ∀ id ∈ targets, s.HasRoom id (xs.length / targets.length) := by
  rw [writeAll_none_iff (by rwa [dealing_fst])]
  constructor
  · intro hall id hid
    obtain ⟨k, hk, rfl⟩ := List.mem_iff_getElem.1 hid
    have hroom := hall _ (mem_dealing hk)
    rwa [length_deal] at hroom
  · intro hall w hw
    have hid : w.1 ∈ (dealing targets xs).map (·.1) := List.mem_map_of_mem hw
    rw [dealing_fst] at hid
    rw [length_of_mem_dealing hw]
    exact hall w.1 hid

end Store

/-! ## In an exchange -/

theorem Moment.fills_merge {m : Moment} (hs : m.session.view.Sound) (target : VectorId) (sources : List VectorId) :
    m.Fills (.merge target sources) target (m.session.store.interleaved sources) :=
  fills_of_issue hs (fun _ => not_false) (congrArg m.session.begin (Store.merge_eq _ target sources _))

namespace Exchange

variable {m m' : Moment} {during : List Step} {result : Except Error Answer} {source target : VectorId}
  {sources targets : List VectorId} {xs : List Float} {c : Contents} {n : Nat}

/-- **Merging succeeds exactly if** the vectors are there, the sources have one length
and the target has room; else nothing changes. -/
theorem merge_done_iff (h : Exchange m (.merge target sources) during m' result) (hs : m.session.view.Sound) :
    (result = .ok .done ↔ ∃ n, m.session.store.HaveLength sources n ∧
        m.session.store.HasRoom target (sources.length * n)) ∧
      (result ≠ .ok .done → (∃ e, result = .error e) ∧ m' = m) := by
  have hfills := Moment.fills_merge hs target sources
  refine ⟨(hfills.done_iff h).trans ⟨?_, ?_⟩, hfills.failed h⟩
  · intro ⟨xs, hxs, hroom⟩
    obtain ⟨columns, n, hcolumns, hlength, rfl⟩ := Store.interleaved_ok_iff.1 hxs
    rw [length_interleave hlength, ← (mapM_ok_iff.1 hcolumns).length_eq] at hroom
    exact ⟨n, Store.haveLength_iff.2 ⟨columns, hcolumns, hlength⟩, hroom⟩
  · intro ⟨n, hsources, hroom⟩
    obtain ⟨columns, hcolumns, hlength⟩ := Store.haveLength_iff.1 hsources
    rw [(mapM_ok_iff.1 hcolumns).length_eq, ← length_interleave hlength] at hroom
    exact ⟨_, Store.interleaved_ok_iff.2 ⟨columns, n, hcolumns, hlength, rfl⟩, hroom⟩

/-- The target has the values of the sources row by row then. -/
theorem merged (h : Exchange m (.merge target sources) during m' (.ok .done)) (hs : m.session.view.Sound)
    (hspares : ∀ step ∈ during, step.Spares) : ∃ columns n, sources.mapM m.session.store.valuesOf = .ok columns ∧
      (∀ column ∈ columns, column.length = n) ∧ m.session.store.HasRoom target (interleave columns).length ∧
      ∀ id c, m.session.store.contents? id = some c →
        m'.session.store.contents? id = some (if id = target then { c with values := interleave columns } else c) := by
  have hfills := Moment.fills_merge hs target sources
  obtain ⟨xs, hxs, hroom⟩ := (hfills.done_iff h).1 rfl
  obtain ⟨columns, n, hcolumns, hlength, rfl⟩ := Store.interleaved_ok_iff.1 hxs
  exact ⟨columns, n, hcolumns, hlength, hroom, hfills.filled hxs ⟨during, h, hspares⟩⟩

/-- **Splitting succeeds exactly if** the values can be dealt out and there is room; if
they cannot, nothing changes. -/
theorem split_done_iff (h : Exchange m (.split source targets) during m' result) (hs : m.session.view.Sound) :
    (result = .ok .done ↔ ∃ xs, m.session.store.Splittable source targets xs ∧
        ∀ id ∈ targets, m.session.store.HasRoom id (xs.length / targets.length)) ∧
      ((¬∃ xs, m.session.store.Splittable source targets xs) → (∃ e, result = .error e) ∧ m' = m) := by
  by_cases hsplit : ∃ xs, m.session.store.Splittable source targets xs
  · refine ⟨?_, fun hnot => absurd hsplit hnot⟩
    obtain ⟨xs, hxs⟩ := hsplit
    have hissue : m.session.issue (.split source targets) =
        m.session.begin (.ok (m.session.store.writing (Store.dealing targets xs) [.answer .done])) :=
      congrArg m.session.begin (Store.split_ok_iff.2 ⟨xs, hxs, rfl⟩)
    have hone : (∃ xs, m.session.store.Splittable source targets xs ∧
        ∀ id ∈ targets, m.session.store.HasRoom id (xs.length / targets.length)) ↔
          (m.session.store.writeAll (Store.dealing targets xs)).2 = none := by
      rw [Store.dealing_room hxs.distinct]
      constructor
      · intro ⟨xs', hxs', hroom⟩
        obtain rfl := Except.ok.inj (hxs'.values.symm.trans hxs.values)
        exact hroom
      · intro hroom
        exact ⟨xs, hxs, hroom⟩
    rw [hone]
    cases hall : (m.session.store.writeAll (Store.dealing targets xs)).2 with
    | none =>
      rw [Store.writing_of_none hall] at hissue
      exact iff_of_true (h.result_of_put hs hissue ((Task.answers_answer .done).conclude.cons _)) rfl
    | some e =>
      rw [Store.writing_of_some hall] at hissue
      have hresult := h.result_of_put hs hissue (Task.answers_refuse e).conclude
      simp [hresult]
  · have herror : ∃ e, m.session.store.split source targets [.answer .done] = .error e := by
      cases hsplit' : m.session.store.split source targets [.answer .done] with
      | ok begun =>
        obtain ⟨xs, hxs, -⟩ := Store.split_ok_iff.1 hsplit'
        exact absurd ⟨xs, hxs⟩ hsplit
      | error e => exact ⟨e, rfl⟩
    obtain ⟨e, herror⟩ := herror
    obtain ⟨hresult, hsame⟩ := h.refused hs (congrArg m.session.begin herror)
    refine ⟨?_, fun _ => ⟨⟨e, hresult⟩, hsame⟩⟩
    rw [hresult]
    refine iff_of_false (by simp) fun ⟨xs, hxs, _⟩ => hsplit ⟨xs, hxs⟩

/-- Each of the targets has its share of the values then. -/
theorem dealt (h : Exchange m (.split source targets) during m' (.ok .done)) (hs : m.session.view.Sound)
    (hspares : ∀ step ∈ during, step.Spares) : ∃ xs, m.session.store.Splittable source targets xs ∧
      (∀ (k : Nat) (hk : k < targets.length) c, m.session.store.contents? targets[k] = some c →
        m'.session.store.contents? targets[k] = some { c with values := deal xs targets.length k }) ∧
      ∀ id ∉ targets, ∀ c, m.session.store.contents? id = some c → m'.session.store.contents? id = some c := by
  obtain ⟨xs, hxs, hroom⟩ := (h.split_done_iff hs).1.1 rfl
  have hall := (Store.dealing_room hxs.distinct).2 hroom
  have hissue : m.session.issue (.split source targets) =
      m.session.begin (.ok (m.session.store.writing (Store.dealing targets xs) [.answer .done])) :=
    congrArg m.session.begin (Store.split_ok_iff.2 ⟨xs, hxs, rfl⟩)
  rw [Store.writing_of_none hall] at hissue
  have hdistinct : ((Store.dealing targets xs).map (·.1)).Nodup := by
    rw [Store.dealing_fst]
    exact hxs.distinct
  obtain ⟨hwritten, hothers⟩ := Store.writeAll_contents hdistinct (Prod.ext rfl hall)
  refine ⟨xs, hxs, fun k hk c hc => ?_, fun id hid c hc => ?_⟩
  · refine h.contents hs hspares not_false ?_
    rw [hissue]
    exact (hwritten _ (Store.mem_dealing hk)).trans (by rw [hc]; rfl)
  · refine h.contents hs hspares not_false ?_
    rw [hissue]
    exact (hothers id (by rwa [Store.dealing_fst])).trans hc

/-! ## One after the other -/

variable {m₁ m₂ : Moment} {before after : List Step}

/-- **Splitting undoes merging**, whichever of the vectors are the same. -/
theorem merge_split (h : Exchange m (.merge target sources) before m₁ (.ok .done)) (hs : m.session.view.Sound)
    (hbefore : ∀ step ∈ before, step.Spares) (h' : Exchange m₁ (.split target targets) after m₂ result)
    (hafter : ∀ step ∈ after, step.Spares) (hcount : targets.length = sources.length) :
    (sources ≠ [] → targets.Nodup → (∀ id ∈ targets, m.session.store.Has id) →
        (∀ n, m.session.store.HaveLength sources n → 2 * n ≤ Buffer.slotLimit) → result = .ok .done) ∧
      (result = .ok .done → targets.map m₂.session.store.valuesOf = sources.map m.session.store.valuesOf) := by
  obtain ⟨columns, n, hcolumns, hlength, hroom, hmerged⟩ := h.merged hs hbefore
  have hs₁ := h.sound hs
  have hcount' : targets.length = columns.length := hcount.trans (mapM_ok_iff.1 hcolumns).length_eq
  have hkept : ∀ id, m.session.store.Has id → m₁.session.store.Has id := by
    intro id hid
    obtain ⟨c, hc⟩ := Store.has_iff.1 hid
    exact Store.has_iff.2 ⟨_, hmerged id c hc⟩
  obtain ⟨c, hc⟩ := Store.has_iff.1 hroom.has
  have hvalues : m₁.session.store.valuesOf target = .ok (interleave columns) := by
    refine Store.valuesOf_ok_iff.2 ⟨_, hmerged target c hc, ?_⟩
    rw [if_pos rfl]
  constructor
  · intro hsome hdistinct hthere hlimit
    have hpos : 0 < columns.length := by
      rw [← hcount', hcount]
      exact List.length_pos_of_ne_nil hsome
    refine (h'.split_done_iff hs₁).1.2 ⟨interleave columns, ?_, fun id hid => ?_⟩
    · refine ⟨hvalues, fun id hid => hkept id (hthere id hid), hdistinct, ?_, ?_⟩
      · exact List.ne_nil_of_length_pos (by omega)
      · rw [length_interleave hlength, hcount']
        exact Nat.dvd_mul_right _ _
    · refine Store.hasRoom_of_le (hkept id (hthere id hid)) ?_
      rw [length_interleave hlength, hcount', Nat.mul_div_cancel_left n hpos]
      exact hlimit n (Store.haveLength_iff.2 ⟨columns, hcolumns, hlength⟩)
  · intro hresult
    subst hresult
    obtain ⟨xs, hsplit, hshares, -⟩ := h'.dealt hs₁ hafter
    obtain rfl := Except.ok.inj (hsplit.values.symm.trans hvalues)
    refine List.ext_getElem (by simp [hcount]) fun k hk hk' => ?_
    rw [List.length_map] at hk hk'
    rw [List.getElem_map, List.getElem_map]
    obtain ⟨c, hc⟩ := Store.has_iff.1 (hsplit.there _ (List.getElem_mem hk))
    have hsource : m.session.store.valuesOf sources[k] = .ok columns[k] :=
      (List.forall₂_iff_get.1 (mapM_ok_iff.1 hcolumns)).2 k hk' (by omega)
    rw [hsource]
    refine Store.valuesOf_ok_iff.2 ⟨_, hshares k hk c hc, ?_⟩
    rw [hcount']
    exact deal_interleave hlength (by omega)

/-- **Merging undoes splitting**, whichever of the vectors are the same. -/
theorem split_merge (h : Exchange m (.split source targets) before m₁ (.ok .done)) (hs : m.session.view.Sound)
    (hbefore : ∀ step ∈ before, step.Spares) (h' : Exchange m₁ (.merge target targets) after m₂ result)
    (hafter : ∀ step ∈ after, step.Spares) :
    (m.session.store.Has target →
        (∀ xs, m.session.store.valuesOf source = .ok xs → 2 * xs.length ≤ Buffer.slotLimit) → result = .ok .done) ∧
      (result = .ok .done → m₂.session.store.valuesOf target = m.session.store.valuesOf source) := by
  obtain ⟨xs, hsplit, hshares, hothers⟩ := h.dealt hs hbefore
  have hs₁ := h.sound hs
  have hpos : 0 < targets.length := List.length_pos_of_ne_nil hsplit.some
  have hcolumns : targets.mapM m₁.session.store.valuesOf =
      .ok ((List.range targets.length).map (deal xs targets.length)) := by
    refine mapM_ok_iff.2 (List.forall₂_iff_get.2 ⟨by simp, fun k hk _ => ?_⟩)
    obtain ⟨c, hc⟩ := Store.has_iff.1 (hsplit.there _ (List.getElem_mem hk))
    refine Store.valuesOf_ok_iff.2 ⟨_, hshares k hk c hc, ?_⟩
    simp
  have hlength : ∀ column ∈ (List.range targets.length).map (deal xs targets.length),
      column.length = xs.length / targets.length := by
    intro column hcolumn
    obtain ⟨k, -, rfl⟩ := List.mem_map.1 hcolumn
    exact length_deal
  constructor
  · intro htarget hlimit
    have hkept : m₁.session.store.Has target := by
      obtain ⟨c, hc⟩ := Store.has_iff.1 htarget
      by_cases hmem : target ∈ targets
      · obtain ⟨k, hk, rfl⟩ := List.mem_iff_getElem.1 hmem
        exact Store.has_iff.2 ⟨_, hshares k hk c hc⟩
      · exact Store.has_iff.2 ⟨_, hothers target hmem c hc⟩
    refine (h'.merge_done_iff hs₁).1.2 ⟨_, Store.haveLength_iff.2 ⟨_, hcolumns, hlength⟩, ?_⟩
    rw [Nat.mul_div_cancel' hsplit.even]
    exact Store.hasRoom_of_le hkept (hlimit xs hsplit.values)
  · intro hresult
    subst hresult
    obtain ⟨columns, n, hcolumns', -, hroom, hmerged⟩ := h'.merged hs₁ hafter
    obtain rfl := Except.ok.inj (hcolumns'.symm.trans hcolumns)
    obtain ⟨c, hc⟩ := Store.has_iff.1 hroom.has
    rw [hsplit.values]
    refine Store.valuesOf_ok_iff.2 ⟨_, hmerged target c hc, ?_⟩
    rw [if_pos rfl]
    exact interleave_deal hpos hsplit.even

end Exchange

/-- **Merging and splitting are inverse to each other.** At every moment of a run they
are answered if the clients they call do not ask for more. Whatever those ask for,
merging fails exactly if a vector is gone, two sources differ in length or there is no
room, and changes nothing then. Splitting fails exactly if a vector is gone or a target
repeated, if there is no target or their number does not divide that of the values,
which changes nothing, or if there is no room. If nobody changes a vector meanwhile,
splitting what was merged gives the targets the values of the sources, and merging what
was split gives the target the values of the source. Any of the vectors may be the
same, and room is not missing for up to half of `slotLimit` values. -/
theorem Run.merge_split_inverse {config : StoreConfig} {host : Host} {random : RandomSource} {s₀ : Session}
    {steps : List Step} {m : Moment}
    (hs₀ : Session.ofConfig config host random = .ok s₀) (h : Run ⟨s₀, false⟩ steps m) :
    (∀ id n, m.session.store.Has id → 2 * n ≤ Buffer.slotLimit → m.session.store.HasRoom id n) ∧
    (m.busy = false → (∀ target sources, ∃ m₁ result, Exchange.Calm m (.merge target sources) m₁ result) ∧
      ∀ source targets, ∃ m₁ result, Exchange.Calm m (.split source targets) m₁ result) ∧
    (∀ target sources during m₁ result, Exchange m (.merge target sources) during m₁ result →
      (result = .ok .done ↔ ∃ n, m.session.store.HaveLength sources n ∧
        m.session.store.HasRoom target (sources.length * n)) ∧
      (result ≠ .ok .done → (∃ e, result = .error e) ∧ m₁ = m)) ∧
    (∀ source targets during m₁ result, Exchange m (.split source targets) during m₁ result →
      (result = .ok .done ↔ ∃ xs, m.session.store.Splittable source targets xs ∧
        ∀ id ∈ targets, m.session.store.HasRoom id (xs.length / targets.length)) ∧
      ((¬∃ xs, m.session.store.Splittable source targets xs) → (∃ e, result = .error e) ∧ m₁ = m)) ∧
    (∀ target sources targets m₁ m₂ result, targets.length = sources.length →
      Exchange.Calm m (.merge target sources) m₁ (.ok .done) →
      Exchange.Calm m₁ (.split target targets) m₂ result →
      (sources ≠ [] → targets.Nodup → (∀ id ∈ targets, m.session.store.Has id) →
        (∀ n, m.session.store.HaveLength sources n → 2 * n ≤ Buffer.slotLimit) → result = .ok .done) ∧
      (result = .ok .done → targets.map m₂.session.store.valuesOf = sources.map m.session.store.valuesOf)) ∧
    ∀ source targets target m₁ m₂ result, Exchange.Calm m (.split source targets) m₁ (.ok .done) →
      Exchange.Calm m₁ (.merge target targets) m₂ result →
      (m.session.store.Has target →
        (∀ xs, m.session.store.valuesOf source = .ok xs → 2 * xs.length ≤ Buffer.slotLimit) → result = .ok .done) ∧
      (result = .ok .done → m₂.session.store.valuesOf target = m.session.store.valuesOf source) := by
  have hs := h.sound hs₀
  refine ⟨fun id n hid hn => Store.hasRoom_of_le hid hn, fun hturn => ⟨?_, ?_⟩, ?_, ?_, ?_, ?_⟩
  · intro target sources
    exact Exchange.Calm.exists_of_begin hturn hs rfl fun store tasks hok => ⟨_, _, Store.merge_writes hok⟩
  · intro source targets
    exact Exchange.Calm.exists_of_begin hturn hs rfl fun store tasks hok => ⟨_, _, Store.split_writes hok⟩
  · intro target sources during m₁ result hmerge
    exact hmerge.merge_done_iff hs
  · intro source targets during m₁ result hsplit
    exact hsplit.split_done_iff hs
  · intro target sources targets m₁ m₂ result hcount hmerge hsplit
    obtain ⟨before, hmerge, hbefore⟩ := hmerge
    obtain ⟨after, hsplit, hafter⟩ := hsplit
    exact hmerge.merge_split hs hbefore hsplit hafter hcount
  · intro source targets target m₁ m₂ result hsplit hmerge
    obtain ⟨before, hsplit, hbefore⟩ := hsplit
    obtain ⟨after, hmerge, hafter⟩ := hmerge
    exact hsplit.split_merge hs hbefore hmerge hafter

/-- Three vectors, the first of which has a client that is told of every change. -/
def Moment.threeVectors : List (Option Request) :=
  [some (.create none), none, some (.create none), none, some (.create none), none,
    some (.registerClient ⟨0, 0⟩ true), none, some (.setPolicy ⟨0, 0⟩ .always), none,
    some (.edit ⟨0, 0⟩ (Series.setValues [1.0, nan])), none, some (.edit ⟨1, 0⟩ (Series.setValues [3.0, 4.0])), none]

/-- The target of merging is one of the sources, and of splitting one of the targets. -/
theorem Run.merge_split_inverse_aliased :
    let m := Moment.outcome ⟨.initial, false⟩ Moment.threeVectors
    ∃ m₁ m₂, Exchange.Calm m (.merge ⟨0, 0⟩ [⟨0, 0⟩, ⟨1, 0⟩, ⟨0, 0⟩]) m₁ (.ok .done) ∧
      m₁.session.store.valuesOf ⟨0, 0⟩ = .ok [1.0, 3.0, 1.0, nan, 4.0, nan] ∧
      Exchange.Calm m₁ (.split ⟨0, 0⟩ [⟨2, 0⟩, ⟨0, 0⟩, ⟨1, 0⟩]) m₂ (.ok .done) ∧
      [⟨2, 0⟩, ⟨0, 0⟩, ⟨1, 0⟩].map m₂.session.store.valuesOf =
        [⟨0, 0⟩, ⟨1, 0⟩, ⟨0, 0⟩].map m.session.store.valuesOf := by
  intro m
  have hrun : Run ⟨.initial, false⟩ (Moment.play ⟨.initial, false⟩ Moment.threeVectors) m :=
    Moment.run_play (by decide +kernel)
  let m₁ := (m.step (some (.merge ⟨0, 0⟩ [⟨0, 0⟩, ⟨1, 0⟩, ⟨0, 0⟩]))).after.outcome (List.replicate 3 none)
  have hmerge : Exchange.Calm m (.merge ⟨0, 0⟩ [⟨0, 0⟩, ⟨1, 0⟩, ⟨0, 0⟩]) m₁ (.ok .done) :=
    .of_work (n := 2) (by decide +kernel) (by decide +kernel) (by decide +kernel) (by decide +kernel)
  have hsplit : Exchange.Calm m₁ (.split ⟨0, 0⟩ [⟨2, 0⟩, ⟨0, 0⟩, ⟨1, 0⟩]) _ (.ok .done) :=
    .of_work (n := 6) (by decide +kernel) (by decide +kernel) (by decide +kernel) (by decide +kernel)
  have hmerged : m₁.session.store.valuesOf ⟨0, 0⟩ = .ok [1.0, 3.0, 1.0, nan, 4.0, nan] := by decide +kernel
  obtain ⟨-, -, -, -, hinverse, -⟩ := Run.merge_split_inverse Session.ofConfig_initial hrun
  have hcount : [(⟨2, 0⟩ : VectorId), ⟨0, 0⟩, ⟨1, 0⟩].length = [(⟨0, 0⟩ : VectorId), ⟨1, 0⟩, ⟨0, 0⟩].length := rfl
  exact ⟨m₁, _, hmerge, hmerged, hsplit, (hinverse _ _ _ m₁ _ _ hcount hmerge hsplit).2 rfl⟩

end VectorEngine
