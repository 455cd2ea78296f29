/-
Blocks read into a vector.

A block is decoded and room is made for it before anything is written, so a reading
that fails leaves everything as it was. One that succeeds puts the values of the block
in place of as many from its position on, whether these are among the values, run
past their end or follow it: the slots that appear are blank, and all are written to.
-/
import Mathlib
import VectorEngine.Proofs.Block.Precision
import VectorEngine.Proofs.Series
import VectorEngine.Proofs.Session.Filling

namespace VectorEngine

/-! ## Lists -/

/-- `after` is `before` with a block put in from position `p` on. -/
structure Spliced (before block after : List Float) (p : Nat) : Prop where
  values : after = before.take p ++ block ++ before.drop (p + block.length)
  length : after.length = max before.length (p + block.length)
  outside : ∀ i, ¬(p ≤ i ∧ i < p + block.length) → after[i]? = before[i]?

theorem spliced_overwrite {before : List Float} {p : Nat} (h : p ≤ before.length) (block : List Float) :
    Spliced before block (Buffer.overwrite before p block) p where
  values := rfl
  length := by
    simp only [Buffer.overwrite, List.length_append, List.length_take, List.length_drop]
    omega
  outside i hi := by rw [Buffer.getElem?_overwrite h, if_neg hi]

/-- Written over the end of a list that has been made long enough with blanks. -/
theorem Buffer.overwrite_resized {values xs : List Float} {p : Nat} (h : p ≤ values.length)
    (hstop : values.length ≤ p + xs.length) :
    overwrite (resized (p + xs.length) values) p xs = overwrite values p xs := by
  unfold overwrite resized
  rw [List.take_of_length_le hstop, List.take_append_of_le_length h, List.drop_of_length_le hstop,
    List.drop_of_length_le (by rw [List.length_append, length_blanks]; omega)]

namespace Series

variable {s s' : Series} {xs : List Float} {at? : Option Nat}

/-- **What a splice makes of the values.** -/
theorem splice_values (hs : s.buffer.Sound) (h : s.splice xs at? = .ok s') : at?.getD s.length ≤ s.length ∧
    s'.values = Buffer.overwrite s.values (at?.getD s.length) xs ∧ s'.offset = s.offset := by
  unfold splice at h
  dsimp only at h
  generalize at?.getD s.length = start at *
  split at h
  · cases h
  next hstart =>
  have hstart : start ≤ s.length := not_lt.1 hstart
  split at h
  · next hstop =>
    obtain ⟨b, hb, h⟩ := bind_ok_iff.1 h
    cases h
    obtain ⟨hsound, hvalues⟩ := hs.apply (.changeLength (start + xs.length)) trivial hb
    have hfits : start + xs.length ≤ b.length := (Buffer.changeLength_length hb).ge
    refine ⟨hstart, (hsound.write hfits).2.trans ?_, rfl⟩
    rw [hvalues]
    exact Buffer.overwrite_resized (hs.length_values ▸ hstart) (hs.length_values ▸ hstop.le)
  · next hstop =>
    cases h
    exact ⟨hstart, (hs.write (not_lt.1 hstop)).2, rfl⟩

/-- A splice needs a place to start from, and room. -/
theorem splice_ok_iff (hs : s.buffer.Sound) : (∃ s', s.splice xs at? = .ok s') ↔
    at?.getD s.length ≤ s.length ∧ s.buffer.HasRoom (at?.getD s.length + xs.length) := by
  unfold splice
  dsimp only
  generalize at?.getD s.length = start
  by_cases hstart : start ≤ s.length
  · rw [if_neg (not_lt.2 hstart), and_iff_right hstart]
    split
    · rw [← Buffer.changeLength_ok_iff]
      constructor
      · intro ⟨s', h⟩
        obtain ⟨b, hb, -⟩ := bind_ok_iff.1 h
        exact ⟨b, hb⟩
      · intro ⟨b, hb⟩
        exact ⟨_, bind_ok_iff.2 ⟨b, hb, rfl⟩⟩
    · next hstop => exact iff_of_true ⟨_, rfl⟩ (.inl ((not_lt.1 hstop).trans hs.length_le))
  · rw [if_pos (not_le.1 hstart)]
    exact iff_of_false (fun ⟨s', h⟩ => nomatch h) fun h => hstart h.1

end Series

theorem Block.length_elements (size count : Nat) (bytes : List UInt8) :
    (elements size count bytes).length = count := by
  induction count generalizing bytes with
  | zero => rfl
  | succ count ih => rw [elements, List.length_cons, ih]

/-- A block of whole elements has as many values. -/
theorem Block.decode_ok {bytes : List UInt8} {format : NumberFormat} {order : ByteOrder} {block : List Float}
    (h : decode bytes format order = .ok block) :
    bytes.length % format.size = 0 ∧ block.length = bytes.length / format.size := by
  unfold decode at h
  split at h
  · next hwhole =>
    cases h
    exact ⟨hwhole, by rw [List.length_map, length_elements]⟩
  · cases h

/-! ## Requests -/

/-- Asked at `m`, the request puts the values of a block into a vector from position
`p` on, and does nothing else. -/
structure Moment.Splices (m : Moment) (r : Request) (id : VectorId) (series : Series) (bytes : List UInt8)
    (format : NumberFormat) (order : ByteOrder) (p : Nat) : Prop where
  /-- It is answered, if the clients that are called ask for nothing. -/
  answered : m.busy = false → ∃ m' result, Exchange.Calm m r m' result
  /-- It succeeds exactly if the block holds whole elements, and the position is among the values or
  next to them, with room from there on. -/
  done_iff : ∀ {during m' result}, Exchange m r during m' result → ((∃ a, result = .ok a) ↔
    bytes.length % format.size = 0 ∧ p ≤ series.length ∧ series.buffer.HasRoom (p + bytes.length / format.size))
  /-- If it fails, everything is as it was. -/
  failed : ∀ {e during m'}, Exchange m r during m' (.error e) → m' = m
  /-- If it succeeds, it tells how many values the block has. They are in the vector then, and the
  others are as they were, unless somebody changes one meanwhile. -/
  done : ∀ {a during m'}, Exchange m r during m' (.ok a) → ∃ block after, Block.decode bytes format order = .ok block ∧
    a = .reply (.scalar (Float.ofNat block.length)) ∧ Spliced series.values block after p ∧
    ((∀ step ∈ during, step.Spares) → ∀ id' c, m.session.store.contents? id' = some c →
      m'.session.store.contents? id' = some (if id' = id then { c with values := after } else c))

/-- Asked at `m`, the request puts the values at the beginning of a vector. -/
structure Moment.Overlays (m : Moment) (r : Request) (id : VectorId) (series : Series) (xs : List Float) : Prop where
  answered : m.busy = false → ∃ m' result, Exchange.Calm m r m' result
  done_iff : ∀ {during m' result}, Exchange m r during m' result →
    ((∃ a, result = .ok a) ↔ series.buffer.HasRoom xs.length)
  values : ∀ {a m'}, Exchange.Calm m r m' (.ok a) →
    m'.session.store.valuesOf id = .ok (xs ++ series.values.drop xs.length)

namespace Moment

variable {m : Moment} {r : Request} {id : VectorId} {v : NamedVector} {bytes : List UInt8} {format : NumberFormat}
  {order : ByteOrder} {p : Nat}

/-- A request that is refused. -/
theorem Tells.splices {e : Error} (h : m.Tells r (.error e)) (hnone : ¬(bytes.length % format.size = 0 ∧
    p ≤ v.series.length ∧ v.series.buffer.HasRoom (p + bytes.length / format.size))) :
    m.Splices r id v.series bytes format order p := by
  constructor
  · exact fun hturn => ⟨m, _, h.answered hturn⟩
  · intro during m' result hexchange
    exact iff_of_false (by simp [(h.told hexchange).1]) hnone
  · intro e' during m' hexchange
    exact (h.told hexchange).2
  · intro a during m' hexchange
    cases (h.told hexchange).1

/-- A request that writes the values of the block. -/
theorem Leaves.splices {at? : Option Nat} {block : List Float} {series : Series}
    (h : m.Leaves r id series (.reply (.scalar (Float.ofNat block.length))))
    (hv : m.session.store.get? id = some v) (hsound : v.series.buffer.Sound)
    (hblock : Block.decode bytes format order = .ok block) (hsplice : v.series.splice block at? = .ok series) :
    m.Splices r id v.series bytes format order (at?.getD v.series.length) := by
  obtain ⟨hwhole, hlength⟩ := Block.decode_ok hblock
  obtain ⟨hplace, hvalues, hoffset⟩ := Series.splice_values hsound hsplice
  obtain ⟨-, hroom⟩ := (Series.splice_ok_iff hsound).1 ⟨series, hsplice⟩
  constructor
  · exact h.answered
  · intro during m' result hexchange
    exact iff_of_true ⟨_, h.result hexchange⟩ ⟨hwhole, hplace, hlength ▸ hroom⟩
  · intro e during m' hexchange
    cases h.result hexchange
  · intro a during m' hexchange
    refine ⟨block, series.values, hblock, Except.ok.inj (h.result hexchange), ?_, fun hspares id' c hc => ?_⟩
    · rw [hvalues]
      exact spliced_overwrite (hplace.trans hsound.length_values.ge) block
    · rw [h.contents ⟨during, hexchange, hspares⟩ id' c hc]
      split
      · next hid =>
        rw [hid, Store.contents?_of_get? hv, Option.some.injEq] at hc
        rw [hoffset, ← hc]
        rfl
      · rfl

/-- **Reading a block into a vector** puts its values there. -/
theorem splices_readBlock (hs : m.session.view.Sound) (hv : m.session.store.get? id = some v)
    (hsound : v.series.buffer.Sound) (bytes : List UInt8) (format : NumberFormat) (order : ByteOrder)
    (at? : Option Nat) : m.Splices (.command (.readBlock v.name bytes format order at?)) id v.series bytes format order
      (at?.getD v.series.length) := by
  have hissue : m.session.issue (.command (.readBlock v.name bytes format order at?)) =
      m.session.begin (Block.decode bytes format order >>= fun block => m.session.store.updating id
        (Series.splice block at?) [.answer (.reply (.scalar (Float.ofNat block.length)))]) := by
    have hid : m.session.store.lookup v.name = .ok id := hs.coherent.lookup_name hv
    show m.session.begin (m.session.store.lookup v.name >>= _) = _
    rw [hid]
    rfl
  have hspares : ∀ id', ¬Request.Destroys m.session.store (.command (.readBlock v.name bytes format order at?)) id' :=
    fun _ => not_false
  cases hblock : Block.decode bytes format order with
  | error e =>
    rw [hblock] at hissue
    refine (tells_of_put hs (Task.answers_refuse e) hissue).splices fun h => ?_
    rw [Block.decode_eq_ok h.1] at hblock
    cases hblock
  | ok block =>
    rw [hblock] at hissue
    obtain ⟨e, htells, hnone⟩ | ⟨v', series, hv', hsplice, hleaves⟩ := tells_or_leaves hs hspares hissue
    · refine htells.splices fun h => hnone ?_
      rw [← (Block.decode_ok hblock).2] at h
      obtain ⟨series, hsplice⟩ := (Series.splice_ok_iff hsound).2 h.2
      exact ⟨v, series, hv, hsplice⟩
    · obtain rfl := Option.some.inj (hv.symm.trans hv')
      exact hleaves.splices hv hsound hblock hsplice

/-- **Writing a vector as a block of doubles** hands out its values, and changes nothing. -/
theorem tells_writeBlock (hs : m.session.view.Sound) (hv : m.session.store.get? id = some v) {skipEmpty : Bool}
    {block : List UInt8} (hblock : Block.encode v.series.values format order skipEmpty = .ok block) :
    m.Tells (.command (.writeBlock v.name format order skipEmpty)) (.ok (.reply (.bytes block))) := by
  have hid : m.session.store.lookup v.name = .ok id := hs.coherent.lookup_name hv
  have hvalues : m.session.store.valuesOf id = .ok v.series.values :=
    Store.valuesOf_ok_iff.2 ⟨_, Store.contents?_of_get? hv, rfl⟩
  refine tells_of_put hs (Task.answers_answer _) ?_
  show m.session.begin (m.session.store.lookup v.name >>= _) = _
  rw [hid]
  show m.session.begin (m.session.store.valuesOf id >>= _) = _
  rw [hvalues]
  show m.session.begin (Block.encode v.series.values format order skipEmpty >>= _) = _
  rw [hblock]
  rfl

/-- A block of doubles is read from the first position on. -/
theorem Splices.overlays (h : m.Splices r id v.series bytes .r8 order 0) {xs : List Float}
    (hdecode : Block.decode bytes .r8 order = .ok xs)
    (hv : m.session.store.get? id = some v) : m.Overlays r id v.series xs := by
  have hcount : bytes.length / NumberFormat.r8.size = xs.length := (Block.decode_ok hdecode).2.symm
  refine ⟨h.answered, ?_, ?_⟩
  · intro during m' result hexchange
    rw [h.done_iff hexchange, hcount, Nat.zero_add]
    have hwhole : bytes.length % NumberFormat.r8.size = 0 := (Block.decode_ok hdecode).1
    exact ⟨fun hall => hall.2.2, fun hroom => ⟨hwhole, Nat.zero_le _, hroom⟩⟩
  · intro a m' hcalm
    obtain ⟨during, hexchange, hspares⟩ := hcalm
    obtain ⟨block, after, hblock, -, hspliced, hcontents⟩ := h.done hexchange
    obtain rfl := Except.ok.inj (hdecode.symm.trans hblock)
    refine Store.valuesOf_ok_iff.2 ⟨_, hcontents hspares id _ (Store.contents?_of_get? hv), ?_⟩
    rw [if_pos rfl, hspliced.values, List.take_zero, List.nil_append, Nat.zero_add]

end Moment

/-- **Blocks are put in place of values.** At every moment of a run, reading a block into a
vector that is in use puts the values of the block there, or changes nothing. Writing any vector as a block
of doubles gives a block that leaves its values, and what was beyond them, in a vector that
it is read into from the first position on. -/
theorem Run.blocks_spliced {config : StoreConfig} {host : Host} {random : RandomSource} {s₀ : Session}
    {steps : List Step} {m : Moment}
    (hs₀ : Session.ofConfig config host random = .ok s₀) (hrun : Run ⟨s₀, false⟩ steps m) :
    (∀ id v, m.session.store.get? id = some v → v.series.InUse → ∀ bytes format order at?,
      m.Splices (.command (.readBlock v.name bytes format order at?)) id v.series bytes format order
        (at?.getD v.series.length)) ∧
    ∀ id v, m.session.store.get? id = some v → ∀ order, ∃ block,
      m.Tells (.command (.writeBlock v.name .r8 order false)) (.ok (.reply (.bytes block))) ∧
      ∀ id' w, m.session.store.get? id' = some w → w.series.InUse →
        m.Overlays (.command (.readBlock w.name block .r8 order (some 0))) id' w.series v.series.values := by
  have hs := hrun.sound hs₀
  have hsplices {id : VectorId} {v : NamedVector} (hv : m.session.store.get? id = some v) (huse : v.series.InUse) :=
    Moment.splices_readBlock hs hv huse.stored.sound
  refine ⟨fun id v => hsplices, fun id v hv order => ?_⟩
  obtain ⟨block, hblock, hdecode⟩ := Block.decode_encode_r8 v.series.values order
  refine ⟨block, Moment.tells_writeBlock hs hv hblock, fun id' w hw huse => ?_⟩
  exact (hsplices hw huse block .r8 order (some 0)).overlays hdecode hw

/-- A block that runs past the end of a vector, one with half an element too many, and a
vector written over another. -/
theorem Run.blocks_spliced_attended :
    let m := Moment.outcome ⟨.initial, false⟩ Moment.attended
    let past : Request := .command (.readBlock "vector2" [3, 4] .u1 .little (some 2))
    let torn : Request := .command (.readBlock "vector2" [3, 4, 5] .i2 .little none)
    (∃ m₁ a, Exchange.Calm m past m₁ (.ok a) ∧ m₁.session.store.valuesOf ⟨1, 0⟩ = .ok [2.0, nan, 3.0, 4.0]) ∧
    (∃ e, Exchange.Calm m torn m (.error e)) ∧
    ∃ block m₁ a, m.Tells (.command (.writeBlock "vector1" .r8 .big false)) (.ok (.reply (.bytes block))) ∧
      Exchange.Calm m (.command (.readBlock "vector2" block .r8 .big (some 0))) m₁ (.ok a) ∧
      m₁.session.store.valuesOf ⟨1, 0⟩ = .ok [1.0, nan, 4.0] := by
  intro m past torn
  let start : Series := { buffer := ⟨Buffer.blanks 64, 0⟩ }
  let us : List Series.Use := [.change (.setValues [2.0, nan, 4.0])]
  let v : NamedVector :=
    { name := "vector1", series := start.uses [.change (.setValues [1.0])], policy := .always,
      clients := [⟨⟨1⟩, true⟩] }
  let w : NamedVector := { name := "vector2", series := start.uses us, policy := .onIdle }
  have hstart : Series.withCapacity 64 = .ok start := by decide +kernel
  have hv : m.session.store.get? ⟨0, 0⟩ = some v := by decide +kernel
  have hw : m.session.store.get? ⟨1, 0⟩ = some w := by decide +kernel
  have hvalues : v.series.values = [1.0] ∧ w.series.values = [2.0, nan, 4.0] ∧ w.series.length = 3 := by
    decide +kernel
  have hturn : m.busy = false := by decide +kernel
  obtain ⟨hreads, hwrites⟩ := Run.blocks_spliced Session.ofConfig_initial Moment.run_attended
  have hreads := hreads ⟨1, 0⟩ w hw ⟨64, start, us, hstart, rfl⟩
  refine ⟨?_, ?_, ?_⟩
  · have hsplices := hreads [3, 4] .u1 .little (some 2)
    obtain ⟨m₁, result, during, hexchange, hspares⟩ := hsplices.answered hturn
    have hroom : w.series.buffer.HasRoom 4 := Buffer.hasRoom_of_le _ (by decide)
    obtain ⟨a, rfl⟩ := (hsplices.done_iff hexchange).2 ⟨rfl, by rw [hvalues.2.2]; decide, hroom⟩
    obtain ⟨block, after, hblock, -, hspliced, hcontents⟩ := hsplices.done hexchange
    have hdecode : Block.decode [3, 4] .u1 .little = .ok [3.0, 4.0] := by decide +kernel
    obtain rfl := Except.ok.inj (hdecode.symm.trans hblock)
    refine ⟨m₁, a, ⟨during, hexchange, hspares⟩, Store.valuesOf_ok_iff.2
      ⟨_, hcontents hspares _ _ (Store.contents?_of_get? hw), ?_⟩⟩
    rw [if_pos rfl, hspliced.values, hvalues.2.1]
    rfl
  · have hsplices := hreads [3, 4, 5] .i2 .little none
    obtain ⟨m₁, result, during, hexchange, hspares⟩ := hsplices.answered hturn
    cases result with
    | ok a => cases ((hsplices.done_iff hexchange).1 ⟨a, rfl⟩).1
    | error e =>
      obtain rfl := hsplices.failed hexchange
      exact ⟨e, during, hexchange, hspares⟩
  · obtain ⟨block, htells, hoverlays⟩ := hwrites ⟨0, 0⟩ v hv .big
    have hover := hoverlays ⟨1, 0⟩ w hw ⟨64, start, us, hstart, rfl⟩
    rw [hvalues.1] at hover
    obtain ⟨m₁, result, hcalm⟩ := hover.answered hturn
    obtain ⟨during, hexchange, -⟩ := id hcalm
    obtain ⟨a, rfl⟩ := (hover.done_iff hexchange).2 (Buffer.hasRoom_of_le _ (by decide))
    refine ⟨block, m₁, a, htells, hcalm, (hover.values hcalm).trans ?_⟩
    rw [hvalues.2.1]
    rfl

end VectorEngine
