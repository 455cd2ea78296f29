/-
What the vectors of a store hold.

`Contents` leaves out how the clients of a vector are told, so whatever only sees to
that keeps it. Values that are written are all a vector holds afterwards, whatever
its buffer was like, and room is all that can be missing for them
(`Buffer.assign_ok_iff`); with up to half of `slotLimit` values it never is.
-/
import Mathlib
import VectorEngine.Proofs.Buffer
import VectorEngine.Proofs.Store.Evolution
import VectorEngine.Proofs.Store.Operations

namespace VectorEngine

/-- What can be read of a vector. -/
structure Contents where
  values : List Float
  name : String
  offset : Int
deriving DecidableEq

def NamedVector.contents (v : NamedVector) : Contents := ⟨v.series.values, v.name, v.series.offset⟩

theorem NamedVector.opened_contents (v : NamedVector) : v.opened.contents = v.contents := rfl
theorem NamedVector.ended_contents (v : NamedVector) : v.ended.contents = v.contents := rfl

/-- What the vector of an id holds. -/
def Store.contents? (s : Store) (id : VectorId) : Option Contents := (s.get? id).map NamedVector.contents

/-- There is a vector with this id. -/
def Store.Has (s : Store) (id : VectorId) : Prop := ∃ v, s.get? id = some v

namespace Buffer

variable {b b' : Buffer} {xs : List Float} {n : Nat}

/-- There are `n` slots, or there is storage for the doubling that has them. -/
def HasRoom (b : Buffer) (n : Nat) : Prop := n ≤ b.capacity ∨ ∃ room, LeastDoubling n room ∧ room < slotLimit

theorem hasRoom_of_le (b : Buffer) (h : 2 * n ≤ slotLimit) : b.HasRoom n := by
  obtain ⟨room, hleast⟩ := exists_leastDoubling n
  have hlimit : slotLimit = 2 ^ 57 := rfl
  have hbase : baseCapacity * 2 ^ 50 = 2 ^ 56 := rfl
  have hroom : room ≤ baseCapacity * 2 ^ 50 := hleast.2 ⟨by omega, 50, rfl⟩
  exact .inr ⟨room, hleast, by omega⟩

theorem changeLength_length (h : b.changeLength n = .ok b') : b'.length = n := by
  unfold changeLength at h
  split at h
  · obtain ⟨grown, -, hexpose⟩ := bind_ok_iff.1 h
    cases hexpose
    rfl
  · cases h
    rfl

/-- The values written are the ones that are there then. -/
theorem assign_values (h : b.assign xs = .ok b') : b'.values = xs := by
  obtain ⟨sized, hsized, hwrite⟩ := bind_ok_iff.1 h
  cases hwrite
  show (overwrite sized.slots 0 xs).take sized.length = xs
  rw [changeLength_length hsized, overwrite, List.take_zero, List.nil_append, List.take_left]

theorem setCapacity_ok_iff (h : b.capacity < n) : (∃ b', b.setCapacity n = .ok b') ↔ n < slotLimit := by
  unfold setCapacity
  rw [if_pos h]
  split
  · next hlimit => simpa using hlimit
  · next hlimit => simpa using hlimit

theorem changeLength_ok_iff : (∃ b', b.changeLength n = .ok b') ↔ b.HasRoom n := by
  unfold changeLength
  by_cases hcapacity : b.capacity < n
  · rw [if_pos hcapacity]
    simp only [bind_ok_iff, pure, Except.pure, Except.ok.injEq]
    obtain ⟨room, hgrown, hleast⟩ | ⟨hgrown, room, hleast, hlimit⟩ := grownCapacity_spec n
    · have hroom : b.capacity < room := hcapacity.trans_le hleast.1.1
      have hset := setCapacity_ok_iff hroom
      constructor
      · intro ⟨_, grown, ⟨room', hroom', hok⟩, _⟩
        rw [hgrown] at hroom'
        obtain rfl := Except.ok.inj hroom'
        exact .inr ⟨room, hleast, hset.1 ⟨grown, hok⟩⟩
      · intro hhas
        obtain hle | ⟨room', hleast', hlimit⟩ := hhas
        · omega
        · obtain rfl := hleast.unique hleast'
          obtain ⟨grown, hok⟩ := hset.2 hlimit
          exact ⟨_, grown, ⟨room, hgrown, hok⟩, rfl⟩
    · constructor
      · intro ⟨_, grown, ⟨room', hroom', _⟩, _⟩
        rw [hgrown] at hroom'
        cases hroom'
      · intro hhas
        obtain hle | ⟨room', hleast', hlimit'⟩ := hhas
        · omega
        · obtain rfl := hleast.unique hleast'
          omega
  · rw [if_neg hcapacity]
    exact iff_of_true ⟨_, rfl⟩ (.inl (not_lt.1 hcapacity))

/-- Room is all that can be missing. -/
theorem assign_ok_iff : (∃ b', b.assign xs = .ok b') ↔ b.HasRoom xs.length := by
  rw [← changeLength_ok_iff]
  unfold assign
  constructor
  · intro ⟨b', h⟩
    obtain ⟨sized, hsized, -⟩ := bind_ok_iff.1 h
    exact ⟨sized, hsized⟩
  · intro ⟨sized, hsized⟩
    exact ⟨_, bind_ok_iff.2 ⟨sized, hsized, rfl⟩⟩

end Buffer

theorem Series.setValues_values {series series' : Series} {xs : List Float} (h : series.setValues xs = .ok series') :
    series'.values = xs ∧ series'.offset = series.offset := by
  obtain ⟨b, hb, rfl⟩ := map_ok_iff.1 h
  exact ⟨Buffer.assign_values hb, rfl⟩

theorem Series.setValues_ok_iff {series : Series} {xs : List Float} :
    (∃ series', series.setValues xs = .ok series') ↔ series.buffer.HasRoom xs.length := by
  rw [← Buffer.assign_ok_iff]
  constructor
  · intro ⟨series', h⟩
    obtain ⟨b, hb, -⟩ := map_ok_iff.1 h
    exact ⟨b, hb⟩
  · intro ⟨b, hb⟩
    exact ⟨series.withBuffer b, map_ok_iff.2 ⟨b, hb, rfl⟩⟩

/-- The vector is there, and has room for `n` values. -/
def Store.HasRoom (s : Store) (id : VectorId) (n : Nat) : Prop := ∃ v, s.get? id = some v ∧ v.series.buffer.HasRoom n

/-- All the vectors are there, with `n` values each. -/
def Store.HaveLength (s : Store) (ids : List VectorId) (n : Nat) : Prop :=
  ∀ id ∈ ids, ∃ xs, s.valuesOf id = .ok xs ∧ xs.length = n

namespace Store

variable {s s' : Store} {id id' : VectorId} {ids : List VectorId} {n : Nat} {v : NamedVector} {xs : List Float}
  {d? : Option Delivery} {rest tasks : List Task} {writes : List (VectorId × List Float)}
  {change : Series → Except Error Series}

theorem contents?_of_get? (hv : s.get? id = some v) : s.contents? id = some v.contents := by
  rw [contents?, hv, Option.map_some]

theorem valuesOf_eq (s : Store) (id : VectorId) : s.valuesOf id = (s.get id).map fun v => v.series.values := by
  rw [valuesOf]
  cases s.get id <;> rfl

theorem has_iff : s.Has id ↔ ∃ c, s.contents? id = some c := by
  simp [Has, contents?]

theorem hasRoom_of_le (h : s.Has id) (hn : 2 * n ≤ Buffer.slotLimit) : s.HasRoom id n := by
  obtain ⟨v, hv⟩ := h
  exact ⟨v, hv, Buffer.hasRoom_of_le _ hn⟩

theorem HasRoom.has (h : s.HasRoom id n) : s.Has id := by
  obtain ⟨v, hv, -⟩ := h
  exact ⟨v, hv⟩

theorem markDirty_ok (hv : s.get? id = some v) : ∃ noted, s.markDirty id = .ok noted := by
  unfold markDirty
  rw [get_of_get? hv]
  simp only [bind, Except.bind]
  cases v.policy with
  | never | onIdle => exact ⟨_, rfl⟩
  | always =>
    dsimp only
    split <;> exact ⟨_, rfl⟩

/-- The values of a vector are those of its contents. -/
theorem valuesOf_ok_iff : s.valuesOf id = .ok xs ↔ ∃ c, s.contents? id = some c ∧ c.values = xs := by
  rw [valuesOf_eq, map_ok_iff]
  simp only [get_eq_ok_iff, contents?, Option.map_eq_some_iff]
  constructor
  · intro ⟨v, hv, hxs⟩
    exact ⟨v.contents, ⟨v, hv, rfl⟩, hxs⟩
  · intro ⟨_, ⟨v, hv, hc⟩, hxs⟩
    subst hc
    exact ⟨v, hv, hxs⟩

/-- The values of all can be read, and are as many. -/
theorem haveLength_iff : s.HaveLength ids n ↔ ∃ columns, ids.mapM s.valuesOf = .ok columns ∧
    ∀ column ∈ columns, column.length = n := by
  simp only [mapM_ok_iff]
  induction ids with
  | nil => simp [HaveLength]
  | cons id ids ih =>
    rw [HaveLength, List.forall_mem_cons]
    constructor
    · intro ⟨⟨xs, hxs, hlength⟩, hids⟩
      obtain ⟨columns, hcolumns, hall⟩ := ih.1 hids
      exact ⟨xs :: columns, .cons hxs hcolumns, List.forall_mem_cons.2 ⟨hlength, hall⟩⟩
    · intro ⟨columns, hcolumns, hall⟩
      cases hcolumns with
      | cons hxs hcolumns =>
        obtain ⟨hlength, hall⟩ := List.forall_mem_cons.1 hall
        exact ⟨⟨_, hxs, hlength⟩, ih.2 ⟨_, hcolumns, hall⟩⟩

/-! ## Keeping contents -/

theorem contents?_modify (s : Store) (id id' : VectorId) {f : NamedVector → NamedVector}
    (hf : ∀ v, (f v).contents = v.contents) : (s.modify id f).contents? id' = s.contents? id' := by
  rw [contents?, contents?, get?_modify]
  split
  · next hid =>
    rw [hid, Option.map_map]
    exact Option.map_congr fun v _ => hf v
  · rfl

theorem contents?_schedule (s : Store) (id id' : VectorId) : (s.schedule id).contents? id' = s.contents? id' := by
  cases hv : s.get? id with
  | none => rw [schedule_of_none hv]
  | some v =>
    by_cases hp : v.state = .pending
    · rw [schedule_of_pending hv hp]
    · rw [schedule_of_not_pending hv hp]
      exact contents?_modify s id id' fun _ => rfl

theorem contents?_markDirty (h : s.markDirty id = .ok (s', d?)) (id' : VectorId) :
    s'.contents? id' = s.contents? id' := by
  obtain ⟨v, s₁, -, rfl, hcases⟩ := markDirty_cases h
  have hforget := contents?_modify s id id' (f := fun v => { v with series := v.series.invalidate }) fun _ => rfl
  obtain ⟨-, rfl, -⟩ | ⟨-, rfl⟩ | ⟨-, rfl, -⟩ := hcases
  · exact hforget
  · rw [contents?_schedule, hforget]
  · exact (contents?_modify _ id id' NamedVector.opened_contents).trans hforget

theorem contents?_beginDestroy (h : s.beginDestroy id = .ok (s', d?)) (id' : VectorId) :
    s'.contents? id' = s.contents? id' := by
  obtain ⟨v, -, ⟨-, -, rfl⟩ | ⟨-, rfl, -⟩⟩ := beginDestroy_cases h
  · rfl
  · exact contents?_modify s id id' NamedVector.ended_contents

/-! ## Writing -/

/-- The vector holds what the change has made of it, and the others what they held. -/
theorem edit_contents (h : s.edit id change = .ok s') : ∃ v series, s.get? id = some v ∧
    change v.series = .ok series ∧
    ∀ id', s'.contents? id' = if id' = id then some { v with series }.contents else s.contents? id' := by
  obtain ⟨v, series, hv, hseries, rfl⟩ := edit_cases h
  refine ⟨v, series, hv, hseries, fun id' => ?_⟩
  rw [contents?, get?_modify]
  split
  · rw [hv]
    rfl
  · rfl

theorem edit_setValues (h : s.edit id (Series.setValues xs) = .ok s') (id' : VectorId) : s'.contents? id' =
    if id' = id then (s.contents? id).map ({ · with values := xs }) else s.contents? id' := by
  obtain ⟨v, series, hv, hseries, hcontents⟩ := edit_contents h
  obtain ⟨hvalues, hoffset⟩ := Series.setValues_values hseries
  rw [hcontents, contents?_of_get? hv, Option.map_some]
  simp only [NamedVector.contents, hvalues, hoffset]

theorem change_ok_iff :
    (∃ s', s.edit id change = .ok s') ↔ ∃ v series, s.get? id = some v ∧ change v.series = .ok series := by
  constructor
  · intro ⟨s', h⟩
    obtain ⟨v, series, hv, hseries, -⟩ := edit_cases h
    exact ⟨v, series, hv, hseries⟩
  · intro ⟨v, series, hv, hseries⟩
    exact ⟨_, bind_ok_iff.2 ⟨v, get_of_get? hv, bind_ok_iff.2 ⟨series, hseries, rfl⟩⟩⟩

theorem edit_ok_iff : (∃ s', s.edit id (Series.setValues xs) = .ok s') ↔ s.HasRoom id xs.length := by
  rw [change_ok_iff]
  constructor
  · intro ⟨v, series, hv, hseries⟩
    exact ⟨v, hv, Series.setValues_ok_iff.1 ⟨series, hseries⟩⟩
  · intro ⟨v, hv, hroom⟩
    obtain ⟨series, hseries⟩ := Series.setValues_ok_iff.2 hroom
    exact ⟨v, series, hv, hseries⟩

/-- Noting the change leaves all as the change has left it. -/
theorem updating_edit (h : s.updating id change rest = .ok (s', tasks)) :
    ∃ s₁, s.edit id change = .ok s₁ ∧ ∀ id', s'.contents? id' = s₁.contents? id' := by
  obtain ⟨⟨s₁, d?⟩, hupdate, htasks⟩ := bind_ok_iff.1 h
  cases htasks
  obtain ⟨s₂, hedit, hmark⟩ := bind_ok_iff.1 hupdate
  exact ⟨s₂, hedit, contents?_markDirty hmark⟩

theorem writing_of_none (h : (s.writeAll writes).2 = none) :
    s.writing writes rest = ((s.writeAll writes).1, .markEach (writes.map (·.1)) :: rest) := by
  unfold writing
  split
  · next hall => rw [hall]
  · next hall =>
    rw [hall] at h
    cases h

theorem writing_of_some {e : Error} (h : (s.writeAll writes).2 = some e) :
    s.writing writes rest = ((s.writeAll writes).1, [.refuse e]) := by
  unfold writing
  split
  · next hall =>
    rw [hall] at h
    cases h
  · next hall =>
    rw [hall] at h
    cases h
    rw [hall]

/-- Each of the vectors written to has its values then, and the others are as they were. -/
theorem writeAll_contents (hnodup : (writes.map (·.1)).Nodup) (h : s.writeAll writes = (s', none)) :
    (∀ w ∈ writes, s'.contents? w.1 = (s.contents? w.1).map ({ · with values := w.2 })) ∧
      ∀ id ∉ writes.map (·.1), s'.contents? id = s.contents? id := by
  induction writes generalizing s with
  | nil =>
    cases h
    exact ⟨nofun, fun id _ => rfl⟩
  | cons w writes ih =>
    obtain ⟨id, xs⟩ := w
    obtain ⟨hid, hnodup⟩ := List.nodup_cons.1 hnodup
    rw [writeAll] at h
    split at h
    · next s₁ hedit =>
      obtain ⟨hwritten, hothers⟩ := ih hnodup h
      have hfirst := edit_setValues hedit
      constructor
      · intro w hw
        obtain rfl | hw := List.mem_cons.1 hw
        · rw [hothers id hid, hfirst, if_pos rfl]
        · have hne : w.1 ≠ id := fun he => hid (List.mem_map.2 ⟨w, hw, he⟩)
          rw [hwritten w hw, hfirst, if_neg hne]
      · intro id' hid'
        rw [List.map_cons, List.mem_cons, not_or] at hid'
        rw [hothers id' hid'.2, hfirst, if_neg hid'.1]
    · cases h

/-- Only the change itself can fail. -/
theorem updating_ok_iff_edit :
    (∃ begun, s.updating id change rest = .ok begun) ↔ ∃ s', s.edit id change = .ok s' := by
  constructor
  · intro ⟨begun, h⟩
    obtain ⟨s₁, hedit, -⟩ := updating_edit h
    exact ⟨s₁, hedit⟩
  · intro ⟨s₁, hedit⟩
    obtain ⟨v, series, hv, -, hs₁⟩ := edit_cases hedit
    have hthere : s₁.get? id = some { v with series } := hs₁ ▸ get?_modify_self hv
    obtain ⟨noted, hmark⟩ := markDirty_ok hthere
    exact ⟨_, bind_ok_iff.2 ⟨noted, bind_ok_iff.2 ⟨s₁, hedit, hmark⟩, rfl⟩⟩

/-- All is written if all the vectors are there and have room. -/
theorem writeAll_none_iff (hnodup : (writes.map (·.1)).Nodup) :
    (s.writeAll writes).2 = none ↔ ∀ w ∈ writes, s.HasRoom w.1 w.2.length := by
  induction writes generalizing s with
  | nil => exact iff_of_true rfl nofun
  | cons w writes ih =>
    obtain ⟨id, xs⟩ := w
    obtain ⟨hid, hnodup⟩ := List.nodup_cons.1 hnodup
    rw [List.forall_mem_cons, ← edit_ok_iff, writeAll]
    split
    · next s₁ hedit =>
      have hothers : ∀ w ∈ writes, s₁.get? w.1 = s.get? w.1 := by
        intro w hw
        obtain ⟨v, series, -, -, rfl⟩ := edit_cases hedit
        exact get?_modify_of_ne fun he => hid (List.mem_map.2 ⟨w, hw, he⟩)
      rw [ih hnodup, and_iff_right ⟨s₁, hedit⟩]
      exact forall₂_congr fun w hw => by rw [HasRoom, HasRoom, hothers w hw]
    · next e hedit =>
      refine iff_of_false (by simp) fun hall => ?_
      obtain ⟨s₁, hok⟩ := hall.1
      rw [hedit] at hok
      cases hok

end Store
end VectorEngine
