/-
The values of a series.

No series an operation has left behind, done or refused, has a value in a slot that
is not visible (`uses_sound`). So what operations do to the values of a series can be
said of them as a list, and its capacity alone tells one buffer of given values from
another. There are fewer slots than `slotLimit` (`uses_stored`). Both are proved of
any property of buffers that operations on the buffer in place keep.
-/
import Mathlib
import VectorEngine.Proofs.Extrema
import VectorEngine.Proofs.Store.Contents

namespace VectorEngine

namespace Buffer

variable {b b' : Buffer} {values xs : List Float} {start n : Nat}

theorem Sound.length_values (h : b.Sound) : b.values.length = b.length := List.length_take_of_le h.length_le

theorem Ends.ok {asks : Nat → Prop} {kept : Nat} (h : Ends asks kept values (.ok b)) : b.Sound ∧ b.values = values := by
  cases h with
  | stays | grows => exact ⟨sound_holding _ _, values_holding⟩

/-- What an operation that succeeds does to a sound buffer. -/
theorem Sound.apply (hb : b.Sound) (op : Operation) (hfits : op.Fits b.length) (h : op.apply b = .ok b') :
    b'.Sound ∧ b'.values = op.edit b.values := by
  rw [← hb.length_values] at hfits
  have hends := apply_ends (b.capacity - b.length) hfits
  rw [← hb.eq_holding, h] at hends
  exact hends.ok

theorem Sound.write (hb : b.Sound) (hfits : start + xs.length ≤ b.length) :
    (b.write start xs).Sound ∧ (b.write start xs).values = overwrite b.values start xs :=
  hb.apply (.write start xs) hfits rfl

/-- The operation works on the buffer that is there, and puts no other in its place. -/
def Operation.InPlace : Operation → Prop
  | new | withCapacity _ | ofValues _ | scalar _ => False
  | _ => True

/-- Every operation in place keeps the property, which sound buffers have only. -/
structure Lasting (P : Buffer → Prop) : Prop where
  sound : ∀ {b}, P b → b.Sound
  apply : ∀ {b b'}, P b → ∀ op : Operation, op.InPlace → op.Fits b.length → op.apply b = .ok b' → P b'

theorem lasting_sound : Lasting Sound where
  sound hb := hb
  apply hb op _ hfits h := (hb.apply op hfits h).1

/-- A sound buffer that storage can be had for. -/
structure Stored (b : Buffer) : Prop where
  sound : b.Sound
  capacity_lt : b.capacity < slotLimit

theorem Ends.capacity_lt {asks : Nat → Prop} {kept : Nat} (h : Ends asks kept values (.ok b))
    (hkept : (∀ room, ¬asks room) → kept < slotLimit) : b.capacity < slotLimit := by
  cases h with
  | stays hasks hroom => rw [capacity_holding, hroom]; exact hkept hasks
  | grows _ hlimit => rwa [capacity_holding]

theorem lasting_stored : Lasting Stored where
  sound hb := hb.sound
  apply := by
    intro b b' hb op hplace hfits h
    refine ⟨(hb.sound.apply op hfits h).1, ?_⟩
    rw [← hb.sound.length_values] at hfits
    have hends := apply_ends (b.capacity - b.length) hfits
    rw [← hb.sound.eq_holding, h] at hends
    have hroom : b.values.length + (b.capacity - b.length) = b.capacity := by
      rw [hb.sound.length_values]
      exact Nat.add_sub_cancel' hb.sound.length_le
    rw [hroom] at hends
    have hlimit := hb.capacity_lt
    refine hends.capacity_lt fun hasks => ?_
    cases op with
    | new | withCapacity | ofValues | scalar => exact hplace.elim
    | setCapacity n =>
      -- Slots that need not be asked for are there already.
      refine lt_of_le_of_lt (not_lt.1 fun hmore => hasks n ⟨?_, rfl⟩) hlimit
      exact hmore
    | _ => exact hlimit

/-- Values are found where they were written, and elsewhere what was there. -/
theorem getElem?_overwrite (h : start ≤ values.length) (p : Nat) : (overwrite values start xs)[p]? =
    if start ≤ p ∧ p < start + xs.length then xs[p - start]? else values[p]? := by
  have htake : (values.take start).length = start := List.length_take_of_le h
  unfold overwrite
  rw [List.append_assoc]
  by_cases hbefore : p < start
  · rw [if_neg (by omega), List.getElem?_append_left (by omega), List.getElem?_take_of_lt hbefore]
  rw [List.getElem?_append_right (by omega), htake]
  by_cases hinside : p < start + xs.length
  · rw [if_pos ⟨by omega, hinside⟩, List.getElem?_append_left (by omega)]
  · rw [if_neg (by omega), List.getElem?_append_right (by omega), List.getElem?_drop]
    congr 1
    omega

/-- No more values than there are slots are put into those slots. -/
theorem assign_holding {spare : Nat} (h : xs.length ≤ values.length + spare) :
    (holding values spare).assign xs = .ok (holding xs (values.length + spare - xs.length)) := by
  have hends : Ends _ _ xs ((holding values spare).assign xs) := assign_ends xs
  generalize (holding values spare).assign xs = result at *
  cases hends with
  | stays _ hkept =>
    congr 2
    omega
  | grows hasks | refused hasks =>
    have := hasks.1
    omega

end Buffer

namespace Series

variable {s s' : Series} {i p first last n : Nat} {x : Float} {xs : List Float}

/-- One operation on the buffer. -/
theorem withBuffer_sound (hs : s.buffer.Sound) (op : Buffer.Operation) (hfits : op.Fits s.buffer.length)
    (h : s.withBuffer <$> op.apply s.buffer = .ok s') : s'.buffer.Sound ∧ s'.values = op.edit s.values := by
  obtain ⟨b, hb, rfl⟩ := map_ok_iff.1 h
  exact hs.apply op hfits hb

/-- The place after the last one. -/
theorem set_length (s : Series) (x : Float) : s.set s.length x = s.append [x] := by
  unfold set append Buffer.extend
  rw [if_neg (lt_irrefl _), if_pos rfl]
  show _ = s.withBuffer <$> (s.buffer.changeLength (s.length + 1) >>= _)
  cases s.buffer.changeLength (s.length + 1) <;> rfl

theorem set_of_lt (h : i < s.length) (x : Float) : s.set i x = .ok (s.withBuffer (s.buffer.write i [x])) := by
  unfold set
  rw [if_neg (by omega), if_neg (by omega)]
  rfl

theorem hasSpan_iff : s.hasSpan first last = true ↔ first ≤ last ∧ last < s.length := by simp [hasSpan]

theorem fill_of_hasSpan (h : s.hasSpan first last = true) (x : Float) :
    s.fill first last x = .ok (s.withBuffer (s.buffer.write first (List.replicate (last + 1 - first) x))) :=
  if_pos h

theorem removeSpan_of_hasSpan (h : s.hasSpan first last = true) :
    s.removeSpan first last = .ok (s.withBuffer (s.buffer.removeSpan first last)) := if_pos h

/-- Values with their positions. -/
theorem zipIdx_eq (values : List Float) :
    values.zipIdx = (List.range values.length).map fun i => (values.getD i nan, i) := by
  refine List.ext_getElem (by simp) fun i h _ => ?_
  rw [List.length_zipIdx] at h
  simp [h]

theorem append_sound (hs : s.buffer.Sound) (h : s.append xs = .ok s') :
    s'.buffer.Sound ∧ s'.values = s.values ++ xs := withBuffer_sound hs (.extend xs) trivial h

/-! ## What lasts -/

section

variable {P : Buffer → Prop} (hP : Buffer.Lasting P)

include hP

theorem withBuffer_lasts (hs : P s.buffer) (op : Buffer.Operation) (hplace : op.InPlace)
    (hfits : op.Fits s.buffer.length) (h : s.withBuffer <$> op.apply s.buffer = .ok s') : P s'.buffer := by
  obtain ⟨b, hb, rfl⟩ := map_ok_iff.1 h
  exact hP.apply hs op hplace hfits hb

theorem write_lasts {start : Nat} (hs : P s.buffer) (hfits : start + xs.length ≤ s.buffer.length) :
    P (s.buffer.write start xs) := hP.apply hs (.write start xs) trivial hfits rfl

theorem set_lasts (hs : P s.buffer) (h : s.set i x = .ok s') : P s'.buffer := by
  obtain hlt | rfl | hgt := lt_trichotomy i s.length
  · rw [set_of_lt hlt] at h
    cases h
    exact write_lasts hP hs hlt
  · rw [set_length] at h
    exact withBuffer_lasts hP hs (.extend [x]) trivial trivial h
  · rw [set, if_pos hgt] at h
    cases h

theorem fill_lasts (hs : P s.buffer) (h : s.fill first last x = .ok s') : P s'.buffer := by
  unfold fill at h
  split at h
  · next hspan =>
    cases h
    obtain ⟨hfirst, hlast⟩ : first ≤ last ∧ last < s.buffer.length := hasSpan_iff.1 hspan
    refine write_lasts hP hs ?_
    rw [List.length_replicate]
    omega
  · cases h

theorem removeSpan_lasts (hs : P s.buffer) (h : s.removeSpan first last = .ok s') : P s'.buffer := by
  unfold removeSpan at h
  split at h
  · next hspan => exact withBuffer_lasts hP hs (.removeSpan first last) trivial (hasSpan_iff.1 hspan) h
  · cases h

/-- Resized and then written over. -/
theorem resized_lasts {start : Nat} {b : Buffer} (hs : P s.buffer) (h : s.buffer.changeLength n = .ok b)
    (hfits : start + xs.length ≤ n) : P (b.write start xs) := by
  have hlength : b.length = n := Buffer.changeLength_length h
  have hb : P b := hP.apply hs (.changeLength n) trivial trivial h
  exact hP.apply hb (.write start xs) trivial (hlength ▸ hfits) rfl

theorem splice_lasts {at? : Option Nat} (hs : P s.buffer) (h : s.splice xs at? = .ok s') : P s'.buffer := by
  unfold splice at h
  dsimp only at h
  split at h
  · cases h
  split at h
  · obtain ⟨b, hb, h⟩ := bind_ok_iff.1 h
    cases h
    exact resized_lasts hP hs hb (le_refl _)
  · next hstop =>
    cases h
    exact write_lasts hP hs (not_lt.1 hstop)

theorem fillSequence_lasts {start stop step : Float} (hs : P s.buffer) (h : s.fillSequence start stop step = .ok s') :
    P s'.buffer := by
  obtain ⟨count, -, h⟩ := bind_ok_iff.1 h
  obtain ⟨sized, hsized, h⟩ := bind_ok_iff.1 h
  obtain ⟨b, hb, rfl⟩ := map_ok_iff.1 hsized
  cases h
  exact resized_lasts hP hs hb (by simp [Sequence.values])

theorem Operation.lasts {o : Operation} (hs : P s.buffer) (h : o.apply s = .ok s') : P s'.buffer := by
  cases o with
  | setValues values => exact withBuffer_lasts hP hs (.assign values) trivial trivial h
  | setLength n => exact withBuffer_lasts hP hs (.setLength n) trivial trivial h
  | changeLength n => exact withBuffer_lasts hP hs (.changeLength n) trivial trivial h
  | setCapacity n => exact withBuffer_lasts hP hs (.setCapacity n) trivial trivial h
  | append values => exact withBuffer_lasts hP hs (.extend values) trivial trivial h
  | clear => exact withBuffer_lasts hP hs .clear trivial trivial h
  | setOffset | invalidate =>
    cases h
    exact hs
  | set => exact set_lasts hP hs h
  | fill => exact fill_lasts hP hs h
  | removeSpan => exact removeSpan_lasts hP hs h
  | rewrite f =>
    cases h
    refine write_lasts hP hs ?_
    rw [List.length_mapIdx, Nat.zero_add]
    exact (hP.sound hs).length_values.le
  | splice => exact splice_lasts hP hs h
  | fillSequence => exact fillSequence_lasts hP hs h
  | writeIndex =>
    obtain ⟨index, -, h⟩ := bind_ok_iff.1 h
    cases index with
    | element | append => exact set_lasts hP hs h
    | range => exact fill_lasts hP hs h
    | aggregate => cases h
  | unsetIndex =>
    obtain ⟨span, -, h⟩ := bind_ok_iff.1 h
    exact removeSpan_lasts hP hs h
  | deleteIndices aggregates tokens =>
    obtain ⟨spans, -, h⟩ := bind_ok_iff.1 h
    exact withBuffer_lasts hP hs (.assign (s.valuesOutside spans)) trivial trivial h

theorem use_lasts (hs : P s.buffer) (u : Use) : P (s.use u).buffer := by
  cases u with
  | read => exact hs
  | change o =>
    simp only [use]
    split
    · next h => exact o.lasts hP hs h
    · exact hs

end

theorem fillSequence_sound {start stop step : Float} (hs : s.buffer.Sound)
    (h : s.fillSequence start stop step = .ok s') : s'.buffer.Sound := fillSequence_lasts Buffer.lasting_sound hs h

theorem withCapacity_stored {capacity : Nat} (h : withCapacity capacity = .ok s) : s.buffer.Stored := by
  obtain ⟨b, hb, h⟩ := bind_ok_iff.1 h
  cases h
  have hends := Buffer.withCapacity_ends capacity
  rw [hb] at hends
  exact ⟨hends.ok.1, hends.capacity_lt fun _ => by decide⟩

theorem lasting_stored : Lasting fun s => s.buffer.Stored := ⟨withCapacity_stored, use_lasts Buffer.lasting_stored⟩

/-- **Every series in use** has a buffer that storage can be had for. -/
theorem uses_stored {capacity : Nat} (h : withCapacity capacity = .ok s) (us : List Use) :
    (s.uses us).buffer.Stored := lasting_stored.uses (lasting_stored.new h) us

/-- The series has come into use, and has been used in some way since. At every
moment of a run the series of every vector has (`Run.inUse`). -/
def InUse (s : Series) : Prop := ∃ capacity start us, withCapacity capacity = .ok start ∧ s = start.uses us

theorem lasting_inUse : Lasting InUse where
  new {capacity s} h := ⟨capacity, s, [], h, rfl⟩
  use := by
    rintro _ ⟨capacity, start, us, hstart, rfl⟩ u
    exact ⟨capacity, start, us ++ [u], hstart, (uses_append start us [u]).symm⟩

theorem InUse.stored (h : s.InUse) : s.buffer.Stored := by
  obtain ⟨capacity, start, us, hstart, rfl⟩ := h
  exact uses_stored hstart us

/-- **Every series in use** has a sound buffer. -/
theorem uses_sound {capacity : Nat} (h : withCapacity capacity = .ok s) (us : List Use) :
    (s.uses us).buffer.Sound := (uses_stored h us).sound

end Series
end VectorEngine
