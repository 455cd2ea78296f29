/-
A buffer is a list with spare room.

Behind the visible values every slot is blank, whatever was there before: each
operation blanks the slots it uncovers and those it covers up. So a buffer is
known by its values and its capacity, and what an operation does to it can be
said of the list of values alone. Storage is asked for only when there is too
little, of the length needed or of its least doubling, and an operation that
does not get it changes nothing.
-/
import VectorEngine.Buffer
import VectorEngine.Proofs.Outcome

namespace VectorEngine
namespace Buffer

/-! ## Values and spare slots -/

/-- The buffer that holds `values` and has `spare` slots besides. -/
def holding (values : List Float) (spare : Nat) : Buffer := ⟨values ++ blanks spare, values.length⟩

/-- No value is left in a slot that is not visible. -/
structure Sound (b : Buffer) : Prop where
  length_le : b.length ≤ b.capacity
  blank : ∀ i, b.length ≤ i → i < b.capacity → b.slots[i]? = some nan

/-- `values` cut or filled up with blanks to `n` of them. -/
def resized (n : Nat) (values : List Float) : List Float := values.take n ++ blanks (n - values.length)

variable {values xs : List Float} {spare n : Nat}

@[simp] theorem length_blanks (n : Nat) : (blanks n).length = n := List.length_replicate

@[simp] theorem take_blanks (k n : Nat) : (blanks n).take k = blanks (min k n) := List.take_replicate

@[simp] theorem drop_blanks (k n : Nat) : (blanks n).drop k = blanks (n - k) := List.drop_replicate

theorem blanks_append (a b : Nat) : blanks a ++ blanks b = blanks (a + b) := List.replicate_append_replicate

@[simp] theorem values_holding : (holding values spare).values = values := List.take_left

@[simp] theorem length_holding : (holding values spare).length = values.length := rfl

@[simp] theorem capacity_holding : (holding values spare).capacity = values.length + spare := by
  simp [holding, capacity]

@[simp] theorem length_resized (n : Nat) (values : List Float) : (resized n values).length = n := by
  simp [resized]
  omega

theorem sound_holding (values : List Float) (spare : Nat) : (holding values spare).Sound := by
  refine ⟨by simp, fun i hlow hhigh => ?_⟩
  rw [length_holding] at hlow
  rw [capacity_holding] at hhigh
  show (values ++ blanks spare)[i]? = some nan
  rw [List.getElem?_append_right hlow]
  exact List.getElem?_replicate_of_lt (by omega)

/-- A sound buffer is its values and its spare slots. -/
theorem Sound.eq_holding {b : Buffer} (h : b.Sound) : b = holding b.values (b.capacity - b.length) := by
  have hlength : b.values.length = b.length := by
    simp only [Buffer.values, List.length_take]
    exact Nat.min_eq_left h.length_le
  have hspare : b.slots.drop b.length = blanks (b.capacity - b.length) := by
    refine List.eq_replicate_iff.2 ⟨List.length_drop, fun x hx => ?_⟩
    obtain ⟨i, hi, rfl⟩ := List.mem_iff_getElem.1 hx
    rw [List.length_drop] at hi
    have hblank := h.blank (b.length + i) (by omega) (by unfold capacity; omega)
    rw [List.getElem_drop]
    exact (List.getElem_eq_iff _).2 hblank
  show b = ⟨b.values ++ blanks (b.capacity - b.length), b.values.length⟩
  rw [hlength, ← hspare, Buffer.values, List.take_append_drop]

/-! ## Comparing buffers -/

/-- Buffers are the same if they show as many values and their slots hold equal
numbers, spare ones included. -/
theorem same_iff {a b : Buffer} : a.same b = true ↔
    a.length = b.length ∧ List.Forall₂ (fun x y => (x == y) = true) a.slots b.slots := by
  have hslots (xs ys : List Float) : (xs == ys) = true ↔ List.Forall₂ (fun x y => (x == y) = true) xs ys := by
    induction xs generalizing ys with
    | nil => cases ys <;> simp
    | cons x xs ih => cases ys <;> simp [ih]
  rw [same, Bool.and_eq_true, hslots, beq_iff_eq]
  exact And.comm

theorem same_self_iff {b : Buffer} : b.same b = true ↔ ∀ x ∈ b.slots, x.isNaN = false := by
  rw [same_iff, List.forall₂_same]
  simp

/-- **A buffer equals itself** only if every slot is visible and none is blank. -/
theorem Sound.same_self_iff {b : Buffer} (h : b.Sound) :
    b.same b = true ↔ b.capacity = b.length ∧ ∀ x ∈ b.values, x.isNaN = false := by
  have hslots : b.slots = b.values ++ blanks (b.capacity - b.length) := congrArg slots h.eq_holding
  have hblank : nan.isNaN = true := by decide +kernel
  rw [Buffer.same_self_iff, hslots, List.forall_mem_append, and_comm]
  refine and_congr_left fun _ => ⟨fun hspare => ?_, fun hfull => ?_⟩
  · by_contra hne
    have hroom : b.capacity - b.length ≠ 0 := by have := h.length_le; omega
    have hnumber : nan.isNaN = false := hspare nan (List.mem_replicate.2 ⟨hroom, rfl⟩)
    rw [hblank] at hnumber
    cases hnumber
  · simp [hfull, blanks]

/-! ## What the parts of operations do -/

theorem length_overwrite {slots : List Float} {start : Nat} (h : start + xs.length ≤ slots.length) :
    (overwrite slots start xs).length = slots.length := by
  simp [overwrite]
  omega

theorem overwrite_append_right (zs : List Float) {start : Nat} (h : start + xs.length ≤ values.length) :
    overwrite (values ++ zs) start xs = overwrite values start xs ++ zs := by
  unfold overwrite
  rw [List.take_append_of_le_length (by omega), List.drop_append_of_le_length h, List.append_assoc, List.append_assoc,
    List.append_assoc]

/-- Values put in place of as many at the front. -/
theorem overwrite_front {ys : List Float} (zs : List Float) (h : xs.length = ys.length) :
    overwrite (ys ++ zs) 0 xs = xs ++ zs := by
  unfold overwrite
  rw [List.take_zero, List.nil_append, Nat.zero_add, h, List.drop_left]

/-- Values put in place of as many at the end. -/
theorem overwrite_append {ys : List Float} (h : ys.length = xs.length) :
    overwrite (values ++ ys) values.length xs = values ++ xs := by
  unfold overwrite
  rw [List.take_left, List.drop_of_length_le (by simp [h]), List.append_nil]

theorem write_holding {start : Nat} (h : start + xs.length ≤ values.length) :
    (holding values spare).write start xs = holding (overwrite values start xs) spare := by
  show Buffer.mk (overwrite (values ++ blanks spare) start xs) values.length =
    ⟨overwrite values start xs ++ blanks spare, (overwrite values start xs).length⟩
  rw [overwrite_append_right _ h, length_overwrite h]

/-- Showing more slots or fewer leaves blanks behind. -/
theorem expose_holding (h : n ≤ values.length + spare) :
    (holding values spare).expose n = holding (resized n values) (values.length + spare - n) := by
  show Buffer.mk (overwrite (values ++ blanks spare) (min n values.length)
      (blanks (max n values.length - min n values.length))) n =
    ⟨resized n values ++ blanks (values.length + spare - n), (resized n values).length⟩
  rw [length_resized]
  congr 1
  unfold overwrite resized
  by_cases hn : n ≤ values.length
  · rw [Nat.min_eq_left hn, Nat.max_eq_right hn, length_blanks, List.take_append_of_le_length hn,
      List.drop_append_of_le_length (by omega), List.drop_of_length_le (by omega), List.nil_append, List.append_assoc,
      List.append_assoc, blanks_append, blanks_append]
    congr 2
    omega
  · rw [Nat.min_eq_right (by omega), Nat.max_eq_left (by omega), length_blanks, List.take_left,
      List.take_of_length_le (by omega), List.drop_append, List.drop_of_length_le (by omega), List.nil_append,
      drop_blanks, List.append_assoc, List.append_assoc, blanks_append, blanks_append]
    congr 2
    omega

theorem setCapacity_holding_of_lt (h : values.length + spare < n) (hlimit : n < slotLimit) :
    (holding values spare).setCapacity n = .ok (holding values (n - values.length)) := by
  unfold setCapacity
  rw [capacity_holding, if_pos h, if_neg (not_le.2 hlimit)]
  simp only [holding, List.append_assoc, blanks_append]
  congr 4
  omega

theorem setCapacity_holding_of_le (h : n ≤ values.length + spare) :
    (holding values spare).setCapacity n = .ok (holding (values.take n) (n - values.length)) := by
  unfold setCapacity
  rw [capacity_holding, if_neg (not_lt.2 h)]
  by_cases hless : n < values.length + spare
  · rw [if_pos hless]
    simp only [holding, List.take_append, take_blanks, List.length_take, Nat.min_comm n]
    congr 4
    omega
  · obtain rfl : n = values.length + spare := by omega
    rw [if_neg (lt_irrefl _), List.take_of_length_le (by omega), Nat.add_sub_cancel_left]

theorem setCapacity_refused {b : Buffer} (h : b.capacity < n) (hlimit : slotLimit ≤ n) :
    b.setCapacity n = .error (.outOfMemory n) := by
  unfold setCapacity
  rw [if_pos h, if_pos hlimit]

theorem removeSpan_holding {first last : Nat} (hfirst : first ≤ last) (hlast : last < values.length) :
    (holding values spare).removeSpan first last =
      holding (values.take first ++ values.drop (last + 1)) (spare + (last - first + 1)) := by
  have hlength : (values.take first ++ values.drop (last + 1)).length = values.length - (last - first + 1) := by
    simp
    omega
  unfold removeSpan
  rw [length_holding, values_holding, if_pos ⟨hfirst, hlast⟩]
  generalize values.take first ++ values.drop (last + 1) = rest at *
  show Buffer.mk (overwrite (values ++ blanks spare) 0 (rest ++ blanks (last - first + 1))) _ =
    ⟨rest ++ blanks (spare + (last - first + 1)), rest.length⟩
  rw [overwrite_front _ (by rw [List.length_append, hlength, length_blanks]; omega), List.append_assoc, blanks_append,
    Nat.add_comm _ spare, hlength]

/-! ## Growing by doubling -/

/-- The least capacity of the doubling sequence with room for `n` slots. -/
def LeastDoubling (n room : Nat) : Prop := IsLeast {c | n ≤ c ∧ ∃ k, c = baseCapacity * 2 ^ k} room

theorem exists_leastDoubling (n : Nat) : ∃ room, LeastDoubling n room := by
  have hsome : baseCapacity * 2 ^ n ∈ {c | n ≤ c ∧ ∃ k, c = baseCapacity * 2 ^ k} :=
    ⟨Nat.lt_two_pow_self.le.trans (Nat.le_mul_of_pos_left _ (by decide)), n, rfl⟩
  exact ⟨_, Nat.sInf_mem ⟨_, hsome⟩, fun c hc => Nat.sInf_le hc⟩

/-- A doubling is the least if the one before is too small. -/
theorem leastDoubling_of_half {k : Nat} (hroom : n ≤ baseCapacity * 2 ^ k)
    (hhalf : ∀ j < k, baseCapacity * 2 ^ j < n) : LeastDoubling n (baseCapacity * 2 ^ k) := by
  refine ⟨⟨hroom, k, rfl⟩, ?_⟩
  rintro c ⟨hc, j, rfl⟩
  have hj : k ≤ j := by
    by_contra hlt
    have := hhalf j (by omega)
    omega
  exact Nat.mul_le_mul_left _ (Nat.pow_le_pow_right (by decide) hj)

/-- Doubling finds the least, unless no word can count it. -/
theorem doubledFrom_spec {capacity k : Nat} (hcapacity : capacity = baseCapacity * 2 ^ k)
    (hhalf : ∀ j < k, baseCapacity * 2 ^ j < n) :
    (∃ room, doubledFrom n capacity = some room ∧ LeastDoubling n room) ∨
      (doubledFrom n capacity = none ∧ ∃ room, LeastDoubling n room ∧ sizeLimit ≤ room) := by
  fun_induction doubledFrom n capacity generalizing k with
  | case1 capacity hroom =>
    subst hcapacity
    exact .inl ⟨_, rfl, leastDoubling_of_half hroom hhalf⟩
  | case2 capacity hroom hlimit =>
    have hpositive : 0 < capacity := hcapacity ▸ Nat.mul_pos (by decide) (Nat.two_pow_pos k)
    obtain ⟨room, hleast⟩ := exists_leastDoubling n
    refine .inr ⟨rfl, room, hleast, ?_⟩
    -- This doubling is too small as well, and a word does not count the next one.
    obtain ⟨hle, j, rfl⟩ := hleast.1
    have hj : k + 1 ≤ j := by
      by_contra hlt
      have hsmall : baseCapacity * 2 ^ j ≤ baseCapacity * 2 ^ k :=
        Nat.mul_le_mul_left _ (Nat.pow_le_pow_right (by decide) (by omega))
      omega
    calc sizeLimit ≤ 2 * capacity := hlimit.resolve_left (by omega)
      _ = baseCapacity * 2 ^ (k + 1) := by rw [hcapacity, Nat.pow_succ]; ring
      _ ≤ baseCapacity * 2 ^ j := Nat.mul_le_mul_left _ (Nat.pow_le_pow_right (by decide) hj)
  | case3 capacity hroom hlimit ih =>
    refine ih (k := k + 1) (by rw [hcapacity, Nat.pow_succ]; ring) fun j hj => ?_
    by_cases hlast : j = k
    · subst hlast
      omega
    · exact hhalf j (by omega)

/-- The capacity that growing asks for, or a refusal where it is out of reach. -/
theorem grownCapacity_spec (n : Nat) : (∃ room, grownCapacity n = .ok room ∧ LeastDoubling n room) ∨
    (grownCapacity n = .error (.outOfMemory n) ∧ ∃ room, LeastDoubling n room ∧ slotLimit ≤ room) := by
  have hbase : baseCapacity = baseCapacity * 2 ^ 0 := (Nat.mul_one _).symm
  have hlimit : slotLimit ≤ sizeLimit := by decide
  unfold grownCapacity
  obtain ⟨room, hdoubled, hleast⟩ | ⟨hdoubled, room, hleast, hroom⟩ :=
    doubledFrom_spec (n := n) hbase fun j hj => absurd hj (Nat.not_lt_zero j)
  · exact .inl ⟨room, by rw [hdoubled], hleast⟩
  · exact .inr ⟨by rw [hdoubled], room, hleast, hlimit.trans hroom⟩

/-! ## Operations -/

/-- What can be done to a buffer. The first four put another buffer in its
place. -/
inductive Operation
  | new
  | withCapacity (n : Nat)
  | ofValues (values : List Float)
  | scalar (x : Float)
  | setCapacity (n : Nat)
  | setLength (n : Nat)
  | changeLength (n : Nat)
  | extend (values : List Float)
  | push (x : Float)
  | assign (values : List Float)
  | clear
  | removeSpan (first last : Nat)
  /-- Put values in place of visible ones. -/
  | write (start : Nat) (values : List Float)
deriving DecidableEq, Repr

namespace Operation

def apply : Operation → Buffer → Except Error Buffer
  | new, _ => .ok .empty
  | withCapacity n, _ => Buffer.withCapacity n
  | ofValues values, _ => .ok (.ofValues values)
  | scalar x, _ => .ok (.scalar x)
  | setCapacity n, b => b.setCapacity n
  | setLength n, b => b.setLength n
  | changeLength n, b => b.changeLength n
  | extend values, b => b.extend values
  | push x, b => b.push x
  | assign values, b => b.assign values
  | clear, b => .ok b.clear
  | removeSpan first last, b => .ok (b.removeSpan first last)
  | write start values, b => .ok (b.write start values)

/-- The positions the operation names are among `length` visible ones. -/
def Fits (length : Nat) : Operation → Prop
  | removeSpan first last => first ≤ last ∧ last < length
  | write start values => start + values.length ≤ length
  | _ => True

/-- What the operation does to the values. -/
def edit : Operation → List Float → List Float
  | new, _ | withCapacity _, _ | clear, _ => []
  | ofValues xs, _ | assign xs, _ => xs
  | scalar x, _ => [x]
  | setCapacity n, values => values.take n
  | setLength n, values | changeLength n, values => resized n values
  | extend xs, values => values ++ xs
  | push x, values => values ++ [x]
  | removeSpan first last, values => values.take first ++ values.drop (last + 1)
  | write start xs, values => overwrite values start xs

/-- The operation asks for storage of `room` slots, because it needs more than
there are. -/
def Asks (length capacity room : Nat) : Operation → Prop
  | withCapacity n => 0 < n ∧ room = n
  | setCapacity n | setLength n => capacity < n ∧ room = n
  | changeLength n => capacity < n ∧ LeastDoubling n room
  | extend xs => capacity < length + xs.length ∧ LeastDoubling (length + xs.length) room
  | push _ => capacity < length + 1 ∧ LeastDoubling (length + 1) room
  | assign xs => capacity < xs.length ∧ LeastDoubling xs.length room
  | _ => False

/-- The capacity after an operation that asks for no storage. -/
def kept (capacity : Nat) : Operation → Nat
  | new | withCapacity _ => 0
  | ofValues values => values.length
  | scalar _ => 1
  | setCapacity n => n
  | _ => capacity

/-- The operation on a buffer, which stays as it is when the operation fails. -/
def run (op : Operation) (b : Buffer) : Buffer × Option Error :=
  match op.apply b with
  | .ok b' => (b', none)
  | .error e => (b, some e)

end Operation

/-- How an operation that asks as `asks` says, on a buffer of some capacity, has
ended: with the storage asked for or without asking, holding `after` then, or
refused for want of it. -/
inductive Ends (asks : Nat → Prop) (kept : Nat) (after : List Float) : Except Error Buffer → Prop
  | stays {spare : Nat} : (∀ room, ¬asks room) → after.length + spare = kept →
    Ends asks kept after (.ok (holding after spare))
  | grows {spare : Nat} : asks (after.length + spare) → after.length + spare < slotLimit →
    Ends asks kept after (.ok (holding after spare))
  | refused {room n : Nat} : asks room → slotLimit ≤ room → Ends asks kept after (.error (.outOfMemory n))

theorem setCapacity_ends (values : List Float) (spare n : Nat) :
    Ends (fun room => values.length + spare < n ∧ room = n) n (values.take n)
      ((holding values spare).setCapacity n) := by
  by_cases h : values.length + spare < n
  · by_cases hlimit : slotLimit ≤ n
    · rw [setCapacity_refused (by simpa using h) hlimit]
      exact .refused ⟨h, rfl⟩ hlimit
    · have hall : values.take n = values := List.take_of_length_le (by omega)
      rw [setCapacity_holding_of_lt h (not_le.1 hlimit), hall]
      have hroom : values.length + (n - values.length) = n := by omega
      exact .grows ⟨by omega, hroom⟩ (by omega)
  · rw [setCapacity_holding_of_le (not_lt.1 h)]
    exact .stays (fun room hroom => h hroom.1) (by simp; omega)

/-- Room enough is shown as it is. -/
theorem expose_ends {asks : Nat → Prop} (hasks : ∀ room, ¬asks room) (h : n ≤ values.length + spare) :
    Ends asks (values.length + spare) (resized n values) (.ok ((holding values spare).expose n)) := by
  rw [expose_holding h]
  exact .stays hasks (by simp; omega)

/-- Too little room is made `room` first. -/
theorem grown_ends {asks : Nat → Prop} {kept room : Nat} (hasks : asks room) (h : values.length + spare < room)
    (hroom : n ≤ room) :
    Ends asks kept (resized n values) ((holding values spare).setCapacity room >>= fun b => return b.expose n) := by
  by_cases hlimit : slotLimit ≤ room
  · rw [setCapacity_refused (by simpa using h) hlimit]
    exact .refused hasks hlimit
  · rw [setCapacity_holding_of_lt h (not_le.1 hlimit)]
    show Ends _ _ _ (.ok ((holding values (room - values.length)).expose n))
    rw [expose_holding (by omega)]
    have hall : (resized n values).length + (values.length + (room - values.length) - n) = room := by
      rw [length_resized]
      omega
    refine .grows ?_ (by omega)
    rwa [hall]

theorem setLength_ends (values : List Float) (spare n : Nat) :
    Ends (fun room => values.length + spare < n ∧ room = n) (values.length + spare) (resized n values)
      ((holding values spare).setLength n) := by
  unfold setLength
  rw [capacity_holding]
  by_cases h : values.length + spare < n
  · rw [if_pos h]
    exact grown_ends ⟨h, rfl⟩ h (le_refl n)
  · rw [if_neg h]
    exact expose_ends (fun room hroom => h hroom.1) (not_lt.1 h)

theorem changeLength_ends (values : List Float) (spare n : Nat) :
    Ends (fun room => values.length + spare < n ∧ LeastDoubling n room) (values.length + spare) (resized n values)
      ((holding values spare).changeLength n) := by
  unfold changeLength
  rw [capacity_holding]
  by_cases h : values.length + spare < n
  · rw [if_pos h]
    obtain ⟨room, hgrown, hleast⟩ | ⟨hgrown, room, hleast, hlimit⟩ := grownCapacity_spec n
    · have hroom : n ≤ room := hleast.1.1
      rw [hgrown]
      exact grown_ends ⟨h, hleast⟩ (h.trans_le hroom) hroom
    · rw [hgrown]
      exact .refused ⟨h, hleast⟩ hlimit
  · rw [if_neg h]
    exact expose_ends (fun room hroom => h hroom.1) (not_lt.1 h)

/-- Writing afterwards does not change how an operation ends. -/
theorem Ends.write {asks : Nat → Prop} {kept : Nat} {after : List Float} {result : Except Error Buffer}
    (h : Ends asks kept after result) {start : Nat} (hfits : start + xs.length ≤ after.length) :
    Ends asks kept (overwrite after start xs) (result >>= fun b => return b.write start xs) := by
  have hlength := length_overwrite hfits
  cases h with
  | stays hasks hkept =>
    show Ends _ _ _ (.ok ((holding after _).write start xs))
    rw [write_holding hfits]
    exact .stays hasks (by rw [hlength, hkept])
  | grows hasks hlimit =>
    show Ends _ _ _ (.ok ((holding after _).write start xs))
    rw [write_holding hfits]
    exact .grows (by rwa [hlength]) (by rwa [hlength])
  | refused hasks hlimit => exact .refused hasks hlimit

theorem extend_ends (xs : List Float) :
    Ends (fun room => values.length + spare < values.length + xs.length ∧
        LeastDoubling (values.length + xs.length) room)
      (values.length + spare) (values ++ xs) ((holding values spare).extend xs) := by
  have hresized : resized (values.length + xs.length) values = values ++ blanks xs.length := by
    rw [resized, List.take_of_length_le (by omega), Nat.add_sub_cancel_left]
  have hfits : values.length + xs.length ≤ (resized (values.length + xs.length) values).length := by simp
  have h := (changeLength_ends values spare (values.length + xs.length)).write hfits
  rwa [hresized, overwrite_append (length_blanks _)] at h

theorem assign_ends (xs : List Float) :
    Ends (fun room => values.length + spare < xs.length ∧ LeastDoubling xs.length room) (values.length + spare) xs
      ((holding values spare).assign xs) := by
  have hlength : xs.length = (resized xs.length values).length := (length_resized _ _).symm
  have h := (changeLength_ends values spare xs.length).write ((Nat.zero_add _).trans_le hlength.le)
  have hall : overwrite (resized xs.length values) 0 xs = xs := by
    have h := overwrite_front [] hlength
    rwa [List.append_nil, List.append_nil] at h
  rwa [hall] at h

theorem withCapacity_ends (n : Nat) : Ends (fun room => 0 < n ∧ room = n) 0 [] (Buffer.withCapacity n) := by
  have h := setCapacity_ends [] 0 n
  rw [List.take_nil] at h
  change Ends _ _ _ (Buffer.withCapacity n) at h
  generalize Buffer.withCapacity n = result at *
  cases h with
  | stays hasks hkept =>
    have hn : n = 0 := by
      by_contra hpositive
      exact hasks n ⟨by simp; omega, rfl⟩
    exact .stays (fun room hroom => by omega) (by omega)
  | grows hasks hlimit => exact .grows (by simpa using hasks) hlimit
  | refused hasks hlimit => exact .refused (by simpa using hasks) hlimit

/-- **One operation** ends as its effect on the list says. -/
theorem apply_ends (spare : Nat) {op : Operation} (hfits : op.Fits values.length) :
    Ends (fun room => op.Asks values.length (values.length + spare) room) (op.kept (values.length + spare))
      (op.edit values) (op.apply (holding values spare)) := by
  cases op with
  | new =>
    show Ends _ _ _ (.ok (holding [] 0))
    exact .stays (fun room h => h) rfl
  | withCapacity n => exact withCapacity_ends n
  | ofValues xs =>
    have hall : Buffer.ofValues xs = holding xs 0 := by simp [Buffer.ofValues, holding, blanks]
    show Ends _ _ _ (.ok (Buffer.ofValues xs))
    rw [hall]
    exact .stays (fun room h => h) rfl
  | scalar x =>
    show Ends _ _ _ (.ok (holding [x] 0))
    exact .stays (fun room h => h) rfl
  | setCapacity n => exact setCapacity_ends values spare n
  | setLength n => exact setLength_ends values spare n
  | changeLength n => exact changeLength_ends values spare n
  | extend xs => exact extend_ends xs
  | push x => exact extend_ends [x]
  | assign xs => exact assign_ends xs
  | clear =>
    have hnone : resized 0 values = [] := List.eq_nil_of_length_eq_zero (length_resized 0 values)
    rw [Operation.edit, ← hnone]
    exact expose_ends (fun room h => h) (Nat.zero_le _)
  | removeSpan first last =>
    obtain ⟨hfirst, hlast⟩ := hfits
    show Ends _ _ _ (.ok ((holding values spare).removeSpan first last))
    rw [removeSpan_holding hfirst hlast]
    refine .stays (fun room h => h) ?_
    show (values.take first ++ values.drop (last + 1)).length + _ = values.length + spare
    rw [List.length_append, List.length_take, List.length_drop]
    omega
  | write start xs =>
    show Ends _ _ _ (.ok ((holding values spare).write start xs))
    rw [write_holding hfits]
    refine .stays (fun room h => h) ?_
    show (overwrite values start xs).length + spare = values.length + spare
    rw [length_overwrite hfits]

/-! ## Histories -/

/-- What was done to a buffer, from an empty one on, with the errors, and the
buffer then. -/
inductive History : List (Operation × Option Error) → Buffer → Prop
  | start : History [] .empty
  | step {past : List (Operation × Option Error)} {b : Buffer} {op : Operation} : History past b → op.Fits b.length →
    History (past ++ [(op, (op.run b).2)]) (op.run b).1

/-- What the same does to a list of values and the room kept for them. -/
inductive ListHistory : List (Operation × Option Error) → List Float → Nat → Prop
  | start : ListHistory [] [] 0
  | stays {past : List (Operation × Option Error)} {values : List Float} {capacity : Nat} {op : Operation} :
    ListHistory past values capacity → (∀ room, ¬op.Asks values.length capacity room) →
    ListHistory (past ++ [(op, none)]) (op.edit values) (op.kept capacity)
  | grows {past : List (Operation × Option Error)} {values : List Float} {capacity room : Nat} {op : Operation} :
    ListHistory past values capacity → op.Asks values.length capacity room → room < slotLimit →
    ListHistory (past ++ [(op, none)]) (op.edit values) room
  | refused {past : List (Operation × Option Error)} {values : List Float} {capacity room n : Nat} {op : Operation} :
    ListHistory past values capacity → op.Asks values.length capacity room → slotLimit ≤ room →
    ListHistory (past ++ [(op, some (.outOfMemory n))]) values capacity

/-- **A buffer is a list with room.** At every moment of every history no slot
beyond the visible ones holds a value, and values and capacity are those the same
history gives a list. -/
theorem refines_list {past : List (Operation × Option Error)} {b : Buffer} (h : History past b) :
    b.Sound ∧ ListHistory past b.values b.capacity := by
  induction h with
  | start => exact ⟨sound_holding [] 0, .start⟩
  | @step past b op _ hfits ih =>
    obtain ⟨hsound, hlist⟩ := ih
    -- Being sound, the buffer is its values and spare slots, which is what `apply_ends` starts from.
    rw [hsound.eq_holding] at hfits hlist ⊢
    generalize b.values = values at *
    generalize b.capacity - b.length = spare at *
    rw [values_holding, capacity_holding] at hlist
    have hends := apply_ends spare hfits
    unfold Operation.run
    generalize op.apply (holding values spare) = result at *
    cases hends with
    | stays hasks hkept =>
      refine ⟨sound_holding _ _, ?_⟩
      rw [values_holding, capacity_holding, hkept]
      exact hlist.stays hasks
    | grows hasks hlimit =>
      refine ⟨sound_holding _ _, ?_⟩
      rw [values_holding, capacity_holding]
      exact hlist.grows hasks hlimit
    | refused hasks hlimit =>
      refine ⟨sound_holding _ _, ?_⟩
      rw [values_holding, capacity_holding]
      exact hlist.refused hasks hlimit

theorem History.next {past : List (Operation × Option Error)} {b : Buffer} (h : History past b) (op : Operation)
    (b' : Buffer) (e? : Option Error) (hfits : op.Fits b.length) (hrun : op.run b = (b', e?)) :
    History (past ++ [(op, e?)]) b' := by
  have hstep := h.step hfits
  rwa [hrun] at hstep

/-- What was cut off does not come back, and a request no storage can meet leaves
everything in place. -/
theorem refines_list_regrown :
    let past : List (Operation × Option Error) := [(.ofValues [1.0, 2.0, 3.0], none), (.setLength 1, none),
      (.setCapacity slotLimit, some (.outOfMemory slotLimit)), (.push 4.0, none), (.setLength 4, none)]
    ∃ b, History past b ∧ b.values = [1.0, 4.0, nan, nan] ∧ b.capacity = 4 ∧
      b.Sound ∧ ListHistory past b.values b.capacity := by
  intro past
  have h₁ := History.start.next (.ofValues [1.0, 2.0, 3.0]) ⟨[1.0, 2.0, 3.0], 3⟩ none trivial rfl
  have h₂ := h₁.next (.setLength 1) ⟨[1.0, nan, nan], 1⟩ none trivial (by decide +kernel)
  have h₃ := h₂.next (.setCapacity slotLimit) ⟨[1.0, nan, nan], 1⟩ (some (.outOfMemory slotLimit)) trivial
    (by decide +kernel)
  have h₄ := h₃.next (.push 4.0) ⟨[1.0, 4.0, nan], 2⟩ none trivial (by decide +kernel)
  have h₅ := h₄.next (.setLength 4) ⟨[1.0, 4.0, nan, nan], 4⟩ none trivial (by decide +kernel)
  have h : History past ⟨[1.0, 4.0, nan, nan], 4⟩ := h₅
  exact ⟨_, h, rfl, rfl, refines_list h⟩

end Buffer
end VectorEngine
