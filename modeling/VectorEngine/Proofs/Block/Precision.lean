/-
What a block keeps of the values it is made of.

An integer format keeps of a double the nearest integer within its bounds, as
the double nearest to that; four bytes keep the nearest single, and eight bytes
everything. Encoding goes through as long as no blank is to become an integer,
and decoding the block gives for every value what the format keeps of it.
-/
import VectorEngine.Proofs.Block.RoundTrip
import VectorEngine.Proofs.Number.Nearest

namespace VectorEngine

open Interchange Exact

/-- The double is what a pattern of some format was read as. -/
def Reading.Holds : Reading → Float → Prop
  | finite e, y => ∃ e', double.read y.toBits.toNat = .finite e' ∧ e'.negative = e.negative ∧ e'.magnitude = e.magnitude
  | infinite negative, y => double.read y.toBits.toNat = .infinite negative
  | nan, y => y.isNaN = true

theorem Reading.holds_of_read {y : Float} {r : Reading} (h : double.read y.toBits.toNat = r) : r.Holds y := by
  cases r with
  | finite e => exact ⟨e, h, rfl, rfl⟩
  | infinite negative => exact h
  | nan => exact isNaN_iff_read.2 h

namespace NumberFormat

/-- The integer of the format nearest a double: the nearest integer of all, a
half going away from zero, or the bound it is past. -/
inductive Clamps (f : NumberFormat) (x : Float) : Int → Prop
  | finite {e : Exact} {i : Int} : double.read x.toBits.toNat = .finite e → RoundedAway e.value i →
    Clamps f x (max f.bounds.1 (min f.bounds.2 i))
  | above : double.read x.toBits.toNat = .infinite false → Clamps f x f.bounds.2
  | below : double.read x.toBits.toNat = .infinite true → Clamps f x f.bounds.1

/-- `y` is what an element of the format keeps of `x`. -/
inductive Keeps : NumberFormat → Float → Float → Prop
  /-- The nearest integer of the format, as the nearest double. -/
  | integer {f : NumberFormat} {x y : Float} {i : Int} {r : Reading} : f.isReal = false → f.Clamps x i →
    double.Rounds (decide (i < 0)) i.natAbs r → r.Holds y → Keeps f x y
  /-- The nearest single. -/
  | single {x y : Float} {e : Exact} {r : Reading} : double.read x.toBits.toNat = .finite e →
    single.Rounds e.negative e.magnitude r → r.Holds y → Keeps .r4 x y
  | infinite {x y : Float} {negative : Bool} : double.read x.toBits.toNat = .infinite negative →
    double.read y.toBits.toNat = .infinite negative → Keeps .r4 x y
  | blank {x y : Float} : x.isNaN = true → y.isNaN = true → Keeps .r4 x y
  | double (x : Float) : Keeps .r8 x x

variable {f : NumberFormat} {x : Float}

/-! ## Integers -/

theorem clamps_saturate (hx : x.isNaN = false) : f.Clamps x (f.saturate x) := by
  unfold saturate
  split
  · next e hread => exact .finite hread e.roundedAway_round
  · next hread => exact .below hread
  · next hread => exact .above hread
  · next hread => exact absurd (isNaN_iff_read.2 hread) (Bool.eq_false_iff.1 hx)

theorem rounds_intToFloat (i : Int) :
    double.Rounds (decide (i < 0)) i.natAbs (double.read (intToFloat i).toBits.toNat) := by
  have h := rounds_write double_proper (by decide) i.natAbs Nat.one_pos (decide (i < 0))
  rw [Nat.cast_one, div_one] at h
  unfold intToFloat
  rwa [toBits_ratioToFloat]

theorem keeps_integer (hf : f.isReal = false) (hx : x.isNaN = false) : f.Keeps x (f.readWord (f.writeWord x)) := by
  obtain ⟨hlow, hhigh⟩ := saturate_mem_bounds (f := f) x
  have hback : f.readWord (f.writeWord x) = intToFloat (f.saturate x) := by
    rw [readWord_of_integer hf, writeWord_of_integer hf, integer_toNat_emod hlow hhigh]
  rw [hback]
  exact .integer hf (clamps_saturate hx) (rounds_intToFloat _) (Reading.holds_of_read rfl)

/-! ## Reals -/

/-- A single is read as the double that it is. -/
theorem holds_readWord_r4 {word : Nat} (hword : word < 2 ^ 32) (hnan : Interchange.single.read word ≠ .nan) :
    (Interchange.single.read word).Holds (r4.readWord word) := by
  unfold readWord
  dsimp only
  cases h : Interchange.single.read word with
  | finite e => exact read_toFloat_of_single hword h
  | infinite negative => exact read_infinite negative
  | nan => exact absurd h hnan

theorem keeps_r4 (x : Float) : r4.Keeps x (r4.readWord (r4.writeWord x)) := by
  cases hread : Interchange.double.read x.toBits.toNat with
  | finite e =>
    have hword : r4.writeWord x = Interchange.single.write e.negative e.num e.den := by
      unfold writeWord
      simp only [hread]
    have hrounds := rounds_write single_proper (by decide) e.num e.den_pos e.negative
    rw [e.num_div_den] at hrounds
    rw [hword]
    refine .single hread hrounds (holds_readWord_r4 ?_ (read_write_ne_nan single_proper _ _ _))
    exact write_lt single_proper _ _ _
  | infinite negative =>
    refine .infinite hread ?_
    have hword : r4.writeWord x =
        (if negative then Interchange.single.signBit else 0) + Interchange.single.infinity := by
      unfold writeWord
      simp only [hread]
    rw [hword]
    cases negative with
    | false | true => exact read_infinite _
  | nan =>
    have hword : r4.writeWord x = quietNaN .single := by
      unfold writeWord
      simp only [hread]
    refine .blank (isNaN_iff_read.2 hread) ?_
    rw [hword]
    decide +kernel

/-- A double comes back as it was. -/
theorem readWord_writeWord_r8 (x : Float) : r8.readWord (r8.writeWord x) = x := by
  show Float.ofBits (UInt64.ofNat (if x.isNaN then quietNaN .double else x.toBits.toNat)) = x
  cases hx : x.isNaN with
  | true =>
    -- There is one blank only.
    obtain rfl : x = Float.nan := by simpa using hx
    decide +kernel
  | false => simp

theorem keeps_r8 (x : Float) : r8.Keeps x (r8.readWord (r8.writeWord x)) := by
  rw [readWord_writeWord_r8]
  exact .double x

/-- **What is written and read is what the format keeps.** -/
theorem keeps_readWord_writeWord (hx : f.isReal = false → x.isNaN = false) :
    f.Keeps x (f.readWord (f.writeWord x)) := by
  cases hf : f.isReal with
  | false => exact keeps_integer hf (hx hf)
  | true =>
    cases f with
    | r4 => exact keeps_r4 x
    | r8 => exact keeps_r8 x
    | i1 | i2 | i4 | i8 | u1 | u2 | u4 | u8 => cases hf

end NumberFormat

namespace Block

variable {values : List Float} {format : NumberFormat} {order : ByteOrder} {skipEmpty : Bool}

/-- The values that become elements. -/
def kept (values : List Float) (skipEmpty : Bool) : List Float :=
  if skipEmpty then values.filter (!·.isNaN) else values

/-- A blank would have to become an integer. -/
def Unfit (values : List Float) (format : NumberFormat) (skipEmpty : Bool) : Prop :=
  format.isReal = false ∧ skipEmpty = false ∧ ∃ x ∈ values, x.isNaN = true

theorem kept_any_isNaN : (kept values skipEmpty).any Float.isNaN = true ↔
    skipEmpty = false ∧ ∃ x ∈ values, x.isNaN = true := by
  cases skipEmpty with
  | false => simp [kept]
  | true => simp [kept]

theorem encode_of_unfit (h : Unfit values format skipEmpty) :
    encode values format order skipEmpty = .error (.invalidArg format.tag .emptyAsInteger) := by
  obtain ⟨hformat, hblank⟩ := h
  have hany : (kept values skipEmpty).any Float.isNaN = true := kept_any_isNaN.2 hblank
  show (if !format.isReal && (kept values skipEmpty).any Float.isNaN then _ else _) = _
  rw [hformat, hany]
  rfl

theorem encode_of_fit (h : ¬Unfit values format skipEmpty) :
    encode values format order skipEmpty =
      .ok (ofWords ((kept values skipEmpty).map format.writeWord) format order) := by
  have htest : ¬(!format.isReal && (kept values skipEmpty).any Float.isNaN) = true := by
    rw [Bool.and_eq_true, Bool.not_eq_true', kept_any_isNaN]
    exact h
  show (if !format.isReal && (kept values skipEmpty).any Float.isNaN then _ else _) = _
  rw [if_neg htest, ofWords, List.flatMap_map]
  rfl

theorem isNaN_of_fit (h : ¬Unfit values format skipEmpty) (hformat : format.isReal = false) {x : Float}
    (hx : x ∈ kept values skipEmpty) : x.isNaN = false := by
  rw [← Bool.not_eq_true]
  intro hblank
  exact h ⟨hformat, kept_any_isNaN.1 (List.any_eq_true.2 ⟨x, hx, hblank⟩)⟩

/-- A block written is read word by word. -/
theorem decode_written (values : List Float) (format : NumberFormat) (order : ByteOrder) :
    decode (ofWords (values.map format.writeWord) format order) format order =
      .ok (values.map fun x => format.readWord (format.writeWord x)) := by
  rw [decode_eq_ok (by rw [length_ofWords, Nat.mul_mod_left]),
    words_ofWords (List.forall_mem_map.2 fun x _ => NumberFormat.writeWord_lt x), List.map_map]
  rfl

/-- Doubles go through a block unchanged, blanks among them. -/
theorem decode_encode_r8 (values : List Float) (order : ByteOrder) :
    ∃ block, encode values .r8 order false = .ok block ∧ decode block .r8 order = .ok values := by
  have hfit : ¬Unfit values .r8 false := fun h => nomatch h.1
  refine ⟨_, encode_of_fit hfit, ?_⟩
  rw [decode_written]
  simp only [NumberFormat.readWord_writeWord_r8, List.map_id']
  rfl

/-- The two orders have the bytes of each element the other way round. -/
theorem ofWords_big (ws : List Nat) (format : NumberFormat) :
    ofWords ws format .big = (elements format.size ws.length (ofWords ws format .little)).flatMap List.reverse := by
  have hlengths : ∀ b ∈ ws.map (bytesOfWord format.size), b.length = format.size :=
    List.forall_mem_map.2 fun w _ => length_bytesOfWord format.size w
  have hparts : elements format.size ws.length (ofWords ws format .little) = ws.map (bytesOfWord format.size) := by
    have h := elements_flatten hlengths
    rwa [List.length_map, ← List.flatMap_def] at h
  rw [hparts, List.flatMap_map]
  rfl

/-- **Through a block.** Encoding fails exactly when a blank would have to become
an integer. Else the block has the size of the elements kept, decoding it gives
for each of them what the format keeps of it, and the two byte orders differ by
turning the bytes of every element around. -/
theorem decode_encode (values : List Float) (format : NumberFormat) (order : ByteOrder) (skipEmpty : Bool) :
    (Unfit values format skipEmpty ∧
      encode values format order skipEmpty = .error (.invalidArg format.tag .emptyAsInteger)) ∨
    (¬Unfit values format skipEmpty ∧ ∃ block decoded little,
      encode values format order skipEmpty = .ok block ∧
      block.length = format.size * (kept values skipEmpty).length ∧
      decode block format order = .ok decoded ∧ List.Forall₂ format.Keeps (kept values skipEmpty) decoded ∧
      encode values format .little skipEmpty = .ok little ∧
      encode values format .big skipEmpty =
        .ok ((elements format.size (kept values skipEmpty).length little).flatMap List.reverse)) := by
  by_cases hfit : Unfit values format skipEmpty
  · exact .inl ⟨hfit, encode_of_unfit hfit⟩
  refine .inr ⟨hfit, _, _, _, encode_of_fit hfit, ?_, decode_written _ format order, ?_, encode_of_fit hfit, ?_⟩
  · rw [length_ofWords, List.length_map, Nat.mul_comm]
  · rw [List.forall₂_map_right_iff, List.forall₂_same]
    intro x hx
    exact NumberFormat.keeps_readWord_writeWord fun hformat => isNaN_of_fit hfit hformat hx
  · rw [encode_of_fit hfit, ofWords_big, List.length_map]

/-- Halves go away from zero, what is too large becomes the bound, and the blank
is left out. -/
example : encode [1.5, nan, 300.0, -2.5] .i1 .little true = .ok [2, 127, 253] ∧
    decode [2, 127, 253] .i1 .little = .ok [2.0, 127.0, -3.0] := by decide +kernel

end Block
end VectorEngine
