/-
Blocks there and back.

A block of whole elements is the words of its elements, each as the bytes of its
format in the order asked for, one after the other; decoding and encoding work
word by word. So encoding what was decoded gives the block back where every word
comes back, and decoding that once more gives the same values everywhere.
-/
import VectorEngine.Proofs.Block.Words

namespace VectorEngine
namespace Block

/-! ## Words and bytes -/

theorem arrange_arrange (order : ByteOrder) (bytes : List UInt8) : order.arrange (order.arrange bytes) = bytes := by
  cases order with
  | big => exact List.reverse_reverse bytes
  | little | native => rfl

theorem length_arrange (order : ByteOrder) (bytes : List UInt8) : (order.arrange bytes).length = bytes.length := by
  cases order with
  | big => exact List.length_reverse
  | little | native => rfl

theorem length_bytesOfWord (size word : Nat) : (bytesOfWord size word).length = size := by simp [bytesOfWord]

theorem bytesOfWord_succ (size word : Nat) :
    bytesOfWord (size + 1) word = UInt8.ofNat (word % 256) :: bytesOfWord size (word / 256) := by
  unfold bytesOfWord
  rw [List.range_succ_eq_map, List.map_cons, List.map_map]
  congr 1
  · simp
  · apply List.map_congr_left
    intro i _
    simp [Nat.pow_succ', Nat.div_div_eq_div_mul]

theorem wordOfBytes_cons (b : UInt8) (bytes : List UInt8) :
    wordOfBytes (b :: bytes) = b.toNat + 256 * wordOfBytes bytes := rfl

theorem wordOfBytes_lt (bytes : List UInt8) : wordOfBytes bytes < 256 ^ bytes.length := by
  induction bytes with
  | nil => exact Nat.one_pos
  | cons b bytes ih =>
    have hb : b.toNat < 256 := b.toNat_lt
    rw [wordOfBytes_cons, List.length_cons, Nat.pow_succ']
    omega

/-- The bytes of a word are those it was put together from. -/
theorem bytesOfWord_wordOfBytes (bytes : List UInt8) : bytesOfWord bytes.length (wordOfBytes bytes) = bytes := by
  induction bytes with
  | nil => rfl
  | cons b bytes ih =>
    have hb : b.toNat < 256 := b.toNat_lt
    rw [wordOfBytes_cons, List.length_cons, bytesOfWord_succ, Nat.add_mul_mod_self_left, Nat.mod_eq_of_lt hb,
      UInt8.ofNat_toNat, Nat.add_mul_div_left _ _ (by decide), Nat.div_eq_of_lt hb, Nat.zero_add, ih]

/-- A word that fits is put together from its bytes again. -/
theorem wordOfBytes_bytesOfWord {size word : Nat} (hword : word < 256 ^ size) :
    wordOfBytes (bytesOfWord size word) = word := by
  induction size generalizing word with
  | zero =>
    obtain rfl : word = 0 := by simpa using hword
    rfl
  | succ size ih =>
    have hrest : word / 256 < 256 ^ size := by
      rw [Nat.pow_succ'] at hword
      exact Nat.div_lt_of_lt_mul hword
    have hbyte : (UInt8.ofNat (word % 256)).toNat = word % 256 :=
      UInt8.toNat_ofNat_of_lt' (Nat.mod_lt _ (by decide))
    rw [bytesOfWord_succ, wordOfBytes_cons, ih hrest, hbyte, Nat.mod_add_div]

/-! ## The words of a block -/

theorem length_of_mem_elements {size count : Nat} {bytes b : List UInt8} (hlength : bytes.length = count * size)
    (hb : b ∈ elements size count bytes) : b.length = size := by
  induction count generalizing bytes with
  | zero => cases hb
  | succ count ih =>
    rw [Nat.succ_mul] at hlength
    cases List.mem_cons.1 hb with
    | inl hfirst => rw [hfirst, List.length_take]; omega
    | inr hrest => exact ih (by rw [List.length_drop]; omega) hrest

theorem flatten_elements {size count : Nat} {bytes : List UInt8} (hlength : bytes.length = count * size) :
    (elements size count bytes).flatten = bytes := by
  induction count generalizing bytes with
  | zero => exact (List.length_eq_zero_iff.1 (by simpa using hlength)).symm
  | succ count ih =>
    rw [Nat.succ_mul] at hlength
    rw [elements, List.flatten_cons, ih (by rw [List.length_drop]; omega), List.take_append_drop]

/-- Parts of one length that were put together are cut apart again. -/
theorem elements_flatten {size : Nat} {parts : List (List UInt8)} (hparts : ∀ b ∈ parts, b.length = size) :
    elements size parts.length parts.flatten = parts := by
  induction parts with
  | nil => rfl
  | cons b parts ih =>
    obtain ⟨hb, hrest⟩ := List.forall_mem_cons.1 hparts
    rw [List.length_cons, elements, List.flatten_cons, List.take_left' hb, List.drop_left' hb, ih hrest]

/-- The elements of a block as words. -/
def words (bytes : List UInt8) (format : NumberFormat) (order : ByteOrder) : List Nat :=
  (elements format.size (bytes.length / format.size) bytes).map fun b => wordOfBytes (order.arrange b)

/-- The block of some words. -/
def ofWords (ws : List Nat) (format : NumberFormat) (order : ByteOrder) : List UInt8 :=
  ws.flatMap fun w => order.arrange (bytesOfWord format.size w)

variable {format : NumberFormat} {order : ByteOrder} {bytes : List UInt8} {ws : List Nat}

theorem length_eq_mul (hlength : bytes.length % format.size = 0) :
    bytes.length = bytes.length / format.size * format.size :=
  (Nat.div_mul_cancel (Nat.dvd_of_mod_eq_zero hlength)).symm

theorem lt_modulus_of_mem_words (hlength : bytes.length % format.size = 0) {w : Nat}
    (hw : w ∈ words bytes format order) : w < format.modulus := by
  obtain ⟨b, hb, rfl⟩ := List.mem_map.1 hw
  have h := wordOfBytes_lt (order.arrange b)
  rwa [length_arrange, length_of_mem_elements (length_eq_mul hlength) hb] at h

/-- A block is the block of its words. -/
theorem ofWords_words (hlength : bytes.length % format.size = 0) :
    ofWords (words bytes format order) format order = bytes := by
  have hparts : ∀ b ∈ elements format.size (bytes.length / format.size) bytes,
      order.arrange (bytesOfWord format.size (wordOfBytes (order.arrange b))) = b := by
    intro b hb
    have hsize : format.size = (order.arrange b).length := by
      rw [length_arrange, length_of_mem_elements (length_eq_mul hlength) hb]
    rw [hsize, bytesOfWord_wordOfBytes, arrange_arrange]
  unfold ofWords words
  rw [List.flatMap_map, List.flatMap_def, List.map_congr_left hparts, List.map_id',
    flatten_elements (length_eq_mul hlength)]

theorem length_arrange_bytesOfWord (size w : Nat) : (order.arrange (bytesOfWord size w)).length = size := by
  rw [length_arrange, length_bytesOfWord]

theorem length_ofWords (ws : List Nat) (format : NumberFormat) (order : ByteOrder) :
    (ofWords ws format order).length = ws.length * format.size := by
  induction ws with
  | nil => simp [ofWords]
  | cons w ws ih =>
    rw [ofWords, List.flatMap_cons, List.length_append, length_arrange_bytesOfWord, List.length_cons, Nat.succ_mul,
      Nat.add_comm]
    exact congrArg (· + format.size) ih

/-- The words of a block are those it was made of. -/
theorem words_ofWords (hws : ∀ w ∈ ws, w < format.modulus) : words (ofWords ws format order) format order = ws := by
  have hsize : 0 < format.size := by cases format <;> decide
  have hcount : (ofWords ws format order).length / format.size = ws.length := by
    rw [length_ofWords, Nat.mul_div_cancel _ hsize]
  have hparts : elements format.size ws.length (ofWords ws format order) =
      ws.map fun w => order.arrange (bytesOfWord format.size w) := by
    have hlengths : ∀ b ∈ ws.map (fun w => order.arrange (bytesOfWord format.size w)), b.length = format.size :=
      List.forall_mem_map.2 fun w _ => length_arrange_bytesOfWord format.size w
    have h := elements_flatten hlengths
    rwa [List.length_map] at h
  have hword : ∀ w ∈ ws, wordOfBytes (order.arrange (order.arrange (bytesOfWord format.size w))) = w := by
    intro w hw
    rw [arrange_arrange, wordOfBytes_bytesOfWord (hws w hw)]
  unfold words
  rw [hcount, hparts, List.map_map]
  exact (List.map_congr_left hword).trans (List.map_id' ws)

/-! ## Decoding and encoding -/

theorem decode_eq_ok (hlength : bytes.length % format.size = 0) :
    decode bytes format order = .ok ((words bytes format order).map format.readWord) := by
  unfold decode words
  rw [if_pos hlength, List.map_map]
  rfl

/-- Values that are no blanks are all encoded, whether blanks are skipped or not. -/
theorem encode_eq_ok {values : List Float} (hvalues : ∀ x ∈ values, x.isNaN = false) (skipEmpty : Bool) :
    encode values format order skipEmpty = .ok (ofWords (values.map format.writeWord) format order) := by
  have hnone : values.any Float.isNaN = false := by
    rw [List.any_eq_false]
    intro x hx
    simp only [hvalues x hx, Bool.false_eq_true, not_false_eq_true]
  have hkept : (if skipEmpty then values.filter (!·.isNaN) else values) = values := by
    cases skipEmpty with
    | false => rfl
    | true =>
      refine List.filter_eq_self.2 fun x hx => ?_
      rw [hvalues x hx]
      rfl
  unfold encode ofWords
  rw [hkept, List.flatMap_map]
  simp only [hnone, Bool.and_false, Bool.false_eq_true, if_false]
  rfl

/-- **There and back.** A block of whole elements of which no real is a NaN is
decoded, the values are encoded whether blanks are skipped or not, and decoding
what comes out gives the values once more. What comes out is the block itself
unless an integer of eight bytes has more bits than a double. -/
theorem encode_decode (order : ByteOrder) (hlength : bytes.length % format.size = 0)
    (hnan : ∀ w ∈ words bytes format order, ¬format.IsNaN w) (skipEmpty : Bool) :
    ∃ values block, decode bytes format order = .ok values ∧ encode values format order skipEmpty = .ok block ∧
      decode block format order = .ok values ∧
      ((format = .i8 ∨ format = .u8 → ∀ w ∈ words bytes format order, (format.integer w).natAbs ≤ 2 ^ 53) →
        block = bytes) := by
  have hlt {w : Nat} (hw : w ∈ words bytes format order) : w < format.modulus := lt_modulus_of_mem_words hlength hw
  have hvalues : ∀ x ∈ (words bytes format order).map format.readWord, x.isNaN = false :=
    List.forall_mem_map.2 fun w hw => NumberFormat.isNaN_readWord (hlt hw) (hnan w hw)
  refine ⟨_, _, decode_eq_ok hlength, encode_eq_ok hvalues skipEmpty, ?_, ?_⟩
  · rw [decode_eq_ok (by rw [length_ofWords, Nat.mul_mod_left]),
      words_ofWords (List.forall_mem_map.2 fun x _ => NumberFormat.writeWord_lt x), List.map_map, List.map_map]
    congr 1
    apply List.map_congr_left
    intro w hw
    exact NumberFormat.readWord_writeWord_readWord (hlt hw) (hnan w hw)
  · intro hexact
    have hback : ∀ w ∈ words bytes format order, format.writeWord (format.readWord w) = w := fun w hw =>
      NumberFormat.writeWord_readWord (hlt hw) (hnan w hw) fun h => hexact h w hw
    rw [List.map_map]
    exact (congrArg (ofWords · format order) ((List.map_congr_left hback).trans (List.map_id' _))).trans
      (ofWords_words hlength)

/-- The largest integer of eight bytes is read as the power of two past it and
comes back from there; the least real of four bytes comes back as it was. -/
theorem encode_decode_extremes :
    let largest : List UInt8 := [127, 255, 255, 255, 255, 255, 255, 255]
    let least : List UInt8 := [128, 0, 0, 1]
    largest.length % NumberFormat.i8.size = 0 ∧ (∀ w ∈ words largest .i8 .big, ¬NumberFormat.i8.IsNaN w) ∧
      least.length % NumberFormat.r4.size = 0 ∧ (∀ w ∈ words least .r4 .big, ¬NumberFormat.r4.IsNaN w) ∧
      (∃ values block, decode largest .i8 .big = .ok values ∧ encode values .i8 .big true = .ok block ∧
        decode block .i8 .big = .ok values) ∧
      ∃ values, decode least .r4 .big = .ok values ∧ encode values .r4 .big false = .ok least := by
  intro largest least
  have hlargest : ∀ w ∈ words largest .i8 .big, ¬NumberFormat.i8.IsNaN w := fun _ _ h => h
  have hleast : ∀ w ∈ words least .r4 .big, ¬NumberFormat.r4.IsNaN w := by
    have hwords : words least .r4 .big = [2147483649] := by decide
    rw [hwords]
    intro w hw
    obtain rfl := List.mem_singleton.1 hw
    show Interchange.single.read 2147483649 ≠ .nan
    decide
  obtain ⟨values, block, hdecode, hencode, hagain, -⟩ := encode_decode .big (by decide) hlargest true
  obtain ⟨values', block', hdecode', hencode', -, hback⟩ := encode_decode .big (by decide) hleast false
  have hsame : block' = least := hback fun h => by cases h <;> contradiction
  exact ⟨by decide, hlargest, by decide, hleast, ⟨values, block, hdecode, hencode, hagain⟩, values', hdecode',
    hsame ▸ hencode'⟩

end Block
end VectorEngine
