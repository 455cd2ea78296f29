/-
The spectrum a half spectrum is completed to.

Every bin is written at its own position. Those strictly between bin 0 and the
middle are then written once more, mirrored, as far below the end as they are above
bin 0. The padded length leaves room for both: no write goes past it, and no mirror
image falls on a bin (`full_hermitian`).
-/
import VectorEngine.Proofs.Signal.Transform
import VectorEngine.Signal.Spectrum

namespace VectorEngine

open VectorEngine.Fourier

namespace HalfSpectrum

variable {α : Type} {h : HalfSpectrum α}

/-! ## What is written -/

/-- There is room for all bins up to the middle. -/
theorem length_bins_le (h : HalfSpectrum α) : h.bins.length ≤ 2 ^ h.level / 2 + 1 := by
  have hroom : 2 * (h.bins.length - 1) ≤ 2 ^ h.level := levelFor_le_iff.1 le_rfl
  omega

/-- What is written: each bin, and the mirror images of those strictly between bin 0
and the middle. -/
theorem mem_writes {w : Write α} : w ∈ h.writes ↔ (∃ k x, h.bins[k]? = some x ∧ w = .bin k x) ∨
    ∃ k, 0 < k ∧ k < 2 ^ h.level / 2 ∧ w = .mirror (2 ^ h.level - k) k := by
  rw [writes, List.mem_append, List.mem_map, List.mem_map]
  refine or_congr ⟨?_, ?_⟩ (exists_congr fun k => ?_)
  · rintro ⟨⟨x, k⟩, hk, rfl⟩
    exact ⟨k, x, List.mem_zipIdx_iff_getElem?.1 hk, rfl⟩
  · rintro ⟨k, x, hx, rfl⟩
    exact ⟨(x, k), List.mem_zipIdx_iff_getElem?.2 hx, rfl⟩
  · rw [List.mem_range'_1, Nat.pow_eq]
    constructor
    · rintro ⟨hk, rfl⟩
      exact ⟨by omega, by omega, rfl⟩
    · rintro ⟨hk, hmiddle, rfl⟩
      exact ⟨by omega, rfl⟩

/-! ## Writes one after the other -/

section Circular

variable [Circular α] {spectrum : Array (Phasor α)} {i : ℕ}

@[simp] theorem Write.size_apply (spectrum : Array (Phasor α)) (w : Write α) :
    (w.apply spectrum).size = spectrum.size := Array.size_setIfInBounds

theorem Write.getD_apply_of_eq (w : Write α) (hw : w.target = i) (hi : i < spectrum.size) :
    (w.apply spectrum).getD i .zero = w.value spectrum := by
  simp [Write.apply, Array.getD_eq_getD_getElem?, hw, hi]

theorem Write.getD_apply_of_ne (w : Write α) (hw : w.target ≠ i) :
    (w.apply spectrum).getD i .zero = spectrum.getD i .zero := by
  simp [Write.apply, Array.getD_eq_getD_getElem?, hw]

@[simp] theorem size_foldl_apply (ws : List (Write α)) (spectrum : Array (Phasor α)) :
    (ws.foldl Write.apply spectrum).size = spectrum.size := by
  induction ws generalizing spectrum with
  | nil => rfl
  | cons w ws ih => rw [List.foldl_cons, ih, Write.size_apply]

/-- The bins written from `start` on are held there. -/
theorem getD_foldl_bin (bins : List (Phasor α)) (start : ℕ) (hi : i < spectrum.size) :
    (((bins.zipIdx start).map fun b => Write.bin b.2 b.1).foldl Write.apply spectrum).getD i .zero =
      if start ≤ i ∧ i < start + bins.length then bins.getD (i - start) .zero else spectrum.getD i .zero := by
  induction bins generalizing start spectrum with
  | nil => simp
  | cons c bins ih =>
    rw [List.zipIdx_cons, List.map_cons, List.foldl_cons, ih (start + 1) (by simpa using hi)]
    by_cases hstart : start = i
    · rw [if_neg (by omega), Write.getD_apply_of_eq (.bin start c) hstart hi]
      simp [Write.value, hstart]
    rw [Write.getD_apply_of_ne (.bin start c) hstart, List.length_cons]
    by_cases hin : start + 1 ≤ i ∧ i < start + 1 + bins.length
    · have hnext : i - start = i - (start + 1) + 1 := by omega
      rw [if_pos hin, if_pos (by omega), hnext, List.getD_cons_succ]
    · rw [if_neg hin, if_neg (by omega)]

/-- The mirror images of the bins from 1 to `m` are held at the last `m`
positions. -/
theorem getD_foldl_mirror {m : ℕ} (hm : 2 * m < spectrum.size) (hi : i < spectrum.size) :
    (((List.range' 1 m).map fun k => Write.mirror (spectrum.size - k) k).foldl Write.apply spectrum).getD i .zero =
      if spectrum.size - m ≤ i then (spectrum.getD (spectrum.size - i) .zero).conj else spectrum.getD i .zero := by
  induction m generalizing i with
  | zero => simp [Nat.not_le.2 hi]
  | succ m ih =>
    rw [List.range'_1_concat, List.map_append, List.foldl_append, List.map_singleton, List.foldl_cons, List.foldl_nil]
    by_cases hlast : spectrum.size - (1 + m) = i
    · -- The bin mirrored next still holds what it held at first.
      rw [Write.getD_apply_of_eq (.mirror _ _) hlast (by simpa using hi), Write.value, ih (by omega) (by omega),
        if_neg (by omega), if_pos (by omega), ← hlast, Nat.sub_sub_self (by omega)]
    · rw [Write.getD_apply_of_ne (.mirror _ _) hlast, ih (by omega) hi]
      exact if_congr (by omega) rfl rfl

/-! ## The full spectrum -/

theorem length_full (h : HalfSpectrum α) : h.full.length = 2 ^ h.level := by simp [full]

/-- Up to the middle the bins are as they were, and past it they are the mirror
images of those as far below the end. -/
theorem getD_full (h : HalfSpectrum α) (hi : i < 2 ^ h.level) : h.full.getD i .zero =
    if i ≤ 2 ^ h.level / 2 then h.bins.getD i .zero else (h.bins.getD (2 ^ h.level - i) .zero).conj := by
  have hroom := length_bins_le h
  have hplaced {j : ℕ} (hj : j < 2 ^ h.level) : (((h.bins.zipIdx).map fun b => Write.bin b.2 b.1).foldl Write.apply
      (Array.replicate (2 ^ h.level) .zero)).getD j .zero = h.bins.getD j .zero := by
    rw [getD_foldl_bin h.bins 0 (by simpa using hj)]
    by_cases hknown : j < h.bins.length
    · simp [hknown]
    · simp [hknown, Array.getD_eq_getD_getElem?, hj]
  generalize hspectrum : ((h.bins.zipIdx).map fun b => Write.bin b.2 b.1).foldl Write.apply
    (Array.replicate (2 ^ h.level) Phasor.zero) = spectrum at hplaced
  have hsize : spectrum.size = 2 ^ h.level := by simp [← hspectrum]
  have hfull : h.full = (((List.range' 1 (spectrum.size / 2 - 1)).map
      fun k => Write.mirror (spectrum.size - k) k).foldl Write.apply spectrum).toList := by
    rw [full, writes, List.foldl_append, hsize, ← hspectrum]
    rfl
  have heven := two_pow_one_or_even h.level
  rw [hfull, List.getD_eq_getElem?_getD, Array.getElem?_toList, ← Array.getD_eq_getD_getElem?,
    getD_foldl_mirror (by omega) (by omega)]
  by_cases hlow : i ≤ 2 ^ h.level / 2
  · rw [if_pos hlow, if_neg (by omega), hplaced hi]
  · rw [if_neg hlow, if_pos (by omega), hsize, hplaced (by omega)]

theorem getElem?_full (h : HalfSpectrum α) (hi : i < 2 ^ h.level) : h.full[i]? = some (h.full.getD i .zero) := by
  have hin : i < h.full.length := by rwa [length_full]
  rw [List.getElem?_eq_getElem hin, List.getElem_eq_getD]

/-- The full spectrum has the bins at their positions, zeros from there to the middle,
and above the middle the mirror images. Its length is the least power of two with
room for that, and all that is written stays inside and apart. -/
structure Completed (h : HalfSpectrum α) : Prop where
  length_eq : h.full.length = 2 ^ h.level
  length_eq_one : h.bins.length = 1 → h.full.length = 1
  length_isLeast : h.bins.length ≠ 1 →
    IsLeast {size | 2 * (h.bins.length - 1) ≤ size ∧ ∃ m, size = 2 ^ m} h.full.length
  inside : ∀ w ∈ h.writes, w.target < h.full.length
  apart : ∀ target source, .mirror target source ∈ h.writes → h.bins.length ≤ target
  bin : ∀ (k : ℕ) x, h.bins[k]? = some x → h.full[k]? = some x
  gap : ∀ k, h.bins.length ≤ k → k ≤ h.full.length / 2 → h.full[k]? = some .zero
  mirror : ∀ k, 0 < k → k < h.full.length / 2 →
    ∃ x, h.full[k]? = some x ∧ h.full[h.full.length - k]? = some x.conj

theorem completed (hne : h.bins ≠ []) : h.Completed := by
  have hroom := length_bins_le h
  have hpos : 0 < 2 ^ h.level := Nat.two_pow_pos _
  have hsome : 0 < h.bins.length := List.length_pos_iff.2 hne
  constructor
  case length_eq => exact length_full h
  case length_eq_one => exact fun hone => by rw [length_full, level, hone]; rfl
  case length_isLeast => exact fun _ => length_full h ▸ paddedLength_isLeast _
  case inside =>
    intro w hw
    rw [length_full]
    rcases mem_writes.1 hw with ⟨k, x, hx, rfl⟩ | ⟨k, hk, hmiddle, rfl⟩
    · have hknown := (List.getElem?_eq_some_iff.1 hx).1
      simp only [Write.target]
      omega
    · simp only [Write.target]
      omega
  case apart =>
    intro target source hw
    rcases mem_writes.1 hw with ⟨k, x, -, hbin⟩ | ⟨k, hk, hmiddle, hmirror⟩
    · cases hbin
    · cases hmirror
      omega
  case bin =>
    intro k x hx
    have hknown := (List.getElem?_eq_some_iff.1 hx).1
    rw [getElem?_full h (by omega), getD_full h (by omega), if_pos (by omega), List.getD_eq_getElem?_getD, hx]
    rfl
  case gap =>
    intro k hlow hhigh
    rw [length_full] at hhigh
    rw [getElem?_full h (by omega), getD_full h (by omega), if_pos hhigh, List.getD_eq_default _ _ hlow]
  case mirror =>
    intro k hk hmiddle
    rw [length_full] at hmiddle ⊢
    refine ⟨h.bins.getD k .zero, ?_, ?_⟩
    · rw [getElem?_full h (by omega), getD_full h (by omega), if_pos (by omega)]
    · rw [getElem?_full h (by omega), getD_full h (by omega), if_neg (by omega), Nat.sub_sub_self (by omega)]

/-- The imaginary part given for an entry, zero where none are. -/
def imagAt (imag? : Option (List α)) (i : ℕ) : α := (imag?.bind (·[i]?)).getD Element.zero

/-- Every entry becomes a bin, after a bin 0 that is zero when it is not given. -/
theorem ofParts_ok (includesConstant : Bool) {real : List α} {imag? : Option (List α)} (hreal : real ≠ [])
    (himag : ∀ imag ∈ imag?, imag.length = real.length) :
    let lead := if includesConstant then 0 else 1
    ∃ h, ofParts includesConstant real imag? = .ok h ∧ h.bins.length = real.length + lead ∧
      (∀ i (hi : i < real.length), h.bins[i + lead]? = some ⟨known real[i], known (imagAt imag? i)⟩) ∧
      (includesConstant = false → h.bins[0]? = some .zero) := by
  have hlength : (imag?.getD (List.replicate real.length Element.zero)).length = real.length := by
    cases imag? with
    | none => simp
    | some imag => exact himag imag rfl
  have hentry {i : ℕ} (hi : i < real.length) :
      (imag?.getD (List.replicate real.length Element.zero))[i]? = some (imagAt imag? i) := by
    cases imag? with
    | none => simp [imagAt, hi]
    | some imag =>
      have hin : i < imag.length := (himag imag rfl).symm ▸ hi
      simp [imagAt, hin]
  have hsome : real.isEmpty = false := List.isEmpty_eq_false_iff.2 hreal
  rw [ofParts, hsome]
  generalize imag?.getD (List.replicate real.length Element.zero) = imag at hlength hentry
  have hparts {i : ℕ} (hi : i < real.length) :
      (real.zipWith (fun re im => (⟨known re, known im⟩ : Phasor α)) imag)[i]? =
        some ⟨known real[i], known (imagAt imag? i)⟩ := by
    rw [List.getElem?_zipWith, hentry hi, List.getElem?_eq_getElem hi]
  refine ⟨_, by simp only [Bool.false_eq_true, if_false, hlength, ne_eq, not_true_eq_false]; rfl, ?_⟩
  cases includesConstant with
  | false => exact ⟨by simp [hlength], fun i hi => hparts hi, fun _ => rfl⟩
  | true => exact ⟨by simp [hlength], fun i hi => hparts hi, by simp⟩

/-- **A half spectrum is completed without losing a bin.** The entries become bins, a
blank part counting as zero, and the spectrum that is transformed back has the bins at
their positions, zeros from there to the middle, and the mirror images above it. -/
theorem full_hermitian (includesConstant : Bool) {real : List α} {imag? : Option (List α)} (hreal : real ≠ [])
    (himag : ∀ imag ∈ imag?, imag.length = real.length) :
    let lead := if includesConstant then 0 else 1
    ∃ h, ofParts includesConstant real imag? = .ok h ∧ h.bins.length = real.length + lead ∧
      (∀ i (hi : i < real.length), h.full[i + lead]? = some ⟨known real[i], known (imagAt imag? i)⟩) ∧
      (includesConstant = false → h.full[0]? = some .zero) ∧ h.Completed := by
  intro lead
  obtain ⟨h, hh, hlength, hbins, hconstant⟩ := ofParts_ok includesConstant hreal himag
  have hne : h.bins ≠ [] := by
    have := List.length_pos_iff.2 hreal
    exact List.ne_nil_of_length_pos (by omega)
  have hcompleted := completed hne
  exact ⟨h, hh, hlength, fun i hi => hcompleted.bin _ _ (hbins i hi),
    fun hmissing => hcompleted.bin _ _ (hconstant hmissing), hcompleted⟩

end Circular

/-- Four bins, one of them without a known imaginary part: the full spectrum has eight
and a gap in the middle. -/
theorem full_hermitian_gap : ∃ h, ofParts true [1.0, 2.0, 3.0, 4.0] (some [0.0, nan, 1.0, 2.0]) = .ok h ∧
    h.full.length = 8 ∧ h.full[1]? = some ⟨2.0, 0.0⟩ ∧ h.full[4]? = some ⟨0.0, 0.0⟩ ∧
    h.full[6]? = some ⟨3.0, -1.0⟩ := by
  have hreal : ([1.0, 2.0, 3.0, 4.0] : List Float) ≠ [] := by simp
  have himag : ∀ imag ∈ some ([0.0, nan, 1.0, 2.0] : List Float), imag.length = [1.0, 2.0, 3.0, 4.0].length := by simp
  obtain ⟨h, hh, hlength, hbins, -, hcompleted⟩ := full_hermitian true hreal himag
  have hsize : h.full.length = 8 := by
    rw [length_full, level, hlength]
    rfl
  have htwo : h.full[2]? = some ⟨3.0, 1.0⟩ := (hbins 2 (by decide)).trans (by decide +kernel)
  obtain ⟨x, hx, hmirror⟩ := hcompleted.mirror 2 (by decide) (by rw [hsize]; decide)
  obtain rfl : x = ⟨3.0, 1.0⟩ := Option.some.inj (hx.symm.trans htwo)
  rw [hsize] at hmirror
  refine ⟨h, hh, hsize, (hbins 1 (by decide)).trans (by decide +kernel), ?_, hmirror⟩
  have hgap := hcompleted.gap 4 (by rw [hlength]; decide) (by rw [hsize])
  exact hgap

end HalfSpectrum
end VectorEngine
